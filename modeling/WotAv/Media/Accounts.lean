import WotAv.Lib.Json
import WotAv.Lib.Transition
import WotAv.Media.Ipc
import WotAv.Media.Session

/-!
# What the session owes its callers

`ready`, the promises of `play`, `pause` and `seek`, and the result that
`close` waits for, kept beside the session of `Session.lean`. Closing is
entered in `beginClose` and nowhere else, so what a step rejects there is told
by the session before the step and after it. The counts that only the result
reports are left out.
-/

namespace WotAv.Media

open WotAv.Lib WotAv.Binding

inductive Deferred (α : Type)
  | unsettled
  | resolved (value : α)
  | rejected (error : OnvifError)
  deriving DecidableEq, Repr

namespace Deferred

variable {α : Type}

def resolve (value : α) : Deferred α → Deferred α
  | .unsettled => .resolved value
  | d => d

def reject (error : OnvifError) : Deferred α → Deferred α
  | .unsettled => .rejected error
  | d => d

def settled : Deferred α → Bool
  | .unsettled => false
  | _ => true

@[simp] theorem settled_resolve (value : α) (d : Deferred α) : (d.resolve value).settled := by cases d <;> rfl

@[simp] theorem settled_reject (error : OnvifError) (d : Deferred α) : (d.reject error).settled := by cases d <;> rfl

end Deferred

-- The receipt

structure NativeCloseReceipt where
  localCleanup : Bool
  remote : MediaRemote
  teardownStatus : Nat
  dataDiscardedFrames : Nat
  dataQueuePeakBytes : Nat
  backchannelPackets : Nat
  backchannelSamples : Nat
  deriving DecidableEq, Repr

abbrev Members := List (String × Json Lib.FiniteNumber)

def uintMember (key : String) (value : Members) (maximum : Nat := 0xffffffff) : Except OnvifError Nat :=
  match (Json.get key value).bind Json.asNumber |>.bind Lib.FiniteNumber.natural? with
  | some n => if n ≤ maximum then .ok n else invalidValue "Invalid native media descriptor"
  | none => invalidValue "Invalid native media descriptor"

def MediaRemote.ofString : String → Option MediaRemote
  | "acknowledged" => some .acknowledged
  | "already-ended" => some .alreadyEnded
  | "uncertain" => some .uncertain
  | "not-created" => some .notCreated
  | _ => none

/-- Whether the outcome is one that the RTSP status of the teardown allows. -/
def MediaRemote.allows (status : Nat) : MediaRemote → Bool
  | .acknowledged => 200 ≤ status && status < 300
  | .alreadyEnded => status = 454
  | .notCreated => status = 0
  | .uncertain => !(200 ≤ status && status < 300 || status = 454)

def closeOutcome (value : Members) : Option (Bool × MediaRemote) :=
  match Json.get "localCleanup" value, Json.get "awaitWorkerExit" value, Json.get "remote" value with
  | some (.bool localCleanup), some (.bool true), some (.string remote) =>
    (MediaRemote.ofString remote).map fun remote => (localCleanup, remote)
  | _, _, _ => none

def parseClose (value : Members) : Except OnvifError NativeCloseReceipt :=
  match closeOutcome value with
  | none => invalidValue "Invalid native CLOSED receipt"
  | some (localCleanup, remote) => do
    let teardownStatus ← uintMember "teardownStatus" value 599
    if ¬remote.allows teardownStatus then invalidValue "Native CLOSED remote outcome disagrees with its RTSP status"
    else do
      let backchannelPackets ← uintMember "backchannelPackets" value
      let backchannelSamples ← uintMember "backchannelSamples" value
      if backchannelSamples < backchannelPackets ∨ backchannelSamples > backchannelPackets * 160 then
        invalidValue "Native CLOSED backchannel packet and sample counts disagree"
      else do
        let dataDiscardedFrames ← uintMember "dataDiscardedFrames" value
        let dataQueuePeakBytes ← uintMember "dataQueuePeakBytes" value (128 * 1024 * 1024)
        .ok { localCleanup, remote, teardownStatus, dataDiscardedFrames, dataQueuePeakBytes, backchannelPackets,
              backchannelSamples }

-- The accounts

structure MediaWorkerExit where
  observed : Bool
  code : Option Int
  signal : Option String
  spawnFailed : Bool
  deriving DecidableEq, Repr

def MediaWorkerExit.successful (e : MediaWorkerExit) : Bool :=
  e.observed && e.code = some 0 && e.signal.isNone && !e.spawnFailed

structure MediaControlReceipt where
  state : MediaSessionState
  generation : Nat
  deriving DecidableEq, Repr

structure MediaCloseResult where
  remote : MediaRemote
  localCleanup : Bool
  teardownStatus : Nat
  workerExit : MediaWorkerExit
  terminated : Bool
  backchannelPackets : Option Nat
  backchannelSamples : Option Nat
  failure : Option OnvifError
  deriving DecidableEq, Repr

/-- A promise that `command` has returned: rejected at once, or the result of
the control that it has made pending, which its sequence tells from all others. -/
inductive MediaPromise
  | refused (error : OnvifError)
  | deferred (control : PendingControl) (result : Deferred MediaControlReceipt)
  deriving DecidableEq, Repr

def MediaPromise.settle (pending : Option PendingControl)
    (f : Deferred MediaControlReceipt → Deferred MediaControlReceipt) : MediaPromise → MediaPromise
  | .deferred control result => .deferred control (if pending = some control then f result else result)
  | p => p

inductive CloseTimer
  | close
  | kill
  deriving DecidableEq, Repr

structure AccountedSession where
  session : NativeSession
  ready : Deferred Unit := .unsettled
  promises : List MediaPromise := []
  receipt : Option NativeCloseReceipt := none
  terminated : Bool := false
  timer : Option CloseTimer := none
  /-- What `completion` has been resolved to, call by call. -/
  results : List MediaCloseResult := []

-- Inputs

/-- An input of which the session of `Session.lean` is told all. -/
def SessionInput.plain : SessionInput → Bool
  | .control ⟨.closed _, _, _, _⟩ | .closeDeadline | .exited _ => false
  | _ => true

inductive AccountedInput
  | session (input : SessionInput) (plain : input.plain)
  | closedFrame (session generation sequence : Nat) (value : Members)
  /-- The close timer; what `terminate` returns or throws. -/
  | closeDeadline (terminate : Except OnvifError Bool)
  | exited (exit : MediaWorkerExit)
  | killDeadline

def closedControl (session generation sequence : Nat) (value : Members) : ControlFrame :=
  ⟨.closed ((parseClose value).toOption.map (·.remote)), session, generation, sequence⟩

namespace AccountedSession

-- Steps

/-- The step leads to `s`. If it enters closing, it has called `beginClose`,
which rejects `ready` and the pending control and sets the close timer. -/
def enter (s : NativeSession) (a : AccountedSession) : AccountedSession :=
  if ¬a.session.stopped ∧ s.stopped then
    { a with
      session := s
      ready := a.ready.reject (s.failure.getD ⟨.runtimeClosed, "Media closed before READY", .notSent⟩)
      promises := a.promises.map (.settle a.session.pending (.reject
        (s.failure.getD ⟨.outcomeUnknown, "Media closed before control acknowledgement", .unknown⟩)))
      timer := some .close }
  else { a with session := s }

/-- A handler, and what it does last; what it throws is the failure of the session. -/
def caught (c : SessionContext) (m : NativeSession.M Unit) (last : AccountedSession → AccountedSession)
    (a : AccountedSession) : AccountedSession :=
  match m a.session with
  | (.ok _, s) => last { a with session := s }
  | (.error e, s) => { a with session := s }.enter (s.fail c e)

def readyFrame (c : SessionContext) (frame : ControlFrame) (tracks : Option (List MediaTrack)) (a : AccountedSession) :
    AccountedSession :=
  let closing := a.session.currentState = .closing
  a.caught c (NativeSession.ready c frame tracks) fun a => if closing then a else { a with ready := a.ready.resolve () }

def acknowledged (c : SessionContext) (frame : ControlFrame) (command : ControlKind) (paused : Bool)
    (a : AccountedSession) : AccountedSession :=
  let pending := a.session.pending
  a.caught c (NativeSession.acknowledged c frame command paused) fun a =>
    { a with promises := a.promises.map (.settle pending (.resolve ⟨if paused then .paused else .playing, frame.generation⟩)) }

def control (c : SessionContext) (frame : ControlFrame) (a : AccountedSession) : AccountedSession :=
  if a.session.owns c frame then
    match frame.message with
    | .ready tracks => a.readyFrame c frame tracks
    | .control command paused => a.acknowledged c frame command paused
    | _ => a.enter (a.session.step c (.control frame))
  else a.enter (a.session.step c (.control frame))

def closedFrame (c : SessionContext) (session generation sequence : Nat) (value : Members) (a : AccountedSession) :
    AccountedSession :=
  let s := a.session.step c (.control (closedControl session generation sequence value))
  { a.enter s with
    receipt := if a.session.receipt.isNone ∧ s.receipt.isSome then (parseClose value).toOption else a.receipt }

/-- `play`, `pause` and `seek`; where `command` throws, it returns no promise. -/
def command (c : SessionContext) (kind : ControlKind) (range : Option (Nat × Nat)) (a : AccountedSession) :
    AccountedSession :=
  match a.session.refusal kind c with
  | some e => { a with promises := a.promises ++ [.refused e] }
  | none => match range.elim (.ok ()) c.validateReplayRange with
    | .error _ => a
    | .ok () =>
      if kind ≠ .pause ∧ a.session.currentGeneration = 0xffffffff then
        { a with promises := a.promises ++
          [.refused ⟨.invalidValue, "Native media generation exhausted", .notSent⟩] }
      else match NativeSession.command c kind range a.session with
        | (.error _, s) => { a with session := s }
        | (.ok _, s) =>
          { a with session := s, promises := a.promises ++ s.pending.toList.map (.deferred · .unsettled) }

def closeDeadline (terminate : Except OnvifError Bool) (a : AccountedSession) : AccountedSession :=
  let s := a.session.closeDeadline
  match terminate with
  | .ok terminated => { a with session := s, terminated, timer := some .kill }
  | .error e => { a with session := { s with failure := some e }, timer := some .kill }

def exitFailure (exit : MediaWorkerExit) (s : NativeSession) : Option OnvifError :=
  let failure := if exit.successful then s.failure else
    some (s.failure.getD ⟨.transportError, if exit.observed then "Native media worker exited unsuccessfully"
      else "Owned media worker exit remains unconfirmed", s.certainty⟩)
  if s.outcome = .uncertain then
    some (failure.getD ⟨.outcomeUnknown, "Remote native teardown was not acknowledged", .unknown⟩)
  else failure

def closeResult (exit : MediaWorkerExit) (a : AccountedSession) : MediaCloseResult where
  remote := a.session.outcome
  localCleanup := a.receipt.any (·.localCleanup) && exit.observed && exit.code = some 0 && exit.signal.isNone &&
    !a.terminated
  teardownStatus := a.receipt.elim 0 (·.teardownStatus)
  workerExit := exit
  terminated := a.terminated
  backchannelPackets := a.receipt.map (·.backchannelPackets)
  backchannelSamples := a.receipt.map (·.backchannelSamples)
  failure := exitFailure exit a.session

def exited (c : SessionContext) (exit : MediaWorkerExit) (a : AccountedSession) : AccountedSession :=
  if a.session.currentState = .closed then a
  else
    let s := { a.session with failure := exitFailure exit a.session }
    -- What `beginClose` throws ends `exited`; the close timer comes back to it.
    if s.exhausted then a.enter (s.beginClose c)
    else { a.enter ((s.beginClose c).departed a.session.outcome) with
      timer := none, results := a.results ++ [a.closeResult exit] }

def step (c : SessionContext) (a : AccountedSession) : AccountedInput → AccountedSession
  | .session (.control frame) _ => a.control c frame
  | .session (.command kind range) _ => a.command c kind range
  | .session input _ => a.enter (a.session.step c input)
  | .closedFrame session generation sequence value => a.closedFrame c session generation sequence value
  | .closeDeadline terminate => if a.timer = some .close then a.closeDeadline terminate else a
  | .exited exit => a.exited c exit
  | .killDeadline => if a.timer = some .kill then a.exited c ⟨false, none, none, false⟩ else a

def start (packetQueue : BoundedMediaQueue NativeMediaUnit Nat) (metadataQueue : BoundedMediaQueue MediaMetadataUnit Nat)
    (decodedQueue : BoundedMediaQueue MediaDecodedFrame Nat) : AccountedSession :=
  { session := { packetQueue, metadataQueue, decodedQueue } }

def machine (c : SessionContext) : System AccountedSession AccountedInput :=
  .ofFun (fun a => ∃ p m d, a = start p m d) (step c)

end AccountedSession

end WotAv.Media
