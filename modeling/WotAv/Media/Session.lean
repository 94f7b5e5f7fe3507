import WotAv.Lib.Throwing
import WotAv.Media.Descriptors
import WotAv.Media.Queue

/-!
# The media session (`src/media/session.ts`)

`NativeSession` is a state machine. Whatever the process reacts to is an
input: a frame that a pipe has delivered, the outcome of a write, a timer, a
call of the public interface, the exit of the worker. A control frame carries
what `decodeControl` and the parsers of `src/media/protocol.ts` make of its
text. What the session has written to a pipe and the worker has not read yet
is part of the session. Diagnostics and the counts that only the result of
`close` reports are left out.
-/

namespace WotAv.Media

open WotAv.Lib WotAv.Binding

inductive MediaSessionState
  | opening
  | playing
  | paused
  | closing
  | closed
  deriving DecidableEq, Repr

inductive ControlKind
  | pause
  | play
  | seek
  deriving DecidableEq, Repr

structure MediaTrack where
  id : Nat
  send : Bool
  payloadType : Nat
  clockRate : Nat
  deriving DecidableEq, Repr

inductive MediaRemote
  | acknowledged
  | alreadyEnded
  | uncertain
  | notCreated
  deriving DecidableEq, Repr

-- Frames

/-- The payload of a command; a range is its start and its end. -/
inductive CommandBody
  | open_
  | close
  | control (kind : ControlKind) (range : Option (Nat × Nat))
  | credit (bytes units : Nat)
  deriving DecidableEq, Repr

structure Command where
  body : CommandBody
  session : Nat
  generation : Nat
  sequence : Nat
  deriving DecidableEq, Repr

structure SecurityFrame where
  session : Nat
  generation : Nat
  sequence : Nat
  deriving DecidableEq, Repr

structure BackchannelFrame where
  session : Nat
  generation : Nat
  sequence : Nat
  samples : Nat
  deriving DecidableEq, Repr

/-- A control message, as its parser reads it: `none` and `false` where the
parser throws. -/
inductive ControlMessage
  | hello (controls : Option (List ControlKind))
  | ready (tracks : Option (List MediaTrack))
  | closed (remote : Option MediaRemote)
  | error (code : String)
  | response (valid : Bool)
  | gap (valid : Bool)
  | diagnostic (valid : Bool)
  | control (command : ControlKind) (paused : Bool)
  | end_ (lastDataSequence : Nat)
  deriving DecidableEq, Repr

structure ControlFrame where
  message : ControlMessage
  session : Nat
  generation : Nat
  sequence : Nat
  deriving DecidableEq, Repr

-- State

structure PendingControl where
  kind : ControlKind
  sequence : Nat
  generation : Nat
  deriving DecidableEq, Repr

structure StagedUnit where
  value : NativeMediaUnit
  bytes : Nat
  deriving DecidableEq, Repr

structure MediaMetadataUnit where
  document : NativeMetadataDocument
  senderReport : Option MediaSenderReport
  deriving DecidableEq, Repr

structure Ending where
  generation : Nat
  watermark : Nat
  complete : Bool
  deriving DecidableEq, Repr

structure Chunk where
  samples : Nat
  ptsNs : Nat
  deriving DecidableEq, Repr

inductive Writing
  | transmitting (samples : Nat)
  | pacing
  deriving DecidableEq, Repr

structure BackchannelWritable where
  buffered : List Chunk := []
  writing : Option Writing := none
  samples : Nat := 0
  sequence : Nat := 0
  ending : Bool := false
  destroyed : Bool := false
  deriving DecidableEq, Repr

def BackchannelWritable.writableLength (w : BackchannelWritable) : Nat :=
  w.buffered.length + if w.writing.isSome then 1 else 0

def BackchannelWritable.destroy (w : BackchannelWritable) : BackchannelWritable :=
  { w with buffered := [], writing := none, destroyed := true }

/-- The await in `beginOpen`. -/
inductive Opening
  | unstarted
  | rejected (error : OnvifError)
  | securing
  | sending
  | settled
  deriving DecidableEq, Repr

structure SessionContext where
  id : Nat
  limits : MediaLimits
  mode : MediaQueueMode
  packetOutput : Bool
  /-- `requireMediaSupport` for the request. -/
  requireMediaSupport : List ControlKind → Except OnvifError Unit
  /-- What `encodeSecurity` and `encodeOpen` throw for the descriptor. -/
  encodeSecurity : Except OnvifError Unit
  encodeOpen : Except OnvifError Unit
  /-- The canonical decoder; whether it returns a finite document. -/
  decodeMetadata : Bytes → Except OnvifError Bool
  validateReplayRange : Nat × Nat → Except OnvifError Unit
  /-- Whether the write finds its stream over the bounded write capacity. -/
  refuses : Nat → Bool

structure NativeSession where
  currentState : MediaSessionState := .opening
  currentGeneration : Nat := 0
  expectedGeneration : Nat := 1
  commandSequence : Nat := 0
  openSequence : Nat := 0
  closeSequence : Nat := 0
  dataSequence : Nat := 0
  opening : Opening := .unstarted
  openSent : Bool := false
  inventory : Option (List ControlKind) := none
  failure : Option OnvifError := none
  receipt : Option MediaRemote := none
  pending : Option PendingControl := none
  abandoned : Option PendingControl := none
  negotiated : List MediaTrack := []
  ending : Option Ending := none
  staged : List StagedUnit := []
  stagedBytes : Nat := 0
  creditBytes : Nat := 0
  creditUnits : Nat := 0
  creditWriting : Bool := false
  outstandingBytes : Nat := 0
  outstandingUnits : Nat := 0
  senderReports : Nat → Option MediaSenderReport := fun _ => none
  packetQueue : BoundedMediaQueue NativeMediaUnit Nat
  metadataQueue : BoundedMediaQueue MediaMetadataUnit Nat
  decodedQueue : BoundedMediaQueue MediaDecodedFrame Nat
  backchannel : Option BackchannelWritable := none
  /-- The outcome that `closed` resolves to. -/
  remote : Option MediaRemote := none
  writes : Nat := 0
  commands : List Command := []
  commandsOpen : Bool := true
  secrets : List SecurityFrame := []
  secretsOpen : Bool := true
  audio : List BackchannelFrame := []
  audioOpen : Bool := true

-- Inputs

inductive Read
  | iterate
  | next (slot : Nat)
  | return_ (slot : Nat)

def Read.op {α ρ : Type} : Read → BoundedMediaQueue.Op α ρ
  | .iterate => .asyncIterator
  | .next slot => .next slot
  | .return_ slot => .return_ slot

inductive SessionInput
  | control (frame : ControlFrame)
  | controlEnded
  | data (frame : IpcFrame)
  | dataEnded
  | openSettled (result : Except OnvifError Unit)
  | creditWritten (result : Except OnvifError Unit)
  | writeFailed (sequence : Nat) (error : OnvifError)
  | watchdog (incomplete ending : Bool)
  | openDeadline
  | controlDeadline
  | closeDeadline
  | failed (error : OnvifError)
  | exited (success : Bool)
  | packets (read : Read)
  | metadata (read : Read)
  | frames (read : Read)
  | command (kind : ControlKind) (range : Option (Nat × Nat))
  | close
  | write (chunk : Chunk)
  | transmitted (result : Except OnvifError Unit)
  | paced
  | endWrites
  | destroyWrites

namespace NativeSession

abbrev M := Throwing OnvifError NativeSession

-- Pipes and credits

def send (c : SessionContext) (body : CommandBody) (sequence : Nat) (generation : Option Nat := none)
    (s : NativeSession) : NativeSession :=
  let s' := { s with writes := s.writes + 1 }
  if s.commandsOpen ∧ ¬c.refuses s.writes then
    { s' with commands := s.commands ++ [⟨body, c.id, generation.getD s.currentGeneration, sequence⟩] }
  else s'

def allocateSequence : M Nat := do
  let s ← .get
  if s.commandSequence = 0xffffffff then .throw ⟨.invalidValue, "Native media command sequence exhausted", .notSent⟩
  else
    .modify fun s => { s with commandSequence := s.commandSequence + 1 }
    pure (s.commandSequence + 1)

def stopped (s : NativeSession) : Bool := s.currentState = .closing || s.currentState = .closed

def credit (bytes : Nat) (s : NativeSession) : NativeSession :=
  if s.stopped then s
  else { s with creditBytes := s.creditBytes + bytes, creditUnits := s.creditUnits + 1 }

def releases (before after : BoundedMediaQueue α Nat) : List Nat :=
  (after.log.drop before.log.length).filterMap fun | .released _ bytes => some bytes | _ => none

def credits (bytes : List Nat) (s : NativeSession) : NativeSession := bytes.foldl (fun s b => s.credit b) s

def setPackets (q : BoundedMediaQueue NativeMediaUnit Nat) (s : NativeSession) : NativeSession :=
  { s with packetQueue := q }.credits (releases s.packetQueue q)

def setMetadata (q : BoundedMediaQueue MediaMetadataUnit Nat) (s : NativeSession) : NativeSession :=
  { s with metadataQueue := q }.credits (releases s.metadataQueue q)

def setDecoded (q : BoundedMediaQueue MediaDecodedFrame Nat) (s : NativeSession) : NativeSession :=
  { s with decodedQueue := q }.credits (releases s.decodedQueue q)

def onQueues (packets : BoundedMediaQueue NativeMediaUnit Nat → BoundedMediaQueue NativeMediaUnit Nat)
    (metadata : BoundedMediaQueue MediaMetadataUnit Nat → BoundedMediaQueue MediaMetadataUnit Nat)
    (decoded : BoundedMediaQueue MediaDecodedFrame Nat → BoundedMediaQueue MediaDecodedFrame Nat)
    (s : NativeSession) : NativeSession :=
  let s := s.setPackets (packets s.packetQueue)
  let s := s.setMetadata (metadata s.metadataQueue)
  s.setDecoded (decoded s.decodedQueue)

def flushCredits (c : SessionContext) : M Unit := do
  let s ← .get
  if s.creditUnits = 0 ∨ s.creditWriting ∨ s.stopped then pure ()
  else if s.creditBytes > s.outstandingBytes ∨ s.creditUnits > s.outstandingUnits then
    .throw ⟨.invalidValue, "Native media credit was released more than once", .notSent⟩
  else if s.creditBytes > 0xffffffff ∨ s.creditUnits > 0xffffffff then
    .throw ⟨.transportError, "Native media credit accounting failed", .unknown⟩
  else
    .modify fun s => { s with
      outstandingBytes := s.outstandingBytes - s.creditBytes
      outstandingUnits := s.outstandingUnits - s.creditUnits
      creditBytes := 0, creditUnits := 0, creditWriting := true }
    let sequence ← allocateSequence
    .modify (send c (.credit s.creditBytes s.creditUnits) sequence)

-- Closing

def finishReaders (s : NativeSession) : NativeSession :=
  let s := s.credits (s.staged.map (·.bytes))
  let s := { s with staged := [], stagedBytes := 0 }.onQueues (·.finish s.failure) (·.finish s.failure) (·.finish s.failure)
  { s with backchannel := s.backchannel.map BackchannelWritable.destroy, creditBytes := 0, creditUnits := 0 }

/-- What `beginClose` leaves behind: the END under way and the pending control. -/
def halted (s : NativeSession) : NativeSession :=
  { s with
    currentState := .closing, ending := none
    abandoned := if s.pending.isSome then s.pending else s.abandoned, pending := none }

def beginClose (c : SessionContext) (s : NativeSession) : NativeSession :=
  if s.stopped then s
  else
    let acknowledged := s.openSent && s.receipt.isNone
    let s := { s.halted.finishReaders with secretsOpen := false, audioOpen := false }
    if acknowledged then
      match allocateSequence s with
      | (.ok sequence, s) => { s with closeSequence := sequence }.send c .close sequence
      | (.error _, s) => s
    else { s with commandsOpen := false }

def fail (c : SessionContext) (error : OnvifError) (s : NativeSession) : NativeSession :=
  if s.currentState = .closed then s
  else { s with failure := some (s.failure.getD error) }.beginClose c

/-- What `listen` does with what a handler throws. -/
def caught (c : SessionContext) (m : M Unit) (s : NativeSession) : NativeSession :=
  match m s with
  | (.ok _, s) => s
  | (.error e, s) => s.fail c e

-- Data

def deliverTo (publish : NativeSession → Option OnvifError × NativeSession) : M Unit := do
  let s ← .get
  .modify fun s => (publish s).2
  match (publish s).1 with
  | none => pure ()
  | some e => .throw e

def publishPacket (item : StagedUnit) (s : NativeSession) : Option OnvifError × NativeSession :=
  let (q, thrown) := s.packetQueue.publish item.value item.bytes item.bytes
  (thrown, s.setPackets q)

def publishMetadata (item : StagedUnit) (document : NativeMetadataDocument) (s : NativeSession) :
    Option OnvifError × NativeSession :=
  let senderReport := (s.senderReports document.track).filter fun report =>
    report.ssrc = document.ssrc && report.generation = document.generation
  let (q, thrown) := s.metadataQueue.publish ⟨document, senderReport⟩ item.bytes item.bytes
  (thrown, s.setMetadata q)

def publishDecoded (item : StagedUnit) (frame : MediaDecodedFrame) (s : NativeSession) :
    Option OnvifError × NativeSession :=
  let (q, thrown) := s.decodedQueue.publish frame item.bytes item.bytes
  (thrown, s.setDecoded q)

def agrees (track : MediaTrack) : NativeMediaUnit → Bool
  | .rtp packet => !track.send && packet.payloadType = track.payloadType
  | .senderReport report => !track.send && report.clockRate = track.clockRate
  | _ => !track.send

def deliverPacket (c : SessionContext) (item : StagedUnit) : M Unit :=
  if c.packetOutput then deliverTo (publishPacket item) else .modify (credit item.bytes)

def deliverDocument (c : SessionContext) (item : StagedUnit) (document : NativeMetadataDocument) : M Unit :=
  match c.decodeMetadata document.xml with
  | .error e =>
    if e.code = .invalidXml ∨ e.code = .invalidValue ∨ e.code = .xmlLimit then .modify (credit item.bytes)
    else .throw e
  | .ok false =>
    .throw ⟨.unsupportedCapability, "Canonical metadata decoder did not return a finite document", .notSent⟩
  | .ok true => deliverTo (publishMetadata item document)

def deliver (c : SessionContext) (item : StagedUnit) : M Unit := do
  let s ← .get
  if (s.negotiated.find? (·.id = item.value.unit.track)).all fun track => !agrees track item.value then
    .throw ⟨.invalidValue, "Native data disagrees with its negotiated track", .notSent⟩
  else match item.value with
    | .metadata document => deliverDocument c item document
    | .decoded frame => deliverTo (publishDecoded item frame)
    | .senderReport report => do
      .modify fun s => { s with senderReports := Function.update s.senderReports report.track (some report) }
      deliverPacket c item
    | .rtp _ => deliverPacket c item

def finishGeneration : M Unit := do
  let s ← .get
  match s.ending with
  | none => pure ()
  | some ending =>
    if ending.generation ≠ s.currentGeneration ∨ s.pending.isSome ∨ s.currentState = .opening then pure ()
    else if s.dataSequence > ending.watermark then
      .throw ⟨.invalidValue, "Native data exceeded its END watermark", .notSent⟩
    else if s.dataSequence ≠ ending.watermark ∨ ending.complete then pure ()
    else .modify fun s =>
      { s with ending := some { ending with complete := true } }.onQueues (·.end_) (·.end_) (·.end_)

def flushStaged (c : SessionContext) : M Unit := do
  let s ← .get
  .modify fun s => { s with staged := [], stagedBytes := 0 }
  s.staged.forM (deliver c)
  finishGeneration

def crowded (c : SessionContext) (bytes : Nat) (s : NativeSession) : Bool :=
  s.staged.length ≥ c.limits.queueUnits || s.stagedBytes + bytes > c.limits.queueBytes

/-- The `while` loop of `data`, over what is staged. Whether there is room. -/
def makeRoom (c : SessionContext) (bytes : Nat) : List StagedUnit → M Bool
  | [], s =>
    if ¬s.crowded c bytes then (.ok true, s)
    else if c.mode = .recorded then
      (.error ⟨.invalidValue, "Unacknowledged media generation exceeded its bounded queue", .notSent⟩, s)
    else (.ok false, s)
  | dropped :: staged, s =>
    if ¬s.crowded c bytes then (.ok true, s)
    else if c.mode = .recorded then
      (.error ⟨.invalidValue, "Unacknowledged media generation exceeded its bounded queue", .notSent⟩, s)
    else makeRoom c bytes staged ({ s with staged, stagedBytes := s.stagedBytes - dropped.bytes }.credit dropped.bytes)

/-- What `data` does with an accepted unit. -/
def accept (c : SessionContext) (generation : Nat) (item : StagedUnit) : M Unit := do
  let s ← .get
  if generation < s.currentGeneration ∨ (s.pending.isSome ∧ generation = s.currentGeneration) then do
    .modify (credit item.bytes)
    finishGeneration
  else if s.currentState = .opening ∨ generation ≠ s.currentGeneration then do
    if ← makeRoom c item.bytes s.staged then do
      .modify fun s => { s with staged := s.staged ++ [item], stagedBytes := s.stagedBytes + item.bytes }
      finishGeneration
    else .modify (credit item.bytes)
  else do
    deliver c item
    finishGeneration

def dataMismatch (c : SessionContext) (frame : IpcFrame) (s : NativeSession) : Bool :=
  !s.openSent || frame.session ≠ c.id || frame.generation = 0 || frame.generation > s.expectedGeneration ||
    frame.sequence ≤ s.dataSequence

def beyondEnd (frame : IpcFrame) (s : NativeSession) : Bool :=
  s.ending.any fun ending => ending.generation = frame.generation && frame.sequence > ending.watermark

def data (c : SessionContext) (frame : IpcFrame) : M Unit := do
  let s ← .get
  if s.stopped then pure ()
  else if s.dataMismatch c frame then
    .throw ⟨.invalidValue, "Native data session, generation or sequence mismatch", .notSent⟩
  else if s.beyondEnd frame then .throw ⟨.invalidValue, "Native data exceeded its END watermark", .notSent⟩
  else do
    .modify fun s => { s with dataSequence := frame.sequence }
    let value ← .lift (decodeMediaData frame c.limits)
    let bytes := frame.payload.length + 24
    .modify fun s => { s with
      outstandingBytes := s.outstandingBytes + bytes, outstandingUnits := s.outstandingUnits + 1 }
    let s ← .get
    if s.outstandingBytes > c.limits.queueBytes ∨ s.outstandingUnits > c.limits.queueUnits then
      .throw ⟨.invalidValue, "Native media exceeded its outstanding IPC credits", .notSent⟩
    else accept c frame.generation ⟨value, bytes⟩

-- Control frames

/-- The HELLO branch; `beginOpen` runs up to its first await. -/
def hello (c : SessionContext) (frame : ControlFrame) (controls : Option (List ControlKind)) : M Unit := do
  let s ← .get
  if s.inventory.isSome ∨ frame.session ≠ 0 ∨ frame.generation ≠ 0 ∨ frame.sequence ≠ 0 ∨ s.openSent then
    .throw ⟨.invalidValue, "Invalid or duplicate native media HELLO", .notSent⟩
  else match controls with
    | none => .throw ⟨.unsupportedCapability, "Worker does not implement the scoped native media v2 contract", .notSent⟩
    | some controls =>
      .modify fun s => { s with inventory := some controls }
      if s.currentState ≠ .opening then pure ()
      else match c.requireMediaSupport controls, c.encodeSecurity with
        | .error e, _ | .ok (), .error e => .modify fun s => { s with opening := .rejected e }
        | .ok (), .ok () => .modify fun s =>
          { s with
            opening := .securing, writes := s.writes + 1
            secrets := if s.secretsOpen ∧ ¬c.refuses s.writes then s.secrets ++ [⟨c.id, 0, 1⟩] else s.secrets }

def sendOpen (c : SessionContext) : M Unit := do
  .modify fun s => { s with secretsOpen := false }
  let s ← .get
  if s.currentState ≠ .opening then .throw ⟨.transportError, "Media operation was aborted", .notSent⟩
  else do
    .lift c.encodeOpen
    let sequence ← allocateSequence
    .modify fun s => { s with openSequence := sequence, openSent := true, opening := .sending }.send c .open_ sequence (some 0)

/-- The promise that `beginOpen` awaits has settled; a failure is that of `beginOpen`. -/
def continueOpen (c : SessionContext) (result : Except OnvifError Unit) (s : NativeSession) : NativeSession :=
  match s.opening, result with
  | .rejected e, _ => { s with opening := .settled }.fail c e
  | .securing, .ok () => caught c (sendOpen c) { s with opening := .settled }
  | .securing, .error e | .sending, .error e => { s with opening := .settled }.fail c e
  | .sending, .ok () => { s with opening := .settled }
  | _, _ => s

/-- A frame of a worker that has not parsed OPEN. -/
def startup (frame : ControlFrame) (s : NativeSession) : Bool :=
  !s.openSent && frame.session = 0 && frame.generation = 0 && frame.sequence = 0

/-- The session, generation and correlation of a frame belong to this owner. -/
def owns (c : SessionContext) (frame : ControlFrame) (s : NativeSession) : Bool :=
  s.startup frame || (frame.session = c.id && frame.generation ≤ s.expectedGeneration && frame.sequence ≤ s.commandSequence)

def isErrorCode (code : String) : Bool :=
  match code.toList with
  | [] => false
  | first :: rest => first.isAlpha && rest.length ≤ 127 &&
    rest.all fun ch => ch.isAlphanum || ch = ':' || ch = '_' || ch = '.' || ch = '-'

def begins (code start : String) : Bool := start.toList.isPrefixOf code.toList

/-- The code of a `MediaNativeError`. -/
def nativeErrorCode (code : String) : OnvifErrorCode :=
  if code = "TlsCertificateRejected" then .invalidSecurity
  else if ["Unsupported", "NoDecoder", "MissingRequiredTrack", "NoTlsBackend"].any (begins code) then .unsupportedCapability
  else if ["Forbidden", "InvalidOrUnauthorizedOpen", "InvalidScopeOrNativeOpen"].any (begins code) then .policyDenied
  else .transportError

def certainty (s : NativeSession) : ExecutionCertainty := if s.openSent then .unknown else .notSent

def nativeError (c : SessionContext) (code : String) : M Unit := do
  if ¬isErrorCode code then .throw ⟨.invalidValue, "Invalid native error code", .notSent⟩
  else .modify fun s => s.fail c ⟨nativeErrorCode code, "Native media rejected the operation", s.certainty⟩

def ready (c : SessionContext) (frame : ControlFrame) (tracks : Option (List MediaTrack)) : M Unit := do
  let s ← .get
  let parsed : Except OnvifError (List MediaTrack) :=
    tracks.elim (.error ⟨.unsupportedCapability, "A required native media track is missing or duplicated", .notSent⟩) .ok
  let correlated := s.openSent ∧ frame.generation = 1 ∧ frame.sequence = s.openSequence
  if s.currentState = .closing ∧ correlated then do
    let _ ← .lift parsed
  else if s.currentState ≠ .opening ∨ ¬correlated then
    .throw ⟨.invalidValue, "Unexpected native READY correlation or generation", .notSent⟩
  else do
    let tracks ← .lift parsed
    let sends := tracks.any (·.id = 4)
    .modify fun s => { s with
      negotiated := tracks, currentGeneration := 1, currentState := .playing
      backchannel := if sends then some {} else s.backchannel
      audioOpen := s.audioOpen && sends }
    flushStaged c

def acknowledges (pending : PendingControl) (frame : ControlFrame) (command : ControlKind) (paused : Bool) : Bool :=
  frame.sequence = pending.sequence && frame.generation = pending.generation && command = pending.kind &&
    paused = (pending.kind = .pause)

def acknowledged (c : SessionContext) (frame : ControlFrame) (command : ControlKind) (paused : Bool) : M Unit := do
  let s ← .get
  match (s.pending <|> if s.currentState = .closing then s.abandoned else none) with
  | none => .throw ⟨.invalidValue, "Native control acknowledgement does not match the pending command", .notSent⟩
  | some pending =>
    if ¬acknowledges pending frame command paused then
      .throw ⟨.invalidValue, "Native control acknowledgement does not match the pending command", .notSent⟩
    else if s.currentState = .closing then .modify fun s => { s with abandoned := none }
    else do
      .modify fun s => { s with
        currentGeneration := frame.generation, currentState := if pending.kind = .pause then .paused else .playing }
      flushStaged c
      .modify fun s => { s with pending := none }
      finishGeneration

def closedFrame (c : SessionContext) (frame : ControlFrame) (remote : Option MediaRemote) : M Unit := do
  let s ← .get
  if s.receipt.isSome ∨ frame.generation < s.currentGeneration ∨ (frame.sequence ≠ 0 ∧ frame.sequence ≠ s.closeSequence) then
    .throw ⟨.invalidValue, "Invalid native CLOSED correlation", .notSent⟩
  else match remote with
    | none => .throw ⟨.invalidValue, "Invalid native CLOSED receipt", .notSent⟩
    | some remote =>
      .modify fun s => { s with receipt := some remote }
      if s.stopped then pure ()
      else .modify fun s =>
        { s with failure := some (s.failure.getD
          ⟨.transportError, "Native media ended before an owned CLOSE request", .unknown⟩) }.beginClose c

def endFrame (frame : ControlFrame) (watermark : Nat) : M Unit := do
  let s ← .get
  if watermark > 0xffffffff ∨ frame.generation = 0 then
    .throw ⟨.invalidValue, "Invalid native END watermark", .notSent⟩
  else if frame.generation < s.currentGeneration ∨ s.stopped ∨
      (s.pending.isSome ∧ frame.generation = s.currentGeneration) then pure ()
  else if s.ending.isSome then .throw ⟨.invalidValue, "Duplicate native END watermark", .notSent⟩
  else do
    .modify fun s => { s with ending := some ⟨frame.generation, watermark, false⟩ }
    finishGeneration

/-- The branches of `control` for a frame that passes the owner check. -/
def owned (c : SessionContext) (frame : ControlFrame) : M Unit :=
  match frame.message with
  | .error code => nativeError c code
  | .ready tracks => ready c frame tracks
  | .control command paused => acknowledged c frame command paused
  | .closed remote => closedFrame c frame remote
  | .end_ watermark => endFrame frame watermark
  | .response valid | .gap valid | .diagnostic valid =>
    if valid then pure () else .throw ⟨.invalidValue, "Invalid native observation", .notSent⟩
  | .hello _ => pure ()

def control (c : SessionContext) (frame : ControlFrame) : M Unit :=
  match frame.message with
  | .hello controls => hello c frame controls
  | _ => do
    let s ← .get
    if ¬s.owns c frame then
      .throw ⟨.invalidValue, "Native control session, generation or correlation does not belong to this owner", .notSent⟩
    else owned c frame

-- Commands

def refusal (kind : ControlKind) (c : SessionContext) (s : NativeSession) : Option OnvifError :=
  if s.currentState ≠ .playing ∧ s.currentState ≠ .paused then
    some ⟨.runtimeClosed, "Media session is not open", .notSent⟩
  else if ¬(s.inventory.getD []).contains kind ∨ (kind = .seek ∧ c.mode ≠ .recorded) then
    some ⟨.unsupportedCapability, "Requested native media control is not supported", .notSent⟩
  else if s.pending.isSome ∨ (kind = .pause ∧ s.currentState = .paused) then
    some ⟨.invalidValue, "Native media control is already pending or the session is already paused", .notSent⟩
  else if s.backchannel.any (·.writableLength > 0) then
    some ⟨.invalidValue, "Drain backchannel writes before a native media control", .notSent⟩
  else none

def resumeQueues : M Unit := do
  deliverTo fun s => (s.packetQueue.resume.2, s.setPackets s.packetQueue.resume.1)
  deliverTo fun s => (s.metadataQueue.resume.2, s.setMetadata s.metadataQueue.resume.1)
  deliverTo fun s => (s.decodedQueue.resume.2, s.setDecoded s.decodedQueue.resume.1)

def reopen (kind : ControlKind) : M Unit :=
  if kind = .pause then pure ()
  else do
    .modify fun s => { s with ending := none }
    resumeQueues

def command (c : SessionContext) (kind : ControlKind) (range : Option (Nat × Nat)) : M Unit := do
  let s ← .get
  match s.refusal kind c with
  | some e => .throw e
  | none =>
    .lift (range.elim (.ok ()) c.validateReplayRange)
    if kind ≠ .pause ∧ s.currentGeneration = 0xffffffff then
      .throw ⟨.invalidValue, "Native media generation exhausted", .notSent⟩
    else do
      let generation := s.currentGeneration + if kind = .pause then 0 else 1
      .modify fun s => { s with senderReports := fun _ => none }
      let sequence ← allocateSequence
      .modify fun s => { s with expectedGeneration := generation, pending := some ⟨kind, sequence, generation⟩ }.onQueues
        (·.discard.1) (·.discard.1) (·.discard.1)
      reopen kind
      .modify (send c (.control kind range) sequence)

-- The backchannel

def canWrite (s : NativeSession) : Bool := s.currentState = .playing && s.pending.isNone

def setBackchannel (w : BackchannelWritable) (s : NativeSession) : NativeSession := { s with backchannel := some w }

/-- `_final`, once everything is written. -/
def finalBackchannel (s : NativeSession) : NativeSession :=
  match s.backchannel with
  | some w => if w.ending ∧ ¬w.destroyed ∧ w.writableLength = 0 then { s with audioOpen := false } else s
  | none => s

/-- `_destroy` ends the input pipe. -/
def destroyBackchannel (s : NativeSession) : NativeSession :=
  match s.backchannel with
  | some w => { s with backchannel := some w.destroy, audioOpen := false }
  | none => s

/-- `backchannelChunk` and `encodeBackchannel` accept the chunk. -/
def validChunk (chunk : Chunk) (samples : Nat) : Bool :=
  0 < chunk.samples && chunk.samples ≤ 800 && chunk.samples % 160 = 0 && chunk.ptsNs = samples * 125000

/-- `_write`. -/
def writeChunk (c : SessionContext) (chunk : Chunk) (w : BackchannelWritable) (s : NativeSession) : NativeSession :=
  if ¬s.canWrite ∨ w.sequence = 0xffffffff ∨ ¬validChunk chunk w.samples then
    destroyBackchannel (s.setBackchannel w)
  else
    let sequence := w.sequence + 1
    let frame : BackchannelFrame := ⟨c.id, s.currentGeneration, sequence, chunk.samples⟩
    let s := s.setBackchannel { w with sequence, writing := some (.transmitting chunk.samples) }
    { s with
      writes := s.writes + 1
      audio := if s.audioOpen ∧ ¬c.refuses s.writes then s.audio ++ [frame] else s.audio }

/-- `write`: the stream has room for eight chunks. -/
def writeBackchannel (c : SessionContext) (chunk : Chunk) (s : NativeSession) : NativeSession :=
  match s.backchannel with
  | none => s
  | some w =>
    if w.destroyed then s
    else if w.writableLength ≥ 8 ∨ w.ending then s.destroyBackchannel
    else if w.writing.isSome then s.setBackchannel { w with buffered := w.buffered ++ [chunk] }
    else s.writeChunk c chunk w

/-- The write to the pipe has settled. -/
def transmitted (result : Except OnvifError Unit) (s : NativeSession) : NativeSession :=
  match s.backchannel with
  | none => s
  | some w => match w.writing, result with
    | some (.transmitting samples), .ok () => s.setBackchannel { w with samples := w.samples + samples, writing := some .pacing }
    | some (.transmitting _), .error _ => s.destroyBackchannel
    | _, _ => s

/-- The pacing timer: the chunk is complete, and the next one is written. -/
def paced (c : SessionContext) (s : NativeSession) : NativeSession :=
  match s.backchannel with
  | none => s
  | some w => match w.writing, w.buffered with
    | some .pacing, [] => (s.setBackchannel { w with writing := none }).finalBackchannel
    | some .pacing, chunk :: buffered => s.writeChunk c chunk { w with writing := none, buffered }
    | _, _ => s

def endBackchannel (s : NativeSession) : NativeSession :=
  match s.backchannel with
  | none => s
  | some w => if w.destroyed then s else (s.setBackchannel { w with ending := true }).finalBackchannel

-- Timers, the exit and the public interface

/-- The watchdog; whether a partial frame and the END watermark are overdue. -/
def watchdog (c : SessionContext) (incomplete ending : Bool) (s : NativeSession) : NativeSession :=
  let s := if incomplete then
    s.fail c ⟨.transportError, "Incomplete native IPC frame exceeded its deadline", .unknown⟩ else s
  let s := if ending ∧ s.ending.any (!·.complete) then
    s.fail c ⟨.transportError, "Native END data watermark did not arrive before its deadline", .unknown⟩ else s
  caught c (flushCredits c) s

def creditWritten (c : SessionContext) (result : Except OnvifError Unit) (s : NativeSession) : NativeSession :=
  let s := { s with creditWriting := false }
  match result with
  | .ok () => s
  | .error e => if s.stopped then s else s.fail c e

def writeFailed (c : SessionContext) (sequence : Nat) (e : OnvifError) (s : NativeSession) : NativeSession :=
  if s.pending.any (·.sequence = sequence) ∨ (sequence = s.closeSequence ∧ s.receipt.isNone) then s.fail c e else s

def closeDeadline (s : NativeSession) : NativeSession :=
  if s.currentState = .closing then
    { s with commandsOpen := false, failure := some (s.failure.getD
      ⟨.outcomeUnknown, "Owned media worker missed its close deadline; terminating only its PID", .unknown⟩) }
  else s

/-- What the exit of the worker tells of the remote session. -/
def outcome (s : NativeSession) : MediaRemote := s.receipt.getD (if s.openSent then .uncertain else .notCreated)

/-- What `exited` leaves behind. -/
def departed (remote : MediaRemote) (s : NativeSession) : NativeSession :=
  { { s with currentState := .closed }.finishReaders with
    remote := some remote, commandsOpen := false, secretsOpen := false, audioOpen := false }

/-- Whether `beginClose` throws: the CLOSE that it owes finds no sequence left. -/
def exhausted (s : NativeSession) : Bool :=
  !s.stopped && s.openSent && s.receipt.isNone && s.commandSequence = 0xffffffff

/-- `exited`; whether the worker has exited successfully. -/
def exited (c : SessionContext) (success : Bool) (s : NativeSession) : NativeSession :=
  if s.currentState = .closed then s
  else
    let failure := if success then s.failure else
      some (s.failure.getD ⟨.transportError, "Native media worker exited unsuccessfully", s.certainty⟩)
    let remote := s.receipt.getD (if s.openSent then .uncertain else .notCreated)
    let failure := if remote = .uncertain then
      some (failure.getD ⟨.outcomeUnknown, "Remote native teardown was not acknowledged", .unknown⟩) else failure
    let s := { s with failure }
    -- What `beginClose` throws ends `exited`; the close timer comes back to it.
    if s.exhausted then s.beginClose c else (s.beginClose c).departed remote

/-- `frames`, which an open session answers, and its readers. -/
def readFrames (read : Read) (s : NativeSession) : NativeSession :=
  match read with
  | .iterate =>
    if (s.currentState = .playing ∨ s.currentState = .paused) ∧ s.negotiated.any fun track => track.id = 1 || track.id = 2 then
      s.setDecoded s.decodedQueue.asyncIterator.1
    else s
  | read => s.setDecoded (s.decodedQueue.apply read.op)

def controlEnded (c : SessionContext) (s : NativeSession) : NativeSession :=
  if s.receipt.isNone ∧ s.currentState ≠ .closed then
    s.fail c ⟨.outcomeUnknown, "Native control pipe ended without a CLOSED receipt", s.certainty⟩
  else s

def dataEnded (c : SessionContext) (s : NativeSession) : NativeSession :=
  if ¬s.stopped ∧ ¬s.ending.any (·.complete) then
    s.fail c ⟨.transportError, "Native data pipe ended before its END watermark", .unknown⟩
  else s

def step (c : SessionContext) (s : NativeSession) : SessionInput → NativeSession
  | .control frame => caught c (control c frame) s
  | .controlEnded => s.controlEnded c
  | .data frame => caught c (data c frame) s
  | .dataEnded => s.dataEnded c
  | .openSettled result => s.continueOpen c result
  | .creditWritten result => s.creditWritten c result
  | .writeFailed sequence error => s.writeFailed c sequence error
  | .watchdog incomplete ending => s.watchdog c incomplete ending
  | .openDeadline => if s.currentState = .opening then
      s.fail c ⟨.transportError, "Native media readiness exceeded its deadline", .unknown⟩ else s
  | .controlDeadline => if s.pending.isSome then
      s.fail c ⟨.outcomeUnknown, "Native control acknowledgement exceeded its deadline", .unknown⟩ else s
  | .closeDeadline => s.closeDeadline
  | .failed error => s.fail c error
  | .exited success => s.exited c success
  | .packets read => s.setPackets (s.packetQueue.apply read.op)
  | .metadata read => s.setMetadata (s.metadataQueue.apply read.op)
  | .frames read => s.readFrames read
  | .command kind range => (command c kind range s).2
  | .close => s.beginClose c
  | .write chunk => s.writeBackchannel c chunk
  | .transmitted result => s.transmitted result
  | .paced => s.paced c
  | .endWrites => s.endBackchannel
  | .destroyWrites => s.destroyBackchannel

end NativeSession

end WotAv.Media
