import WotAv.Catalog.Conditions
import WotAv.Lib.Transition
import WotAv.Media.Policy

/-!
# The media executor (`src/media/executor.ts`)

`openMedia`, `open` and `close` of `MediaExecutor`, from one wait to the next,
with `abortable` (`src/media/async.ts`), `startMediaSession` and what the
executor sees of a session (`src/media/session.ts`): whether it is ready,
whether its worker has been written an OPEN, and the result of its close.
-/

namespace WotAv.Media

open WotAv.Lib WotAv.Binding
open WotAv.Catalog (JsonValue)

namespace MediaExecutor

-- `async.ts`

abbrev Thrown := Option OnvifError

def mediaError (error : Thrown) (message : String) (execution : ExecutionCertainty) : OnvifError :=
  error.getD ⟨.transportError, message, execution⟩

def mediaAborted (execution : ExecutionCertainty := .notSent) : OnvifError :=
  ⟨.transportError, "Media operation was aborted", execution⟩

/-- The promise of `abortable`: whether its work has been started, and how it
was settled first. -/
structure Wait (α : Type) where
  started : Bool := false
  outcome : Option (Except Thrown α) := none

def abortable {α : Type} (aborted : Bool) : Wait α :=
  { outcome := if aborted then some (.error (some mediaAborted)) else none }

namespace Wait

variable {α : Type}

def abort (wait : Wait α) : Wait α :=
  { wait with outcome := wait.outcome <|> some (.error (some mediaAborted)) }

def start (wait : Wait α) : Option (Wait α) :=
  if wait.started ∨ wait.outcome.isSome then none else some { wait with started := true }

def finish (wait : Wait α) (result : Except Thrown α) : Option (Wait α) :=
  if wait.started then some { wait with outcome := wait.outcome <|> some result } else none

end Wait

-- Sessions

/-- What the executor does not look at is left out, but for the worker's exit. -/
structure MediaCloseResult where
  observed : Bool
  deriving DecidableEq, Repr

/-- A session, with the worker that has been started for it. -/
structure OwnedSession where
  scope : MediaSecurityScope
  material : MediaSecurityMaterial
  openSent : Bool := false
  ready : Option (Except OnvifError Unit) := none
  closing : Bool := false
  closed : Option MediaCloseResult := none
  alive : Bool := true

namespace OwnedSession

def beginClose (s : OwnedSession) (error : OnvifError) : OwnedSession :=
  if s.closing then s else { s with ready := s.ready <|> some (.error error), closing := true }

def close (s : OwnedSession) : OwnedSession := s.beginClose ⟨.runtimeClosed, "Media closed before READY", .notSent⟩

def fail (s : OwnedSession) (error : OnvifError) : OwnedSession :=
  if s.closed.isSome then s else s.beginClose error

def aborted (s : OwnedSession) : OwnedSession := s.fail (mediaAborted (if s.openSent then .unknown else .notSent))

def sendOpen (s : OwnedSession) : Option OwnedSession :=
  if s.closing ∨ s.closed.isSome then none else some { s with openSent := true }

def becomeReady (s : OwnedSession) : Option OwnedSession :=
  if s.closing ∨ s.closed.isSome ∨ s.ready.isSome ∨ !s.openSent then none else some { s with ready := some (.ok ()) }

def exited (s : OwnedSession) (exit : MediaCloseResult) : OwnedSession :=
  if s.closed.isSome then s
  else { s.beginClose ⟨.transportError, "Native media worker exited unsuccessfully",
    if s.openSent then .unknown else .notSent⟩ with closed := some exit }

def exit (s : OwnedSession) : Option OwnedSession :=
  if s.alive then some { s.exited ⟨true⟩ with alive := false } else none

def killTimer (s : OwnedSession) : Option OwnedSession :=
  if s.closing ∧ s.closed.isNone then some (s.exited ⟨false⟩) else none

end OwnedSession

-- Calls

inductive MediaResolverKind
  | media1 | media2 | replay
  deriving DecidableEq, Repr

/-- A request that has been admitted, with what it is associated with.
`encodeResponse` is the check of the operation's response. -/
structure Call where
  thingId : String
  targetRef : String
  principal : String
  trust : MediaTrustPolicy
  transport : MediaTransport
  kind : MediaResolverKind
  encodeResponse : Option (JsonValue → Except OnvifError Unit)

def uriResult (call : Call) (value : JsonValue) : Except OnvifError String := do
  match call.encodeResponse with
  | none => .error ⟨.invalidRegistry, "Media URI resolver has no native response contract", .notSent⟩
  | some encode => encode value
  match value.asRecord with
  | none => .error ⟨.invalidValue, "Native URI resolver did not return its canonical response object", .notSent⟩
  | some members =>
    let uri := if call.kind = .media1 then ((Json.get "MediaUri" members).bind Json.asRecord).bind (Json.get "Uri")
      else Json.get "Uri" members
    match uri.bind Json.asString with
    | some uri =>
      if uri = "" then .error ⟨.invalidValue, "Native URI resolver did not return the declared URI variant", .notSent⟩
      else .ok uri
    | none => .error ⟨.invalidValue, "Native URI resolver did not return the declared URI variant", .notSent⟩

def scopeOf (call : Call) (uri : String) (target : String × Option String) : MediaSecurityScope where
  thingId := call.thingId
  targetRef := call.targetRef
  principal := call.principal
  uri
  origin := target.1
  transport := call.transport
  authentication := call.trust.authentication
  tunnelOrigin := target.2
  tunnelAuthentication := target.2.map fun _ => call.trust.tunnelAuthentication.getD .none

def resolvedScope (node : Node) (call : Call) (value : JsonValue) : Except OnvifError MediaSecurityScope := do
  let uri ← uriResult call value
  let target ← authorizeMediaTarget node uri call.transport call.trust
  return scopeOf call uri target

/-- How a call is rejected: a `MediaOpenError` has the result of the cleanup. -/
structure OpenFailure where
  error : OnvifError
  cleanup : Option MediaCloseResult

/-- The waits of `open`: for the resolver's answer, for its value, for the
security material, for the session to be ready, and, where it is not to be
handed on, for its close. -/
inductive Stage
  | invoking (wait : Wait Unit)
  | valuing (wait : Wait JsonValue)
  | securing (scope : MediaSecurityScope) (wait : Wait MediaSecurityMaterial)
  | starting
  | failing (error : OnvifError)
  | cleaning
  | settled (result : Except OpenFailure Unit)

def Stage.abort : Stage → Stage
  | .invoking wait => .invoking wait.abort
  | .valuing wait => .valuing wait.abort
  | .securing scope wait => .securing scope wait.abort
  | stage => stage

/-- A call of `openMedia`, with its places in `pending` and `sessions`. That
the resolver's request may have been sent is a note. -/
structure Open where
  call : Call
  stage : Stage
  aborted : Bool := false
  timeout : Bool := false
  pending : Bool := true
  inSessions : Bool := false
  session : Option OwnedSession := none
  requested : Bool := false

namespace Open

def isSettled (o : Open) : Bool :=
  match o.stage with
  | .settled _ => true
  | _ => false

/-- What follows the call's `catch`. -/
def reject (o : Open) (thrown : Thrown) (cleanup : Option MediaCloseResult) : Open :=
  let error := if o.timeout then
      ⟨.transportError, "Media open exceeded its total resolver/setup deadline", .unknown⟩
    else mediaError thrown "Media resolver or native execution failed" .notSent
  { o with stage := .settled (.error ⟨error, cleanup⟩) }

def abort (o : Open) : Open :=
  if o.aborted then o
  else { o with aborted := true, stage := o.stage.abort, session := o.session.map OwnedSession.aborted }

def start (o : Open) : Option Open :=
  match o.stage with
  | .invoking wait => wait.start.map fun wait => { o with stage := .invoking wait, requested := true }
  | .valuing wait => wait.start.map fun wait => { o with stage := .valuing wait }
  | .securing scope wait => wait.start.map fun wait => { o with stage := .securing scope wait }
  | _ => none

def invoked (o : Open) (result : Except Thrown Unit) : Option Open :=
  match o.stage with
  | .invoking wait => (wait.finish result).map fun wait => { o with stage := .invoking wait }
  | _ => none

def valued (o : Open) (result : Except Thrown JsonValue) : Option Open :=
  match o.stage with
  | .valuing wait => (wait.finish result).map fun wait => { o with stage := .valuing wait }
  | _ => none

def secured (o : Open) (result : Except Thrown MediaSecurityMaterial) : Option Open :=
  match o.stage with
  | .securing scope wait => (wait.finish result).map fun wait => { o with stage := .securing scope wait }
  | _ => none

section
variable (node : Node) (accepting : Bool)

/-- The answer of the security resolver is there: the worker is started, if
`processFactory` does not throw. -/
def spawn (o : Open) (scope : MediaSecurityScope) (material : MediaSecurityMaterial)
    (spawned : Except Thrown Unit) : Open :=
  match validateMediaSecurity scope material, spawned with
  | .error error, _ => o.reject (some error) none
  | .ok material, spawned =>
    if o.aborted ∨ accepting = false then o.reject (some mediaAborted) none
    else match spawned with
      | .error thrown => o.reject thrown none
      | .ok () => { o with stage := .starting, session := some { scope, material } }

def handOn (o : Open) : Open :=
  if accepting = false ∨ o.aborted then { o with stage := .cleaning, session := o.session.map OwnedSession.close }
  else { o with stage := .settled (.ok ()), inSessions := true }

def resume (o : Open) (spawned : Except Thrown Unit) : Option Open :=
  match o.stage with
  | .invoking wait => wait.outcome.map fun
    | .error thrown => o.reject thrown none
    | .ok () => { o with stage := .valuing (abortable o.aborted) }
  | .valuing wait => wait.outcome.map fun
    | .error thrown => o.reject thrown none
    | .ok value =>
      match resolvedScope node o.call value with
      | .error error => o.reject (some error) none
      | .ok scope => { o with stage := .securing scope (abortable o.aborted) }
  | .securing scope wait => wait.outcome.map fun
    | .error thrown => o.reject thrown none
    | .ok material => o.spawn accepting scope material spawned
  | .starting => (o.session.bind (·.ready)).map fun
    | .error error => { o with stage := .failing error, session := o.session.map OwnedSession.close }
    | .ok () => o.handOn accepting
  | .failing error => (o.session.bind (·.closed)).map fun cleanup => o.reject (some error) (some cleanup)
  | .cleaning => (o.session.bind (·.closed)).map fun cleanup => o.reject (some (mediaAborted .unknown)) (some cleanup)
  | .settled _ => none

end

def onSession (o : Open) (f : OwnedSession → Option OwnedSession) : Option Open :=
  (o.session.bind f).map fun session => { o with session := some session }

end Open

-- The executor

inductive Happening
  | abort | deadline | start
  | invoked (result : Except Thrown Unit)
  | valued (result : Except Thrown JsonValue)
  | secured (result : Except Thrown MediaSecurityMaterial)
  | resume (spawned : Except Thrown Unit)
  | settle
  | sendOpen | ready
  | fail (error : OnvifError)
  | closeSession | exit | killTimer | forget

def Open.step (node : Node) (accepting : Bool) (o : Open) : Happening → Option Open
  | .abort => some o.abort
  | .deadline => if o.isSettled then none else some { o.abort with timeout := true }
  | .start => o.start
  | .invoked result => o.invoked result
  | .valued result => o.valued result
  | .secured result => o.secured result
  | .resume spawned => o.resume node accepting spawned
  | .settle => if o.isSettled then some { o with pending := false } else none
  | .sendOpen => o.onSession OwnedSession.sendOpen
  | .ready => o.onSession OwnedSession.becomeReady
  | .fail error => o.onSession fun s => some (s.fail error)
  | .closeSession => o.onSession fun s => some s.close
  | .exit => o.onSession OwnedSession.exit
  | .killTimer => o.onSession OwnedSession.killTimer
  | .forget => if (o.session.bind (·.closed)).isSome then some { o with inSessions := false } else none

/-- What `close` waits for. -/
structure Closing where
  pending : List Nat
  sessions : List Nat
  resolved : Bool := false

structure Executor where
  opens : List Open := []
  accepting : Bool := true
  closing : Option Closing := none

inductive Event
  | openMedia (call : Call) (refused : Option OnvifError) (callerAborted : Bool)
  | happens (i : Nat) (happening : Happening)
  | close
  | closed

namespace Executor

def size (w : Executor) : Nat := w.opens.countP (·.pending) + w.opens.countP (·.inSessions)

/-- A call that is not admitted is rejected at once: `refused` is what the
checks of the association and of the request throw. -/
def openMedia (w : Executor) (call : Call) (refused : Option OnvifError) (callerAborted : Bool) : Executor :=
  if w.accepting = false ∨ 32 ≤ w.size ∨ refused.isSome then w
  else { w with opens := w.opens ++ [{ call, aborted := callerAborted, stage := .invoking (abortable callerAborted) }] }

def indexes (w : Executor) (p : Open → Bool) : List Nat :=
  (List.range w.opens.length).filter fun i => w.opens[i]?.any p

def closeOpen (o : Open) : Open :=
  let o := if o.pending then o.abort else o
  if o.inSessions then { o with session := o.session.map OwnedSession.close } else o

def close (w : Executor) : Executor :=
  if w.closing.isSome then w
  else
    { opens := w.opens.map closeOpen
      accepting := false
      closing := some { pending := w.indexes (·.pending), sessions := w.indexes (·.inSessions) } }

def drained (w : Executor) (c : Closing) : Bool :=
  c.pending.all (fun i => w.opens[i]?.all Open.isSettled) &&
    c.sessions.all fun i => w.opens[i]?.all fun o => (o.session.bind (·.closed)).isSome

def step (node : Node) (w : Executor) : Event → Option Executor
  | .openMedia call refused callerAborted => some (w.openMedia call refused callerAborted)
  | .happens i happening => do
    let o ← w.opens[i]?
    let o ← o.step node w.accepting happening
    return { w with opens := w.opens.set i o }
  | .close => some w.close
  | .closed => do
    let c ← w.closing
    if w.drained c then some { w with closing := some { c with resolved := true } } else none

def system (node : Node) : System Executor Event := .ofPartial (· = {}) (step node)

end Executor

end MediaExecutor

end WotAv.Media
