import Mathlib.Algebra.GroupWithZero.Nat
import Mathlib.Data.List.Dedup
import WotAv.Lib.Throwing
import WotAv.Lib.Transition

/-!
# A managed event subscription (`src/events/pullpoint.ts`)

`OwnedPullPoint` is one state. Each of its asynchronous functions is cut at
its awaits: `Loop` says where `start`, `run` and `finish` stand, `Delivery`
where `drain` and the handlers of its promise stand, and a step is what runs
from one resumption to the next suspension. A step that only waits for a
promise which is settled already is a `turn`. The clock, the adapter and the
listeners are inputs; the codecs of instants and durations are parameters.

An endpoint reference is known by the generation in which it was received.
The log records what the subscription did and learnt, in order.
-/

namespace WotAv.Events

open WotAv.Lib

-- Failures

inductive Execution
  | notSent
  | rejected
  | unknown
  deriving DecidableEq, Repr

structure QName where
  namespace_ : String
  localName : String
  deriving DecidableEq, Repr

/-- The value of a typed fault detail: `MaxTimeout` if it is a string and
`MaxMessageLimit` if it is a safe integer, of a record. -/
inductive DetailValue
  | record (maxTimeout : Option String) (maxMessageLimit : Option Int)
  | other
  deriving DecidableEq, Repr

structure FaultDetail where
  name : QName
  value : DetailValue
  deriving DecidableEq, Repr

structure SoapFault where
  subcodes : List QName := []
  typedDetails : List FaultDetail := []
  deriving DecidableEq, Repr

inductive Failure
  | onvif (code : String) (execution : Option Execution)
  | soap (fault : SoapFault) (execution : Execution)
  | other (name : String)
  deriving DecidableEq, Repr

def EVENT_NS : String := "http://www.onvif.org/ver10/events/wsdl"

def WSRF_NS : String := "http://docs.oasis-open.org/wsrf/r-2"

def resourceUnknown : Failure → Bool
  | .soap fault _ =>
    fault.subcodes.any (fun name =>
      name.namespace_ = WSRF_NS && ["ResourceUnknown", "ResourceUnknownFault"].contains name.localName) ||
    fault.typedDetails.any fun detail =>
      detail.name.namespace_ = WSRF_NS && detail.name.localName = "ResourceUnknownFault"
  | _ => false

-- Options and results

structure Settings where
  pullTimeoutMs : Nat
  messageLimit : Nat
  minimumPollIntervalMs : Nat
  synchronize : Bool
  renewal : Bool
  renewalMarginMs : Nat
  restartOnExpiry : Bool
  maxRestarts : Nat
  maxQueuedMessages : Nat
  maxQueuedBytes : Nat
  pullTimeout_le : pullTimeoutMs ≤ 2147000000
  messageLimit_le : 0 < messageLimit ∧ messageLimit ≤ 1024
  maxRestarts_le : maxRestarts ≤ 10
  maxQueuedMessages_le : 0 < maxQueuedMessages ∧ maxQueuedMessages ≤ 4096
  maxQueuedBytes_le : 0 < maxQueuedBytes ∧ maxQueuedBytes ≤ 16 * 1024 * 1024

def Settings.least : Settings where
  pullTimeoutMs := 100
  messageLimit := 1
  minimumPollIntervalMs := 1
  synchronize := false
  renewal := false
  renewalMarginMs := 1
  restartOnExpiry := true
  maxRestarts := 1
  maxQueuedMessages := 1
  maxQueuedBytes := 1
  pullTimeout_le := by decide
  messageLimit_le := by decide
  maxRestarts_le := by decide
  maxQueuedMessages_le := by decide
  maxQueuedBytes_le := by decide

structure Context (V X : Type) where
  options : Settings
  renew : Bool
  synchronize : Bool
  errorListener : Bool
  clock : Nat → Option Int
  instantMilliseconds : String → Except Failure Int
  fixedDurationMilliseconds : String → Except Failure Int
  byteLength : V → Nat

inductive Member
  | undefined
  | nil
  | text (value : String)
  | other
  deriving DecidableEq, Repr

/-- What `timing` reads of a result; `none` unless its value is an object. -/
abbrev Timing := Option (Member × Member)

structure CreateResult where
  reference : Except Failure Unit
  timing : Timing

structure PullResult (V X : Type) where
  timing : Timing
  messages : Option (List V)
  nodes : Option (List X)

structure EventLease where
  currentTime : String
  terminationTime : Option String
  expiresAt : Option Int
  deriving DecidableEq, Repr

inductive Continuity
  | initial
  | continuous
  | gap
  deriving DecidableEq, Repr

structure NativeEventRecord (V X : Type) where
  value : V
  xml : X
  receivedAt : Int
  currentTime : String
  terminationTime : Option String
  generation : Nat
  continuity : Continuity

inductive Severity
  | info
  | gap
  | error
  deriving DecidableEq, Repr

structure EventDiagnostic where
  at_ : Int
  code : String
  generation : Nat
  severity : Severity
  deriving DecidableEq, Repr

-- The state

inductive State
  | creating
  | active
  | recovering
  | closing
  | closed
  | failed
  | uncertain
  deriving DecidableEq, Repr

/-- Whether `start` still awaits what it began, or `run` does. -/
inductive Phase
  | starting
  | running
  deriving DecidableEq, Repr

/-- Where `start`, `run` or `finish` is suspended. -/
inductive Loop
  | idle
  | creating (phase : Phase) (started : Int)
  | synchronizing (phase : Phase)
  | created (phase : Phase)
  | running
  | renewing (started : Int)
  | pulling (started : Int)
  | sleeping
  | releasing
  | released
  | finishing (phase : Phase) (error : Option Failure)
  | unsubscribing (phase : Phase) (error : Option Failure)
  | unsubscribed (phase : Phase) (error cleanup : Option Failure)
  | settling (phase : Phase) (errors : List Failure)
  | reporting
  | done
  deriving DecidableEq, Repr

/-- The field `delivery`: undefined, the promise of a `drain` that awaits a
listener, of one that has returned or thrown and whose handler has yet to
run, and of one whose failure has been handled. -/
inductive Delivery (V X : Type)
  | undefined
  | calling (record : NativeEventRecord V X) (bytes : Nat) (called : Bool)
  | returned
  | rejected (error : Failure)
  | failed (error : Failure)

inductive Promised
  | pending
  | resolved
  | rejected
  deriving DecidableEq, Repr

inductive Event (V X : Type)
  | create
  | received (generation : Nat)
  | synchronize (generation : Nat)
  | renew (generation : Nat)
  | pull (generation : Nat)
  | unsubscribe (generation : Nat)
  | absent (generation : Nat)
  | drained (messages : List (V × X))
  | enqueued (record : NativeEventRecord V X)
  | called (record : NativeEventRecord V X)
  | returned
  | dropped (records : List (NativeEventRecord V X))
  | diagnostic (severity : Severity) (code : String)

structure OwnedPullPoint (V X : Type) where
  currentState : State := .creating
  currentLease : Option EventLease := none
  /-- The endpoint is that of the current generation, once there is one. -/
  endpoint : Bool := false
  endpointGone : Bool := false
  cleanupAttempted : Bool := false
  serverOffset : Option Int := none
  currentGeneration : Nat := 0
  restarts : Nat := 0
  limitNegotiations : Nat := 0
  requestTimeout : Nat
  requestLimit : Nat
  stopRequested : Bool := false
  aborted : Bool := false
  queue : List (NativeEventRecord V X × Nat) := []
  queuedBytes : Nat := 0
  delivering : Bool := false
  delivery : Delivery V X := .undefined
  deliveryFailure : Option Failure := none
  failure : List Failure := []
  count : Nat := 0
  continuity : Continuity := .initial
  findings : List EventDiagnostic := []
  remoteStopped : Promised := .pending
  stopPromise : Promised := .pending
  loop : Loop := .idle
  ticks : Nat := 0
  log : List (Event V X) := []

variable {V X : Type}

namespace OwnedPullPoint

abbrev M (V X : Type) := Throwing Failure (OwnedPullPoint V X)

def note (e : Event V X) (s : OwnedPullPoint V X) : OwnedPullPoint V X := { s with log := s.log ++ [e] }

def suspend (loop : Loop) : M V X Unit := .modify fun s => { s with loop }

def now (c : Context V X) : M V X Int := do
  let s ← .get
  .modify fun s => { s with ticks := s.ticks + 1 }
  match c.clock s.ticks with
  | some now => pure now
  | none => .throw (.onvif "InvalidConfiguration" none)

def diagnostic (c : Context V X) (code : String) (severity : Severity) : M V X Unit := do
  .modify fun s => { s with continuity := if severity = .gap then .gap else s.continuity }
  .modify fun s => { s with findings := if s.findings.length = 256 then s.findings.drop 1 else s.findings }
  .modify (note (.diagnostic severity code))
  let at_ ← now c
  .modify fun s => { s with findings := s.findings ++ [⟨at_, code, s.currentGeneration, severity⟩] }

-- The lease

def timingCurrent (c : Context V X) (current : Member) (startedAt : Int) : M V X Unit :=
  match current with
  | .text current => do
    let server ← .lift (c.instantMilliseconds current)
    let s ← .get
    match s.currentLease with
    | some lease =>
      let previous ← .lift (c.instantMilliseconds lease.currentTime)
      if server < previous then
        diagnostic c "ServerClockRegression" .gap
        .modify fun s => { s with serverOffset := some (startedAt - server) }
      else .modify fun s => { s with serverOffset := some (startedAt - server) }
    | none => .modify fun s => { s with serverOffset := some (startedAt - server) }
  | _ => pure ()

def expiresAt (c : Context V X) (termination : Member) (offset : Int) : Except Failure (Option String × Option Int) :=
  match termination with
  | .text value => match c.instantMilliseconds value with
    | .ok instant => .ok (some value, some (instant + offset))
    | .error e => .error e
  | _ => .ok (none, none)

def timing (c : Context V X) (result : Timing) (startedAt : Int) : M V X Unit :=
  match result with
  | none => .throw (.onvif "InvalidValue" (some .unknown))
  | some (current, termination) =>
    if current = .nil ∨ current = .other then .throw (.onvif "InvalidValue" (some .unknown))
    else if termination = .undefined ∨ termination = .other then .throw (.onvif "InvalidValue" (some .unknown))
    else do
      timingCurrent c current startedAt
      let s ← .get
      let known := match current with
        | .text current => some current
        | _ => s.currentLease.map (·.currentTime)
      match s.serverOffset, known with
      | some offset, some currentTime =>
        let _ ← now c
        let (terminationTime, expiresAt) ← .lift (expiresAt c termination offset)
        .modify fun s => { s with currentLease := some { currentTime, terminationTime, expiresAt } }
      | _, _ => .throw (.onvif "InvalidValue" (some .unknown))

-- Creation

/-- `create`, up to its request. -/
def create (c : Context V X) (phase : Phase) : M V X Unit := do
  let started ← now c
  .modify (note .create)
  suspend (.creating phase started)

/-- The end of `create`. -/
def activate (c : Context V X) (phase : Phase) : M V X Unit := do
  .modify fun s => { s with currentState := .active }
  diagnostic c "SubscriptionCreated" .info
  suspend (.created phase)

/-- `create` from its response; `authorized` is what `adapter.authorize` does. -/
def received (c : Context V X) (phase : Phase) (started : Int) (result : CreateResult)
    (authorized : Except Failure Unit) : M V X Unit := do
  .lift result.reference
  .modify fun s => { s with endpoint := true, cleanupAttempted := false, endpointGone := false,
                            currentGeneration := s.currentGeneration + 1 }
  .modify fun s => s.note (.received s.currentGeneration)
  .lift authorized
  timing c result.timing started
  if c.options.synchronize ∧ c.synchronize then
    .modify fun s => s.note (.synchronize s.currentGeneration)
    suspend (.synchronizing phase)
  else activate c phase

-- Delivery

/-- The head of the loop of `drain`, up to its next suspension. -/
def drain (s : OwnedPullPoint V X) : OwnedPullPoint V X :=
  match s.queue with
  | (record, bytes) :: queue =>
    if s.stopRequested then { s with delivery := .returned }
    else { s with queue, delivering := true, delivery := .calling record bytes false }
  | [] => { s with delivery := .returned }

def overflows (c : Context V X) (bytes : Nat) (s : OwnedPullPoint V X) : Bool :=
  s.queue.length + s.delivering.toNat ≥ c.options.maxQueuedMessages || s.queuedBytes + bytes > c.options.maxQueuedBytes

def enqueue (c : Context V X) (record : NativeEventRecord V X) : M V X Unit := do
  let s ← .get
  let bytes := c.byteLength record.value
  if s.overflows c bytes then
    diagnostic c "DeliveryOverflow" .gap
    .throw (.onvif "XmlLimit" (some .unknown))
  else
    .modify fun s => { s with queue := s.queue ++ [(record, bytes)], queuedBytes := s.queuedBytes + bytes,
                              continuity := .continuous, log := s.log ++ [.enqueued record] }
    match s.delivery with
    | .undefined => .modify drain
    | _ => pure ()

def enqueueAll (c : Context V X) (lease : EventLease) : List (V × X) → M V X Unit
  | [] => pure ()
  | (value, xml) :: rest => do
    let receivedAt ← now c
    let s ← .get
    enqueue c { value, xml, receivedAt, currentTime := lease.currentTime, terminationTime := lease.terminationTime
                generation := s.currentGeneration, continuity := s.continuity }
    enqueueAll c lease rest

/-- `boundedCallback` and the `finally` of `drain`, the listener's promise settled. -/
def delivered (outcome : Except Failure Unit) (bytes : Nat) (s : OwnedPullPoint V X) : OwnedPullPoint V X :=
  match outcome with
  | .ok () => drain { s with count := s.count + 1, delivering := false, queuedBytes := s.queuedBytes - bytes }
  | .error e => { s with delivering := false, queuedBytes := s.queuedBytes - bytes, delivery := .rejected e }

def deliveryFailed (c : Context V X) (e : Failure) : M V X Unit := do
  .modify fun s => { s with deliveryFailure := some e, delivery := .failed e }
  diagnostic c "DeliveryFailed" .gap
  .modify fun s => { s with aborted := true }

-- The pull loop

/-- `recover`, up to the request of `release`. -/
def recover (c : Context V X) (reason : String) (gone : Bool) : M V X Unit := do
  diagnostic c reason .gap
  .modify fun s => { s with endpointGone := gone }
  let s ← .get
  if c.options.restartOnExpiry = false ∨ s.restarts ≥ c.options.maxRestarts then
    .throw (.onvif "OutcomeUnknown" (some .unknown))
  else if s.endpoint = false ∨ s.endpointGone ∨ s.cleanupAttempted then
    .modify fun s => { s with currentState := .recovering, loop := .released }
  else
    .modify fun s => { s with currentState := .recovering, cleanupAttempted := true, loop := .releasing
                              log := s.log ++ [.unsubscribe s.currentGeneration] }

/-- The rest of `recover`. -/
def restart (c : Context V X) : M V X Unit := do
  .modify fun s => { s with currentLease := none, serverOffset := none, restarts := s.restarts + 1 }
  create c .running

/-- The advertised limits of a `PullMessagesFaultResponse` detail. -/
def pullLimits (fault : SoapFault) : Option (Option String × Option Int) :=
  match fault.typedDetails.find? fun detail => detail.name = ⟨EVENT_NS, "PullMessagesFaultResponse"⟩ with
  | some ⟨_, .record maxTimeout maxMessageLimit⟩ => some (maxTimeout, maxMessageLimit)
  | _ => none

def limitFault (c : Context V X) (error : Failure) : M V X Bool := do
  let s ← .get
  match error with
  | .soap fault .rejected =>
    if s.limitNegotiations ≥ 2 then pure false
    else match pullLimits fault with
      | none => pure false
      | some (some timeout, some maximum) =>
        if maximum ≤ 0 then .throw (.onvif "InvalidValue" (some .unknown))
        else
          let maxTimeout ← .lift (c.fixedDurationMilliseconds timeout)
          if maxTimeout < 0 then .throw (.onvif "InvalidValue" none)
          else
            let nextTimeout := min s.requestTimeout maxTimeout.toNat
            let nextLimit := min s.requestLimit maximum.toNat
            if nextTimeout = s.requestTimeout ∧ nextLimit = s.requestLimit then pure false
            else
              .modify fun s => { s with requestTimeout := nextTimeout, requestLimit := nextLimit
                                        limitNegotiations := s.limitNegotiations + 1 }
              diagnostic c "ServerRequestLimits" .info
              pure true
      | some _ => .throw (.onvif "InvalidValue" (some .unknown))
  | _ => pure false

def available (c : Context V X) (started : Int) : M V X Nat := do
  let s ← .get
  match s.currentLease with
  | some { expiresAt := none, .. } => pure s.requestTimeout
  | some { expiresAt := some expiresAt, .. } =>
    let now ← now c
    pure (expiresAt - now - 1).toNat
  | none =>
    let now ← now c
    pure (started - now - 1).toNat

/-- The second half of a turn of `run`, up to the pull's request. -/
def pull (c : Context V X) (started : Int) : M V X Unit := do
  let available ← available c started
  let s ← .get
  if min s.requestTimeout available > 2147483647 then .throw (.onvif "InvalidValue" none)
  else
    .modify fun s => s.note (.pull s.currentGeneration)
    suspend (.pulling started)

/-- The head of the loop of `run`, up to its next suspension. -/
def run (c : Context V X) : M V X Unit := do
  let s ← .get
  if s.stopRequested then suspend (.finishing .running none)
  else match s.deliveryFailure with
    | some e => .throw e
    | none =>
      let started ← now c
      match s.currentLease with
      | none => .throw (.onvif "InvalidValue" none)
      | some lease =>
        match lease.expiresAt with
        | none => pull c started
        | some expiresAt =>
          if expiresAt ≤ started then recover c "LeaseExpired" false
          else if c.options.renewal ∧ c.renew ∧ expiresAt - started ≤ c.options.renewalMarginMs then
            .modify fun s => s.note (.renew s.currentGeneration)
            suspend (.renewing started)
          else pull c started

def renewed (c : Context V X) (started : Int) : Except Failure Timing → M V X Unit
  | .error e => do
    let s ← .get
    if s.stopRequested then
      diagnostic c "RenewCancelled" .gap
      suspend (.finishing .running none)
    else if resourceUnknown e then recover c "ResourceUnknownOrReboot" true
    else
      diagnostic c "RenewFailed" .gap
      .throw e
  | .ok result => do
    timing c result started
    diagnostic c "SubscriptionRenewed" .info
    pull c started

def pullFailed (c : Context V X) (e : Failure) : M V X Unit := do
  let s ← .get
  match s.deliveryFailure with
  | some failure => .throw failure
  | none =>
    if s.stopRequested then
      diagnostic c "PullCancelled" .gap
      suspend (.finishing .running none)
    else
      let reduced ← limitFault c e
      if reduced then run c
      else if resourceUnknown e then recover c "ResourceUnknownOrReboot" true
      else
        diagnostic c "PullFailed" .gap
        .throw e

/-- The end of a turn of `run`. -/
def wait (c : Context V X) (started : Int) : M V X Unit := do
  let now ← now c
  if (c.options.minimumPollIntervalMs : Int) - (now - started) > 0 then suspend .sleeping
  else run c

def pulled (c : Context V X) (started : Int) (result : PullResult V X) : M V X Unit := do
  timing c result.timing started
  let s ← .get
  if s.stopRequested then suspend (.finishing .running none)
  else match result.messages, result.nodes with
    | some messages, some nodes =>
      if messages.length ≠ nodes.length ∨ messages.length > s.requestLimit then
        .throw (.onvif "InvalidValue" (some .unknown))
      else match s.currentLease with
        | none => .throw (.onvif "InvalidValue" none)
        | some lease =>
          enqueueAll c lease (messages.zip nodes)
          wait c started
    | _, _ => .throw (.onvif "InvalidValue" (some .unknown))

def slept (c : Context V X) : Except Failure Unit → M V X Unit
  | .ok () => run c
  | .error e => do
    let s ← .get
    match s.deliveryFailure with
    | some failure => .throw failure
    | none => if s.stopRequested then run c else .throw e

-- Release

/-- `release` from the response to Unsubscribe; the failure is what it throws. -/
def releaseDone (c : Context V X) : Except Failure Unit → M V X Unit
  | .ok () => .modify fun s => { s with endpointGone := true }
  | .error e =>
    if resourceUnknown e then do
      .modify fun s => { s with endpointGone := true }
      diagnostic c "CleanupResourceAbsent" .info
    else .throw e

/-- `finish`, up to the request of `release`. -/
def finish (phase : Phase) (error : Option Failure) (s : OwnedPullPoint V X) : OwnedPullPoint V X :=
  let s := { s with stopRequested := true, aborted := true, currentState := .closing }
  if s.endpoint = false ∨ s.endpointGone ∨ s.cleanupAttempted then
    { s with loop := .unsubscribed phase error none }
  else { s with cleanupAttempted := true, loop := .unsubscribing phase error
                log := s.log ++ [.unsubscribe s.currentGeneration] }

/-- `finish` once `release` has returned or thrown. -/
def finishReleased (c : Context V X) (phase : Phase) (error : Option Failure) : Option Failure → M V X Unit
  | none => .modify fun s => { s with remoteStopped := .resolved, loop := .settling phase error.toList }
  | some cleanup => do
    .modify fun s => { s with remoteStopped := .rejected, currentState := .uncertain
                              failure := if s.failure = [] then [cleanup] else s.failure }
    diagnostic c "UnsubscribeOutcomeUnknown" .error
    suspend (.settling phase (error.toList ++ [cleanup]))

def undelivered (c : Context V X) : M V X Unit := do
  let s ← .get
  if s.queue.isEmpty then pure ()
  else
    diagnostic c "UndeliveredNotifications" .gap
    .modify fun s => { s with queue := [], queuedBytes := 0, log := s.log ++ [.dropped (s.queue.map (·.1))] }

def deliveryReason : Delivery V X → List Failure
  | .rejected e | .failed e => [e]
  | _ => []

/-- The end of `finish`, the delivery settled. -/
def finishSettled (c : Context V X) (errors : List Failure) : M V X Unit := do
  undelivered c
  let distinct := errors.dedup
  if distinct = [] then
    .modify fun s => { s with currentState := .closed, stopPromise := .resolved, loop := .done }
  else if c.errorListener then
    .modify fun s => { s with failure := distinct, loop := .reporting
                              currentState := if s.currentState = .uncertain then .uncertain else .failed }
  else
    .modify fun s => { s with failure := distinct, stopPromise := .rejected, loop := .done
                              currentState := if s.currentState = .uncertain then .uncertain else .failed }

def reported (outcome : Except Failure Unit) (s : OwnedPullPoint V X) : OwnedPullPoint V X :=
  { s with stopPromise := .rejected, loop := .done
           failure := match outcome with | .ok () => s.failure | .error e => s.failure ++ [e] }

def externalStop (s : OwnedPullPoint V X) : OwnedPullPoint V X :=
  if s.stopRequested then s
  else { s with stopRequested := true, currentState := .closing, aborted := true }

-- Steps

/-- A failure in `start` or `run` leads to `finish`. -/
def raise (phase : Phase) (m : M V X Unit) (s : OwnedPullPoint V X) : OwnedPullPoint V X :=
  match m s with
  | (.ok _, s) => s
  | (.error e, s) => { s with loop := .finishing phase (some e) }

/-- A failure in `finish`. -/
def crash (phase : Phase) (m : M V X Unit) (s : OwnedPullPoint V X) : OwnedPullPoint V X :=
  match m s with
  | (.ok _, s) => s
  | (.error e, s) => match phase with
    | .starting => { s with loop := .done }
    | .running => { s with failure := [e], stopPromise := .rejected, loop := .done }

def learn {α : Type} (result : Except Failure α) (s : OwnedPullPoint V X) : OwnedPullPoint V X :=
  match result with
  | .error e => if resourceUnknown e then s.note (.absent s.currentGeneration) else s
  | .ok _ => s

def drainedBy (result : PullResult V X) : List (V × X) := (result.messages.getD []).zip (result.nodes.getD [])

inductive Input (V X : Type)
  | turn
  | created (result : Except Failure CreateResult) (authorized : Except Failure Unit)
  | synchronized (result : Except Failure Unit)
  | renewed (result : Except Failure Timing)
  | pulled (result : Except Failure (PullResult V X))
  | slept (outcome : Except Failure Unit)
  | unsubscribed (outcome : Except Failure Unit)
  | reported (outcome : Except Failure Unit)
  | listener
  | delivered (outcome : Except Failure Unit)
  | deadline (error : Failure)
  | deliveryTurn
  | stop

def turn (c : Context V X) (s : OwnedPullPoint V X) : OwnedPullPoint V X :=
  match s.loop with
  | .idle => if s.stopRequested then { s with loop := .done } else raise .starting (create c .starting) s
  | .created .starting => raise .running (run c) s
  | .created .running => { s with continuity := .gap, loop := .running }
  | .running => raise .running (run c) s
  | .released => raise .running (restart c) s
  | .finishing phase error => finish phase error s
  | .unsubscribed phase error cleanup => crash phase (finishReleased c phase error cleanup) s
  | .settling phase errors => match s.delivery with
    | .calling .. => s
    | _ => crash phase (finishSettled c (errors ++ deliveryReason s.delivery)) s
  | _ => s

/-- The handlers of the promise of `drain`. -/
def deliveryTurn (c : Context V X) (s : OwnedPullPoint V X) : OwnedPullPoint V X :=
  match s.delivery with
  | .returned => { s with delivery := .undefined }
  | .rejected e => (deliveryFailed c e s).2
  | _ => s

def learnRelease (outcome : Except Failure Unit) (s : OwnedPullPoint V X) : OwnedPullPoint V X :=
  match outcome with
  | .ok () => s.note (.absent s.currentGeneration)
  | .error _ => learn outcome s

/-- The response to Unsubscribe, in `recover` or in `finish`. -/
def unsubscribed (c : Context V X) (outcome : Except Failure Unit) (s : OwnedPullPoint V X) : OwnedPullPoint V X :=
  match s.loop with
  | .releasing => raise .running (do releaseDone c outcome; suspend .released) (learnRelease outcome s)
  | .unsubscribing phase error => match releaseDone c outcome (learnRelease outcome s) with
    | (.ok _, s) => { s with loop := .unsubscribed phase error none }
    | (.error e, s) => { s with loop := .unsubscribed phase error (some e) }
  | _ => s

def step (c : Context V X) (s : OwnedPullPoint V X) : Input V X → OwnedPullPoint V X
  | .turn => turn c s
  | .created result authorized => match s.loop, result with
    | .creating phase started, .ok result => raise phase (received c phase started result authorized) s
    | .creating phase _, .error e => raise phase (.throw e) s
    | _, _ => s
  | .synchronized result => match s.loop, result with
    | .synchronizing phase, .ok () => raise phase (activate c phase) s
    | .synchronizing phase, .error e => raise phase (.throw e) (learn result s)
    | _, _ => s
  | .renewed result => match s.loop with
    | .renewing started => raise .running (renewed c started result) (learn result s)
    | _ => s
  | .pulled result => match s.loop, result with
    | .pulling started, .ok result =>
      raise .running (pulled c started result) (s.note (.drained (drainedBy result)))
    | .pulling _, .error e => raise .running (pullFailed c e) (learn result s)
    | _, _ => s
  | .slept outcome => match s.loop with
    | .sleeping => raise .running (slept c outcome) s
    | _ => s
  | .unsubscribed outcome => unsubscribed c outcome s
  | .reported outcome => match s.loop with
    | .reporting => reported outcome s
    | _ => s
  | .listener => match s.delivery with
    | .calling record bytes false => { s with delivery := .calling record bytes true }.note (.called record)
    | _ => s
  | .delivered outcome => match s.delivery with
    | .calling _ bytes true => delivered outcome bytes (s.note .returned)
    | _ => s
  | .deadline e => match s.delivery with
    | .calling _ bytes _ => delivered (.error e) bytes s
    | _ => s
  | .deliveryTurn => deliveryTurn c s
  | .stop => externalStop s

def initial (c : Context V X) : OwnedPullPoint V X :=
  { requestTimeout := c.options.pullTimeoutMs, requestLimit := c.options.messageLimit }

def system (c : Context V X) : System (OwnedPullPoint V X) (Input V X) := .ofFun (· = initial c) (step c)

-- What the operations keep

open Throwing in
section
variable {r : OwnedPullPoint V X → OwnedPullPoint V X → Prop} [IsTrans (OwnedPullPoint V X) r] {c : Context V X}

theorem keeps_now (hr : ∀ s, r s s) (htick : ∀ s : OwnedPullPoint V X, r s { s with ticks := s.ticks + 1 }) :
    Keeps r (now c) := by
  refine .bind (.get hr) fun s => .bind (.modify htick) fun _ => ?_
  cases c.clock s.ticks with
  | none => exact .throw hr _
  | some t => exact .pure hr t

theorem keeps_timingCurrent (hr : ∀ s, r s s) (hd : Keeps r (diagnostic c "ServerClockRegression" .gap))
    (hoffset : ∀ (s : OwnedPullPoint V X) offset, r s { s with serverOffset := offset }) :
    Keeps r (timingCurrent c current startedAt) := by
  cases current with
  | text current =>
    refine .bind (.lift hr _) fun server => .bind (.get hr) fun s => ?_
    cases s.currentLease with
    | none => exact .modify fun s => hoffset s _
    | some lease =>
      refine .bind (.lift hr _) fun previous => ?_
      split
      · exact .bind hd fun _ => .modify fun s => hoffset s _
      · exact .modify fun s => hoffset s _
  | _ => exact .pure hr ()

theorem keeps_timing (hr : ∀ s, r s s) (hcurrent : ∀ current, Keeps r (timingCurrent c current startedAt))
    (hnow : Keeps r (now c)) (hlease : ∀ (s : OwnedPullPoint V X) lease, r s { s with currentLease := lease }) :
    Keeps r (timing c result startedAt) := by
  cases result with
  | none => exact .throw hr _
  | some members =>
    obtain ⟨current, termination⟩ := members
    unfold timing
    dsimp only
    split
    · exact .throw hr _
    · split
      · exact .throw hr _
      · refine .bind (hcurrent current) fun _ => .bind (.get hr) fun s => ?_
        split
        · exact .bind hnow fun _ => .bind (.lift hr _) fun _ => .modify fun s => hlease s _
        · exact .throw hr _

theorem keeps_limitFault (hr : ∀ s, r s s) (hd : Keeps r (diagnostic c "ServerRequestLimits" .info))
    (hlimits : ∀ (s : OwnedPullPoint V X) timeout limit, r s { s with
      requestTimeout := timeout, requestLimit := limit, limitNegotiations := s.limitNegotiations + 1 }) :
    Keeps r (limitFault c error) := by
  refine .bind (.get hr) fun s => ?_
  split
  · split
    · exact .pure hr _
    · split
      · exact .pure hr _
      · split
        · exact .throw hr _
        · refine .bind (.lift hr _) fun maxTimeout => ?_
          split
          · exact .throw hr _
          · dsimp only
            split
            · exact .pure hr _
            · exact .bind (.modify fun s => hlimits s _ _) fun _ => .bind hd fun _ => .pure hr _
      · exact .throw hr _
  · exact .pure hr _

theorem keeps_enqueueAll (hr : ∀ s, r s s) (hnow : Keeps r (now c)) (hrecord : ∀ record, Keeps r (enqueue c record)) :
    ∀ messages, Keeps r (enqueueAll c lease messages)
  | [] => .pure hr ()
  | _ :: rest => .bind hnow fun _ => .bind (.get hr) fun _ => .bind (hrecord _) fun _ => keeps_enqueueAll hr hnow hrecord rest

theorem keeps_enqueue (hr : ∀ s, r s s) (hd : Keeps r (diagnostic c "DeliveryOverflow" .gap))
    (hqueue : ∀ (s : OwnedPullPoint V X) bytes, r s { s with
      queue := s.queue ++ [(record, bytes)], queuedBytes := s.queuedBytes + bytes, continuity := .continuous
      log := s.log ++ [.enqueued record] })
    (hdrain : ∀ s : OwnedPullPoint V X, r s (drain s)) : Keeps r (enqueue c record) := by
  refine .bind (.get hr) fun s => ?_
  dsimp only
  split
  · exact .bind hd fun _ => .throw hr _
  · refine .bind (.modify fun s => hqueue s _) fun _ => ?_
    split
    · exact .modify hdrain
    · exact .pure hr ()

end

end OwnedPullPoint

end WotAv.Events
