import WotAv.Capture.Native
import WotAv.Capture.Session
import WotAv.Lib.Transition

/-!
# Snapshots (`adapters/src/semantic.cjs`)

The adapter that keeps the last frame of a capture and lends copies of it,
and the pump that reads the frames. A turn of the machine runs from one wait
to the next, so that the calls of others fall between the turns of a pump.
-/

namespace WotAv.Capture

open WotAv.Lib Native
open WotAv.Lib.Json (get)

abbrev Document := List (String × Json FiniteNumber)

structure Profile where
  members : Document
  attributes : Document
  token : String
  attributed : get "$attributes" members = some (.object attributes)
  named : get "token" attributes = some (.string token)

structure AdapterFault where
  code : Code
  operation : String
  deriving DecidableEq, Repr

def SourceFault.asFault (fault : SourceFault) : AdapterFault := ⟨fault.code, fault.operation.text⟩

def sourceUnavailable : AdapterFault := ⟨.SourceUnavailable, "snapshot"⟩

def AdapterFault.demand (condition : Prop) [Decidable condition] (code : Code) (operation : String) :
    Except AdapterFault Unit :=
  if condition then .ok () else .error ⟨code, operation⟩

def AdapterFault.need (value : Option α) (fault : AdapterFault) : Except AdapterFault α :=
  match value with
  | some a => .ok a
  | none => .error fault

@[simp] theorem AdapterFault.demand_eq_ok {condition : Prop} [Decidable condition] {code : Code} {operation : String}
    {u : Unit} : AdapterFault.demand condition code operation = .ok u ↔ condition := by
  unfold AdapterFault.demand
  split <;> simp_all

@[simp] theorem AdapterFault.need_eq_ok {value : Option α} {fault : AdapterFault} {a : α} :
    AdapterFault.need value fault = .ok a ↔ value = some a := by
  cases value <;> simp [AdapterFault.need]

-- The adapter

structure Cache where
  data : Bytes
  origin : Nat

/-- `inFlight` is a map, in the order of its insertions. -/
structure SemanticAdapter where
  limits : Limits
  profile : Option Profile := none
  modeId : Option String := none
  cache : Option Cache := none
  unavailableFault : Option AdapterFault := some sourceUnavailable
  inFlight : List (String × Nat) := []
  inFlightBytes : Int := 0
  dropped : Nat := 0

/-- What `next` returns of a frame. -/
structure CaptureFrame where
  metadata : Members
  data : Bytes
  freshnessOriginMonotonicNs : String

inductive Acceptance
  | gap (generation : Option Value) (dropped : String)
  | accepted

/-- What `acquireSnapshot` returns, with what its `release` has captured. -/
structure Lease where
  subscriber : String
  data : Bytes
  size : Nat
  released : Bool := false

namespace SemanticAdapter

def unavailable (adapter : SemanticAdapter) (fault : AdapterFault) : SemanticAdapter :=
  { adapter with cache := none, unavailableFault := some fault }

section
-- `canonical.profiles.output`, of the one profile
variable (output : Document → Except AdapterFault Unit)

def configureProfile (adapter : SemanticAdapter) (profile : Profile) (modeId : String) :
    Except AdapterFault SemanticAdapter := do
  AdapterFault.demand ((utf8 (String.ofList (Json.chars (.object profile.members)))).length ≤ 32768)
    .ResourceLimit "GetProfiles"
  output profile.members
  AdapterFault.demand (modeIdValid modeId) .InvalidSelection "open"
  AdapterFault.demand (∀ current ∈ adapter.profile, current.token = profile.token) .IdentityChanged "open"
  return ({ adapter with profile := some profile, modeId := some modeId }).unavailable sourceUnavailable

def create (limits : Limits) (profile : Profile) (modeId : String) : Except AdapterFault SemanticAdapter :=
  configureProfile output { limits } profile modeId

end

def accept (adapter : SemanticAdapter) (frame : CaptureFrame) (clock : Nat) :
    Except AdapterFault (SemanticAdapter × Acceptance) := do
  AdapterFault.demand (text? "kind" frame.metadata = some "frame" ∧ text? "modeId" frame.metadata = adapter.modeId ∧
    text? "format" frame.metadata = some "JPEG" ∧
    (get "payloadBytes" frame.metadata).bind integer = some (frame.data.length : Int) ∧
    frame.data.length ≤ adapter.limits.value .maxFrameBytes) .UnsupportedFormat "snapshot"
  let origin ← AdapterFault.need (u64 (.string frame.freshnessOriginMonotonicNs)) ⟨.UnsupportedFormat, "snapshot"⟩
  let (width, height) ← (jpegDimensions frame.data).mapError SourceFault.asFault
  AdapterFault.demand ((get "width" frame.metadata).bind integer = some (width : Int) ∧
    (get "height" frame.metadata).bind integer = some (height : Int) ∧ width ≤ adapter.limits.value .maxWidth ∧
    height ≤ adapter.limits.value .maxHeight) .ResourceLimit "snapshot"
  AdapterFault.demand (origin ≤ clock) .ProtocolError "snapshot"
  if adapter.limits.value .maxQueuedBytes < frame.data.length + adapter.inFlightBytes then
    return ({ adapter with dropped := adapter.dropped + 1 },
      .gap (get "generation" frame.metadata) (decimal (adapter.dropped + 1 : Nat)))
  else
    return ({ adapter with cache := some ⟨frame.data, origin⟩, unavailableFault := none }, .accepted)

def acquireSnapshot (adapter : SemanticAdapter) (subscriber : String) (clock : Nat) :
    Except AdapterFault (SemanticAdapter × Lease) := do
  AdapterFault.demand (utf16Length subscriber ≤ 64) .PermissionDenied "snapshot"
  let cache ← AdapterFault.need adapter.cache
    ⟨(adapter.unavailableFault.map AdapterFault.code).getD .SourceUnavailable, "snapshot"⟩
  let age : Int := clock - cache.origin
  AdapterFault.demand (0 ≤ age ∧ age ≤ adapter.limits.value .maxSnapshotAgeMs * 1000000) .StaleFrame "snapshot"
  AdapterFault.demand (subscriber ∉ adapter.inFlight.map Prod.fst ∧
    adapter.inFlight.length < min (adapter.limits.value .maxSubscribers) (adapter.limits.value .maxQueuedFrames))
    .Busy "snapshot"
  let size := cache.data.length
  AdapterFault.demand (adapter.inFlightBytes + size + size ≤ adapter.limits.value .maxQueuedBytes)
    .ResourceLimit "snapshot"
  return ({ adapter with
    inFlight := adapter.inFlight ++ [(subscriber, size)]
    inFlightBytes := adapter.inFlightBytes + size }, { subscriber, data := cache.data, size })

/-- The `release` of a lease. -/
def release (adapter : SemanticAdapter) (lease : Lease) : SemanticAdapter × Lease :=
  if lease.released then (adapter, lease)
  else ({ adapter with
    inFlight := adapter.inFlight.filter (·.1 ≠ lease.subscriber)
    inFlightBytes := adapter.inFlightBytes - lease.size }, { lease with released := true })

end SemanticAdapter

-- The pump

/-- Where a pump stands. A read has its origin, and the time at which its
request is issued. -/
inductive Stage
  | looping
  | reading (origin issued : Nat)
  | returned (result : Result) (origin issued : Nat)
  | failed (fault : SourceFault)
  | finished (fault : Option AdapterFault)

structure Pump where
  session : CaptureSession
  stage : Stage := .looping

def Pump.close (pump : Pump) : Pump := { pump with session := { pump.session with closing := true } }

/-- `next`, up to its wait. -/
def Pump.read (pump : Pump) (origin issued : Nat) : Pump :=
  if pump.session.closing then { pump with stage := .failed { code := .SourceUnavailable, operation := .next } }
  else { pump with stage := .reading origin issued }

/-- `next`, from the reply to its request on. -/
def Pump.answered (pump : Pump) (origin issued : Nat) (reply : Except SourceFault (Members × Bytes)) : Pump :=
  match reply >>= fun answer => pump.session.next answer.1 answer.2 with
  | .ok (session, result) => { session, stage := .returned result origin issued }
  | .error fault => { (if fault.code = .Busy then pump else pump.close) with stage := .failed fault }

/-- What has come of the frames: one was accepted, which `issued` asked for,
or the adapter was left without any. -/
inductive Note
  | accepted (modeId : Option String) (data : Bytes) (issued : Nat)
  | cleared

structure World where
  adapter : SemanticAdapter
  pumps : List Pump := []
  leases : List Lease := []
  now : Nat := 0
  notes : List Note := []

namespace World

/-- The end of a pump, with its `finally`. -/
def finish (w : World) (i : Nat) (pump : Pump) (fault : Option AdapterFault) : World :=
  { w with
    adapter := w.adapter.unavailable (fault.getD sourceUnavailable)
    pumps := w.pumps.set i { pump.close with stage := .finished fault }
    notes := w.notes ++ [.cleared] }

/-- `adapter.accept(result)`, in the loop. -/
def delivered (w : World) (i : Nat) (pump : Pump) (metadata : Members) (data : Bytes) (origin issued : Nat) : World :=
  match w.adapter.accept ⟨metadata, data, decimal origin⟩ w.now with
  | .error fault => w.finish i pump (some fault)
  | .ok (adapter, acceptance) =>
    { w with
      adapter
      pumps := w.pumps.set i { pump with stage := .looping }
      notes := match acceptance with
        | .gap .. => w.notes
        | .accepted => w.notes ++ [.accepted (text? "modeId" metadata) data issued] }

/-- A pump's turn with what `next` has come to. -/
def deliver (w : World) (i : Nat) (pump : Pump) : Option World :=
  match pump.stage with
  | .returned (.ended _) _ _ =>
    some ({ w with adapter := w.adapter.unavailable sourceUnavailable }.finish i pump none)
  | .returned (.gap _) _ _ => some { w with
      adapter := { w.adapter with dropped := w.adapter.dropped + 1 }
      pumps := w.pumps.set i { pump with stage := .looping } }
  | .returned (.frame metadata data) origin issued => some (w.delivered i pump metadata data origin issued)
  | .failed fault => some (w.finish i pump (some fault.asFault))
  | _ => none

end World

inductive Happening
  | begin (session : CaptureSession)
  | turn (pump : Nat) (aborted : Bool) (origin issued : Nat)
  | answer (pump : Nat) (reply : Except SourceFault (Members × Bytes))
  | deliver (pump : Nat) (clock : Nat)
  | close (pump : Nat)
  | configure (profile : Profile) (modeId : String)
  | acquire (subscriber : String) (clock : Nat)
  | release (lease : Nat)

namespace World

section
variable (output : Document → Except AdapterFault Unit)

def configure (w : World) (profile : Profile) (modeId : String) : World :=
  match w.adapter.configureProfile output profile modeId with
  | .error _ => w
  | .ok adapter => { w with adapter, notes := w.notes ++ [.cleared] }

def acquire (w : World) (subscriber : String) : World :=
  match w.adapter.acquireSnapshot subscriber w.now with
  | .error _ => w
  | .ok (adapter, lease) => { w with adapter, leases := w.leases ++ [lease] }

def release (w : World) (j : Nat) : Option World := do
  let lease ← w.leases[j]?
  let (adapter, lease) := w.adapter.release lease
  return { w with adapter, leases := w.leases.set j lease }

def turn (w : World) (i : Nat) (pump : Pump) (aborted : Bool) (origin issued : Nat) : Option World :=
  match pump.stage with
  | .looping =>
    if aborted then some (w.finish i pump none)
    else some { w with pumps := w.pumps.set i (pump.read origin issued) }
  | _ => none

def answer (w : World) (i : Nat) (pump : Pump) (reply : Except SourceFault (Members × Bytes)) : Option World :=
  match pump.stage with
  | .reading origin issued => some { w with pumps := w.pumps.set i (pump.answered origin issued reply) }
  | _ => none

/-- The clock is at `clock`: it does not go back. -/
def at? (w : World) (clock : Nat) : Option World := if w.now ≤ clock then some { w with now := clock } else none

def step (w : World) : Happening → Option World
  | .begin session => some { w with pumps := w.pumps ++ [{ session }] }
  | .turn i aborted origin issued => do
    let w ← w.at? origin
    let w ← w.at? issued
    w.turn i (← w.pumps[i]?) aborted origin issued
  | .answer i reply => do w.answer i (← w.pumps[i]?) reply
  | .deliver i clock => do
    let w ← w.at? clock
    w.deliver i (← w.pumps[i]?)
  | .close i => do
    let pump ← w.pumps[i]?
    return { w with pumps := w.pumps.set i pump.close }
  | .configure profile modeId => some (w.configure output profile modeId)
  | .acquire subscriber clock => do return (← w.at? clock).acquire subscriber
  | .release j => w.release j

def Initial (w : World) : Prop :=
  ∃ limits profile modeId adapter now, SemanticAdapter.create output limits profile modeId = .ok adapter ∧
    w = { adapter, now }

def system : System World Happening := .ofPartial (Initial output) (step output)

end

end World

end WotAv.Capture
