import WotAv.Discovery.Earned

/-!
# Inspections of the engine (`src/discovery/engine.ts`)

`enqueue`, `pump` and `runInspection` of the engine, with what calls them. A job
is cut at its awaits, and where its promises have settled but the reactions to
them are later microtasks; between the cuts anything may happen. `heap` has all
the jobs that there have been, and the map, the queue and the workers name them
by their place in it. The log has, last first, what the claims of a device were.
-/

namespace WotAv.Discovery

open WotAv.Lib

variable {ν : Type}

inductive JobKey
  | device (id : String)
  | seed (id : String)
  deriving DecidableEq, Repr

def JobKey.deviceId : JobKey → Option String
  | .device id => some id
  | .seed _ => none

inductive JobPhase
  | queued
  /-- There is no target, and the inventory is saved. -/
  | idle
  | inspecting (token : Option InspectionToken) (round : Int)
  /-- The report has been handed over, and the inventory is saved. -/
  | saving
  /-- `runInspection` is over. -/
  | finished
  /-- And the job's promise has settled. -/
  | settled
  /-- The map does not have it any more. -/
  | gone
  deriving DecidableEq, Repr

def JobPhase.active : JobPhase → Bool
  | .queued | .gone => false
  | _ => true

def JobPhase.over : JobPhase → Bool
  | .settled | .gone => true
  | _ => false

structure InspectionJob where
  key : JobKey
  generation : Option Nat := none
  requeue : Bool := false
  phase : JobPhase := .queued
  /-- How often its promise has been settled. -/
  settlements : Nat := 0
  deriving DecidableEq, Repr

inductive EngineState
  | starting | running | closing
  deriving DecidableEq, Repr

inductive Note
  | bumped (id : String)
  | started (id : String)
  | refused (id : String)
  deriving DecidableEq, Repr

def pending (id : String) : List Note → Bool
  | [] => false
  | .bumped other :: log => other = id || pending id log
  | .started other :: log => other ≠ id && pending id log
  | .refused other :: log => other ≠ id && pending id log

structure EngineSetting (ν : Type) extends ReceiverSetting ν where
  maxConcurrentInspections : Nat
  maxQueuedInspections : Nat
  refreshMs : Int
  /-- The configured seeds, with where a report of theirs is heard, but for the time. -/
  seeds : List (String × Provenance)

structure Inspections (ν : Type) where
  state : EngineState := .starting
  receiver : Receiver ν := {}
  jobs : AList fun _ : JobKey => Nat := ∅
  heap : List InspectionJob := []
  queue : List Nat := []
  workers : Nat := 0
  round : Int := 0
  log : List Note := []

namespace Inspections

variable (setting : EngineSetting ν) (now : Int)

def put (i : Nat) (f : InspectionJob → InspectionJob) (e : Inspections ν) : Inspections ν :=
  { e with heap := e.heap.modify i f }

-- Starting

/-- `runInspection`, up to its first await. -/
def start (i : Nat) (e : Inspections ν) : Inspections ν := match e.heap[i]? with
  | none => e
  | some job => match job.key with
    | .device id => match e.receiver.inventory.device id with
      | none => e.put i ({ · with phase := .idle })
      | some d =>
        let found := target setting.toReceiverSetting now e.receiver id
        if found.2.isSome then
          let begun := beginInspection found.1.inventory id d
          { e.put i ({ · with generation := some begun.2.generation, phase := .inspecting (some begun.2) e.round }) with
            receiver := { found.1 with inventory := begun.1 }, log := .started id :: e.log }
        else { e.put i ({ · with phase := .idle }) with receiver := found.1, log := .refused id :: e.log }
    | .seed id =>
      if ((setting.seeds.find? (·.1 = id)).map (·.2)).any e.receiver.opened then
        e.put i ({ · with phase := .inspecting none e.round })
      else e.put i ({ · with phase := .finished })

def pumpLoop : Nat → Inspections ν → Inspections ν
  | 0, e => e
  | n + 1, e => match e.queue with
    | [] => e
    | i :: queue =>
      if e.state = .running ∧ e.workers < setting.maxConcurrentInspections then
        pumpLoop n (start setting now i { e with queue, workers := e.workers + 1 })
      else e

def pump (e : Inspections ν) : Inspections ν := pumpLoop setting now e.queue.length e

-- Enqueueing

def superseded (e : Inspections ν) (job : InspectionJob) : Bool := match job.key with
  | .device id => job.generation.isSome && (e.receiver.inventory.device id).map (·.inspectionGeneration) ≠ job.generation
  | .seed _ => false

def push (key : JobKey) (e : Inspections ν) : Inspections ν :=
  { e with jobs := e.jobs.insert key e.heap.length, heap := e.heap ++ [{ key }], queue := e.queue ++ [e.heap.length] }

def enqueue (key : JobKey) (e : Inspections ν) : Inspections ν := match e.jobs.lookup key with
  | some i => if (e.heap[i]?).any e.superseded then e.put i ({ · with requeue := true }) else e
  | none =>
    if e.state ≠ .running then e
    else if setting.maxQueuedInspections ≤ e.queue.length then
      { e with
        receiver := e.receiver.diagnostic setting.toReceiverSetting now "InspectionQueueLimit"
          "Inspection work was not admitted to the bounded queue" key.deviceId true
        log := (key.deviceId.map Note.refused).toList ++ e.log }
    else pump setting now (e.push key)

def due (d : Device ν) : Bool :=
  decide (d.state ≠ .verified) || d.verifiedAt.all fun at_ => setting.refreshMs ≤ now - at_

-- What asks for inspections

def bumped (e : Inspections ν) (at_ : Local) (datagram : Datagram) : List String :=
  let r := receive setting.toReceiverSetting now e.receiver at_ datagram
  r.2.filter fun id => (r.1.inventory.device id).any fun d =>
    (e.receiver.inventory.device id).map (·.inspectionGeneration) ≠ some d.inspectionGeneration

def receive (e : Inspections ν) (at_ : Local) (datagram : Datagram) : Inspections ν :=
  let r := Discovery.receive setting.toReceiverSetting now e.receiver at_ datagram
  r.2.foldl (fun e id => if (e.receiver.inventory.device id).any (due setting now) then enqueue setting now (.device id) e else e)
    { e with receiver := r.1, log := (bumped setting now e at_ datagram).map .bumped ++ e.log }

def enqueueAll (keys : List JobKey) (e : Inspections ν) : Inspections ν :=
  keys.foldl (fun e key => enqueue setting now key e) e

/-- What `initialize` asks for when the first state has been saved. -/
def launch (e : Inspections ν) : Inspections ν :=
  let devices := (Inventory.sorted e.receiver.inventory.devices).filter fun entry => entry.2.state ≠ .departed
  enqueueAll setting now (devices.map (.device ·.1) ++ setting.seeds.map (.seed ·.1)) e

def inspect (id : String) (e : Inspections ν) : Inspections ν :=
  if e.state = .running ∧ (e.receiver.inventory.device id).isSome then enqueue setting now (.device id) e else e

def withInventory (e : Inspections ν) (s : Inventory ν) : Inspections ν := { e with receiver := { e.receiver with inventory := s } }

def reconcile (e : Inspections ν) : Inspections ν :=
  if e.state ≠ .running then e
  else
    let e := { e.withInventory (Discovery.reconcile setting.inventory now e.receiver.inventory) with
      round := max now (e.round + 1) }
    let devices := (Inventory.sorted e.receiver.inventory.devices).filter fun entry =>
      decide (entry.2.state ≠ .departed) && due setting now entry.2
    let e := enqueueAll setting now (devices.map (.device ·.1)) e
    let seeds := (Inventory.sorted e.receiver.inventory.seeds).filter fun entry =>
      entry.2.resolvedDeviceId.isNone && setting.seeds.any (·.1 = entry.1)
    enqueueAll setting now (seeds.map (.seed ·.1)) e

-- Jobs

/-- What `runInspection` does with a report, up to its next await. -/
def reported (i : Nat) (report : InspectionReport ν) (confirmedTimeout : Bool) (e : Inspections ν) : Inspections ν :=
  match e.heap[i]? with
  | none => e
  | some job => match job.phase with
    | .inspecting token round =>
      if e.state = .closing then e.put i ({ · with phase := .finished })
      else match token, job.key with
        | some token, _ =>
          let committed := commitInspection setting.inventory now e.receiver.inventory token report
          let s := if committed.2 then liveness committed.1 token.deviceId round report.responsive confirmedTimeout
            else committed.1
          (e.withInventory (Discovery.reconcile setting.inventory now s)).put i ({ · with phase := .saving })
        | none, .seed id => match (setting.seeds.find? (·.1 = id)).map (·.2) with
          | none => e
          | some incoming =>
            (e.withInventory (operate setting.inventory now e.receiver.inventory
              (.inspectSeed id report { incoming with receivedAt := now }))).put i ({ · with phase := .saving })
        | none, .device _ => e
    | _ => e

def advance (i : Nat) (from_ : JobPhase → Bool) (f : InspectionJob → InspectionJob) (e : Inspections ν) : Inspections ν :=
  if (e.heap[i]?).any fun job => from_ job.phase then e.put i f else e

/-- `inspect` of the inspector throws. -/
def failed (i : Nat) (e : Inspections ν) : Inspections ν :=
  e.advance i (fun phase => match phase with | .inspecting .. => true | _ => false) ({ · with phase := .finished })

def saved (i : Nat) (e : Inspections ν) : Inspections ν :=
  e.advance i (fun phase => phase = .idle || phase = .saving) ({ · with phase := .finished })

/-- `then(job.resolve, job.reject)`. -/
def settle (i : Nat) (e : Inspections ν) : Inspections ν :=
  e.advance i (· = .finished) fun job => { job with phase := .settled, settlements := job.settlements + 1 }

def discard (i : Nat) (job : InspectionJob) (e : Inspections ν) : Inspections ν :=
  { e.put i ({ · with phase := .gone }) with jobs := e.jobs.erase job.key, workers := e.workers - 1 }

/-- What `finally` does. -/
def remove (i : Nat) (e : Inspections ν) : Inspections ν := match e.heap[i]? with
  | none => e
  | some job =>
    if job.phase ≠ .settled then e
    else
      let e := e.discard i job
      pump setting now (if job.requeue ∧ e.state = .running then enqueue setting now job.key e else e)

def drop (i : Nat) (e : Inspections ν) : Inspections ν := match e.heap[i]? with
  | none => e
  | some job =>
    { e.put i (fun job => { job with phase := .gone, settlements := job.settlements + 1 }) with jobs := e.jobs.erase job.key }

/-- `shutdown`, up to its first await. -/
def close (e : Inspections ν) : Inspections ν :=
  if e.state = .closing then e
  else
    { e.queue.foldl (fun e i => e.drop i) e with
      state := .closing, queue := [], receiver := { e.receiver with running := false } }

end Inspections

-- Runs

def Receiver.Event.aside : Receiver.Event ν → Bool
  | .receive .. | .close => false
  | _ => true

namespace Inspections

inductive Event (ν : Type)
  | receive (at_ : Local) (datagram : Datagram)
  | inspect (id : String)
  | run
  | launch
  | probe
  | reconcile
  | reported (i : Nat) (report : InspectionReport ν) (confirmedTimeout : Bool)
  | failed (i : Nat)
  | saved (i : Nat)
  | settle (i : Nat)
  | remove (i : Nat)
  | close
  | other (event : Receiver.Event ν) (aside : event.aside)

def step (setting : EngineSetting ν) (e : Inspections ν) (call : Int × Event ν) : Inspections ν := match call.2 with
  | .receive at_ datagram => receive setting call.1 e at_ datagram
  | .inspect id => inspect setting call.1 id e
  | .run => if e.state = .starting then { e with state := .running } else e
  | .launch => launch setting call.1 e
  | .probe => { e with round := max call.1 (e.round + 1) }
  | .reconcile => reconcile setting call.1 e
  | .reported i report confirmedTimeout => reported setting call.1 i report confirmedTimeout e
  | .failed i => e.failed i
  | .saved i => e.saved i
  | .settle i => e.settle i
  | .remove i => remove setting call.1 i e
  | .close => e.close
  | .other event _ => { e with receiver := e.receiver.step setting.toReceiverSetting (call.1, event) }

def init (setting : EngineSetting ν) (e : Inspections ν) : Prop :=
  ∃ inventory, (inventory = {} ∨ ∃ snapshot, restore setting.inventory snapshot = some inventory) ∧
    e = { receiver := { inventory }, round := inventory.devices.entries.foldl (fun round d => max round (d.2.lastLivenessRound.getD 0)) 0 }

def system (setting : EngineSetting ν) : System (Inspections ν) (Int × Event ν) := .ofFun (init setting) (step setting)

/-- A datagram supersedes inspections of a device only when the engine has
started, and only when the device's job, if there is one, is in the queue or
inspects a generation. -/
def Careful (setting : EngineSetting ν) (e : Inspections ν) (call : Int × Event ν) : Prop := match call.2 with
  | .receive at_ datagram => ∀ id ∈ e.bumped setting call.1 at_ datagram, e.state ≠ .starting ∧
      ∀ i job, e.jobs.lookup (.device id) = some i → e.heap[i]? = some job → job.phase = .queued ∨ job.generation.isSome
  | _ => True

end Inspections

end WotAv.Discovery
