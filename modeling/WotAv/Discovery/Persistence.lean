import WotAv.Lib.Transition
import WotAv.Discovery.Revisions

/-!
# Persistence (`src/discovery/engine.ts`, `src/discovery/persistence.ts`)

The engine's `persist`, with `JsonFilePersistence` behind it. The loop of
`persist` is cut where it awaits `save`, and where its promise has settled but
`this.saving` is cleared by a later microtask; between the cuts anything may
call the inventory and `persist`.
-/

namespace WotAv.Discovery

open WotAv.Lib

variable {ν : Type}

-- The inventory in use

inductive Operation (ν : Type)
  | diagnostic (code message : String) (deviceId : Option String) (truncated : Bool)
  | observe (message fingerprintSource : DiscoveryMessage) (incoming : Provenance)
  | observeDuplicate (message : DiscoveryMessage) (incoming : Provenance)
  | beginInspection (id : String)
  | commitInspection (token : InspectionToken) (report : InspectionReport ν)
  | liveness (id : String) (round : Int) (responsive confirmedTimeout : Bool)
  | reconcile
  | addSeed (seedId : String) (seed : SeedSnapshot)
  | inspectSeed (seedId : String) (report : InspectionReport ν) (incoming : Provenance)

def operate (setting : Setting ν) (now : Int) (s : Inventory ν) : Operation ν → Inventory ν
  | .diagnostic code message deviceId truncated => diagnostic setting now s code message deviceId truncated
  | .observe message fingerprintSource incoming => (observe setting now s message incoming fingerprintSource).1
  | .observeDuplicate message incoming => (observeDuplicate setting now s message incoming).1
  | .beginInspection id => match s.device id with
    | none => s
    | some d => (beginInspection s id d).1
  | .commitInspection token report => (commitInspection setting now s token report).1
  | .liveness id round responsive confirmedTimeout => liveness s id round responsive confirmedTimeout
  | .reconcile => reconcile setting now s
  | .addSeed seedId seed => (addSeed setting now s seedId seed).1
  | .inspectSeed seedId report incoming => match s.seed seedId with
    | none => s
    | some seed => (inspectSeed setting now s seedId seed report incoming).1

theorem operate_advances (setting : Setting ν) (now : Int) (s : Inventory ν) (op : Operation ν) :
    Advances s (operate setting now s op) := by
  cases op with
  | diagnostic code message deviceId truncated => exact diagnostic_advances _ _ _ _ _
  | observe message fingerprintSource incoming => exact observe_advances _ _ _ _
  | observeDuplicate message incoming => exact observeDuplicate_advances _ _ _
  | beginInspection id =>
    unfold operate
    dsimp only
    split
    · exact .refl s
    · exact beginInspection_advances _ _
  | commitInspection token report => exact commitInspection_advances _ _ _
  | liveness id round responsive confirmedTimeout => exact liveness_advances _ _ _ _
  | reconcile => exact reconcile_advances _
  | addSeed seedId seed => exact addSeed_advances _ _ _
  | inspectSeed seedId report incoming =>
    unfold operate
    dsimp only
    split
    · exact .refl s
    · exact inspectSeed_advances _ _ _ _ _

/-- `Inventory.restore`, of an inventory that is new. -/
def restore (setting : Setting ν) (snapshot : InventorySnapshot ν) : Option (Inventory ν) :=
  if setting.bounds.maxDevices < snapshot.devices.length ∨ setting.bounds.maxDevices < snapshot.seeds.length then none
  else some {
    devices := snapshot.devices.foldl (fun devices (id, original) => devices.insert id { original with
      inspectionGeneration := original.inspectionGeneration + 1
      endpoints := original.endpoints.map fun endpoint =>
        { endpoint with approved := (setting.approveXAddr endpoint.xaddr).getD false } }) ∅
    seeds := snapshot.seeds.foldl (fun seeds (seedId, seed) => seeds.insert seedId seed) ∅
    diagnostics := snapshot.diagnostics.drop (snapshot.diagnostics.length - setting.bounds.maxDiagnostics)
    revision := snapshot.revision + 1
    truncated := snapshot.truncated }

-- The store

structure Ports (ν : Type) where
  setting : Setting ν
  /-- `assertSnapshot`, with the bounds of the engine and of the store. -/
  assertSnapshot : InventorySnapshot ν → Bool
  storable : InventorySnapshot ν → Bool
  stringify : InventorySnapshot ν → String

def InventorySnapshot.timeless (snapshot : InventorySnapshot ν) : InventorySnapshot ν := { snapshot with capturedAt := 0 }

def content (ports : Ports ν) (snapshot : InventorySnapshot ν) : String := ports.stringify snapshot.timeless

/-- How far the files get in `write`. -/
inductive Written
  | failed | renamed | synced
  deriving DecidableEq, Repr

/-- `JsonFilePersistence.write`: what is stored, and whether the promise is
fulfilled. -/
def write (ports : Ports ν) (stored : Option (InventorySnapshot ν)) (snapshot : InventorySnapshot ν) (written : Written) :
    Option (InventorySnapshot ν) × Bool :=
  if ¬ports.storable snapshot then (stored, false)
  else if stored.any fun prior => snapshot.revision < prior.revision ||
      (snapshot.revision = prior.revision && content ports snapshot ≠ content ports prior) then (stored, false)
  else if stored.any fun prior => snapshot.revision = prior.revision then (stored, true)
  else match written with
    | .failed => (stored, false)
    | .renamed => (some snapshot, false)
    | .synced => (some snapshot, true)

-- The engine

inductive Loop (ν : Type)
  | saving (snapshot : InventorySnapshot ν) (settled : Option Bool)
  /-- It has settled, and is still to be cleared. -/
  | ended (fulfilled : Bool)

/-- A call of `save`, with the store as it was. -/
structure SaveCall (ν : Type) where
  snapshot : InventorySnapshot ν
  pending : Bool
  stored : Option (InventorySnapshot ν)

/-- The last `persist` of `shutdown`. -/
inductive Closing
  | no | persisting | persisted | failed | closed
  deriving DecidableEq, Repr

structure Engine (ν : Type) where
  inventory : Inventory ν := {}
  loaded : Bool := false
  savedRevision : Option Nat := none
  saving : Option (Loop ν) := none
  /-- The revisions at the calls of `persist` that await the loop. -/
  waiting : List Nat := []
  closing : Closing := .no
  stored : Option (InventorySnapshot ν)
  pending : Bool := false
  /-- What is stored has not been restored. -/
  unrestored : Bool
  snapshots : List (InventorySnapshot ν) := []
  saves : List (SaveCall ν) := []
  fulfilled : List (Nat × Option (InventorySnapshot ν)) := []

inductive Event (ν : Type)
  /-- `load`, and `restore` of what it gives. -/
  | load (now : Int) (succeeds : Bool)
  | operate (now : Int) (op : Operation ν)
  /-- The adapter reports a failure of a channel. -/
  | transportFailure (now : Int)
  | snapshot (now : Int)
  | persist (now : Int)
  /-- The `persist` of `shutdown`, when all work has settled. -/
  | shutdown (now : Int)
  | settle (written : Written)
  | resume (now : Int)
  | clear
  | close

namespace Engine

variable (ports : Ports ν)

def take (s : Engine ν) (now : Int) : Engine ν := { s with snapshots := s.inventory.view now :: s.snapshots }

def answer (s : Engine ν) (revisions : List Nat) (fulfilled : Bool) : Engine ν :=
  { s with
    fulfilled := if fulfilled then revisions.map (·, s.stored) ++ s.fulfilled else s.fulfilled
    closing := if s.closing = .persisting then (if fulfilled then .persisted else .failed) else s.closing }

def finish (s : Engine ν) (fulfilled : Bool) : Engine ν :=
  { s.answer s.waiting fulfilled with saving := some (.ended fulfilled), waiting := [] }

def save (s : Engine ν) (snapshot : InventorySnapshot ν) : Engine ν :=
  { s with
    saves := ⟨snapshot, s.pending, s.stored⟩ :: s.saves
    saving := some (.saving snapshot (if s.pending then some false else none))
    pending := true }

/-- The loop, up to its `await`. -/
def look (s : Engine ν) (now : Int) : Engine ν :=
  let snapshot := s.inventory.view now
  let s := s.take now
  if some snapshot.revision = s.savedRevision then s.finish true
  else if ¬ports.assertSnapshot snapshot then s.finish false
  else s.save snapshot

def persist (s : Engine ν) (now : Int) : Engine ν :=
  let revision := s.inventory.revision
  match s.saving with
  | none => ({ s with waiting := [revision] }).look ports now
  | some (.saving ..) => { s with waiting := revision :: s.waiting }
  | some (.ended fulfilled) => s.answer [revision] fulfilled

/-- `initialize`, up to the channels. -/
def load (s : Engine ν) (now : Int) (succeeds : Bool) : Engine ν :=
  let failed := { s with
    loaded := true
    inventory := diagnostic ports.setting now s.inventory "StartupFailed"
      "Discovery did not establish its configured transport and persistence contract" }
  if ¬succeeds then failed
  else match s.stored with
    | none => { s with loaded := true }
    | some snapshot =>
      if ¬ports.assertSnapshot snapshot then failed
      else match restore ports.setting snapshot with
        | none => failed
        | some inventory => { s with loaded := true, unrestored := false, inventory, savedRevision := some snapshot.revision }

def step (s : Engine ν) : Event ν → Engine ν
  | .load now succeeds => if s.loaded then s else s.load ports now succeeds
  | .operate now op =>
    if s.loaded ∧ s.closing = .no then { s with inventory := operate ports.setting now s.inventory op } else s
  | .transportFailure now =>
    if s.loaded then { s with
      inventory := diagnostic ports.setting now s.inventory "DatagramTransportFailure"
        "Configured discovery channel reported a transport error" }
    else s
  | .snapshot now => s.take now
  | .persist now => if s.loaded then s.persist ports now else s
  | .shutdown now => if s.loaded ∧ s.closing = .no then ({ s with closing := .persisting }).persist ports now else s
  | .settle written => match s.saving with
    | some (.saving snapshot none) =>
      let r := write ports s.stored snapshot written
      { s with stored := r.1, pending := false, saving := some (.saving snapshot (some r.2)) }
    | _ => s
  | .resume now => match s.saving with
    | some (.saving snapshot (some true)) => ({ s with savedRevision := some snapshot.revision }).look ports now
    | some (.saving _ (some false)) => s.finish false
    | _ => s
  | .clear => match s.saving with
    | some (.ended _) => { s with saving := none }
    | _ => s
  | .close => if s.closing = .persisted then { s with closing := .closed } else s

/-- `persist` is called when the loop that it joins has not taken its last look,
or has looked at the present revision; what was stored has been restored; and no
channel fails once `shutdown` has called `persist`. -/
def Timely (s : Engine ν) : Event ν → Prop
  | .persist _ | .shutdown _ => s.unrestored = false ∧
    match s.saving with
    | some (.ended true) => s.savedRevision = some s.inventory.revision
    | _ => True
  | .transportFailure _ => s.closing = .no
  | _ => True

def initial (stored : Option (InventorySnapshot ν)) : Engine ν := { stored, unrestored := stored.isSome }

def system : System (Engine ν) (Event ν) := .ofFun (fun s => ∃ stored, s = initial stored) (step ports)

end Engine

end WotAv.Discovery
