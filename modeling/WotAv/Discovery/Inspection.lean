import WotAv.Discovery.Inventory

/-!
# Inspections (`src/discovery/inventory.ts`)

What the inventory does with tokens and reports, with seeds, and with time.
-/

namespace WotAv.Discovery

variable {ν : Type} (setting : Setting ν) (now : Int)

-- Reports

def beginInspection (s : Inventory ν) (id : String) (d : Device ν) : Inventory ν × InspectionToken :=
  ({ s.modify id (fun d => { d with inspectionGeneration := d.inspectionGeneration + 1 }) with revision := s.revision + 1 },
    ⟨id, d.epoch, d.inspectionGeneration + 1⟩)

def contradicts (a b : IdentityEvidence) : Bool := a.authority = b.authority && a.subject ≠ b.subject

/-- The loop of `addIdentityEvidence`, with its `conflict`. -/
def collectEvidence (id : String) : List IdentityEvidence → Inventory ν × Bool → Inventory ν × Bool
  | [], r => r
  | evidence :: incoming, (s, conflict) => match s.device id with
    | none => (s, conflict)
    | some d =>
      let conflict := conflict || d.identityEvidence.any fun prior => contradicts prior evidence
      if d.identityEvidence.any fun prior => prior.authority = evidence.authority && prior.subject = evidence.subject &&
          prior.xaddr = evidence.xaddr then
        collectEvidence id incoming (s, conflict)
      else if setting.bounds.maxProvenance ≤ d.identityEvidence.length then
        collectEvidence id incoming (diagnostic setting now s "IdentityEvidenceLimit"
          "Additional identity evidence requires operator reconciliation" (some id) true, true)
      else
        let pushed := s.modify id fun d => { d with identityEvidence := d.identityEvidence ++ [evidence] }
        if fitsData setting now pushed then collectEvidence id incoming (pushed, conflict)
        else
          collectEvidence id incoming (diagnostic setting now
            (pushed.modify id fun d => { d with identityEvidence := d.identityEvidence.dropLast }) "IdentityEvidenceLimit"
            "Identity evidence exceeded the total inventory byte bound" (some id) true, true)

def quarantine (d : Device ν) : Device ν := { d with state := .conflict, identityConflict := true }

def addIdentityEvidence (s : Inventory ν) (id : String) (incoming : List IdentityEvidence) : Inventory ν × Bool :=
  let (s, conflict) := collectEvidence setting now id incoming (s, false)
  let priorConflict := (s.device id).any fun d =>
    d.identityEvidence.any fun evidence => d.identityEvidence.any fun prior => contradicts prior evidence
  if conflict || priorConflict then
    (diagnostic setting now (s.modify id quarantine) "CloneIdentityConflict"
      "Contradictory authenticated or provisioned identities share this EPR" (some id), false)
  else (s, true)

def mergeResource (id : String) (s : Inventory ν) (incoming : ResourceInventory ν) : Inventory ν := match s.device id with
  | none => s
  | some d =>
    match d.resources.findIdx? fun item => inventoryKey item = inventoryKey incoming with
    | some index => s.modify id fun d => { d with resources := d.resources.modify index fun item =>
        { item with outcome := retained item.outcome incoming.outcome } }
    | none =>
      if d.resources.length < setting.bounds.maxServices * 16 then
        s.modify id fun d => { d with resources := d.resources ++ [incoming] }
      else
        diagnostic setting now s "ResourceInventoryLimit" "Additional resource inventories were not retained" (some id) true

def retainReads (report : InspectionReport ν) (d : Device ν) : Device ν :=
  { (({ d with information := retained d.information report.information } : Device ν).retainServices report.services) with
    reads := report.reads.take setting.bounds.maxRequestsPerInspection }

def InspectionReport.complete (report : InspectionReport ν) : Bool :=
  report.endpointReference.value?.isSome && report.information.value?.isSome

def concludeReport (report : InspectionReport ν) (d : Device ν) : Device ν :=
  let d := { d with observedFeatures := report.observedFeatures }
  let d := match report.scopes.value? with
    | none => d
    | some scopes =>
      let scopes := scopes.take setting.bounds.maxScopes
      { d with scopes, claims := profileClaims scopes .getScopes report.scopes.observedAt }
  let d := if report.complete then
      { d with verifiedAt := some report.completedAt, state := .verified, suspectSince := none }
    else d
  let d := if report.responsive then { d with failedLivenessRounds := 0 } else d
  ({ d with updatedAt := report.completedAt }).updateRegistryEvidence

def applyReport (s : Inventory ν) (id : String) (report : InspectionReport ν) : Inventory ν :=
  let s := s.modify id (retainReads setting report)
  let s := report.resources.foldl (mergeResource setting now id) s
  let s := s.modify id (concludeReport setting report)
  { s with truncated := s.truncated || report.truncated }

def commitInspection (s : Inventory ν) (token : InspectionToken) (report : InspectionReport ν) : Inventory ν × Bool :=
  let id := token.deviceId
  match (s.device id).filter fun d => token.epoch = d.epoch && token.generation = d.inspectionGeneration with
  | none =>
    (diagnostic setting now s "SupersededInspection" "Inspection belongs to a superseded device epoch or generation" (some id), false)
  | some previous =>
    if previous.identityConflict then
      (diagnostic setting now s "IdentityQuarantined"
        "Identity conflict requires out-of-band reconciliation; a new arrival cannot auto-approve it" (some id), false)
    else if report.endpointReference.value?.any fun endpoint => setting.endpointIdentity endpoint ≠ id then
      (diagnostic setting now (s.modify id quarantine) "EndpointIdentityConflict"
        "Native inspection disagrees with the discovered endpoint identity" (some id), false)
    else
      let evidenced := addIdentityEvidence setting now s id report.identityEvidence
      if ¬evidenced.2 then (evidenced.1, false)
      else
        let s := applyReport setting now evidenced.1 id report
        if ¬fitsData setting now s then
          (diagnostic setting now (s.modify id fun _ => previous) "InventoryByteLimit"
            "Inspection did not replace confirmed data because the total inventory byte bound was reached" (some id) true, false)
        else ({ s with revision := s.revision + 1 }, true)

-- Time

def liveness (s : Inventory ν) (id : String) (round : Int) (responsive confirmedTimeout : Bool) : Inventory ν :=
  match s.device id with
  | none => s
  | some d =>
    if d.lastLivenessRound.any fun last => round ≤ last then s
    else { s.modify id (fun d => { d with
        lastLivenessRound := some round
        failedLivenessRounds :=
          if responsive then 0 else if confirmedTimeout then d.failedLivenessRounds + 1 else d.failedLivenessRounds }) with
      revision := s.revision + 1 }

def goStale (d : Device ν) : Device ν :=
  let staleAt := d.verifiedAt.getD d.seenAt + setting.staleMs
  if staleAt ≤ now ∧ d.state ≠ .suspect then { d with state := .stale, suspectSince := d.suspectSince.or (some staleAt) } else d

def depart (d : Device ν) : Device ν :=
  if (d.suspectSince.any fun since => setting.departureGraceMs ≤ now - since) ∧ 2 ≤ d.failedLivenessRounds then
    { d with state := .departed, inspectionGeneration := d.inspectionGeneration + 1, updatedAt := now }
  else d

/-- The round of `reconcile` for one device: what becomes of it, and by how much
the revision grows. -/
def reconcileDevice (d : Device ν) : Device ν × Nat :=
  if d.state = .conflict ∨ d.state = .departed then (d, 0)
  else
    let stale := goStale setting now d
    let gone := depart setting now stale
    (gone, (if d.verifiedAt.getD d.seenAt + setting.staleMs ≤ now ∧ d.state ≠ .suspect then 1 else 0) +
      if gone.state = .departed then 1 else 0)

def reconcile (s : Inventory ν) : Inventory ν :=
  s.devices.keys.foldl (fun s id => match s.device id with
    | none => s
    | some d =>
      let r := reconcileDevice setting now d
      if r.2 = 0 then s
      else { s.modify id (fun d => (reconcileDevice setting now d).1) with revision := s.revision + r.2 }) s

-- Seeds

/-- `addSeed`, and whether it was admitted. -/
def addSeed (s : Inventory ν) (seedId : String) (seed : SeedSnapshot) : Inventory ν × Bool :=
  if (s.seeds.lookup seedId).isSome then (s, true)
  else if setting.bounds.maxDevices ≤ s.seeds.entries.length then (s, false)
  else
    let added := { s with seeds := s.seeds.insert seedId { seed with resolvedDeviceId := none, outcome := unknown _ now } }
    if ¬fitsData setting now added then (s, false) else ({ added with revision := s.revision + 1 }, true)

def Inventory.seed (s : Inventory ν) (seedId : String) : Option SeedSnapshot := s.seeds.lookup seedId

def setOutcome (s : Inventory ν) (seedId : String) (seed : SeedSnapshot) : Inventory ν :=
  { s with seeds := s.seeds.insert seedId seed, revision := s.revision + 1 }

/-- What `inspectSeed` finds before it begins an inspection: that there is none
to begin, or the device. -/
def approach (s : Inventory ν) (seedId : String) (seed : SeedSnapshot) (report : InspectionReport ν) (incoming : Provenance) :
    Inventory ν × Option (String × Device ν) :=
  match report.endpointReference.result with
  | .missing status code message _ =>
    (setOutcome s seedId { seed with
      outcome := { result := .missing status code message none, observedAt := report.endpointReference.observedAt } }, none)
  | .known endpoint =>
    if seed.expectedEndpointAddress.any fun expected => endpoint.address ≠ expected then
      (setOutcome s seedId { seed with
        outcome := { result := .missing .fault "SeedIdentityMismatch" "Seed identity disagrees with explicit provisioning" none
                     observedAt := now } }, none)
    else
      let id := setting.endpointIdentity endpoint
      let s := (create setting now s endpoint).1
      if (s.device id).isNone then (s, none)
      else
        let s := (mergeEndpoints setting now s id [seed.xaddr] incoming).1
        (s, (s.device id).map (id, ·))

/-- `inspectSeed` of a seed that there is. -/
def inspectSeed (s : Inventory ν) (seedId : String) (seed : SeedSnapshot) (report : InspectionReport ν)
    (incoming : Provenance) : Inventory ν × Option String :=
  let found := approach setting now s seedId seed report incoming
  match found.2 with
  | none => (found.1, none)
  | some (id, d) =>
    let begun := beginInspection found.1 id d
    let committed := commitInspection setting now begun.1 begun.2 report
    if ¬committed.2 then (committed.1, none)
    else (setOutcome committed.1 seedId
      { seed with resolvedDeviceId := some id, outcome := { result := .known id, observedAt := now } }, some id)

end WotAv.Discovery
