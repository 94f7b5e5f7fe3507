import WotAv.Discovery.Departure

/-!
# What inspections have read of a device

Five fields of a device are the readings of its inspections. A report that is
committed makes new ones of them, and nothing else that the inventory does shows
in them.
-/

namespace WotAv.Discovery

variable {ν : Type} {setting : Setting ν} {now : Int} {s s' : Inventory ν} {id other : String}

structure Readings (ν : Type) where
  information : Observation DeviceInformation
  services : Observation (List (ServiceSnapshot ν))
  reads : List ν
  resources : List (ResourceInventory ν)
  observedFeatures : List ν

def Device.readings (d : Device ν) : Readings ν := ⟨d.information, d.services, d.reads, d.resources, d.observedFeatures⟩

def Inventory.readings (s : Inventory ν) (id : String) : Option (Readings ν) := s.seen Device.readings id

def Readings.new (now : Int) : Readings ν := ⟨unknown _ now, unknown _ now, [], [], []⟩

-- What leaves them as they were

def Unread (a b : Device ν) : Prop := a.readings = b.readings

theorem Unread.rfl' (d : Device ν) : Unread d d := rfl

theorem Unread.trans (a b c : Device ν) (h : Unread a b) (h' : Unread b c) : Unread a c := Eq.trans h h'

theorem SameBare.unread (a b : Device ν) (h : SameBare a b) : Unread a b := by
  change (bare a).readings = (bare b).readings
  rw [show bare a = bare b from h]

theorem Same.unread (a b : Device ν) (h : Same a b) : Unread a b := (Same.bare a b h).unread

theorem At.readings (h : At id Unread s s') : s'.readings id = s.readings id := h.seen

theorem At.same_readings (h : At id Same s s') : s'.readings id = s.readings id := (h.mono Same.unread).readings

theorem unread : Plain (Unread (ν := ν)) where
  same := Same.unread
  trans := Unread.trans
  enter _ _ := rfl
  record _ _ _ := rfl
  conflict _ := rfl
  types _ _ := rfl
  scopes _ _ := rfl
  claims _ _ := rfl
  metadataVersion _ _ := rfl
  identityEvidence _ _ := rfl
  quarantine _ := rfl
  updatedAt _ _ := rfl

theorem mergeEndpoints_unread (s : Inventory ν) (other : String) (xaddrs : List String) (incoming : Provenance) :
    At id Unread s (mergeEndpoints setting now s other xaddrs incoming).1 :=
  unread.mergeEndpoints SameBare.unread (fun _ _ => rfl) s other xaddrs incoming

theorem accept_unread (s : Inventory ν) (other : String) (entry : DiscoveryMatch) (message : DiscoveryMessage)
    (incoming : Provenance) : At id Unread s (accept setting now s other entry message incoming) :=
  unread.accept (mergeEndpoints_unread _ _ _ _)
    (fun s => unread.mergePresence (fun _ => rfl) (fun _ _ => rfl) (fun _ => rfl) s other message) fun _ => rfl

theorem newly : Chained now fun a b : Option (Device ν) => Grown (.new now) (a.map Device.readings) (b.map Device.readings) :=
  Grown.chained Same.unread fun _ => rfl

theorem observe_readings (s : Inventory ν) (message : DiscoveryMessage) (incoming : Provenance)
    (fingerprintSource : DiscoveryMessage) :
    Grown (.new now) (s.readings id) ((observe setting now s message incoming fingerprintSource).1.readings id) := by
  have hduplicate : At id Unread s (observeDuplicate setting now s message incoming).1 :=
    (observeDuplicate_bare message incoming s).mono SameBare.unread
  refine newly.observe (.inl hduplicate.readings) (fun entry _ => ?_) fingerprintSource
  exact newly.observeMatch (fun s d _ => .inl (unread.order s _ d message).readings)
    fun s => .inl (accept_unread s _ entry message incoming).readings

-- Inspections

def heldServices (previous incoming : Observation (List (ServiceSnapshot ν))) : Observation (List (ServiceSnapshot ν)) :=
  let prior := previous.value?.or (previous.lastKnown.map (·.value))
  let services := retained previous incoming
  match services.result with
  | .known values =>
    { services with result := .known (values.map fun service =>
        match (prior.getD []).find? fun item => item.namespace_ = service.namespace_ && item.xaddr = service.xaddr with
        | some previous => { service with capabilities := retained previous.capabilities service.capabilities }
        | none => service) }
  | .missing .. => services

def mergeOutcome (limit : Nat) (resources : List (ResourceInventory ν)) (incoming : ResourceInventory ν) :
    List (ResourceInventory ν) :=
  match resources.findIdx? fun item => inventoryKey item = inventoryKey incoming with
  | some index => resources.modify index fun item => { item with outcome := retained item.outcome incoming.outcome }
  | none => if resources.length < limit then resources ++ [incoming] else resources

def Readings.inspected (setting : Setting ν) (report : InspectionReport ν) (r : Readings ν) : Readings ν where
  information := retained r.information report.information
  services := heldServices r.services report.services
  reads := report.reads.take setting.bounds.maxRequestsPerInspection
  resources := report.resources.foldl (mergeOutcome (setting.bounds.maxServices * 16)) r.resources
  observedFeatures := report.observedFeatures

theorem retainReads_readings (report : InspectionReport ν) (d : Device ν) :
    (retainReads setting report d).readings =
      { d.readings with
        information := retained d.information report.information
        services := heldServices d.services report.services
        reads := report.reads.take setting.bounds.maxRequestsPerInspection } := by
  unfold retainReads Device.retainServices heldServices
  dsimp only
  cases (retained d.services report.services).result <;> rfl

theorem mergeResource_readings {r : Readings ν} (h : s.readings id = some r) (incoming : ResourceInventory ν) :
    (mergeResource setting now id s incoming).readings id =
      some { r with resources := mergeOutcome (setting.bounds.maxServices * 16) r.resources incoming } := by
  obtain ⟨d, hd, rfl⟩ := Option.map_eq_some_iff.mp h
  have hmodify (f : List (ResourceInventory ν) → List (ResourceInventory ν)) :
      (s.modify id fun d => { d with resources := f d.resources }).readings id =
        some { d.readings with resources := f d.readings.resources } :=
    modify_seen h fun d' hd' => by rw [← hd']; rfl
  have hresources : d.readings.resources = d.resources := rfl
  unfold mergeResource mergeOutcome
  rw [hd, hresources]
  dsimp only
  cases d.resources.findIdx? fun item => inventoryKey item = inventoryKey incoming with
  | some index => exact hmodify fun resources => resources.modify index _
  | none =>
    dsimp only
    split
    · exact hmodify (· ++ [incoming])
    · exact (diagnostic_same _ _ _ _ _).same_readings.trans h

theorem mergeResources_readings (incoming : List (ResourceInventory ν)) {r : Readings ν} (h : s.readings id = some r) :
    (incoming.foldl (mergeResource setting now id) s).readings id =
      some { r with resources := incoming.foldl (mergeOutcome (setting.bounds.maxServices * 16)) r.resources } := by
  induction incoming generalizing s r with
  | nil => exact h
  | cons resource incoming ih => exact ih (mergeResource_readings h resource)

theorem concludeReport_readings (report : InspectionReport ν) (d : Device ν) :
    (concludeReport setting report d).readings = { d.readings with observedFeatures := report.observedFeatures } := by
  unfold concludeReport
  cases report.scopes.value? <;> cases report.complete <;> cases report.responsive <;> rfl

theorem applyReport_readings {r : Readings ν} (h : s.readings id = some r) (report : InspectionReport ν) :
    (applyReport setting now s id report).readings id = some (r.inspected setting report) := by
  have hread : (s.modify id (retainReads setting report)).readings id = some
      { r with
        information := retained r.information report.information
        services := heldServices r.services report.services
        reads := report.reads.take setting.bounds.maxRequestsPerInspection } :=
    modify_seen h fun d hd => by rw [retainReads_readings, ← hd]; rfl
  exact modify_seen (mergeResources_readings report.resources hread) fun d hd => by
    rw [concludeReport_readings, hd]
    rfl

theorem commitInspection_readings (setting : Setting ν) (now : Int) (s : Inventory ν) (token : InspectionToken)
    (report : InspectionReport ν) (id : String) :
    let r := commitInspection setting now s token report
    r.1.readings id =
      if r.2 = true ∧ id = token.deviceId then (s.readings id).map (·.inspected setting report) else s.readings id :=
  commitInspection_seen unread fun _ _ h => applyReport_readings h report

theorem approach_readings (seedId : String) (seed : SeedSnapshot) (report : InspectionReport ν) (incoming : Provenance) :
    Grown (.new now) (s.readings id) ((approach setting now s seedId seed report incoming).1.readings id) :=
  newly.approach (fun _ _ => .inl (mergeEndpoints_unread _ _ _ _).readings) s seedId

theorem inspectSeed_readings (setting : Setting ν) (now : Int) (s : Inventory ν) (seedId : String) (seed : SeedSnapshot)
    (report : InspectionReport ν) (incoming : Provenance) (id : String) :
    let r := inspectSeed setting now s seedId seed report incoming
    if r.2 = some id then r.1.readings id = some (((s.readings id).getD (.new now)).inspected setting report)
    else Grown (.new now) (s.readings id) (r.1.readings id) := by
  exact inspectSeed_seen (approach_readings seedId seed report incoming)
    (fun s other d => (unread.beginInspection (fun _ _ => rfl) s other d).readings)
    fun s token => commitInspection_readings setting now s token report id

-- Operations

theorem reconcileDevice_readings (d : Device ν) : (reconcileDevice setting now d).1.readings = d.readings := by
  unfold reconcileDevice
  split
  · rfl
  · have hstale : (goStale setting now d).readings = d.readings := by
      unfold goStale
      dsimp only
      split <;> rfl
    refine Eq.trans ?_ hstale
    dsimp only
    unfold depart
    split <;> rfl

theorem reconcile_readings (s : Inventory ν) : (reconcile setting now s).readings id = s.readings id := by
  rw [Inventory.readings, Inventory.seen, reconcile_device, Option.map_map]
  exact congrArg (Option.map · (s.device id)) (funext reconcileDevice_readings)

theorem operate_readings (setting : Setting ν) (now : Int) (s : Inventory ν) (op : Operation ν) (id : String) :
    match Watch.commits setting id now s op with
    | some report =>
      (operate setting now s op).readings id = some (((s.readings id).getD (.new now)).inspected setting report)
    | none => Grown (.new now) (s.readings id) ((operate setting now s op).readings id) := by
  cases op with
  | diagnostic code message deviceId truncated => exact .inl (diagnostic_same _ _ _ _ _).same_readings
  | observe message fingerprintSource incoming => exact observe_readings s message incoming fingerprintSource
  | observeDuplicate message incoming => exact .inl ((observeDuplicate_bare message incoming s).mono SameBare.unread).readings
  | beginInspection other =>
    refine .inl ?_
    unfold operate
    dsimp only
    split
    · rfl
    · exact (unread.beginInspection (fun _ _ => rfl) s other _).readings
  | commitInspection token report =>
    have hcommit := commitInspection_readings setting now s token report id
    have hcases := commitInspection_cases setting now s token report
    unfold Watch.commits operate
    dsimp only at hcommit ⊢
    split
    · rename_i committed hcommits
      split at hcommits
      · rename_i h
        obtain rfl := Option.some.inj hcommits
        obtain ⟨rfl, hok⟩ := h
        rcases hcases with ⟨hno, _⟩ | ⟨_, d, hd, _⟩
        · rw [hno] at hok
          cases hok
        · have hr : s.readings token.deviceId = some d.readings := by rw [Inventory.readings, Inventory.seen, hd]; rfl
          rw [hcommit, if_pos ⟨hok, rfl⟩, hr]
          rfl
      · cases hcommits
    · rename_i hcommits
      split at hcommits
      · cases hcommits
      · rename_i h
        exact .inl (hcommit.trans (if_neg fun hc => h ⟨hc.2.symm, hc.1⟩))
  | liveness other round responsive confirmedTimeout => exact .inl (unread.liveness (fun _ _ _ => rfl) s other _ _ _).readings
  | reconcile => exact .inl (reconcile_readings s)
  | addSeed seedId seed =>
    refine .inl ?_
    unfold operate addSeed
    dsimp only
    split
    · rfl
    · split
      · rfl
      · split <;> rfl
  | inspectSeed seedId report incoming =>
    unfold Watch.commits operate
    dsimp only
    cases hseed : s.seed seedId with
    | none => exact .inl rfl
    | some seed =>
      have hseeded := inspectSeed_readings setting now s seedId seed report incoming id
      dsimp only at hseeded ⊢
      by_cases hid : (inspectSeed setting now s seedId seed report incoming).2 = some id
      · rw [if_pos hid] at hseeded ⊢
        exact hseeded
      · rw [if_neg hid] at hseeded ⊢
        exact hseeded

end WotAv.Discovery
