import WotAv.Publication.SnapshotAdapter

/-!
# What is published as known

Whatever `adaptInventory` calls known is a known observation of the device, and
so, but for resources that the last report did not name, one of the report that
was committed last.
-/

namespace WotAv.Publication

open WotAv.Discovery

variable {ν : Type} {data : NativeData ν} {fallback : String} {d : Device ν}

-- Known of the device

/-- The observation is known, and what is published is its value and its evidence. -/
def Tells {α : Type} (fallback : String) (o : Observation α) (value : α) (proof : List ObservationEvidence) : Prop :=
  o.value? = some value ∧ proof = evidence o fallback

variable {α : Type}

theorem observation_tells {o : Observation α} {value : α} (h : (observation o fallback).state = .ok value) :
    Tells fallback o value (observation o fallback).evidence := by
  unfold Tells Observation.value?
  unfold observation at h ⊢
  cases hr : o.result with
  | known known =>
    rw [hr] at h
    exact ⟨congrArg some (Except.ok.inj h), rfl⟩
  | missing =>
    rw [hr] at h
    cases h

variable {o : Observation ν}

theorem adaptCapabilities_tells {value : ν} (h : (adaptCapabilities data fallback o).state = .ok value) :
    Tells fallback o value (adaptCapabilities data fallback o).evidence := by
  unfold adaptCapabilities at h ⊢
  split at h
  · split at h
    · rename_i hrecord
      rw [if_pos hrecord]
      exact observation_tells h
    · cases h
  · exact observation_tells h

def Selected (data : NativeData ν) (fallback : String) (sources : List (Observation ν)) (value : ν)
    (proof : List ObservationEvidence) : Prop :=
  ∃ o ∈ sources, ∃ native, Tells fallback o native proof ∧
    (value = native ∨ ∃ pointer, data.jsonPointer native pointer = .ok (some value))

theorem Selected.mono {sources sources' : List (Observation ν)} {value : ν} {proof : List ObservationEvidence}
    (h : Selected data fallback sources value proof) (hs : ∀ o ∈ sources, o.value?.isSome → o ∈ sources') :
    Selected data fallback sources' value proof := by
  obtain ⟨o, ho, native, htells, hvalue⟩ := h
  exact ⟨o, hs o ho (by rw [htells.1]; rfl), native, htells, hvalue⟩

def factSources (data : NativeData ν) (d : Device ν) : List (Observation ν) :=
  (currentServices d).map (·.capabilities) ++ d.reads.map (fun read => (data.read read).outcome) ++
    d.observedFeatures.map fun feature => (data.feature feature).outcome

def Sourced (data : NativeData ν) (fallback : String) (sources : List (Observation ν))
    (facts : List (String × SnapshotObservation ν)) : Prop :=
  ∀ fact ∈ facts, ∀ value, fact.2.state = .ok value → Selected data fallback sources value fact.2.evidence

variable {facts : List (String × SnapshotObservation ν)}

theorem addFeature_sourced {sources : List (Observation ν)}
    (h : Sourced data fallback sources facts) {feature : FeatureObservation ν} (hf : feature.outcome ∈ sources) :
    Sourced data fallback sources (addFeature fallback facts feature) := by
  unfold addFeature
  dsimp only
  split
  · intro fact hfact value hvalue
    obtain ⟨before, hbefore, rfl⟩ := List.mem_map.mp hfact
    split at hvalue
    · cases hvalue
    · rename_i hne
      rw [if_neg hne]
      exact h before hbefore value hvalue
  · intro fact hfact value hvalue
    rcases List.mem_append.mp hfact with hfact | hfact
    · exact h fact hfact value hvalue
    · obtain rfl := List.mem_singleton.mp hfact
      exact ⟨feature.outcome, hf, value, observation_tells hvalue, .inl rfl⟩

theorem addFeatures_sourced {sources : List (Observation ν)} (features : List (FeatureObservation ν))
    (hf : ∀ feature ∈ features, feature.outcome ∈ sources)
    (h : Sourced data fallback sources facts) : Sourced data fallback sources (features.foldl (addFeature fallback) facts) := by
  induction features generalizing facts with
  | nil => exact h
  | cons feature features ih =>
    exact ih (fun other hother => hf other (List.mem_cons_of_mem _ hother)) (addFeature_sourced h (hf feature List.mem_cons_self))

theorem mappedFact_selected {pointer : String} {fact : SnapshotObservation ν} {value : ν}
    (h : mappedFact data fallback o pointer = .ok fact) (hv : fact.state = .ok value) :
    Selected data fallback [o] value fact.evidence := by
  unfold mappedFact at h
  split at h
  · obtain rfl := Except.ok.inj h
    exact ⟨o, List.mem_singleton_self o, value, observation_tells hv, .inl rfl⟩
  · rename_i native hnative
    split at h
    · cases h
    · obtain rfl := Except.ok.inj h
      cases hv
    · rename_i selected hselected
      obtain rfl := Except.ok.inj h
      obtain rfl := Except.ok.inj hv
      exact ⟨o, List.mem_singleton_self o, native, ⟨hnative, rfl⟩, .inr ⟨pointer, hselected⟩⟩

theorem mem_mappedOutcomes {mapping : FeatureFactMapping} (h : o ∈ mappedOutcomes data d mapping) :
    o ∈ factSources data d := by
  unfold mappedOutcomes at h
  unfold factSources
  rw [List.append_assoc, List.mem_append, List.mem_append]
  split at h
  · obtain ⟨service, hservice, rfl⟩ := List.mem_map.mp h
    exact .inl (List.mem_map_of_mem (List.mem_of_mem_filter hservice))
  · obtain ⟨read, hread, rfl⟩ := List.mem_map.mp h
    obtain ⟨native, hnative, rfl⟩ := List.mem_map.mp (List.mem_of_mem_filter hread)
    exact .inr (.inl (List.mem_map_of_mem hnative))

variable {facts facts' : List (String × SnapshotObservation ν)}

theorem addMapping_sourced
    (h : Sourced data fallback (factSources data d) facts) {mapping : FeatureFactMapping}
    (hadd : addMapping data fallback d facts mapping = .ok facts') : Sourced data fallback (factSources data d) facts' := by
  unfold addMapping at hadd
  split at hadd
  · cases hadd
  · split at hadd
    · rename_i outcome houtcome
      split at hadd
      · cases hadd
      · rename_i published hpublished
        obtain rfl := Except.ok.inj hadd
        intro fact hfact value hvalue
        rcases List.mem_append.mp hfact with hfact | hfact
        · exact h fact hfact value hvalue
        · obtain rfl := List.mem_singleton.mp hfact
          refine (mappedFact_selected hpublished hvalue).mono fun o ho _ => ?_
          exact mem_mappedOutcomes (by rw [houtcome]; exact ho)
    · obtain rfl := Except.ok.inj hadd
      intro fact hfact value hvalue
      rcases List.mem_append.mp hfact with hfact | hfact
      · exact h fact hfact value hvalue
      · obtain rfl := List.mem_singleton.mp hfact
        cases hvalue

theorem addMappings_sourced (mappings : List FeatureFactMapping)
    (h : Sourced data fallback (factSources data d) facts)
    (hadd : mappings.foldlM (addMapping data fallback d) facts = .ok facts') :
    Sourced data fallback (factSources data d) facts' := by
  induction mappings generalizing facts with
  | nil =>
    obtain rfl := Except.ok.inj hadd
    exact h
  | cons mapping mappings ih =>
    obtain ⟨next, hnext, hrest⟩ := Lib.except_bind_ok hadd
    exact ih (addMapping_sourced h hnext) hrest

theorem adaptInventory_known {mappings : List FeatureFactMapping} {id : String} {adapted : AdaptedDevice ν}
    (h : adaptInventory data mappings id d = .ok adapted) :
    adapted.identity = observation d.information ("discovery:" ++ id) ∧
    adapted.services = (currentServices d).map (adaptService data ("discovery:" ++ id) d) ∧
    (∀ resource ∈ adapted.resources, ∃ member ∈ currentResources data d.resources,
      resource = adaptResource data ("discovery:" ++ id) member) ∧
    Sourced data ("discovery:" ++ id) (factSources data d) adapted.facts := by
  obtain ⟨resources, hresources, h⟩ := Lib.except_bind_ok h
  obtain ⟨facts, hfacts, h⟩ := Lib.except_bind_ok h
  obtain rfl := Except.ok.inj h
  refine ⟨rfl, rfl, fun resource hresource => ?_, ?_⟩
  · unfold adaptResources at hresources
    dsimp only at hresources
    split at hresources
    · obtain rfl := Except.ok.inj hresources
      obtain ⟨member, hmember, rfl⟩ := List.mem_map.mp hresource
      exact ⟨member, List.mem_of_mem_filter hmember, rfl⟩
    · cases hresources
  · refine addMappings_sourced mappings (addFeatures_sourced _ (fun feature hfeature => ?_) (fun _ hf => absurd hf List.not_mem_nil)) hfacts
    obtain ⟨native, hnative, rfl⟩ := List.mem_map.mp hfeature
    unfold factSources
    rw [List.mem_append]
    exact .inr (List.mem_map_of_mem hnative)

-- Known of the last report

theorem settled_value (earlier : List (Observation α)) (o : Observation α) : (settled earlier o).value? = o.value? := by
  obtain ⟨result, observedAt, source, lastKnown⟩ := o
  cases result <;> rfl

theorem settled_evidence (earlier : List (Observation α)) (o : Observation α) :
    evidence (settled earlier o) fallback = evidence o fallback := by
  obtain ⟨result, observedAt, source, lastKnown⟩ := o
  cases result <;> rfl

theorem settled_eq {earlier : List (Observation α)} {o : Observation α} (h : (settled earlier o).value?.isSome) :
    settled earlier o = o := by
  obtain ⟨result, observedAt, source, lastKnown⟩ := o
  cases result with
  | known => rfl
  | missing => cases h

theorem Tells.of_settled {earlier : List (Observation α)} {o : Observation α} {value : α}
    {proof : List ObservationEvidence} (h : Tells fallback (settled earlier o) value proof) : Tells fallback o value proof :=
  ⟨(settled_value earlier o).symm.trans h.1, h.2.trans (settled_evidence earlier o)⟩

def reportSources (data : NativeData ν) (report : InspectionReport ν) : List (Observation ν) :=
  (report.services.value?.getD []).map (·.capabilities) ++ report.reads.map (fun read => (data.read read).outcome) ++
    report.observedFeatures.map fun feature => (data.feature feature).outcome

/-- Whatever is published as known is known of the report; a resource, if the
report names its inventory. -/
structure Current (data : NativeData ν) (fallback : String) (report : InspectionReport ν) (adapted : AdaptedDevice ν) : Prop where
  identity : ∀ value, adapted.identity.state = .ok value → Tells fallback report.information value adapted.identity.evidence
  services : ∀ service ∈ adapted.services, service.evidence = evidence report.services fallback ∧
    ∃ services, report.services.value? = some services ∧ ∃ told ∈ services, service.namespace_ = told.namespace_ ∧
      service.xaddr = told.xaddr ∧ service.version = told.version ∧
      ∀ value, service.capabilities.state = .ok value → Tells fallback told.capabilities value service.capabilities.evidence
  readOutcomes : ∀ service ∈ adapted.services, ∀ read ∈ service.readOutcomes, ∀ value, read.outcome.state = .ok value →
    ∃ told ∈ report.reads, Tells fallback (data.read told).outcome value read.outcome.evidence
  facts : Sourced data fallback (reportSources data report) adapted.facts
  resources : ∀ resource ∈ adapted.resources, ∃ member, resource = adaptResource data fallback member ∧
    ((∃ incoming ∈ report.resources, inventoryKey incoming = inventoryKey member.1) →
      ∃ told ∈ report.resources, inventoryKey told = inventoryKey member.1 ∧ member.1.outcome = told.outcome ∧
        ∃ items, told.outcome.value? = some items ∧ ∃ item ∈ items, member.2 = data.resource item)

section
variable {setting : Setting ν} {before : List (InspectionReport ν)} {last : InspectionReport ν}

section
variable (h : Recorded setting (before ++ [last]) d.readings)
include h

theorem mem_currentServices {service : ServiceSnapshot ν}
    (hservice : service ∈ currentServices d) : ∃ services, last.services.value? = some services ∧ ∃ told ∈ services,
      service = { told with capabilities := settled (capabilitiesOf told before) told.capabilities } := by
  have hservices : d.services = _ := h.services_last
  unfold currentServices at hservice
  rw [hservices, settled_value] at hservice
  unfold observedServices Observation.value? at hservice
  unfold Observation.value?
  cases hr : last.services.result with
  | known services =>
    rw [hr] at hservice
    obtain ⟨told, htold, rfl⟩ := List.mem_map.mp hservice
    exact ⟨services, rfl, told, htold, rfl⟩
  | missing status code message part =>
    rw [hr] at hservice
    dsimp only at hservice
    rw [hr] at hservice
    exact absurd hservice List.not_mem_nil

theorem services_evidence :
    evidence d.services fallback = evidence last.services fallback := by
  have hservices : d.services = _ := h.services_last
  rw [hservices, settled_evidence]
  unfold observedServices
  split <;> rfl

theorem factSources_current {o : Observation ν}
    (ho : o ∈ factSources data d) (hknown : o.value?.isSome) : o ∈ reportSources data last := by
  have hreads : d.reads = _ := h.reads last List.getLast?_concat
  have hfeatures : d.observedFeatures = _ := h.features last List.getLast?_concat
  unfold factSources at ho
  unfold reportSources
  rw [List.append_assoc, List.mem_append, List.mem_append] at ho ⊢
  rcases ho with ho | ho | ho
  · obtain ⟨service, hservice, rfl⟩ := List.mem_map.mp ho
    obtain ⟨services, hvalue, told, htold, rfl⟩ := mem_currentServices h hservice
    refine .inl ?_
    rw [hvalue]
    dsimp only at hknown ⊢
    rw [settled_eq hknown]
    exact List.mem_map_of_mem htold
  · obtain ⟨read, hread, rfl⟩ := List.mem_map.mp ho
    rw [hreads] at hread
    exact .inr (.inl (List.mem_map_of_mem (List.mem_of_mem_take hread)))
  · rw [hfeatures] at ho
    exact .inr (.inr ho)

theorem adaptInventory_current {mappings : List FeatureFactMapping}
    {id : String} {adapted : AdaptedDevice ν} (ha : adaptInventory data mappings id d = .ok adapted) :
    Current data ("discovery:" ++ id) last adapted := by
  obtain ⟨hidentity, hservices, hresources, hfacts⟩ := adaptInventory_known ha
  have hinformation : d.information = _ := h.information_last
  have hreads : d.reads = _ := h.reads last List.getLast?_concat
  refine ⟨fun value hvalue => ?_, fun service hservice => ?_, fun service hservice read hread value hvalue => ?_,
    fun fact hfact value hvalue => ?_, fun resource hresource => ?_⟩
  · rw [hidentity] at hvalue ⊢
    have htells := observation_tells hvalue
    rw [hinformation] at htells ⊢
    exact htells.of_settled
  · rw [hservices] at hservice
    obtain ⟨held, hheld, rfl⟩ := List.mem_map.mp hservice
    obtain ⟨services, hvalue, told, htold, rfl⟩ := mem_currentServices h hheld
    refine ⟨services_evidence h, services, hvalue, told, htold, rfl, rfl, rfl, fun value hcapabilities => ?_⟩
    exact (adaptCapabilities_tells hcapabilities).of_settled
  · rw [hservices] at hservice
    obtain ⟨held, _, rfl⟩ := List.mem_map.mp hservice
    obtain ⟨native, hnative, rfl⟩ := List.mem_map.mp hread
    obtain ⟨told, htold, rfl⟩ := List.mem_map.mp (List.mem_of_mem_filter hnative)
    rw [hreads] at htold
    exact ⟨told, List.mem_of_mem_take htold, observation_tells hvalue⟩
  · exact (hfacts fact hfact value hvalue).mono fun o ho hknown => factSources_current h ho hknown
  · obtain ⟨member, hmember, rfl⟩ := hresources resource hresource
    refine ⟨member, rfl, fun hincoming => ?_⟩
    obtain ⟨incoming, hin, hk⟩ := hincoming
    obtain ⟨inventory, hinventory, hitem⟩ := List.mem_flatMap.mp hmember
    obtain ⟨item, hitems, rfl⟩ := List.mem_map.mp hitem
    obtain ⟨earlier, next, hnext, hkey, _, hsettled⟩ := h.resources_last hinventory hin hk
    rw [hsettled, settled_value] at hitems
    cases hvalue : next.outcome.value? with
    | none =>
      rw [hvalue] at hitems
      exact absurd hitems List.not_mem_nil
    | some items =>
      rw [hvalue] at hitems
      refine ⟨next, hnext, hkey, ?_, items, hvalue, item, hitems, rfl⟩
      exact hsettled.trans (settled_eq (by rw [settled_value, hvalue]; rfl))

end

end

/-- After each commit the device has the readings of its reports, and what is
published of it as known is of the last. -/
theorem readings_current (setting : Setting ν) (id : String) {l : Record ν}
    (h : ((Record.system setting id).when (Record.Fresh setting id)).Reachable l) {before : List (InspectionReport ν)}
    {last : InspectionReport ν} (hl : l.reports = before ++ [last]) : ∃ d, l.inventory.device id = some d ∧
      d.information = settled (before.map (·.information)) last.information ∧
      d.services = settled (servicesHistory [] before) (observedServices before last) ∧
      (∀ item ∈ d.resources, ∀ incoming ∈ last.resources, inventoryKey incoming = inventoryKey item →
        ∃ earlier, ∃ next ∈ last.resources, inventoryKey next = inventoryKey item ∧
          outcomesOf (inventoryKey item) (l.reports.flatMap (·.resources)) = earlier ++ [next.outcome] ∧
          item.outcome = settled earlier next.outcome) ∧
      d.reads = last.reads.take setting.bounds.maxRequestsPerInspection ∧
      d.observedFeatures = last.observedFeatures ∧
      ∀ (data : NativeData ν) mappings adapted, adaptInventory data mappings id d = .ok adapted →
        Current data ("discovery:" ++ id) last adapted := by
  obtain ⟨hnone, hrecorded⟩ := Record.sound_reachable setting id h
  cases hd : l.inventory.device id with
  | none =>
    have hreports := hnone (by rw [Inventory.readings, Inventory.seen, hd]; rfl)
    rw [hreports] at hl
    exact absurd (congrArg List.length hl) (by simp)
  | some d =>
    have hr := hrecorded d.readings (by rw [Inventory.readings, Inventory.seen, hd]; rfl)
    rw [hl] at hr ⊢
    exact ⟨d, rfl, hr.information_last, hr.services_last, fun item hitem incoming hin hk => hr.resources_last hitem hin hk,
      hr.reads last List.getLast?_concat, hr.features last List.getLast?_concat,
      fun data mappings adapted ha => adaptInventory_current hr ha⟩

-- A feature that is no longer known

def inspectedCamera : Setting Bool where
  bounds := plain.bounds
  staleMs := plain.staleMs
  departureGraceMs := plain.departureGraceMs
  approveXAddr := plain.approveXAddr
  endpointIdentity := plain.endpointIdentity
  fingerprint := plain.fingerprint
  assertJson _ _ := true

def cameraFeature (known : Bool) : FeatureObservation Bool where
  namespace_ := "http://www.onvif.org/ver10/events/wsdl"
  feature := "event-properties"
  outcome :=
    { result := if known then .known true else .missing .fault "NativeFault" "Native read failed" none, observedAt := 0 }

def cameraData : NativeData Bool where
  read known := ⟨"", "", "", "", "", (cameraFeature known).outcome⟩
  feature := cameraFeature
  resource known := ⟨"", [], none, known⟩
  isRecord _ := true
  jsonPointer _ _ := .ok none
  capabilities _ := none
  references _ _ := []

def featureReport (known : Bool) : InspectionReport Bool where
  information := unknown _ 0
  services := unknown _ 0
  scopes := unknown _ 0
  endpointReference := unknown _ 0
  reads := []
  resources := []
  observedFeatures := [known]
  identityEvidence := []
  completedAt := 0
  responsive := true
  truncated := false

theorem featureReport_fresh (known : Bool) : (featureReport known).Fresh :=
  ⟨rfl, rfl, nofun, fun _ h => absurd h List.not_mem_nil⟩

def inspecting : List (Int × Operation Bool) :=
  let a := hello "eth0" "urn:uuid:1" none
  [(0, .observe a.message a.message a.incoming), (1, .commitInspection ⟨"urn:uuid:camera", 0, 0⟩ (featureReport true)),
    (2, .commitInspection ⟨"urn:uuid:camera", 0, 0⟩ (featureReport false))]

def recorded (calls : List (Int × Operation Bool)) : Record Bool :=
  calls.foldl (Record.step inspectedCamera "urn:uuid:camera") { inventory := {} }

theorem commits_commit {setting : Setting ν} {now : Int} {s : Inventory ν} {id : String} {token : InspectionToken}
    {report committed : InspectionReport ν} (h : committed ∈ Watch.commits setting id now s (.commitInspection token report)) :
    committed = report := by
  unfold Watch.commits at h
  dsimp only at h
  split at h
  · exact (Option.some.inj h).symm
  · cases h

theorem recorded_reachable : ((Record.system inspectedCamera "urn:uuid:camera").when (Record.Fresh inspectedCamera "urn:uuid:camera")).Reachable
    (recorded inspecting) := by
  refine Lib.System.Reachable.foldl inspecting (fun call hcall l report hreport => ?_) _ (.start ⟨rfl, rfl⟩)
  rcases List.mem_cons.mp hcall with rfl | hcall
  · cases hreport
  · rcases List.mem_cons.mp hcall with rfl | hcall
    · exact commits_commit hreport ▸ featureReport_fresh true
    · obtain rfl := List.mem_singleton.mp hcall
      exact commits_commit hreport ▸ featureReport_fresh false

theorem recorded_reports : (recorded inspecting).reports = [featureReport true] ++ [featureReport false] := rfl

theorem recorded_features : ((recorded inspecting).inventory.device "urn:uuid:camera").map (·.observedFeatures) = some [false] := rfl

theorem readings_current_camera : ∃ d, (recorded inspecting).inventory.device "urn:uuid:camera" = some d ∧
    d.observedFeatures = [false] ∧ ∀ (data : NativeData Bool) mappings adapted,
      adaptInventory data mappings "urn:uuid:camera" d = .ok adapted →
        Current data ("discovery:" ++ "urn:uuid:camera") (featureReport false) adapted := by
  obtain ⟨d, hd, _, _, _, _, hfeatures, hcurrent⟩ := readings_current inspectedCamera "urn:uuid:camera" recorded_reachable recorded_reports
  exact ⟨d, hd, hfeatures, hcurrent⟩

/-- What was known of the feature before is not told with the failure. -/
theorem readings_unretained : ¬∀ (setting : Setting Bool) (data : NativeData Bool) (id : String) (l : Record Bool)
    (before : List (InspectionReport Bool)) (last : InspectionReport Bool) (d : Device Bool),
    ((Record.system setting id).when (Record.Fresh setting id)).Reachable l → l.reports = before ++ [last] →
    l.inventory.device id = some d → ∀ feature ∈ d.observedFeatures, (data.feature feature).outcome.value? = none →
      (data.feature feature).outcome.lastKnown =
        latest ((((before.flatMap (·.observedFeatures)).map data.feature).filter fun told =>
          told.namespace_ = (data.feature feature).namespace_ && told.feature = (data.feature feature).feature).map (·.outcome)) := by
  intro h
  obtain ⟨d, hd, hfeatures⟩ := Option.map_eq_some_iff.mp recorded_features
  have hlast := h inspectedCamera cameraData "urn:uuid:camera" (recorded inspecting) [featureReport true] (featureReport false) d
    recorded_reachable recorded_reports hd false (by rw [hfeatures]; exact List.mem_cons_self) rfl
  exact absurd hlast (by decide +kernel)

end WotAv.Publication
