import WotAv.Discovery.Readings

/-!
# What is known, and what was known

Over a run, the reports that are committed for a device are recorded. What the
device has of an observation is then the last of its record; where that one
does not know, with the latest of the earlier ones that did.
-/

namespace WotAv.Discovery

open WotAv.Lib

-- Histories of an observation

section
variable {α : Type}

def Observation.knowledge (o : Observation α) : Option (LastKnown α) :=
  o.value?.map fun value => ⟨value, o.observedAt, o.source⟩

def latest (history : List (Observation α)) : Option (LastKnown α) := history.reverse.findSome? Observation.knowledge

/-- The last of a history: if it does not know, with the latest of the earlier. -/
def settled (earlier : List (Observation α)) (o : Observation α) : Observation α := match o.result with
  | .known _ => o
  | .missing .. => { o with lastKnown := latest earlier }

def Held (history : List (Observation α)) (o : Observation α) : Prop :=
  ∃ earlier last, history = earlier ++ [last] ∧ o = settled earlier last

@[simp] theorem latest_nil : latest ([] : List (Observation α)) = none := rfl

@[simp] theorem latest_snoc (history : List (Observation α)) (o : Observation α) :
    latest (history ++ [o]) = o.knowledge.or (latest history) := by
  rw [latest, List.reverse_append, List.reverse_singleton, List.singleton_append, List.findSome?_cons]
  cases o.knowledge <;> rfl

@[simp] theorem latest_unknown (at_ : Int) (history : List (Observation α)) :
    latest (unknown α at_ :: history) = latest history := by
  have hunknown : (unknown α at_).knowledge = none := rfl
  rw [latest, List.reverse_cons, List.findSome?_append, List.findSome?_singleton, hunknown, Option.or_none]
  rfl

variable {o : Observation α}

theorem settled_of_known {value : α} (h : o.result = .known value) (earlier : List (Observation α)) :
    settled earlier o = o := by
  rw [settled, h]

theorem settled_of_missing (h : o.value? = none) (earlier : List (Observation α)) :
    settled earlier o = { o with lastKnown := latest earlier } := by
  obtain ⟨result, observedAt, source, lastKnown⟩ := o
  cases result with
  | known => cases h
  | missing => rfl

theorem settled_fresh (h : o.lastKnown = none) : settled [] o = o := by
  unfold settled
  split
  · rfl
  · obtain ⟨result, observedAt, source, lastKnown⟩ := o
    obtain rfl : lastKnown = none := h
    rfl

theorem retained_missing {previous next : Observation α} (hn : next.value? = none) (h : next.lastKnown = none) :
    retained previous next = { next with lastKnown := previous.knowledge.or previous.lastKnown } := by
  obtain ⟨result, observedAt, source, lastKnown⟩ := next
  obtain rfl : lastKnown = none := h
  obtain ⟨previous, previousAt, previousSource, previousKnown⟩ := previous
  cases result with
  | known => cases hn
  | missing => cases previous <;> cases previousKnown <;> rfl

theorem settled_known (earlier : List (Observation α)) (o : Observation α) :
    (settled earlier o).knowledge.or (settled earlier o).lastKnown = latest (earlier ++ [o]) := by
  rw [latest_snoc]
  obtain ⟨result, observedAt, source, lastKnown⟩ := o
  cases result <;> rfl

theorem retained_settled (earlier : List (Observation α)) (o : Observation α) {next : Observation α}
    (h : next.lastKnown = none) : retained (settled earlier o) next = settled (earlier ++ [o]) next := by
  cases hn : next.result with
  | known value =>
    unfold retained settled
    rw [hn]
  | missing status code message part =>
    have hvalue : next.value? = none := by rw [Observation.value?, hn]
    rw [retained_missing hvalue h, settled_known]
    unfold settled
    rw [hn]

theorem Held.retained {history : List (Observation α)} {o next : Observation α} (h : Held history o)
    (hn : next.lastKnown = none) : retained o next = settled history next := by
  obtain ⟨earlier, last, rfl, rfl⟩ := h
  exact retained_settled earlier last hn

theorem Held.of_settled (earlier : List (Observation α)) (o : Observation α) : Held (earlier ++ [o]) (settled earlier o) :=
  ⟨earlier, o, rfl, rfl⟩

theorem Held.fresh (h : o.lastKnown = none) : Held [o] o := ⟨[], o, rfl, (settled_fresh h).symm⟩

theorem Held.known {history : List (Observation α)} (h : Held history o) :
    o.value?.or (o.lastKnown.map (·.value)) = (latest history).map (·.value) := by
  obtain ⟨earlier, ⟨result, observedAt, source, lastKnown⟩, rfl, rfl⟩ := h
  rw [latest_snoc]
  cases result <;> rfl

end

variable {ν : Type}

-- Histories of services

def ServiceSnapshot.named (service : ServiceSnapshot ν) (item : ServiceSnapshot ν) : Bool :=
  item.namespace_ = service.namespace_ && item.xaddr = service.xaddr

/-- What the lists of services tell of a service's capabilities, since the last
list without it. -/
def capabilitiesOf (service : ServiceSnapshot ν) (reports : List (InspectionReport ν)) : List (Observation ν) :=
  reports.foldl (fun history report => match report.services.value? with
    | none => history
    | some services => match services.find? service.named with
      | some item => history ++ [item.capabilities]
      | none => []) []

def observedServices (earlier : List (InspectionReport ν)) (report : InspectionReport ν) :
    Observation (List (ServiceSnapshot ν)) := match report.services.result with
  | .known services => { report.services with result := .known (services.map fun service =>
      { service with capabilities := settled (capabilitiesOf service earlier) service.capabilities }) }
  | .missing .. => report.services

def servicesHistory : List (InspectionReport ν) → List (InspectionReport ν) → List (Observation (List (ServiceSnapshot ν)))
  | _, [] => []
  | earlier, report :: reports => observedServices earlier report :: servicesHistory (earlier ++ [report]) reports

theorem servicesHistory_snoc (earlier reports : List (InspectionReport ν)) (report : InspectionReport ν) :
    servicesHistory earlier (reports ++ [report]) =
      servicesHistory earlier reports ++ [observedServices (earlier ++ reports) report] := by
  induction reports generalizing earlier with
  | nil => simp [servicesHistory]
  | cons first reports ih => simp [servicesHistory, ih]

/-- What `inspect` returns holds nothing of earlier inspections. -/
structure InspectionReport.Fresh (report : InspectionReport ν) : Prop where
  information : report.information.lastKnown = none
  services : report.services.lastKnown = none
  capabilities : ∀ services, report.services.value? = some services → ∀ service ∈ services,
    service.capabilities.lastKnown = none
  resources : ∀ resource ∈ report.resources, resource.outcome.lastKnown = none

theorem capabilitiesOf_snoc (service : ServiceSnapshot ν) (reports : List (InspectionReport ν)) (report : InspectionReport ν) :
    capabilitiesOf service (reports ++ [report]) = match report.services.value? with
      | none => capabilitiesOf service reports
      | some services => match services.find? service.named with
        | some item => capabilitiesOf service reports ++ [item.capabilities]
        | none => [] := by
  rw [capabilitiesOf, List.foldl_append]
  rfl

theorem latest_capabilities (service : ServiceSnapshot ν) (reports : List (InspectionReport ν)) :
    match (((latest (servicesHistory [] reports)).map (·.value)).getD []).find? service.named with
    | some item => Held (capabilitiesOf service reports) item.capabilities
    | none => capabilitiesOf service reports = [] := by
  induction reports using List.reverseRecOn with
  | nil => rfl
  | append_singleton reports report ih =>
    rw [servicesHistory_snoc, List.nil_append, latest_snoc, capabilitiesOf_snoc]
    have hobserved : (observedServices reports report).knowledge = match report.services.result with
        | .known services => some ⟨services.map fun service =>
            { service with capabilities := settled (capabilitiesOf service reports) service.capabilities },
            report.services.observedAt, report.services.source⟩
        | .missing .. => none := by
      cases hr : report.services.result <;> simp [observedServices, Observation.knowledge, Observation.value?, hr]
    have hvalue : report.services.value? = match report.services.result with
        | .known services => some services
        | .missing .. => none := by
      cases hr : report.services.result <;> simp [Observation.value?, hr]
    rw [hobserved, hvalue]
    cases report.services.result with
    | missing => exact ih
    | known services =>
      have hfind : (services.map fun service =>
            { service with capabilities := settled (capabilitiesOf service reports) service.capabilities }).find? service.named =
          (services.find? service.named).map fun service =>
            { service with capabilities := settled (capabilitiesOf service reports) service.capabilities } := by
        rw [List.find?_map]
        rfl
      dsimp only [Option.some_or, Option.map_some, Option.getD_some]
      rw [hfind]
      cases hitem : services.find? service.named with
      | none => rfl
      | some item =>
        have hnamed := List.find?_some hitem
        have hsame : capabilitiesOf item reports = capabilitiesOf service reports := by
          have hpred : item.named = service.named := by
            unfold ServiceSnapshot.named at hnamed ⊢
            rw [Bool.and_eq_true, decide_eq_true_eq, decide_eq_true_eq] at hnamed
            rw [hnamed.1, hnamed.2]
          unfold capabilitiesOf
          rw [hpred]
        dsimp only [Option.map_some]
        rw [hsame]
        exact .of_settled _ _

theorem heldServices_observed {earlier : List (InspectionReport ν)} {report : InspectionReport ν} (at_ : Int)
    {o : Observation (List (ServiceSnapshot ν))} (h : Held (unknown _ at_ :: servicesHistory [] earlier) o) (hr : report.Fresh) :
    heldServices o report.services = settled (servicesHistory [] earlier) (observedServices earlier report) := by
  have hretained := h.retained hr.services
  have hknown := h.known
  rw [latest_unknown] at hknown
  unfold heldServices
  dsimp only
  rw [hknown, hretained]
  cases hresult : report.services.result with
  | missing status code message part =>
    have hvalue : report.services.value? = none := by rw [Observation.value?, hresult]
    have hobserved : observedServices earlier report = report.services := by rw [observedServices, hresult]
    rw [hobserved, settled_of_missing hvalue, settled_of_missing hvalue, latest_unknown]
    dsimp only
    rw [hresult]
  | known services =>
    have hvalue : report.services.value? = some services := by rw [Observation.value?, hresult]
    have hobserved : observedServices earlier report = { report.services with result := .known (services.map fun service =>
        { service with capabilities := settled (capabilitiesOf service earlier) service.capabilities }) } := by
      rw [observedServices, hresult]
    rw [hobserved, settled_of_known hresult, settled_of_known rfl, hresult]
    refine congrArg (fun services => ({ report.services with result := .known services } : Observation _)) ?_
    refine List.map_congr_left fun service hservice => ?_
    have hfresh := hr.capabilities services hvalue service hservice
    have hcapabilities := latest_capabilities service earlier
    change (match (((latest (servicesHistory [] earlier)).map (·.value)).getD []).find? service.named with
      | some previous => { service with capabilities := retained previous.capabilities service.capabilities }
      | none => service) = _
    generalize (((latest (servicesHistory [] earlier)).map (·.value)).getD []).find? service.named = found at hcapabilities ⊢
    cases found with
    | some previous => exact congrArg (fun capabilities => { service with capabilities }) (hcapabilities.retained hfresh)
    | none =>
      dsimp only at hcapabilities ⊢
      rw [hcapabilities, settled_fresh hfresh]

-- Histories of resources

def outcomesOf (key : String × String × ResourceKind) (named : List (ResourceInventory ν)) : List (Observation (List ν)) :=
  (named.filter fun resource => inventoryKey resource = key).map (·.outcome)

theorem outcomesOf_snoc (key : String × String × ResourceKind) (named : List (ResourceInventory ν))
    (incoming : ResourceInventory ν) :
    outcomesOf key (named ++ [incoming]) =
      outcomesOf key named ++ if inventoryKey incoming = key then [incoming.outcome] else [] := by
  unfold outcomesOf
  by_cases h : inventoryKey incoming = key <;> simp [h]

structure Merged (limit : ℕ) (named resources : List (ResourceInventory ν)) : Prop where
  keys : (resources.map inventoryKey).Nodup
  held : ∀ item ∈ resources, Held (outcomesOf (inventoryKey item) named) item.outcome
  /-- Those that were not kept came too late. -/
  kept : ∀ incoming ∈ named, inventoryKey incoming ∈ resources.map inventoryKey ∨ limit ≤ resources.length

theorem modify_found {α κ : Type} [DecidableEq κ] {key : α → κ} (f : α → α) (k : κ) :
    ∀ {l : List α} {index : ℕ}, (l.map key).Nodup → l.findIdx? (fun item => key item = k) = some index →
      l.modify index f = l.map fun item => if key item = k then f item else item
  | [], _, _, h => by simp at h
  | item :: l, index, hn, h => by
    obtain ⟨hnot, hn⟩ := List.nodup_cons.mp hn
    rw [List.findIdx?_cons] at h
    by_cases hk : key item = k
    · rw [if_pos (by simpa using hk)] at h
      obtain rfl := Option.some.inj h
      have hrest : l.map (fun item => if key item = k then f item else item) = l := by
        refine (List.map_congr_left fun other hother => if_neg ?_).trans (List.map_id l)
        rintro rfl
        exact hnot (hk ▸ List.mem_map_of_mem hother)
      simp [hk, hrest]
    · rw [if_neg (by simpa using hk)] at h
      obtain ⟨before, hbefore, rfl⟩ := Option.map_eq_some_iff.mp h
      simp [hk, modify_found f k hn hbefore]

theorem Merged.nil {limit : ℕ} : Merged limit ([] : List (ResourceInventory ν)) [] :=
  ⟨List.nodup_nil, fun _ h => absurd h List.not_mem_nil, fun _ h => absurd h List.not_mem_nil⟩

variable {named resources : List (ResourceInventory ν)}

theorem Merged.snoc {limit : ℕ} (h : Merged limit named resources)
    {incoming : ResourceInventory ν} (hf : incoming.outcome.lastKnown = none) :
    Merged limit (named ++ [incoming]) (mergeOutcome limit resources incoming) := by
  have hother (item : ResourceInventory ν) (hitem : item ∈ resources) (hk : inventoryKey incoming ≠ inventoryKey item) :
      Held (outcomesOf (inventoryKey item) (named ++ [incoming])) item.outcome := by
    rw [outcomesOf_snoc, if_neg hk, List.append_nil]
    exact h.held item hitem
  unfold mergeOutcome
  split
  · rename_i index hindex
    rw [modify_found _ _ h.keys hindex]
    have hkeys : (resources.map fun item => if inventoryKey item = inventoryKey incoming then
        { item with outcome := retained item.outcome incoming.outcome } else item).map inventoryKey =
          resources.map inventoryKey := by
      rw [List.map_map]
      refine List.map_congr_left fun item _ => ?_
      rw [Function.comp_apply]
      split <;> rfl
    obtain ⟨hlt, hkey, _⟩ := List.findIdx?_eq_some_iff_getElem.mp hindex
    have hmem : inventoryKey incoming ∈ resources.map inventoryKey :=
      List.mem_map.mpr ⟨resources[index], List.getElem_mem hlt, by simpa using hkey⟩
    refine ⟨hkeys ▸ h.keys, fun item hitem => ?_, fun other hother => ?_⟩
    · obtain ⟨before, hbefore, rfl⟩ := List.mem_map.mp hitem
      split
      · rename_i hk
        change Held (outcomesOf (inventoryKey before) (named ++ [incoming])) (retained before.outcome incoming.outcome)
        rw [outcomesOf_snoc, if_pos hk.symm, (h.held before hbefore).retained hf]
        exact .of_settled _ _
      · rename_i hk
        exact hother before hbefore (Ne.symm hk)
    · rw [hkeys, List.length_map]
      rcases List.mem_append.mp hother with hother | hother
      · exact h.kept other hother
      · obtain rfl := List.mem_singleton.mp hother
        exact .inl hmem
  · rename_i hindex
    have hnot : inventoryKey incoming ∉ resources.map inventoryKey := by
      intro hmem
      obtain ⟨item, hitem, hk⟩ := List.mem_map.mp hmem
      have := List.findIdx?_eq_none_iff.mp hindex item hitem
      simp [hk] at this
    have hapart (item : ResourceInventory ν) (hitem : item ∈ resources) : inventoryKey incoming ≠ inventoryKey item :=
      fun hk => hnot (hk ▸ List.mem_map_of_mem hitem)
    split
    · rename_i hlt
      refine ⟨?_, fun item hitem => ?_, fun other hother => .inl ?_⟩
      · rw [List.map_append, List.nodup_append]
        refine ⟨h.keys, List.nodup_singleton _, fun a ha b hb => ?_⟩
        rintro rfl
        rw [List.map_singleton, List.mem_singleton] at hb
        exact hnot (hb ▸ ha)
      · rcases List.mem_append.mp hitem with hitem | hitem
        · exact hother item hitem (hapart item hitem)
        · obtain rfl := List.mem_singleton.mp hitem
          have hnone : outcomesOf (inventoryKey item) named = [] := by
            rw [outcomesOf, List.map_eq_nil_iff, List.filter_eq_nil_iff]
            intro other hother hk
            rcases h.kept other hother with hmem | hle
            · exact hnot (of_decide_eq_true hk ▸ hmem)
            · omega
          rw [outcomesOf_snoc, if_pos rfl, hnone, List.nil_append]
          exact .fresh hf
      · rw [List.map_append, List.mem_append, List.map_singleton, List.mem_singleton]
        rcases List.mem_append.mp hother with hother | hother
        · rcases h.kept other hother with hmem | hle
          · exact .inl hmem
          · omega
        · obtain rfl := List.mem_singleton.mp hother
          exact .inr rfl
    · rename_i hfull
      exact ⟨h.keys, fun item hitem => hother item hitem (hapart item hitem), fun other _ => .inr (by omega)⟩

theorem Merged.append {limit : ℕ} (h : Merged limit named resources)
    {incoming : List (ResourceInventory ν)} (hf : ∀ resource ∈ incoming, resource.outcome.lastKnown = none) :
    Merged limit (named ++ incoming) (incoming.foldl (mergeOutcome limit) resources) := by
  induction incoming generalizing named resources with
  | nil => simpa using h
  | cons resource incoming ih =>
    have hrest := ih (h.snoc (hf resource List.mem_cons_self)) fun other hother => hf other (List.mem_cons_of_mem _ hother)
    rwa [List.append_assoc, List.singleton_append] at hrest

-- Runs

structure Recorded (setting : Setting ν) (reports : List (InspectionReport ν)) (r : Readings ν) : Prop where
  information : ∃ at_, Held (unknown _ at_ :: reports.map (·.information)) r.information
  services : ∃ at_, Held (unknown _ at_ :: servicesHistory [] reports) r.services
  resources : Merged (setting.bounds.maxServices * 16) (reports.flatMap (·.resources)) r.resources
  reads : ∀ last ∈ reports.getLast?, r.reads = last.reads.take setting.bounds.maxRequestsPerInspection
  features : ∀ last ∈ reports.getLast?, r.observedFeatures = last.observedFeatures

theorem Recorded.new (setting : Setting ν) (now : Int) : Recorded setting [] (.new now) :=
  ⟨⟨now, .fresh rfl⟩, ⟨now, .fresh rfl⟩, .nil, by simp, by simp⟩

theorem Recorded.inspected {setting : Setting ν} {reports : List (InspectionReport ν)} {r : Readings ν}
    (h : Recorded setting reports r) {report : InspectionReport ν} (hf : report.Fresh) :
    Recorded setting (reports ++ [report]) (r.inspected setting report) where
  information := by
    obtain ⟨at_, hheld⟩ := h.information
    refine ⟨at_, ?_⟩
    rw [Readings.inspected, hheld.retained hf.information, List.map_append, ← List.cons_append]
    exact .of_settled _ _
  services := by
    obtain ⟨at_, hheld⟩ := h.services
    refine ⟨at_, ?_⟩
    rw [Readings.inspected, heldServices_observed at_ hheld hf, servicesHistory_snoc]
    refine ⟨unknown _ at_ :: servicesHistory [] reports, observedServices reports report, rfl, ?_⟩
    unfold settled
    rw [latest_unknown]
  resources := by
    rw [List.flatMap_append, List.flatMap_singleton]
    exact h.resources.append hf.resources
  reads := by
    rintro last hlast
    rw [List.getLast?_append, List.getLast?_singleton, Option.some_or, Option.mem_some_iff] at hlast
    rw [← hlast]
    rfl
  features := by
    rintro last hlast
    rw [List.getLast?_append, List.getLast?_singleton, Option.some_or, Option.mem_some_iff] at hlast
    rw [← hlast]
    rfl

structure Record (ν : Type) where
  inventory : Inventory ν
  reports : List (InspectionReport ν) := []

namespace Record

variable (setting : Setting ν) (id : String)

def step (l : Record ν) (call : Int × Operation ν) : Record ν where
  inventory := operate setting call.1 l.inventory call.2
  reports := l.reports ++ (Watch.commits setting id call.1 l.inventory call.2).toList

def init (l : Record ν) : Prop := l.inventory.device id = none ∧ l.reports = []

def system : System (Record ν) (Int × Operation ν) := .ofFun (init id) (step setting id)

def Fresh (l : Record ν) (call : Int × Operation ν) : Prop :=
  ∀ report ∈ Watch.commits setting id call.1 l.inventory call.2, report.Fresh

def Sound (l : Record ν) : Prop :=
  (l.inventory.readings id = none → l.reports = []) ∧ ∀ r ∈ l.inventory.readings id, Recorded setting l.reports r

theorem sound_init {l : Record ν} (h : init id l) : l.Sound setting id := by
  obtain ⟨hd, hreports⟩ := h
  have hnone : l.inventory.readings id = none := by rw [Inventory.readings, Inventory.seen, hd]; rfl
  refine ⟨fun _ => hreports, fun r hr => ?_⟩
  rw [hnone] at hr
  cases hr

theorem sound_step {l : Record ν} (h : l.Sound setting id) {call : Int × Operation ν} (hf : l.Fresh setting id call) :
    (l.step setting id call).Sound setting id := by
  have hoperate := operate_readings setting call.1 l.inventory call.2 id
  unfold Fresh at hf
  unfold step
  split at hoperate
  · rename_i report hcommits
    rw [hcommits] at hf ⊢
    refine ⟨fun hnone => ?_, fun r hr => ?_⟩
    · rw [hoperate] at hnone
      cases hnone
    · obtain rfl := Option.some.inj (hoperate.symm.trans hr)
      refine Recorded.inspected ?_ (hf report rfl)
      cases hprior : l.inventory.readings id with
      | none =>
        rw [h.1 hprior]
        exact .new setting call.1
      | some prior => exact h.2 prior hprior
  · rename_i hcommits
    rw [hcommits, Option.toList_none, List.append_nil]
    rcases hoperate with hsame | ⟨hnone, hnew⟩
    · unfold Sound
      dsimp only
      rw [hsame]
      exact h
    · refine ⟨fun _ => h.1 hnone, fun r hr => ?_⟩
      obtain rfl := Option.some.inj (hnew.symm.trans hr)
      dsimp only
      rw [h.1 hnone]
      exact .new setting call.1

theorem sound_reachable {l : Record ν} (h : ((system setting id).when (Fresh setting id)).Reachable l) : l.Sound setting id :=
  h.invariant (fun _ => sound_init setting id) fun _ _ _ hs hstep => by
    obtain ⟨hf, rfl⟩ := hstep
    exact sound_step setting id hs hf

end Record

-- After a commit

theorem Held.latest_report {α : Type} {history : List (Observation α)} {next o : Observation α} {at_ : Int}
    (h : Held (unknown _ at_ :: (history ++ [next])) o) : o = settled history next := by
  obtain ⟨earlier, final, heq, rfl⟩ := h
  rw [← List.cons_append] at heq
  obtain ⟨rfl, hfinal⟩ := List.append_inj' heq rfl
  obtain rfl := List.singleton_inj.mp hfinal
  unfold settled
  rw [latest_unknown]

section
variable {setting : Setting ν} {before : List (InspectionReport ν)} {last : InspectionReport ν} {r : Readings ν}

section
variable (h : Recorded setting (before ++ [last]) r)
include h

theorem Recorded.information_last :
    r.information = settled (before.map (·.information)) last.information := by
  obtain ⟨at_, hheld⟩ := h.information
  rw [List.map_append] at hheld
  exact hheld.latest_report

theorem Recorded.services_last :
    r.services = settled (servicesHistory [] before) (observedServices before last) := by
  obtain ⟨at_, hheld⟩ := h.services
  rw [servicesHistory_snoc] at hheld
  exact hheld.latest_report

theorem Recorded.resources_last {item incoming : ResourceInventory ν}
    (hitem : item ∈ r.resources) (hin : incoming ∈ last.resources) (hk : inventoryKey incoming = inventoryKey item) :
    ∃ earlier, ∃ next ∈ last.resources, inventoryKey next = inventoryKey item ∧
      outcomesOf (inventoryKey item) ((before ++ [last]).flatMap (·.resources)) = earlier ++ [next.outcome] ∧
      item.outcome = settled earlier next.outcome := by
  obtain ⟨earlier, final, heq, hsettled⟩ := h.resources.held item hitem
  have hmem : final ∈ outcomesOf (inventoryKey item) last.resources := by
    have hsplit : outcomesOf (inventoryKey item) ((before ++ [last]).flatMap (·.resources)) =
        outcomesOf (inventoryKey item) (before.flatMap (·.resources)) ++ outcomesOf (inventoryKey item) last.resources := by
      simp [outcomesOf]
    have hne : outcomesOf (inventoryKey item) last.resources ≠ [] := by
      have hincoming : incoming.outcome ∈ outcomesOf (inventoryKey item) last.resources :=
        List.mem_map_of_mem (List.mem_filter.mpr ⟨hin, decide_eq_true hk⟩)
      exact List.ne_nil_of_mem hincoming
    have hlast := congrArg List.getLast? (hsplit.symm.trans heq)
    rw [List.getLast?_append, List.getLast?_append, List.getLast?_singleton, Option.some_or,
      List.getLast?_eq_some_getLast hne, Option.some_or] at hlast
    exact Option.some.inj hlast ▸ List.getLast_mem hne
  obtain ⟨next, hnext, rfl⟩ := List.mem_map.mp hmem
  obtain ⟨hnext, hkey⟩ := List.mem_filter.mp hnext
  exact ⟨earlier, next, hnext, of_decide_eq_true hkey, heq, hsettled⟩

end

end

end WotAv.Discovery
