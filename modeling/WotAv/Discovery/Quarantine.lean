import WotAv.Discovery.Announcements
import WotAv.Discovery.Inspection

/-!
# What an inspection may change

Tokens, quarantine and verification, over any order of announcements,
inspections, seeds and reconciliations.
-/

namespace WotAv.Discovery

variable {ν : Type} {setting : Setting ν} {now : Int} {s s' s'' : Inventory ν} {id other : String} {d : Device ν}

-- A report

structure Inspected (a b : Device ν) : Prop where
  ordering : a.ordering = b.ordering
  epoch : a.epoch = b.epoch
  generation : a.inspectionGeneration = b.inspectionGeneration
  version : a.metadataVersion = b.metadataVersion
  xaddrs : a.endpoints.map (·.xaddr) = b.endpoints.map (·.xaddr)
  present : b.state = .departed → a.state = .departed
  identityConflict : a.identityConflict = b.identityConflict

theorem Inspected.rfl' (d : Device ν) : Inspected d d := ⟨rfl, rfl, rfl, rfl, rfl, fun h => h, rfl⟩

theorem Inspected.trans (a b c : Device ν) (h : Inspected a b) (h' : Inspected b c) : Inspected a c :=
  ⟨h.ordering.trans h'.ordering, h.epoch.trans h'.epoch, h.generation.trans h'.generation, h.version.trans h'.version,
    h.xaddrs.trans h'.xaddrs, fun hd => h.present (h'.present hd), h.identityConflict.trans h'.identityConflict⟩

variable {a b : Device ν}

theorem Inspected.of_summary (h : a.summary = b.summary) : Inspected a b := by
  simp only [Device.summary, Prod.mk.injEq] at h
  obtain ⟨ho, he, hg, hv, hx, hs, hi, _⟩ := h
  exact ⟨ho, he, hg, hv, hx, fun hd => hs.trans hd, hi⟩

theorem Inspected.evolves (h : Inspected a b) (ha : a.identityConflict = false) :
    Evolves false a b := by
  have hversion : a.version = b.version := by rw [Device.version, Device.version, h.version]
  exact ⟨.of_eq h.ordering h.epoch hversion.le, h.generation.le, fun _ _ => ⟨h.epoch, h.version, h.xaddrs, h.present⟩,
    fun hq => by simp [ha] at hq⟩

def Device.listed (d : Device ν) :=
  (d.information, d.services, d.reads, d.resources, d.observedFeatures, d.scopes, d.claims, d.verifiedAt, d.registryEvidence)

def Beside (a b : Device ν) : Prop := a.summary = b.summary ∧ a.listed = b.listed

theorem Beside.rfl' (d : Device ν) : Beside d d := ⟨rfl, rfl⟩

theorem Beside.trans (a b c : Device ν) (h : Beside a b) (h' : Beside b c) : Beside a c :=
  ⟨h.1.trans h'.1, h.2.trans h'.2⟩

theorem Same.beside (h : Same a b) : Beside a b := by
  refine ⟨SameBare.summary (Same.bare _ _ h), ?_⟩
  change (core a).listed = (core b).listed
  rw [show core a = core b from h]

section
variable {R : Device ν → Device ν → Prop} (hr : ∀ d, R d d) (ht : ∀ a b c, R a b → R b c → R a c) (hs : ∀ a b, Same a b → R a b)
include hr ht hs

theorem collectEvidence_at (hf : id = other → ∀ d evidence, R d { d with identityEvidence := evidence })
    (incoming : List IdentityEvidence) (s : Inventory ν) (conflict : Bool) :
    At id R s (collectEvidence setting now other incoming (s, conflict)).1 := by
  induction incoming generalizing s conflict with
  | nil => exact .refl hr
  | cons evidence incoming ih =>
    unfold collectEvidence
    split
    · exact .refl hr
    · dsimp only
      split
      · exact ih _ _
      · split
        · exact ((diagnostic_same _ _ _ _ _).mono hs).trans ht (ih _ _)
        · have hpushed (f : Device ν → List IdentityEvidence) (s : Inventory ν) :
              At id R s (s.modify other fun d => { d with identityEvidence := f d }) := .modify hr fun h d _ => hf h d _
          split
          · exact (hpushed _ s).trans ht (ih _ _)
          · exact (((hpushed _ s).trans ht (hpushed _ _)).trans ht ((diagnostic_same _ _ _ _ _).mono hs)).trans ht (ih _ _)

theorem applyReport_at (report : InspectionReport ν) (hreads : id = other → ∀ d, R d (retainReads setting report d))
    (hresources : id = other → ∀ d resources, R d { d with resources })
    (hconclude : id = other → ∀ d, R d (concludeReport setting report d)) (s : Inventory ν) :
    At id R s (applyReport setting now s other report) := by
  have hmerge (s : Inventory ν) (incoming : ResourceInventory ν) : At id R s (mergeResource setting now other s incoming) := by
    unfold mergeResource
    split
    · exact .refl hr
    · split
      · exact .modify hr fun h d _ => hresources h d _
      · split
        · exact .modify hr fun h d _ => hresources h d _
        · exact (diagnostic_same _ _ _ _ _).mono hs
  unfold applyReport
  refine ((At.modify hr fun h d _ => hreads h d).trans ht (foldl_at hr ht hmerge report.resources _)).trans ht ?_
  exact (At.modify hr fun h d _ => hconclude h d).trans ht (.of_eq hr rfl)

end

def Refused (a b : Device ν) : Prop :=
  a.listed = b.listed ∧ (a.summary = b.summary ∨ a.identityConflict = false ∧ (quarantine a).summary = b.summary)

theorem Beside.refused (h : Beside a b) : Refused a b := ⟨h.2, .inl h.1⟩

theorem Refused.evolves (h : Refused a b) : Evolves false a b := by
  rcases h.2 with h | ⟨hi, h⟩
  · exact (Moves.of_summary h).toEvolves
  · have hq : Evolves false a (quarantine a) := by
      refine ⟨.of_eq rfl rfl le_rfl, le_rfl, fun _ _ => ⟨rfl, rfl, rfl, nofun⟩, fun ha => ?_⟩
      rw [hi] at ha
      cases ha
    exact hq.trans (Moves.of_summary (x := false) h).toEvolves

def Accepted (complete : Bool) (a b : Device ν) : Prop := Inspected a b ∧ (b.state = .verified → a.state = .verified ∨ complete)

variable {complete : Bool}

theorem Accepted.rfl' (d : Device ν) : Accepted complete d d := ⟨.rfl' d, .inl⟩

theorem Accepted.trans (a b c : Device ν) (h : Accepted complete a b)
    (h' : Accepted complete b c) :
    Accepted complete a c :=
  ⟨h.1.trans _ _ _ h'.1, fun hv => (h'.2 hv).elim h.2 .inr⟩

theorem Beside.accepted (h : Beside a b) : Accepted complete a b := by
  refine ⟨.of_summary h.1, fun hv => .inl ?_⟩
  have := h.1
  simp only [Device.summary, Prod.mk.injEq] at this
  exact this.2.2.2.2.2.1.trans hv

theorem concludeReport_accepted (report : InspectionReport ν) (d : Device ν) :
    Accepted report.complete d (concludeReport setting report d) := by
  unfold concludeReport
  cases report.scopes.value? <;> cases hc : report.complete <;> cases report.responsive <;>
    exact ⟨⟨rfl, rfl, rfl, rfl, rfl, by simp [Device.updateRegistryEvidence], rfl⟩, by simp [Device.updateRegistryEvidence]⟩

theorem retainReads_accepted (report : InspectionReport ν) (d : Device ν) :
    Accepted complete d (retainReads setting report d) := by
  unfold retainReads Device.retainServices
  dsimp only
  split <;> exact ⟨⟨rfl, rfl, rfl, rfl, rfl, fun h => h, rfl⟩, .inl⟩

theorem applyReport_accepted (report : InspectionReport ν) (s : Inventory ν) :
    At id (Accepted report.complete) s (applyReport setting now s other report) :=
  applyReport_at Accepted.rfl' Accepted.trans (fun _ _ h => h.beside.accepted) report (fun _ d => retainReads_accepted report d)
    (fun _ _ _ => ⟨⟨rfl, rfl, rfl, rfl, rfl, fun h => h, rfl⟩, .inl⟩) (fun _ d => concludeReport_accepted report d) s

theorem quarantine_refused (hd : s.device other = some d) (hi : d.identityConflict = false)
    (h : At other Beside s s')
    (code text : String) :
    Onward other Refused s (diagnostic setting now (s'.modify other quarantine) code text (some other)) := by
  intro a ha
  obtain rfl := Option.some.inj (hd.symm.trans ha)
  obtain ⟨b, hb, hbeside⟩ := h.1 d hd
  obtain ⟨c, hc, hsame⟩ := (diagnostic_same _ code text (some other) false).1 _ (device_modify_self hb quarantine)
  have hbc := hsame.beside
  refine ⟨c, hc, hbeside.2.trans hbc.2, .inr ⟨hi, ?_⟩⟩
  have := hbeside.1
  simp only [Device.summary, Prod.mk.injEq] at this
  obtain ⟨ho, he, hg, hv, hx, _, _, hconfirmed⟩ := this
  refine Eq.trans ?_ hbc.1
  simp only [Device.summary, quarantine, ho, he, hg, hv, hx]
  exact congrArg _ (congrArg _ (congrArg _ (congrArg _ (congrArg _ (congrArg _ (congrArg _ hconfirmed))))))

theorem addIdentityEvidence_beside (incoming : List IdentityEvidence) (s : Inventory ν)
    (h : (addIdentityEvidence setting now s other incoming).2) :
    At id Beside s (addIdentityEvidence setting now s other incoming).1 := by
  have hcollect : At id Beside s (collectEvidence setting now other incoming (s, false)).1 :=
    collectEvidence_at Beside.rfl' Beside.trans (fun _ _ => Same.beside) (fun _ _ _ => ⟨rfl, rfl⟩) incoming s false
  unfold addIdentityEvidence at h ⊢
  generalize collectEvidence setting now other incoming (s, false) = collected at h hcollect ⊢
  dsimp only at h ⊢
  split at h
  · cases h
  · rename_i hc
    rw [if_neg hc]
    exact hcollect

theorem addIdentityEvidence_refused (incoming : List IdentityEvidence) (hd : s.device other = some d)
    (hi : d.identityConflict = false) (h : (addIdentityEvidence setting now s other incoming).2 = false) :
    Onward other Refused s (addIdentityEvidence setting now s other incoming).1 := by
  have hcollect : At other Beside s (collectEvidence setting now other incoming (s, false)).1 :=
    collectEvidence_at Beside.rfl' Beside.trans (fun _ _ => Same.beside) (fun _ _ _ => ⟨rfl, rfl⟩) incoming s false
  unfold addIdentityEvidence at h ⊢
  generalize collectEvidence setting now other incoming (s, false) = collected at h hcollect ⊢
  dsimp only at h ⊢
  split at h
  · rename_i hc
    rw [if_pos hc]
    exact quarantine_refused hd hi hcollect _ _
  · cases h

theorem commitInspection_cases (setting : Setting ν) (now : Int) (s : Inventory ν) (token : InspectionToken)
    (report : InspectionReport ν) :
    ((commitInspection setting now s token report).2 = false ∧
      Onward token.deviceId Refused s (commitInspection setting now s token report).1) ∨
    ((commitInspection setting now s token report).2 = true ∧ ∃ d, s.device token.deviceId = some d ∧
      token.epoch = d.epoch ∧ token.generation = d.inspectionGeneration ∧ d.identityConflict = false ∧
      (∀ endpoint, report.endpointReference.value? = some endpoint → setting.endpointIdentity endpoint = token.deviceId) ∧
      Onward token.deviceId (Accepted report.complete) s (commitInspection setting now s token report).1) := by
  have hdiagnostic (code text : String) : Onward token.deviceId Refused s (diagnostic setting now s code text (some token.deviceId)) :=
    (diagnostic_same _ _ _ _ _).1.mono fun _ _ h => h.beside.refused
  unfold commitInspection
  dsimp only
  split
  · exact .inl ⟨rfl, hdiagnostic _ _⟩
  · rename_i d hfound
    obtain ⟨hd, hmatch⟩ := Option.filter_eq_some_iff.mp hfound
    rw [Bool.and_eq_true, decide_eq_true_eq, decide_eq_true_eq] at hmatch
    split
    · exact .inl ⟨rfl, hdiagnostic _ _⟩
    · rename_i hi
      rw [Bool.not_eq_true] at hi
      split
      · exact .inl ⟨rfl, quarantine_refused hd hi (.refl Beside.rfl') _ _⟩
      · rename_i hidentity
        split
        · rename_i hevidence
          exact .inl ⟨rfl, addIdentityEvidence_refused _ hd hi (by simpa using hevidence)⟩
        · rename_i hevidence
          rw [not_not] at hevidence
          have hbeside : At token.deviceId Beside s
              (addIdentityEvidence setting now s token.deviceId report.identityEvidence).1 := addIdentityEvidence_beside _ s hevidence
          have happlied : At token.deviceId (Accepted report.complete) s (applyReport setting now
              (addIdentityEvidence setting now s token.deviceId report.identityEvidence).1 token.deviceId report) :=
            (hbeside.mono fun _ _ => Beside.accepted).trans Accepted.trans (applyReport_accepted report _)
          split
          · refine .inl ⟨rfl, fun a ha => ?_⟩
            obtain rfl := Option.some.inj (hd.symm.trans ha)
            obtain ⟨b, hb, _⟩ := happlied.1 d hd
            obtain ⟨c, hc, hsame⟩ := (diagnostic_same _ _ _ _ _).1 _ (device_modify_self hb fun _ => d)
            exact ⟨c, hc, hsame.beside.refused⟩
          · refine .inr ⟨rfl, d, hd, hmatch.1, hmatch.2, hi, fun endpoint he => ?_, happlied.1⟩
            simpa [he] using hidentity

theorem commitInspection_other (setting : Setting ν) (now : Int) (s : Inventory ν) (token : InspectionToken)
    (report : InspectionReport ν) (hid : id ≠ token.deviceId) :
    At id Same s (commitInspection setting now s token report).1 := by
  have hevidence (s : Inventory ν) :
      At id Same s (addIdentityEvidence setting now s token.deviceId report.identityEvidence).1 := by
    have hcollect : At id Same s (collectEvidence setting now token.deviceId report.identityEvidence (s, false)).1 :=
      collectEvidence_at Same.rfl' Same.trans (fun _ _ h => h) (fun h => absurd h hid) _ s false
    unfold addIdentityEvidence
    generalize collectEvidence setting now token.deviceId report.identityEvidence (s, false) = collected at hcollect ⊢
    dsimp only
    split
    · exact (hcollect.trans Same.trans (modify_other hid _ _)).trans Same.trans (diagnostic_same _ _ _ _ _)
    · exact hcollect
  have happlied (s : Inventory ν) : At id Same s (applyReport setting now s token.deviceId report) :=
    applyReport_at Same.rfl' Same.trans (fun _ _ h => h) report (fun h => absurd h hid) (fun h => absurd h hid)
      (fun h => absurd h hid) s
  unfold commitInspection
  dsimp only
  split
  · exact diagnostic_same _ _ _ _ _
  · split
    · exact diagnostic_same _ _ _ _ _
    · split
      · exact (modify_other hid _ _).trans Same.trans (diagnostic_same _ _ _ _ _)
      · split
        · exact hevidence s
        · have hboth := (hevidence s).trans Same.trans (happlied _)
          split
          · exact (hboth.trans Same.trans (modify_other hid _ _)).trans Same.trans (diagnostic_same _ _ _ _ _)
          · exact hboth.trans Same.trans (.of_eq Same.rfl' rfl)

theorem commitInspection_evolves (setting : Setting ν) (now : Int) (s : Inventory ν) (token : InspectionToken)
    (report : InspectionReport ν) : Onward id (Evolves false) s (commitInspection setting now s token report).1 := by
  by_cases hid : id = token.deviceId
  · subst hid
    rcases commitInspection_cases setting now s token report with ⟨_, h⟩ | ⟨_, d, hd, _, _, hi, _, h⟩
    · exact h.mono fun _ _ => Refused.evolves
    · intro a ha
      obtain rfl := Option.some.inj (hd.symm.trans ha)
      obtain ⟨b, hb, hab⟩ := h d hd
      exact ⟨b, hb, hab.1.evolves hi⟩
  · exact (commitInspection_other setting now s token report hid).1.mono fun _ _ h => h.moves.toEvolves

-- Steps

inductive Step (ν : Type)
  | observe (a : Announcement)
  | beginInspection (id : String)
  | commitInspection (now : Int) (token : InspectionToken) (report : InspectionReport ν)
  | inspectSeed (now : Int) (seedId : String) (report : InspectionReport ν) (incoming : Provenance)
  | reconcile (now : Int)

def step (setting : Setting ν) (s : Inventory ν) : Step ν → Inventory ν
  | .observe a => (heard setting s a).1
  | .beginInspection id => match s.device id with
    | none => s
    | some d => (beginInspection s id d).1
  | .commitInspection now token report => (commitInspection setting now s token report).1
  | .inspectSeed now seedId report incoming => match s.seed seedId with
    | none => s
    | some seed => (inspectSeed setting now s seedId seed report incoming).1
  | .reconcile now => reconcile setting now s

def begins (setting : Setting ν) (s : Inventory ν) (id : String) : Step ν → Bool
  | .beginInspection id' => id' = id && (s.device id).isSome
  | .inspectSeed now seedId report incoming => match s.seed seedId with
    | none => false
    | some seed => ((approach setting now s seedId seed report incoming).2.map (·.1)) = some id
  | _ => false

def verifies (setting : Setting ν) (s : Inventory ν) (id : String) : Step ν → Prop
  | .commitInspection now token report => token.deviceId = id ∧ report.complete ∧
      (∀ endpoint, report.endpointReference.value? = some endpoint → setting.endpointIdentity endpoint = id) ∧
      (commitInspection setting now s token report).2
  | .inspectSeed now seedId report incoming => report.complete ∧
      (∀ endpoint, report.endpointReference.value? = some endpoint → setting.endpointIdentity endpoint = id) ∧
      ∃ seed, s.seed seedId = some seed ∧ (inspectSeed setting now s seedId seed report incoming).2 = some id
  | _ => False

theorem Moves.begun {x : Bool} (h : Moves x a b) :
    Moves false a { b with inspectionGeneration := b.inspectionGeneration + 1 } where
  ordered := ⟨h.ordered.instances, h.ordered.marks, h.ordered.versions, h.ordered.epochs, h.ordered.reboots⟩
  generation := h.generation.trans (Nat.le_succ _)
  still _ hg := by
    have := h.generation
    simp only at hg
    omega
  quarantine := h.quarantine
  unverified := h.unverified
  unquarantined := h.unquarantined

theorem beginInspection_device (hd : s.device other = some d) :
    (beginInspection s other d).1.device other = some { d with inspectionGeneration := d.inspectionGeneration + 1 } :=
  device_modify_self hd _

theorem beginInspection_other (hid : id ≠ other) (s : Inventory ν) (d : Device ν) :
    At id Same s (beginInspection s other d).1 :=
  (modify_other hid s _).trans Same.trans (.of_eq Same.rfl' rfl)

theorem approach_cases (setting : Setting ν) (now : Int) (s : Inventory ν) (seedId : String) (seed : SeedSnapshot)
    (report : InspectionReport ν) (incoming : Provenance) :
    ((approach setting now s seedId seed report incoming).2 = none ∧
      ∀ id, Onward id Same s (approach setting now s seedId seed report incoming).1) ∨
    ∃ other d, (approach setting now s seedId seed report incoming).2 = some (other, d) ∧
      (approach setting now s seedId seed report incoming).1.device other = some d ∧
      (∀ endpoint, report.endpointReference.value? = some endpoint → setting.endpointIdentity endpoint = other) ∧
      Onward other (Moves true) s (approach setting now s seedId seed report incoming).1 ∧
      ∀ id, id ≠ other → Onward id Same s (approach setting now s seedId seed report incoming).1 := by
  have houtcome (seed : SeedSnapshot) (id : String) : Onward id Same s (setOutcome s seedId seed) :=
    (At.of_eq Same.rfl' rfl : At id Same s (setOutcome s seedId seed)).1
  have hcreated (id : String) (endpoint : DiscoveryEndpointReference) : Onward id Same s (create setting now s endpoint).1 :=
    (chained Same.rfl' Same.trans fun _ _ h => h).create s endpoint
  unfold approach
  cases hreport : report.endpointReference.result with
  | missing status code message part => exact .inl ⟨rfl, houtcome _⟩
  | known endpoint =>
    dsimp only
    split
    · exact .inl ⟨rfl, houtcome _⟩
    · split
      · exact .inl ⟨rfl, fun id => hcreated id endpoint⟩
      · rename_i hfound
        rw [Bool.not_eq_true, Option.isNone_eq_false_iff] at hfound
        obtain ⟨d, hd⟩ := Option.isSome_iff_exists.mp hfound
        have hmerged := fun id => @mergeEndpoints_moves ν setting now id (create setting now s endpoint).1
          (setting.endpointIdentity endpoint) [seed.xaddr] incoming
        obtain ⟨d', hd', _⟩ := (hmerged (setting.endpointIdentity endpoint)).1 d hd
        refine .inr ⟨_, d', by rw [hd']; rfl, hd', fun endpoint' he => ?_, ?_, fun id hid => ?_⟩
        · rw [Observation.value?, hreport] at he
          rw [Option.some.inj he]
        · have hchanged := (hmerged (setting.endpointIdentity endpoint)).1.mono fun _ _ h => h.weaken (y := true) fun _ => rfl
          intro a ha
          obtain ⟨b, hb, hab⟩ := hcreated _ endpoint a ha
          obtain ⟨c, hc, hbc⟩ := hchanged b hb
          have hab' : Moves true a b := hab.moves
          exact ⟨c, hc, hab'.trans hbc⟩
        · exact (hcreated id endpoint).trans Same.trans (mergeEndpoints_other hid (create setting now s endpoint).1 [seed.xaddr] incoming).1

theorem Chained.approach {R : Option (Device ν) → Option (Device ν) → Prop} (h : Chained now R)
    {report : InspectionReport ν} {seed : SeedSnapshot} {incoming : Provenance}
    (hmerged : ∀ s endpoint, R (s.device id) ((mergeEndpoints setting now s (setting.endpointIdentity endpoint) [seed.xaddr]
      incoming).1.device id))
    (s : Inventory ν) (seedId : String) : R (s.device id) ((approach setting now s seedId seed report incoming).1.device id) := by
  unfold Discovery.approach
  split
  · exact h.refl _
  · rename_i endpoint _
    dsimp only
    split
    · exact h.refl _
    · split
      · exact h.create s endpoint
      · exact h.trans (h.create s endpoint) (hmerged _ endpoint)

theorem reconcileDevice_moves (d : Device ν) : Moves false d (reconcileDevice setting now d).1 := by
  unfold reconcileDevice
  split
  · exact .rfl' d
  · rename_i hstate
    rw [not_or] at hstate
    dsimp only
    have hstale : Moves false d (goStale setting now d) := by
      unfold goStale
      dsimp only
      split
      · exact ⟨⟨.of_eq rfl rfl le_rfl, le_rfl, fun _ _ => ⟨rfl, rfl, rfl, nofun⟩, fun _ hs => absurd hs hstate.1⟩, nofun, rfl⟩
      · exact .rfl' d
    have hconflict : (goStale setting now d).state ≠ .conflict := by
      unfold goStale
      dsimp only
      split
      · exact nofun
      · exact hstate.1
    refine hstale.trans (y := false) ?_
    unfold depart
    split
    · refine ⟨⟨.of_eq rfl rfl le_rfl, Nat.le_succ _, fun _ hg => absurd hg (Nat.lt_succ_self _).ne, fun _ hs => absurd hs hconflict⟩, nofun, rfl⟩
    · exact .rfl' _

theorem reconcile_moves (s : Inventory ν) : At id (Moves false) s (reconcile setting now s) := by
  refine foldl_at Moves.rfl' (fun _ _ _ hab hbc => hab.trans hbc) (fun s other => ?_) _ s
  split
  · exact .refl Moves.rfl'
  · dsimp only
    split
    · exact .refl Moves.rfl'
    · exact (modify_moves fun _ d _ => reconcileDevice_moves d).moves (.of_eq Moves.rfl' rfl)

theorem inspectSeed_cases (setting : Setting ν) (now : Int) (s : Inventory ν) (seedId : String)
    (seed : SeedSnapshot)
    (report : InspectionReport ν) (incoming : Provenance) :
    ((approach setting now s seedId seed report incoming).2 = none ∧
      ∀ id, Onward id Same s (inspectSeed setting now s seedId seed report incoming).1) ∨
    ∃ other d s', (approach setting now s seedId seed report incoming).2 = some (other, d) ∧
      (∀ endpoint, report.endpointReference.value? = some endpoint → setting.endpointIdentity endpoint = other) ∧
      (∀ id, id ≠ other → Onward id Same s s') ∧
      (∀ a, s.device other = some a → ∃ b, s'.device other = some b ∧ Moves false a b ∧
        a.inspectionGeneration < b.inspectionGeneration) ∧
      (∀ id, (inspectSeed setting now s seedId seed report incoming).1.device id =
        (commitInspection setting now s' ⟨other, d.epoch, d.inspectionGeneration + 1⟩ report).1.device id) ∧
      ((commitInspection setting now s' ⟨other, d.epoch, d.inspectionGeneration + 1⟩ report).2 →
        (inspectSeed setting now s seedId seed report incoming).2 = some other) := by
  rcases approach_cases setting now s seedId seed report incoming with ⟨hnone, hsame⟩ | ⟨other, d, hsome, hd, hidentity, hmoves, hsame⟩
  · refine .inl ⟨hnone, fun id => ?_⟩
    unfold inspectSeed
    simpa only [hnone] using hsame id
  · refine .inr ⟨other, d, (beginInspection (approach setting now s seedId seed report incoming).1 other d).1, hsome, hidentity,
      fun id hid => (hsame id hid).trans Same.trans (beginInspection_other hid _ _).1, fun a ha => ?_, fun id => ?_, fun hc => ?_⟩
    · obtain ⟨b, hb, hm⟩ := hmoves a ha
      obtain rfl := Option.some.inj (hd.symm.trans hb)
      exact ⟨_, beginInspection_device hd, hm.begun, Nat.lt_succ_of_le hm.generation⟩
    · unfold inspectSeed
      simp only [hsome]
      split <;> rfl
    · unfold inspectSeed
      simp only [hsome]
      exact congrArg Prod.snd (if_neg (not_not.mpr hc))

theorem step_evolves (setting : Setting ν) (s : Inventory ν) (st : Step ν) :
    Onward id (Evolves false) s (step setting s st) := by
  cases st with
  | observe a => exact (observe_moves a.message a.incoming a.fingerprintSource s).mono fun _ _ h => h.toEvolves
  | beginInspection other =>
    unfold step
    dsimp only
    split
    · exact Onward.refl fun d => (Moves.rfl' d).toEvolves
    · rename_i d hd
      by_cases hid : id = other
      · subst hid
        intro a ha
        obtain rfl := Option.some.inj (hd.symm.trans ha)
        exact ⟨_, beginInspection_device hd, ((Moves.rfl' (x := false) d).begun).toEvolves⟩
      · exact (beginInspection_other hid s d).1.mono fun _ _ h => h.moves.toEvolves
  | commitInspection now token report => exact commitInspection_evolves setting now s token report
  | inspectSeed now seedId report incoming =>
    unfold step
    dsimp only
    split
    · exact Onward.refl fun d => (Moves.rfl' d).toEvolves
    · rename_i seed _
      rcases inspectSeed_cases setting now s seedId seed report incoming with
        ⟨_, hsame⟩ | ⟨other, d, s', _, _, hother, hbegun, hdevice, _⟩
      · exact (hsame id).mono fun _ _ h => h.moves.toEvolves
      · have hs' : Onward id (Evolves false) s s' := by
          by_cases hid : id = other
          · subst hid
            intro a ha
            obtain ⟨b, hb, hm, _⟩ := hbegun a ha
            exact ⟨b, hb, hm.toEvolves⟩
          · exact (hother id hid).mono fun _ _ h => h.moves.toEvolves
        have hcommit : Onward id (Evolves false) s
            (commitInspection setting now s' ⟨other, d.epoch, d.inspectionGeneration + 1⟩ report).1 :=
          hs'.trans (fun _ _ _ hab hbc => hab.trans hbc) (commitInspection_evolves setting now s' _ report)
        intro a ha
        obtain ⟨b, hb, hab⟩ := hcommit a ha
        exact ⟨b, (hdevice id).trans hb, hab⟩
  | reconcile now => exact (reconcile_moves s).1.mono fun _ _ h => h.toEvolves

theorem step_begins (setting : Setting ν) {st : Step ν} (hb : begins setting s id st) (hd : s.device id = some d) :
    ∃ d', (step setting s st).device id = some d' ∧ d.inspectionGeneration < d'.inspectionGeneration := by
  cases st with
  | beginInspection other =>
    simp only [begins, Bool.and_eq_true, decide_eq_true_eq] at hb
    obtain ⟨rfl, _⟩ := hb
    have hbegun := beginInspection_device hd
    refine ⟨_, ?_, show d.inspectionGeneration < Device.inspectionGeneration { d with
      inspectionGeneration := d.inspectionGeneration + 1 } from Nat.lt_succ_self _⟩
    simpa only [step, hd] using hbegun
  | inspectSeed now seedId report incoming =>
    simp only [begins] at hb
    simp only [step]
    split at hb
    · cases hb
    · rename_i seed hseed
      rcases inspectSeed_cases setting now s seedId seed report incoming with
        ⟨hnone, _⟩ | ⟨other, _, s', hsome, _, _, hbegun, hdevice, _⟩
      · simp [hnone] at hb
      · simp only [hsome, Option.map_some, Option.some.injEq, decide_eq_true_eq] at hb
        subst hb
        obtain ⟨b, hb, _, hlt⟩ := hbegun d hd
        obtain ⟨c, hc, hbc⟩ := commitInspection_evolves setting now s' ⟨other, _, _⟩ report b hb
        exact ⟨c, (hdevice other).trans hc, hlt.trans_le hbc.generation⟩
  | _ => cases hb

theorem steps_evolve (setting : Setting ν) (steps : List (Step ν)) (s : Inventory ν) :
    Onward id (Evolves false) s (steps.foldl (step setting) s) := by
  induction steps generalizing s with
  | nil => exact Onward.refl fun d => (Moves.rfl' d).toEvolves
  | cons st steps ih => exact (step_evolves setting s st).trans (fun _ _ _ hab hbc => hab.trans hbc) (ih _)

/-- Between the begin of an inspection and its end nothing has disturbed the
device. -/
theorem token_undisturbed (setting : Setting ν) (hd : s.device id = some d) {st : Step ν}
    {before after : List (Step ν)}
    (hc : (commitInspection setting now ((before ++ st :: after).foldl (step setting) (beginInspection s id d).1)
      (beginInspection s id d).2 report).2) :
    begins setting (before.foldl (step setting) (beginInspection s id d).1) id st = false ∧
    ∃ a b, (before.foldl (step setting) (beginInspection s id d).1).device id = some a ∧
      (step setting (before.foldl (step setting) (beginInspection s id d).1) st).device id = some b ∧
      Undisturbed a b := by
  obtain ⟨a, ha, hbefore⟩ := steps_evolve setting before _ _ (beginInspection_device hd)
  obtain ⟨b, hb, hstep⟩ := step_evolves setting _ st a ha
  obtain ⟨c, hc', hafter⟩ := steps_evolve setting after _ b hb
  rw [List.foldl_append, List.foldl_cons] at hc
  rcases commitInspection_cases setting now _ (beginInspection s id d).2 report with ⟨hf, _⟩ | ⟨_, e, he, _, hg, _⟩
  · rw [hf] at hc
    cases hc
  · obtain rfl := Option.some.inj (hc'.symm.trans he)
    have hab : a.inspectionGeneration = b.inspectionGeneration := by
      have := hbefore.generation
      have := hstep.generation
      have := hafter.generation
      simp only [beginInspection] at hg
      simp only at *
      omega
    refine ⟨?_, a, b, ha, hb, hstep.still rfl hab⟩
    by_contra hbegins
    obtain ⟨b', hb', hlt⟩ := step_begins setting (by simpa using hbegins) ha
    obtain rfl := Option.some.inj (hb.symm.trans hb')
    omega

end WotAv.Discovery
