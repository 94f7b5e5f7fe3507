import WotAv.Discovery.Quarantine

/-!
# Where verified devices come from

`Has id P s`: the inventory has the device, and `P` holds of it. Read backwards
through each call: what only an inspection brings about was there before.
-/

namespace WotAv.Discovery

variable {ν : Type} {setting : Setting ν} {now : Int} {s s' s'' : Inventory ν} {id other : String} {d : Device ν}

def Has (id : String) (P : Device ν → Prop) (s : Inventory ν) : Prop := ∃ d, s.device id = some d ∧ P d

structure Rare (P : Device ν → Prop) : Prop where
  moves : ∀ a b x, Moves x a b → P b → P a
  new : ∀ d : Device ν, d.state = .candidate → d.identityConflict = false → ¬P d

theorem rare_verified : Rare (ν := ν) fun d => d.state = .verified :=
  ⟨fun _ _ _ h hb => h.unverified hb, fun d hs _ hv => by simp [hs] at hv⟩

def Hidden (d : Device ν) : Prop := d.identityConflict ∧ d.state ≠ .conflict

theorem rare_hidden : Rare (ν := ν) Hidden := by
  refine ⟨fun a b x h hb => ⟨h.unquarantined ▸ hb.1, fun hs => ?_⟩, fun d _ hi hh => ?_⟩
  · exact hb.2 (h.quarantine (h.unquarantined ▸ hb.1) hs).2.1
  · have := hh.1
    rw [hi] at this
    cases this

section
variable {P : Device ν → Prop}

variable (hP : Rare P)
include hP

theorem At.has {x : Bool} (h : At id (Moves x) s s') (hs : Has id P s') : Has id P s := by
  obtain ⟨b, hb, hp⟩ := hs
  cases ha : s.device id with
  | none => simp [h.2 ha] at hb
  | some a =>
    obtain ⟨b', hb', hm⟩ := h.1 a ha
    obtain rfl := Option.some.inj (hb.symm.trans hb')
    exact ⟨a, ha, hP.moves _ _ _ hm hp⟩

theorem chained_has : Chained now fun a b : Option (Device ν) => (∃ d, b = some d ∧ P d) → ∃ d, a = some d ∧ P d where
  refl _ h := h
  trans hab hbc h := hab (hbc h)
  same hab h := by
    obtain ⟨b, hb, hp⟩ := h
    obtain rfl := Option.some.inj hb
    exact ⟨_, rfl, hP.moves _ _ false hab.moves hp⟩
  new endpointReference h := by
    obtain ⟨b, hb, hp⟩ := h
    obtain rfl := Option.some.inj hb
    exact absurd hp (hP.new _ rfl rfl)

theorem heard_has (setting : Setting ν) (a : Announcement) (s : Inventory ν)
    (h : Has id P (heard setting s a).1) : Has id P s := by
  have hduplicate : At id (Moves false) s (observeDuplicate setting a.now s a.message a.incoming).1 :=
    at_bare_moves (observeDuplicate_bare a.message a.incoming s)
  refine (chained_has hP).observe (hduplicate.has hP) (fun entry _ => ?_) a.fingerprintSource h
  exact (chained_has hP).observeMatch (fun _ _ hd => ((order_cases setting a.now hd a.message).1 id).has hP)
    fun s => (accept_moves setting a.now s _ entry a.message a.incoming).has hP

theorem begin_has (s : Inventory ν) (other : String) (d : Device ν)
    (h : Has id P (beginInspection s other d).1) : Has id P s := by
  refine At.has hP (x := false) ?_ h
  refine At.moves (modify_moves fun _ d _ => ?_) (.of_eq Moves.rfl' rfl)
  exact (Moves.rfl' (x := false) d).begun

theorem approach_has (s : Inventory ν) (seedId : String) (seed : SeedSnapshot) (report : InspectionReport ν)
    (incoming : Provenance)
    (h : Has id P (approach setting now s seedId seed report incoming).1) : Has id P s :=
  (chained_has hP).approach (fun _ _ => At.has hP (mergeEndpoints_moves _ _ _ _)) s seedId h

theorem commit_has {Q : Prop} (s : Inventory ν) (token : InspectionToken) (report : InspectionReport ν)
    (hq : ∀ a b, Refused a b → P b → P a)
    (ha : ∀ a b, a.identityConflict = false → Accepted report.complete a b → P b → P a ∨ Q)
    (h : Has id P (commitInspection setting now s token report).1) :
    Has id P s ∨ id = token.deviceId ∧ Q ∧ (commitInspection setting now s token report).2 ∧
      ∀ endpoint, report.endpointReference.value? = some endpoint → setting.endpointIdentity endpoint = id := by
  by_cases hid : id = token.deviceId
  · subst hid
    obtain ⟨b, hb, hp⟩ := h
    cases hd : s.device token.deviceId with
    | none =>
      have hnone : (commitInspection setting now s token report).1.device token.deviceId = none := by
        simp only [commitInspection, hd, Option.filter_none]
        exact (diagnostic_same _ _ _ _ _).2 hd
      rw [hnone] at hb
      cases hb
    | some d =>
      rcases commitInspection_cases setting now s token report with ⟨_, hr⟩ | ⟨hc, d', hd', _, _, hi, hidentity, hr⟩
      · obtain ⟨b', hb', hr⟩ := hr d hd
        obtain rfl := Option.some.inj (hb.symm.trans hb')
        exact .inl ⟨d, hd, hq _ _ hr hp⟩
      · obtain rfl := Option.some.inj (hd.symm.trans hd')
        obtain ⟨b', hb', hr⟩ := hr d hd
        obtain rfl := Option.some.inj (hb.symm.trans hb')
        rcases ha _ _ hi hr hp with hp | hq
        · exact .inl ⟨d, hd, hp⟩
        · exact .inr ⟨rfl, hq, hc, hidentity⟩
  · refine .inl (At.has hP (x := false) ?_ h)
    exact (commitInspection_other setting now s token report hid).mono fun _ _ h => h.moves

theorem inspectSeed_has {Q : Prop} (s : Inventory ν) (seedId : String) (seed : SeedSnapshot)
    (report : InspectionReport ν)
    (incoming : Provenance) (hq : ∀ a b, Refused a b → P b → P a)
    (ha : ∀ a b, a.identityConflict = false → Accepted report.complete a b → P b → P a ∨ Q)
    (h : Has id P (inspectSeed setting now s seedId seed report incoming).1) :
    Has id P s ∨ Q ∧ (inspectSeed setting now s seedId seed report incoming).2 = some id ∧
      ∀ endpoint, report.endpointReference.value? = some endpoint → setting.endpointIdentity endpoint = id := by
  unfold inspectSeed at h ⊢
  dsimp only at h ⊢
  have hfound : Has id P (approach setting now s seedId seed report incoming).1 → Has id P s :=
    approach_has hP s seedId seed report incoming
  generalize approach setting now s seedId seed report incoming = found at h hfound ⊢
  obtain ⟨s₁, _ | ⟨other, d⟩⟩ := found
  · exact .inl (hfound h)
  · dsimp only at h hfound ⊢
    have hcommitted : Has id P (commitInspection setting now (beginInspection s₁ other d).1 (beginInspection s₁ other d).2 report).1 := by
      split at h
      · exact h
      · exact h
    rcases commit_has hP _ _ report hq ha hcommitted with hbegun | ⟨rfl, hq, hc, hidentity⟩
    · exact .inl (hfound (begin_has hP _ _ _ hbegun))
    · exact .inr ⟨hq, congrArg Prod.snd (if_neg (not_not.mpr hc)), hidentity⟩

end

theorem Refused.verified {a b : Device ν} (h : Refused a b) (hb : b.state = .verified) : a.state = .verified := by
  rcases h.2 with h | ⟨_, h⟩
  all_goals simp only [Device.summary, Prod.mk.injEq] at h
  · exact h.2.2.2.2.2.1.trans hb
  · have := h.2.2.2.2.2.1.trans hb
    cases this

theorem Refused.hidden {a b : Device ν} (h : Refused a b) (hb : Hidden b) : Hidden a := by
  rcases h.2 with h | ⟨_, h⟩
  all_goals simp only [Device.summary, Prod.mk.injEq] at h
  · exact ⟨h.2.2.2.2.2.2.1 ▸ hb.1, fun hs => hb.2 (h.2.2.2.2.2.1 ▸ hs)⟩
  · exact absurd h.2.2.2.2.2.1.symm hb.2

theorem step_verified (setting : Setting ν) (s : Inventory ν) (st : Step ν)
    (h : Has id (·.state = .verified) (step setting s st)) :
    Has id (·.state = .verified) s ∨ verifies setting s id st := by
  cases st with
  | observe a => exact .inl (heard_has rare_verified setting a s h)
  | beginInspection other =>
    unfold step at h
    dsimp only at h
    split at h
    · exact .inl h
    · exact .inl (begin_has rare_verified s other _ h)
  | commitInspection now token report =>
    rcases commit_has rare_verified s token report (fun _ _ => Refused.verified) (fun _ _ _ hab => hab.2) h with
      h | ⟨rfl, hcomplete, hc, hidentity⟩
    · exact .inl h
    · exact .inr ⟨rfl, hcomplete, hidentity, hc⟩
  | inspectSeed now seedId report incoming =>
    unfold step at h
    dsimp only at h
    split at h
    · exact .inl h
    · rename_i seed hseed
      rcases inspectSeed_has rare_verified s seedId seed report incoming (fun _ _ => Refused.verified)
        (fun _ _ _ hab => hab.2) h with h | ⟨hcomplete, hsome, hidentity⟩
      · exact .inl h
      · exact .inr ⟨hcomplete, hidentity, seed, hseed, hsome⟩
  | reconcile now => exact .inl (At.has rare_verified (reconcile_moves s) h)

theorem Accepted.not_hidden {complete : Bool} {a b : Device ν} (ha : a.identityConflict = false)
    (h : Accepted complete a b) :
    ¬Hidden b := by
  rintro ⟨hb, _⟩
  rw [← h.1.identityConflict, ha] at hb
  cases hb

theorem step_hidden (setting : Setting ν) (s : Inventory ν) (st : Step ν)
    (h : Has id Hidden (step setting s st)) : Has id Hidden s := by
  cases st with
  | observe a => exact heard_has rare_hidden setting a s h
  | beginInspection other =>
    unfold step at h
    dsimp only at h
    split at h
    · exact h
    · exact begin_has rare_hidden s other _ h
  | commitInspection now token report =>
    exact (commit_has (Q := False) rare_hidden s token report (fun _ _ => Refused.hidden)
      (fun _ _ ha hab hb => absurd hb (hab.not_hidden ha)) h).resolve_right fun h => h.2.1
  | inspectSeed now seedId report incoming =>
    unfold step at h
    dsimp only at h
    split at h
    · exact h
    · exact (inspectSeed_has (Q := False) rare_hidden s seedId _ report incoming (fun _ _ => Refused.hidden)
        (fun _ _ ha hab hb => absurd hb (hab.not_hidden ha)) h).resolve_right fun h => h.1
  | reconcile now => exact At.has rare_hidden (reconcile_moves s) h

theorem steps_hidden (setting : Setting ν) (steps : List (Step ν)) (s : Inventory ν)
    (h : Has id Hidden (steps.foldl (step setting) s)) : Has id Hidden s := by
  induction steps generalizing s with
  | nil => exact h
  | cons st steps ih => exact step_hidden setting s st (ih _ h)

theorem steps_verified (setting : Setting ν) (steps : List (Step ν)) (s : Inventory ν)
    (h : Has id (·.state = .verified) (steps.foldl (step setting) s)) : Has id (·.state = .verified) s ∨
      ∃ before st after, steps = before ++ st :: after ∧
      verifies setting (before.foldl (step setting) s) id st := by
  induction steps generalizing s with
  | nil => exact .inl h
  | cons st steps ih =>
    rcases ih _ h with h | ⟨before, st', after, rfl, hv⟩
    · rcases step_verified setting s st h with h | h
      · exact .inl h
      · exact .inr ⟨[], st, steps, rfl, h⟩
    · exact .inr ⟨st :: before, st', after, rfl, hv⟩

/-- Every quarantine is told by the state, as `assertSnapshot` demands of what is
restored. -/
def WellKept (s : Inventory ν) : Prop := ∀ id, ¬Has id Hidden s

/-- Inspections are applied to what they inspected, and quarantine is for good. -/
theorem inspections_guarded (setting : Setting ν) (s : Inventory ν) :
    (∀ id d before st after now report, s.device id = some d →
      (commitInspection setting now ((before ++ st :: after).foldl (step setting) (beginInspection s id d).1)
        (beginInspection s id d).2 report).2 →
      begins setting (before.foldl (step setting) (beginInspection s id d).1) id st = false ∧
      ∃ a b, (before.foldl (step setting) (beginInspection s id d).1).device id = some a ∧
        (step setting (before.foldl (step setting) (beginInspection s id d).1) st).device id = some b ∧
          Undisturbed a b) ∧
    (∀ now token report d, (commitInspection setting now s token report).2 = false →
      s.device token.deviceId = some d →
      ∃ d', (commitInspection setting now s token report).1.device token.deviceId = some d' ∧
        d.listed = d'.listed) ∧
    (WellKept s → ∀ steps : List (Step ν), WellKept (steps.foldl (step setting) s) ∧ ∀ id d,
      s.device id = some d → d.identityConflict →
      ∃ d', (steps.foldl (step setting) s).device id = some d' ∧ d'.identityConflict ∧ d'.state = .conflict ∧
        d.confirmed = d'.confirmed) ∧
    ∀ (steps : List (Step ν)) (id : String), Has id (·.state = .verified) (steps.foldl (step setting) s) →
    Has id (·.state = .verified) s ∨
      ∃ before st after, steps = before ++ st :: after ∧
      verifies setting (before.foldl (step setting) s) id st := by
  refine ⟨?_, ?_, fun hs steps => ⟨fun id h => hs id (steps_hidden setting steps s h), fun id d hd hi => ?_⟩, ?_⟩
  · intro id d before st after now report hd hc
    exact token_undisturbed setting hd hc
  · intro now token report d hf hd
    rcases commitInspection_cases setting now s token report with ⟨_, h⟩ | ⟨ht, _⟩
    · obtain ⟨d', hd', h⟩ := h d hd
      exact ⟨d', hd', h.1⟩
    · rw [hf] at ht
      cases ht
  · obtain ⟨d', hd', h⟩ := steps_evolve setting steps s d hd
    have hstate : d.state = .conflict := by
      by_contra hstate
      exact hs id ⟨d, hd, hi, hstate⟩
    exact ⟨d', hd', h.quarantine hi hstate⟩
  · exact fun steps id => steps_verified setting steps s

def reportOf (endpoint : Option String) (informed : Bool) (subjects : List String) : InspectionReport Unit where
  information := if informed then { result := .known ⟨"ACME", "C1", "1.0", "7", "1"⟩, observedAt := 0 } else unknown _ 0
  services := unknown _ 0
  scopes := unknown _ 0
  endpointReference := match endpoint with
    | some address => { result := .known ⟨address, [], []⟩, observedAt := 0 }
    | none => unknown _ 0
  reads := []
  resources := []
  observedFeatures := []
  identityEvidence := subjects.map fun subject => ⟨true, "urn:authority", subject, "http://192.0.2.7/onvif", 0⟩
  completedAt := 0
  responsive := true
  truncated := false

def helloOf (messageId messageNumber : String) : Announcement :=
  let a := hello "eth0" messageId (some ⟨"1", none, messageNumber⟩)
  let message := { a.message with entries := a.message.entries.map fun entry =>
    { entry with types := [⟨"http://www.onvif.org/ver10/device/wsdl", "Device"⟩], scopes := ["urn:hall"] } }
  { a with message, fingerprintSource := message }

def camera (s : Inventory Unit) : Option (Device Unit) := s.device "urn:uuid:camera"

def begun : Inventory Unit := step plain ordered (.beginInspection "urn:uuid:camera")

def told : Inventory Unit := step plain begun (.observe (helloOf "urn:uuid:3" "2"))

def complete : InspectionReport Unit := reportOf (some "urn:uuid:camera") true []

def verified : Inventory Unit :=
  [Step.commitInspection 0 ⟨"urn:uuid:camera", 1, 2⟩ complete, .beginInspection "urn:uuid:camera"].foldl (step plain) begun

def quarantined : Inventory Unit := step plain begun (.commitInspection 0 ⟨"urn:uuid:camera", 1, 2⟩ (reportOf none false ["a", "b"]))

/-- Types and scopes are merged without superseding an inspection, and into a
quarantined device too; and a device stays verified by an inspection that reads
neither its endpoint nor its information. -/
theorem inspections_unguarded :
    ((camera ordered).map (fun d => (beginInspection ordered "urn:uuid:camera" d).2) = some ⟨"urn:uuid:camera", 1, 2⟩ ∧
      (camera begun).map (·.types.length) = some 0 ∧ (camera told).map (·.types.length) = some 1 ∧
      (commitInspection plain 0 told ⟨"urn:uuid:camera", 1, 2⟩ complete).2 = true) ∧
    ((camera quarantined).map (fun d => (d.identityConflict, d.scopes.length)) = some (true, 0) ∧
      (camera (step plain quarantined (.observe (helloOf "urn:uuid:3" "2")))).map (·.scopes.length) = some 1) ∧
    ((commitInspection plain 0 verified ⟨"urn:uuid:camera", 1, 3⟩ (reportOf none false [])).2 = true ∧
      (camera (commitInspection plain 0 verified ⟨"urn:uuid:camera", 1, 3⟩ (reportOf none false [])).1).map (·.state) =
        some .verified) := by
  refine ⟨⟨?_, ?_, ?_, ?_⟩, ⟨?_, ?_⟩, ?_, ?_⟩ <;> decide

end WotAv.Discovery
