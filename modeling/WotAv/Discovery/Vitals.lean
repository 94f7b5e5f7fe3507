import WotAv.Discovery.Frames
import WotAv.Discovery.Persistence

/-!
# What tells whether a device has departed

`reconcile` decides by four fields of a device. What every function of the
inventory does to them.
-/

namespace WotAv.Discovery

variable {ν : Type} {setting : Setting ν} {now : Int} {s s' : Inventory ν} {id other : String}

structure Vitals where
  seenAt : Int
  verifiedAt : Option Int
  suspectSince : Option Int
  failedLivenessRounds : Nat
  deriving DecidableEq, Repr

def Device.vitals (d : Device ν) : Vitals := ⟨d.seenAt, d.verifiedAt, d.suspectSince, d.failedLivenessRounds⟩

def Inventory.vitals (s : Inventory ν) (id : String) : Option Vitals := (s.device id).map (·.vitals)

def Vitals.new (now : Int) : Vitals := ⟨now, none, none, 0⟩

-- What leaves them as they were

def Steady (a b : Device ν) : Prop := a.vitals = b.vitals

theorem Steady.trans (a b c : Device ν) (h : Steady a b) (h' : Steady b c) : Steady a c := Eq.trans h h'

theorem SameBare.steady (a b : Device ν) (h : SameBare a b) : Steady a b := by
  change (bare a).vitals = (bare b).vitals
  rw [show bare a = bare b from h]

theorem Same.steady (a b : Device ν) (h : Same a b) : Steady a b := (Same.bare a b h).steady

theorem At.vitals (h : At id Steady s s') : s'.vitals id = s.vitals id := h.seen

theorem At.same_vitals (h : At id Same s s') : s'.vitals id = s.vitals id := (h.mono Same.steady).vitals

theorem modify_vitals (h : s.vitals id = some v) {f : Device ν → Device ν} {w : Vitals}
    (hf : ∀ d, d.vitals = v → (f d).vitals = w) : (s.modify id f).vitals id = some w := modify_seen h hf

theorem steady : Indifferent (Steady (ν := ν)) where
  same := Same.steady
  trans := Steady.trans
  enter _ _ := rfl
  record _ _ _ := rfl
  conflict _ := rfl
  types _ _ := rfl
  scopes _ _ := rfl
  claims _ _ := rfl
  metadataVersion _ _ := rfl
  identityEvidence _ _ := rfl
  quarantine _ := rfl
  updatedAt _ _ := rfl
  reads _ _ _ _ := rfl
  resources _ _ := rfl

theorem mergeEndpoints_steady (s : Inventory ν) (other : String) (xaddrs : List String) (incoming : Provenance) :
    At id Steady s (mergeEndpoints setting now s other xaddrs incoming).1 :=
  steady.mergeEndpoints SameBare.steady (fun _ _ => rfl) s other xaddrs incoming

-- Announcements

def DiscoveryMessage.present (message : DiscoveryMessage) : Bool := message.sequence.isSome && decide (message.kind ≠ .bye)

def Vitals.announced (now : Int) (message : DiscoveryMessage) (v : Vitals) : Vitals :=
  if message.kind = .bye then { v with suspectSince := v.suspectSince.or (some now) }
  else if message.sequence.isSome then { v with seenAt := now }
  else v

theorem Vitals.announced_twice (message : DiscoveryMessage) (v : Vitals) :
    (v.announced now message).announced now message = v.announced now message := by
  unfold Vitals.announced
  split
  · cases v.suspectSince <;> rfl
  · split <;> rfl

theorem mergePresence_vitals (h : s.vitals id = some v) (message : DiscoveryMessage) :
    (mergePresence now s id message).1.vitals id = some (v.announced now message) := by
  unfold mergePresence Vitals.announced
  split
  · exact modify_vitals h (by rintro _ rfl; rfl)
  · dsimp only
    have hseen : (if message.sequence.isSome then s.modify id ({ · with seenAt := now }) else s).vitals id =
        some (if message.sequence.isSome then { v with seenAt := now } else v) := by
      split
      · exact modify_vitals h (by rintro _ rfl; rfl)
      · exact h
    generalize (if message.sequence.isSome then s.modify id ({ · with seenAt := now }) else s) = seen at hseen ⊢
    split
    · exact modify_vitals hseen fun _ hd => hd
    · exact hseen

theorem accept_vitals (h : s.vitals id = some v) (entry : DiscoveryMatch) (message : DiscoveryMessage)
    (incoming : Provenance) : (accept setting now s id entry message incoming).vitals id = some (v.announced now message) := by
  have hmerged : (mergeMetadata setting now s id entry message incoming).1.vitals id = some (v.announced now message) := by
    unfold mergeMetadata
    dsimp only
    refine mergePresence_vitals ?_ message
    rw [(steady.mergeClaims _ _ _).vitals, (steady.mergeVersion _ _ _).vitals, (mergeEndpoints_steady _ _ _ _).vitals]
    exact h
  unfold accept
  dsimp only
  generalize mergeMetadata setting now s id entry message incoming = merged at hmerged ⊢
  rw [(steady.modify _ id (by intros; rfl)).vitals]
  split
  · rw [(steady.modify _ id (by intros; rfl)).vitals]
    exact hmerged
  · exact hmerged

def Announced (now : Int) (message : DiscoveryMessage) (before after : Option Vitals) : Prop :=
  after = some ((before.getD (.new now)).announced now message)

variable {message : DiscoveryMessage} {a b c : Option Vitals}

theorem Announced.of_grown (h : Grown (.new now) a b)
    (h' : Announced now message b c) : Announced now message a c := by
  rw [Announced, ← h.getD]
  exact h'

theorem Announced.grown (h : Announced now message a b)
    (h' : Grown (.new now) b c) : Announced now message a c := by
  rcases h' with rfl | ⟨hb, _⟩
  · exact h
  · rw [h] at hb
    cases hb

theorem Announced.again (h : Announced now message a b)
    (h' : Announced now message b c) : Announced now message a c := by
  rw [Announced, h', h, Option.getD_some, Vitals.announced_twice]

theorem grown : Chained now fun a b : Option (Device ν) => Grown (.new now) (a.map Device.vitals) (b.map Device.vitals) :=
  Grown.chained Same.steady fun _ => rfl

theorem observeMatch_vitals (setting : Setting ν) (now : Int) (message : DiscoveryMessage) (incoming : Provenance) (s : Inventory ν)
    (entry : DiscoveryMatch) (id : String) :
    let r := observeMatch setting now message incoming s entry
    if r.2 = true ∧ id = setting.endpointIdentity entry.endpointReference then
      Announced now message (s.vitals id) (r.1.vitals id)
    else Grown (.new now) (s.vitals id) (r.1.vitals id) := by
  have hlocated (id : String) : Grown (.new now) (s.vitals id) ((located setting now s entry).vitals id) :=
    grown.located s entry
  unfold observeMatch
  dsimp only
  split
  · rw [if_neg (by simp)]
    exact .inl rfl
  · split
    · simpa using hlocated id
    · rename_i d hd
      have hordered (id : String) : Grown (.new now) (s.vitals id)
          ((order setting now (located setting now s entry) (setting.endpointIdentity entry.endpointReference) d
            message).1.vitals id) := by
        rw [(steady.order _ _ _ _).vitals]
        exact hlocated id
      split
      · simpa using hordered id
      · rename_i hadmitted
        generalize hs₁ : (order setting now (located setting now s entry)
          (setting.endpointIdentity entry.endpointReference) d message).1 = s₁ at hordered ⊢
        obtain ⟨v, hv⟩ : ∃ v, s₁.vitals (setting.endpointIdentity entry.endpointReference) = some v := by
          rw [← hs₁, (steady.order _ _ _ _).vitals, Inventory.vitals, hd]
          exact ⟨_, rfl⟩
        have haccepted : (accept setting now s₁ (setting.endpointIdentity entry.endpointReference) entry message
            incoming).vitals (setting.endpointIdentity entry.endpointReference) = some (v.announced now message) :=
          accept_vitals hv entry message incoming
        have hother (hid : id ≠ setting.endpointIdentity entry.endpointReference) :=
          (accept_other setting now hid s₁ entry message incoming).same_vitals
        generalize accept setting now s₁ (setting.endpointIdentity entry.endpointReference) entry message incoming = s₂
          at haccepted hother ⊢
        by_cases hid : id = setting.endpointIdentity entry.endpointReference
        · subst hid
          split
          · obtain ⟨d₂, hd₂, _⟩ := Option.map_eq_some_iff.mp haccepted
            simp only [Bool.false_eq_true, false_and, if_false]
            refine .inl ?_
            rw [(diagnostic_same _ _ _ _ _).same_vitals]
            exact restored_seen (.inr (by rw [hd₂]; rfl))
          · simp only [true_and, if_true]
            refine .of_grown (hordered _) ?_
            rw [hv]
            exact haccepted
        · have hgrown : Grown (.new now) (s.vitals id) (s₂.vitals id) := by
            rw [hother hid]
            exact hordered id
          split
          · have hrestored (prior : Option (Device ν)) :
                (restored s₂ (setting.endpointIdentity entry.endpointReference) prior).vitals id = s₂.vitals id :=
              restored_other hid s₂ prior
            rw [if_neg fun h => hid h.2, (diagnostic_same _ _ _ _ _).same_vitals, hrestored]
            exact hgrown
          · rw [if_neg fun h => hid h.2]
            exact hgrown

theorem observeMatches_vitals (setting : Setting ν) (now : Int) (message : DiscoveryMessage) (incoming : Provenance)
    (entries : List DiscoveryMatch) (id : String) (s : Inventory ν) :
    let r := observeMatches setting now message incoming entries s
    if id ∈ r.2 then Announced now message (s.vitals id) (r.1.vitals id) else Grown (.new now) (s.vitals id) (r.1.vitals id) := by
  induction entries generalizing s with
  | nil => exact .inl rfl
  | cons entry entries ih =>
    have hentry := observeMatch_vitals setting now message incoming s entry id
    unfold observeMatches
    dsimp only at hentry ih ⊢
    generalize observeMatch setting now message incoming s entry = r at hentry ⊢
    have hrest := ih r.1
    generalize observeMatches setting now message incoming entries r.1 = rest at hrest ⊢
    by_cases hid : r.2 = true ∧ id = setting.endpointIdentity entry.endpointReference
    · rw [if_pos hid] at hentry
      rw [if_pos (by simp [hid])]
      split at hrest
      · exact hentry.again hrest
      · exact hentry.grown hrest
    · rw [if_neg hid] at hentry
      have hmem : (id ∈ if r.2 = true then setting.endpointIdentity entry.endpointReference :: rest.2 else rest.2) ↔
          id ∈ rest.2 := by
        split
        · rename_i hr
          rw [List.mem_cons, or_iff_right fun h => hid ⟨hr, h⟩]
        · exact Iff.rfl
      simp only [hmem]
      split at hrest
      · rename_i h
        rw [if_pos h]
        exact .of_grown hentry hrest
      · rename_i h
        rw [if_neg h]
        exact hentry.trans hrest

theorem observe_vitals (setting : Setting ν) (now : Int) (s : Inventory ν) (message : DiscoveryMessage)
    (incoming : Provenance) (fingerprintSource : DiscoveryMessage) (id : String) :
    let r := observe setting now s message incoming fingerprintSource
    if id ∈ r.2 then Announced now message (s.vitals id) (r.1.vitals id) else Grown (.new now) (s.vitals id) (r.1.vitals id) := by
  have hduplicate : At id Steady s (observeDuplicate setting now s message incoming).1 :=
    (observeDuplicate_bare message incoming s).mono SameBare.steady
  unfold observe
  dsimp only
  split
  · exact .inl (diagnostic_same _ _ _ _ _).same_vitals
  · split
    · exact .inl hduplicate.vitals
    · have h := observeMatches_vitals setting now message incoming message.entries id
        (observeDuplicate setting now s message incoming).1
      rw [hduplicate.vitals] at h
      exact h

-- Inspections

def Vitals.inspected (report : InspectionReport ν) (v : Vitals) : Vitals where
  seenAt := v.seenAt
  verifiedAt := if report.complete then some report.completedAt else v.verifiedAt
  suspectSince := if report.complete then none else v.suspectSince
  failedLivenessRounds := if report.responsive then 0 else v.failedLivenessRounds

theorem concludeReport_vitals (report : InspectionReport ν) (d : Device ν) :
    (concludeReport setting report d).vitals = d.vitals.inspected report := by
  unfold concludeReport Vitals.inspected
  cases report.scopes.value? <;> cases report.complete <;> cases report.responsive <;> rfl

theorem applyReport_vitals (h : s.vitals id = some v) (report : InspectionReport ν) :
    (applyReport setting now s id report).vitals id = some (v.inspected report) := by
  refine modify_vitals (s := report.resources.foldl (mergeResource setting now id) (s.modify id (retainReads setting report)))
    ((steady.applyReads s id report).vitals.trans h) fun d hd => ?_
  rw [concludeReport_vitals, hd]

theorem commitInspection_vitals (setting : Setting ν) (now : Int) (s : Inventory ν) (token : InspectionToken)
    (report : InspectionReport ν) (id : String) :
    let r := commitInspection setting now s token report
    r.1.vitals id =
      if r.2 = true ∧ id = token.deviceId then (s.vitals id).map (·.inspected report) else s.vitals id :=
  commitInspection_seen steady.toPlain fun _ _ h => applyReport_vitals h report

theorem approach_grown (setting : Setting ν) (now : Int) (s : Inventory ν) (seedId : String) (seed : SeedSnapshot)
    (report : InspectionReport ν) (incoming : Provenance) (id : String) :
    Grown (.new now) (s.vitals id) ((approach setting now s seedId seed report incoming).1.vitals id) :=
  grown.approach (fun _ _ => .inl (mergeEndpoints_steady _ _ _ _).vitals) s seedId

theorem inspectSeed_vitals (setting : Setting ν) (now : Int) (s : Inventory ν) (seedId : String) (seed : SeedSnapshot)
    (report : InspectionReport ν) (incoming : Provenance) (id : String) :
    let r := inspectSeed setting now s seedId seed report incoming
    if r.2 = some id then r.1.vitals id = some (((s.vitals id).getD (.new now)).inspected report)
    else Grown (.new now) (s.vitals id) (r.1.vitals id) := by
  exact inspectSeed_seen (approach_grown setting now s seedId seed report incoming id)
    (fun s other d => (steady.beginInspection (fun _ _ => rfl) s other d).vitals)
    fun s token => commitInspection_vitals setting now s token report id

-- Time

def missed (s : Inventory ν) (id : String) (round : Int) (responsive confirmedTimeout : Bool) : Bool :=
  match s.device id with
  | none => false
  | some d => !(d.lastLivenessRound.any fun last => round ≤ last) && !responsive && confirmedTimeout

def Vitals.round (responsive confirmedTimeout : Bool) (v : Vitals) : Vitals :=
  { v with failedLivenessRounds :=
      if responsive then 0 else if confirmedTimeout then v.failedLivenessRounds + 1 else v.failedLivenessRounds }

theorem liveness_vitals (h : s.vitals id = some v) (other : String) (round : Int) (responsive confirmedTimeout : Bool) :
    ∃ failed, (liveness s other round responsive confirmedTimeout).vitals id =
        some { v with failedLivenessRounds := failed } ∧
      failed ≤ v.failedLivenessRounds + if other = id ∧ missed s id round responsive confirmedTimeout then 1 else 0 := by
  by_cases hid : other = id
  · subst hid
    obtain ⟨d, hd, hv⟩ := Option.map_eq_some_iff.mp h
    unfold liveness missed
    simp only [hd]
    split
    · exact ⟨v.failedLivenessRounds, h, Nat.le_add_right _ _⟩
    · rename_i hlater
      rw [Bool.not_eq_true] at hlater
      refine ⟨(v.round responsive confirmedTimeout).failedLivenessRounds, modify_vitals h fun d' hd' => ?_, ?_⟩
      · rw [← hd']
        rfl
      · cases responsive <;> cases confirmedTimeout <;> simp [Vitals.round, hlater]
  · refine ⟨v.failedLivenessRounds, ?_, Nat.le_add_right _ _⟩
    rw [← h]
    unfold liveness
    split
    · rfl
    · split
      · rfl
      · exact (modify_other (Ne.symm hid) s _).same_vitals

theorem liveness_absent (h : s.vitals id = none) (other : String) (round : Int) (responsive confirmedTimeout : Bool) :
    (liveness s other round responsive confirmedTimeout).vitals id = none := by
  have hd : s.device id = none := Option.map_eq_none_iff.mp h
  unfold liveness
  split
  · exact h
  · split
    · exact h
    · exact Option.map_eq_none_iff.mpr (modify_absent hd _ _)

theorem reconcileDevice_quiet (d : Device ν) (h : (reconcileDevice setting now d).2 = 0) :
    (reconcileDevice setting now d).1 = d := by
  unfold reconcileDevice at h ⊢
  split at h
  · rename_i hs
    rw [if_pos hs]
  · rename_i hs
    rw [if_neg hs]
    dsimp only at h ⊢
    obtain ⟨hstale, hgone⟩ := Nat.add_eq_zero_iff.mp h
    have hsame : goStale setting now d = d := if_neg fun hc => by simp [hc] at hstale
    rw [hsame] at hgone ⊢
    unfold depart at hgone ⊢
    split
    · rename_i hc
      simp [hc] at hgone
    · rfl

theorem foldl_once {round : Inventory ν → String → Inventory ν} {f : Device ν → Device ν}
    (h : ∀ s other, (round s other).device id = if id = other then (s.device id).map f else s.device id)
    (keys : List String) (hk : keys.Nodup) (s : Inventory ν) :
    (keys.foldl round s).device id = if id ∈ keys then (s.device id).map f else s.device id := by
  induction keys generalizing s with
  | nil => rfl
  | cons other keys ih =>
    obtain ⟨hnot, hk⟩ := List.nodup_cons.mp hk
    rw [List.foldl_cons, ih hk, h]
    by_cases hid : id = other
    · subst hid
      simp [hnot]
    · simp [hid]

theorem reconcile_device (setting : Setting ν) (now : Int) (s : Inventory ν) (id : String) :
    (reconcile setting now s).device id = (s.device id).map fun d => (reconcileDevice setting now d).1 := by
  unfold reconcile
  rw [foldl_once (f := fun d => (reconcileDevice setting now d).1) _ _ (AList.keys_nodup _)]
  · split
    · rfl
    · rename_i hid
      rw [Inventory.device, AList.lookup_eq_none.mpr hid]
      rfl
  · intro s other
    split
    · rename_i hd
      split
      · rename_i hid
        rw [hid, hd]
        rfl
      · rfl
    · rename_i d hd
      dsimp only
      split
      · rename_i hquiet
        split
        · rename_i hid
          rw [hid, hd, Option.map_some, reconcileDevice_quiet d hquiet]
        · rfl
      · refine (device_modify s other id _).trans ?_
        split
        · rename_i hid
          rw [hid]
        · rfl

end WotAv.Discovery
