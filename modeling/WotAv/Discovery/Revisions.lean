import WotAv.Discovery.Announcements
import WotAv.Discovery.Inspection

/-!
# Revisions of the inventory

No call lowers the revision, and what a snapshot shows does not change without
a higher one.
-/

namespace WotAv.Discovery

variable {ν : Type} {setting : Setting ν} {now : Int} {s s' s'' : Inventory ν} {id : String}

def Inventory.data (s : Inventory ν) := (s.devices, s.seeds, s.diagnostics, s.truncated)

def Advances (s s' : Inventory ν) : Prop := s.revision < s'.revision ∨ s'.revision = s.revision ∧ s'.data = s.data

theorem Advances.refl (s : Inventory ν) : Advances s s := .inr ⟨rfl, rfl⟩

theorem Advances.le (h : Advances s s') : s.revision ≤ s'.revision := by
  rcases h with h | h
  · exact h.le
  · exact h.1.ge

theorem Advances.trans (h : Advances s s') (h' : Advances s' s'') : Advances s s'' := by
  rcases h with h | ⟨hr, hd⟩
  · exact .inl (h.trans_le h'.le)
  · rcases h' with h' | ⟨hr', hd'⟩
    · exact .inl (hr ▸ h')
    · exact .inr ⟨hr'.trans hr, hd'.trans hd⟩

@[simp] theorem modify_revision (s : Inventory ν) (id : String) (f : Device ν → Device ν) :
    (s.modify id f).revision = s.revision := by
  unfold Inventory.modify
  split <;> rfl

@[simp] theorem touch_revision (s : Inventory ν) (deviceId : Option String) (f : Device ν → Device ν) :
    (s.touch deviceId f).revision = s.revision := by
  cases deviceId with
  | none => rfl
  | some id => exact modify_revision s id f

@[simp] theorem shed_revision (deviceId : Option String) (n : Nat) (s : Inventory ν) :
    (shed setting now deviceId n s).revision = s.revision := by
  induction n generalizing s with
  | zero => rfl
  | succ n ih =>
    unfold shed
    split
    · rfl
    · rw [ih, touch_revision]

@[simp] theorem diagnostic_revision (s : Inventory ν) (code message : String) (deviceId : Option String)
    (truncated : Bool) :
    (diagnostic setting now s code message deviceId truncated).revision = s.revision + 1 := by
  unfold diagnostic
  dsimp only
  rw [shed_revision, touch_revision]

theorem diagnostic_advances (s : Inventory ν) (code message : String) (deviceId : Option String)
    (truncated : Bool) :
    Advances s (diagnostic setting now s code message deviceId truncated) := .inl (by simp)

-- Announcements

theorem create_advances (s : Inventory ν) (endpoint : DiscoveryEndpointReference) :
    Advances s (create setting now s endpoint).1 := by
  unfold create
  dsimp only
  split
  · exact .refl s
  · split
    · exact diagnostic_advances _ _ _ _ _
    · exact .inl (Nat.lt_succ_self _)

theorem mergeProvenance_advances (setting : Setting ν) (now : Int) (s : Inventory ν) (list : List Provenance)
    (incoming : Provenance) :
    Advances s (mergeProvenance setting now s list incoming).1 := by
  unfold mergeProvenance
  split
  · exact .refl s
  · split
    · exact diagnostic_advances _ _ _ _ _
    · exact .refl s

def Tells (s : Inventory ν) (r : Inventory ν × Bool) : Prop := s.revision ≤ r.1.revision ∧ (r.2 = false → Advances s r.1)

theorem Tells.of_advances {changed : Bool} (h : Advances s s') : Tells s (s', changed) := ⟨h.le, fun _ => h⟩

theorem mergeDeviceProvenance_tells (setting : Setting ν) (now : Int) (s : Inventory ν) (id : String)
    (incoming : Provenance) :
    Tells s (mergeDeviceProvenance setting now s id incoming) := by
  unfold mergeDeviceProvenance
  split
  · exact .of_advances (.refl s)
  · rename_i d _
    have h := mergeProvenance_advances setting now s d.provenance incoming
    generalize mergeProvenance setting now s d.provenance incoming = r at h ⊢
    obtain ⟨s', list, _ | _⟩ := r
    · exact .of_advances h
    · exact ⟨by simpa using h.le, nofun⟩

theorem mergeEndpointProvenance_tells (setting : Setting ν) (now : Int) (s : Inventory ν) (id : String)
    (incoming : Provenance) (index : Nat) :
    Tells s (mergeEndpointProvenance setting now s id incoming index) := by
  unfold mergeEndpointProvenance
  split
  · exact .of_advances (.refl s)
  · rename_i endpoint _
    have h := mergeProvenance_advances setting now s endpoint.provenance incoming
    generalize mergeProvenance setting now s endpoint.provenance incoming = r at h ⊢
    obtain ⟨s', list, _ | _⟩ := r
    · exact .of_advances h
    · exact ⟨by simpa using h.le, nofun⟩

theorem forEach_tells {α : Type} {round : Inventory ν → α → Inventory ν × Bool} (h : ∀ s a, Tells s (round s a))
    (as : List α)
    (r : Inventory ν × Bool) (hr : Tells s r) : Tells s (forEach round as r) := by
  induction as generalizing r with
  | nil => exact hr
  | cons a as ih =>
    refine ih _ ⟨hr.1.trans (h r.1 a).1, fun hf => ?_⟩
    rw [Bool.or_eq_false_iff] at hf
    exact (hr.2 hf.2).trans ((h r.1 a).2 hf.1)

theorem mergeEndpoints_le (s : Inventory ν) (id : String) (xaddrs : List String) (incoming : Provenance) :
    s.revision ≤ (mergeEndpoints setting now s id xaddrs incoming).1.revision := by
  have hround (s : Inventory ν) (xaddr : String) :
      Tells s ((mergeXAddr setting now s id incoming xaddr).1, true) := by
    refine ⟨?_, nofun⟩
    unfold mergeXAddr
    split
    · exact le_rfl
    · split
      · exact (mergeEndpointProvenance_tells _ _ _ _ _ _).1
      · split
        · exact (diagnostic_advances _ _ _ _ _).le
        · split
          · exact (diagnostic_advances _ _ _ _ _).le
          · exact (modify_revision s id _).ge.trans (mergeEndpointProvenance_tells _ _ _ _ _ _).1
  have hloop (as : List String) (r : Inventory ν × Bool) (hr : s.revision ≤ r.1.revision) :
      s.revision ≤ (forEach (fun s => mergeXAddr setting now s id incoming) as r).1.revision := by
    induction as generalizing r with
    | nil => exact hr
    | cons a as ih => exact ih _ (hr.trans (hround r.1 a).1)
  exact (hloop xaddrs (s, false) le_rfl).trans (mergeDeviceProvenance_tells _ _ _ _ _).1

theorem again_advances (message : DiscoveryMessage) (incoming : Provenance) (s : Inventory ν) (id : String) :
    Advances s (again setting now message incoming s id) := by
  unfold again
  split
  · rename_i d entry _ _
    dsimp only
    have h := forEach_tells (fun s index => mergeEndpointProvenance_tells setting now s id incoming index)
      ((List.range d.endpoints.length).filter fun index =>
        (d.endpoints[index]?).any fun endpoint => entry.xaddrs.contains endpoint.xaddr) _
      (mergeDeviceProvenance_tells setting now s id incoming)
    generalize forEach _ _ _ = r at h ⊢
    obtain ⟨s', _ | _⟩ := r
    · exact h.2 rfl
    · exact .inl (Nat.lt_succ_of_le h.1)
  · exact .refl s

theorem foldl_advances {α : Type} {f : Inventory ν → α → Inventory ν} (h : ∀ s a, Advances s (f s a)) (as : List α)
    (s : Inventory ν) : Advances s (as.foldl f s) := by
  induction as generalizing s with
  | nil => exact .refl s
  | cons a as ih => exact (h s a).trans (ih _)

theorem observeDuplicate_advances (message : DiscoveryMessage) (incoming : Provenance) (s : Inventory ν) :
    Advances s (observeDuplicate setting now s message incoming).1 := by
  unfold observeDuplicate
  split
  · exact .refl s
  · split
    · exact diagnostic_advances _ _ _ _ _
    · exact foldl_advances (again_advances message incoming) _ s

theorem retainEach_le {α : Type} [DecidableEq α] {kept : Device ν → List α} {push : α → Device ν → Device ν}
    (limit : Nat)
    (code message : String) (claims : List α) (s : Inventory ν) :
    s.revision ≤ (retainEach setting now kept push limit code message id claims s).revision := by
  induction claims generalizing s with
  | nil => exact le_rfl
  | cons claim claims ih =>
    unfold retainEach
    split
    · exact le_rfl
    · split
      · exact ih s
      · split
        · simp
        · exact (modify_revision s id _).ge.trans (ih _)

theorem mergeVersion_le (s : Inventory ν) (metadataVersion : Option String) :
    s.revision ≤ (mergeVersion setting now s id metadataVersion).1.revision := by
  unfold mergeVersion
  split
  · split
    · simp
    · split <;> simp
  · exact le_rfl

theorem mergePresence_revision (s : Inventory ν) (message : DiscoveryMessage) :
    (mergePresence now s id message).1.revision = s.revision := by
  unfold mergePresence
  split
  · simp
  · dsimp only
    split <;> split <;> simp

theorem accept_le (setting : Setting ν) (now : Int) (s : Inventory ν) (id : String) (entry : DiscoveryMatch)
    (message : DiscoveryMessage) (incoming : Provenance) :
    s.revision ≤ (accept setting now s id entry message incoming).revision := by
  have hmerged : s.revision ≤ (mergeMetadata setting now s id entry message incoming).1.revision := by
    unfold mergeMetadata mergeTypes mergeScopes
    dsimp only
    rw [mergePresence_revision, modify_revision]
    exact (mergeEndpoints_le _ _ _ _).trans ((mergeVersion_le _ _).trans
      ((retainEach_le _ _ _ _ _).trans (retainEach_le _ _ _ _ _)))
  unfold accept
  dsimp only
  split <;> simpa using hmerged

theorem order_revision (setting : Setting ν) (now : Int) (s : Inventory ν) (id : String) (d : Device ν)
    (message : DiscoveryMessage) :
    s.revision ≤ (order setting now s id d message).1.revision ∧
      ((order setting now s id d message).2 = false →
        s.revision < (order setting now s id d message).1.revision) := by
  unfold order
  split
  · simp
  · rename_i sequence _
    split
    · simp
    · have hentered : (if newer sequence d then s.modify id (·.enter sequence.instanceId) else s).revision = s.revision := by
        split <;> simp
      dsimp only
      generalize (if newer sequence d then s.modify id (·.enter sequence.instanceId) else s) = s₁ at hentered ⊢
      generalize (if newer sequence d then d.enter sequence.instanceId else d) = d₁
      split
      · simp [hentered]
      · split
        · simp [hentered]
        · split <;> simp [hentered]

theorem observeMatch_advances (message : DiscoveryMessage) (incoming : Provenance) (s : Inventory ν)
    (entry : DiscoveryMatch) :
    Advances s (observeMatch setting now message incoming s entry).1 := by
  have hlocated : Advances s (located setting now s entry) := by
    unfold located
    split
    · exact create_advances _ _
    · exact .refl s
  unfold observeMatch
  dsimp only
  split
  · exact .refl s
  · split
    · exact hlocated
    · rename_i d _
      obtain ⟨hle, hlt⟩ := order_revision setting now (located setting now s entry)
        (setting.endpointIdentity entry.endpointReference) d message
      split
      · rename_i hrefused
        exact .inl (hlocated.le.trans_lt (hlt (by simpa using hrefused)))
      · have haccepted := hlocated.le.trans (hle.trans (accept_le setting now _
          (setting.endpointIdentity entry.endpointReference) entry message incoming))
        split
        · refine .inl ?_
          rw [diagnostic_revision]
          refine Nat.lt_succ_of_le (haccepted.trans (le_of_eq ?_))
          cases s.device (setting.endpointIdentity entry.endpointReference) with
          | none => rfl
          | some prior => exact (modify_revision _ _ _).symm
        · exact .inl (Nat.lt_succ_of_le haccepted)

theorem observe_advances (message fingerprintSource : DiscoveryMessage) (incoming : Provenance) (s : Inventory ν) :
    Advances s (observe setting now s message incoming fingerprintSource).1 := by
  have hmatches (entries : List DiscoveryMatch) (s : Inventory ν) :
      Advances s (observeMatches setting now message incoming entries s).1 := by
    induction entries generalizing s with
    | nil => exact .refl s
    | cons entry entries ih => exact (observeMatch_advances message incoming s entry).trans (ih _)
  unfold observe
  split
  · exact diagnostic_advances _ _ _ _ _
  · dsimp only
    split
    · exact observeDuplicate_advances message incoming s
    · exact (observeDuplicate_advances message incoming s).trans (hmatches _ _)

-- Inspections

theorem addIdentityEvidence_le (setting : Setting ν) (now : Int) (s : Inventory ν) (id : String)
    (incoming : List IdentityEvidence) :
    s.revision ≤ (addIdentityEvidence setting now s id incoming).1.revision ∧
      ((addIdentityEvidence setting now s id incoming).2 = false →
        s.revision < (addIdentityEvidence setting now s id incoming).1.revision) := by
  have hcollect (incoming : List IdentityEvidence) (s : Inventory ν) (conflict : Bool) :
      s.revision ≤ (collectEvidence setting now id incoming (s, conflict)).1.revision := by
    induction incoming generalizing s conflict with
    | nil => exact le_rfl
    | cons evidence incoming ih =>
      unfold collectEvidence
      split
      · exact le_rfl
      · dsimp only
        split
        · exact ih _ _
        · split
          · exact (diagnostic_advances _ _ _ _ _).le.trans (ih _ _)
          · split
            · exact (modify_revision s id _).ge.trans (ih _ _)
            · refine le_trans ?_ (ih _ _)
              simp
  unfold addIdentityEvidence
  have h := hcollect incoming s false
  generalize collectEvidence setting now id incoming (s, false) = collected at h ⊢
  dsimp only
  split
  · simp only [diagnostic_revision, modify_revision]
    omega
  · exact ⟨h, nofun⟩

theorem commitInspection_advances (s : Inventory ν) (token : InspectionToken) (report : InspectionReport ν) :
    Advances s (commitInspection setting now s token report).1 := by
  have hmerge (s : Inventory ν) (incoming : ResourceInventory ν) :
      s.revision ≤ (mergeResource setting now token.deviceId s incoming).revision := by
    unfold mergeResource
    split
    · exact le_rfl
    · split
      · simp
      · split <;> simp
  have hfold (resources : List (ResourceInventory ν)) (s : Inventory ν) :
      s.revision ≤ (resources.foldl (mergeResource setting now token.deviceId) s).revision := by
    induction resources generalizing s with
    | nil => exact le_rfl
    | cons resource resources ih => exact (hmerge s resource).trans (ih _)
  have happly (s : Inventory ν) : s.revision ≤ (applyReport setting now s token.deviceId report).revision := by
    unfold applyReport
    dsimp only
    rw [modify_revision]
    exact (modify_revision s _ _).ge.trans (hfold _ _)
  obtain ⟨hle, hlt⟩ := addIdentityEvidence_le setting now s token.deviceId report.identityEvidence
  refine .inl ?_
  unfold commitInspection
  dsimp only
  split
  · simp
  · split
    · simp
    · split
      · simp
      · split
        · rename_i hrefused
          exact hlt (by simpa using hrefused)
        · split
          · have := happly (addIdentityEvidence setting now s token.deviceId report.identityEvidence).1
            simp only [diagnostic_revision, modify_revision]
            omega
          · exact Nat.lt_succ_of_le (hle.trans (happly _))

theorem liveness_advances (s : Inventory ν) (round : Int) (responsive confirmedTimeout : Bool) :
    Advances s (liveness s id round responsive confirmedTimeout) := by
  unfold liveness
  split
  · exact .refl s
  · split
    · exact .refl s
    · exact .inl (Nat.lt_succ_self _)

theorem reconcile_advances (s : Inventory ν) : Advances s (reconcile setting now s) := by
  refine foldl_advances (fun s other => ?_) _ s
  split
  · exact .refl s
  · dsimp only
    split
    · exact .refl s
    · rename_i hr
      exact .inl (Nat.lt_add_of_pos_right (Nat.pos_of_ne_zero hr))

theorem beginInspection_advances (s : Inventory ν) (d : Device ν) : Advances s (beginInspection s id d).1 :=
  .inl (Nat.lt_succ_self _)

theorem addSeed_advances (s : Inventory ν) (seedId : String) (seed : SeedSnapshot) :
    Advances s (addSeed setting now s seedId seed).1 := by
  unfold addSeed
  split
  · exact .refl s
  · split
    · exact .refl s
    · dsimp only
      split
      · exact .refl s
      · exact .inl (Nat.lt_succ_self _)

theorem inspectSeed_advances (s : Inventory ν) (seedId : String) (seed : SeedSnapshot) (report : InspectionReport ν)
    (incoming : Provenance) : Advances s (inspectSeed setting now s seedId seed report incoming).1 := by
  have houtcome (s : Inventory ν) (seed : SeedSnapshot) : Advances s (setOutcome s seedId seed) := .inl (Nat.lt_succ_self _)
  have hfound : s.revision ≤ (approach setting now s seedId seed report incoming).1.revision ∧
      ((approach setting now s seedId seed report incoming).2 = none →
        Advances s (approach setting now s seedId seed report incoming).1) := by
    unfold approach
    split
    · exact ⟨(houtcome s _).le, fun _ => houtcome s _⟩
    · rename_i endpoint _
      split
      · exact ⟨(houtcome s _).le, fun _ => houtcome s _⟩
      · dsimp only
        have hcreated : Advances s (create setting now s endpoint).1 := create_advances s endpoint
        split
        · exact ⟨hcreated.le, fun _ => hcreated⟩
        · rename_i hfound
          have hmerged := @mergeEndpoints_moves ν setting now (setting.endpointIdentity endpoint) (create setting now s endpoint).1
            (setting.endpointIdentity endpoint) [seed.xaddr] incoming
          refine ⟨hcreated.le.trans (mergeEndpoints_le (create setting now s endpoint).1 (setting.endpointIdentity endpoint)
            [seed.xaddr] incoming), fun hnone => ?_⟩
          rw [Bool.not_eq_true, Option.isNone_eq_false_iff] at hfound
          obtain ⟨d, hd⟩ := Option.isSome_iff_exists.mp hfound
          obtain ⟨d', hd', _⟩ := hmerged.1 d hd
          simp [hd'] at hnone
  unfold inspectSeed
  dsimp only
  split
  · rename_i hnone
    exact hfound.2 hnone
  · rename_i other d _
    have hbegun : s.revision < (beginInspection (approach setting now s seedId seed report incoming).1 other d).1.revision :=
      Nat.lt_succ_of_le hfound.1
    have hcommitted := hbegun.trans_le (commitInspection_advances (beginInspection
      (approach setting now s seedId seed report incoming).1 other d).1 (beginInspection
        (approach setting now s seedId seed report incoming).1 other d).2 report : Advances _ (commitInspection setting now _ _ _).1).le
    split
    · exact .inl hcommitted
    · exact .inl (hcommitted.trans (Nat.lt_succ_self _))

end WotAv.Discovery
