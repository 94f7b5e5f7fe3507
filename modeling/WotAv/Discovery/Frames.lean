import WotAv.Discovery.Quarantine

/-!
# What most functions leave alone

A relation of devices that no update of order and of claims shows in holds over
every function that makes only such updates; one that no inspection shows in
either holds over inspections too.
-/

namespace WotAv.Discovery

variable {ν : Type} {setting : Setting ν} {now : Int} {s s' : Inventory ν} {id : String}

structure Plain (R : Device ν → Device ν → Prop) : Prop where
  same : ∀ a b, Same a b → R a b
  trans : ∀ a b c, R a b → R b c → R a c
  enter : ∀ d instanceId, R d (d.enter instanceId)
  record : ∀ d sequence kind, R d (d.record sequence kind)
  conflict : ∀ d, R d { d with state := .conflict }
  types : ∀ d types, R d { d with types }
  scopes : ∀ d scopes, R d { d with scopes }
  claims : ∀ d claims, R d { d with claims }
  metadataVersion : ∀ d metadataVersion, R d { d with metadataVersion }
  identityEvidence : ∀ d identityEvidence, R d { d with identityEvidence }
  quarantine : ∀ d, R d (quarantine d)
  updatedAt : ∀ d updatedAt, R d { d with updatedAt }

structure Indifferent (R : Device ν → Device ν → Prop) : Prop extends Plain R where
  reads : ∀ d information services reads, R d { d with information, services, reads }
  resources : ∀ d resources, R d { d with resources }

namespace Plain

variable {R : Device ν → Device ν → Prop} (h : Plain R)
include h

theorem refl (d : Device ν) : R d d := h.same d d rfl

theorem modify (s : Inventory ν) (other : String) {f : Device ν → Device ν} (hf : ∀ d, R d (f d)) :
    At id R s (s.modify other f) := .modify h.refl fun _ d _ => hf d

theorem diagnostic (s : Inventory ν) (code message : String) (deviceId : Option String) (truncated : Bool) :
    At id R s (diagnostic setting now s code message deviceId truncated) :=
  (diagnostic_same s code message deviceId truncated).mono h.same

theorem andThen {s s' s'' : Inventory ν} (h₁ : At id R s s') (h₂ : At id R s' s'') : At id R s s'' := h₁.trans h.trans h₂

theorem order (s : Inventory ν) (other : String) (d : Device ν) (message : DiscoveryMessage) :
    At id R s (order setting now s other d message).1 := by
  unfold Discovery.order
  split
  · exact h.diagnostic _ _ _ _ _
  · rename_i sequence _
    split
    · exact h.diagnostic _ _ _ _ _
    · have hentered : At id R s (if newer sequence d then s.modify other (·.enter sequence.instanceId) else s) := by
        split
        · exact h.modify s other fun d => h.enter d _
        · exact .refl h.refl
      dsimp only
      generalize (if newer sequence d then s.modify other (·.enter sequence.instanceId) else s) = s₁ at hentered ⊢
      generalize (if newer sequence d then d.enter sequence.instanceId else d) = d₁
      split
      · exact h.andThen hentered (h.diagnostic _ _ _ _ _)
      · split
        · exact h.andThen hentered (h.diagnostic _ _ _ _ _)
        · refine h.andThen hentered (h.andThen ?_ (h.modify _ other fun d => h.record d _ _))
          split
          · exact h.andThen (h.modify s₁ other h.conflict) (h.diagnostic _ _ _ _ _)
          · exact .refl h.refl

theorem retainEach {α : Type} [DecidableEq α] {kept : Device ν → List α} {push : α → Device ν → Device ν}
    (hpush : ∀ claim d, R d (push claim d)) (limit : Nat) (code message : String) (other : String) (claims : List α)
    (s : Inventory ν) : At id R s (retainEach setting now kept push limit code message other claims s) := by
  induction claims generalizing s with
  | nil => exact .refl h.refl
  | cons claim claims ih =>
    unfold Discovery.retainEach
    split
    · exact .refl h.refl
    · split
      · exact ih s
      · split
        · exact h.diagnostic _ _ _ _ _
        · exact h.andThen (h.modify s other (hpush claim)) (ih _)

theorem mergeVersion (s : Inventory ν) (other : String) (metadataVersion : Option String) :
    At id R s (mergeVersion setting now s other metadataVersion).1 := by
  unfold Discovery.mergeVersion
  split
  · split
    · exact h.diagnostic _ _ _ _ _
    · split
      · exact h.modify s other fun d => h.metadataVersion d _
      · exact .refl h.refl
  · exact .refl h.refl

theorem mergeClaims (s : Inventory ν) (other : String) (entry : DiscoveryMatch) :
    At id R s ((mergeScopes setting now other entry.scopes (mergeTypes setting now other entry.types s)).modify other
      (·.mergeClaims setting.bounds.maxScopes (profileClaims entry.scopes .discoveryScope now))) := by
  have htypes : At id R s (mergeTypes setting now other entry.types s) :=
    h.retainEach (fun claim d => h.types d _) _ _ _ _ _ _
  have hscopes (s : Inventory ν) : At id R s (mergeScopes setting now other entry.scopes s) :=
    h.retainEach (fun claim d => h.scopes d _) _ _ _ _ _ _
  exact h.andThen (h.andThen htypes (hscopes _)) (h.modify _ other fun d => h.claims d _)

theorem addIdentityEvidence (s : Inventory ν) (other : String) (incoming : List IdentityEvidence) :
    At id R s (addIdentityEvidence setting now s other incoming).1 := by
  have hcollect : At id R s (collectEvidence setting now other incoming (s, false)).1 :=
    collectEvidence_at h.refl h.trans h.same (fun _ d _ => h.identityEvidence d _) incoming s false
  unfold Discovery.addIdentityEvidence
  generalize collectEvidence setting now other incoming (s, false) = collected at hcollect ⊢
  dsimp only
  split
  · exact h.andThen (h.andThen hcollect (h.modify _ other h.quarantine)) (h.diagnostic _ _ _ _ _)
  · exact hcollect

theorem beginInspection (hgeneration : ∀ d inspectionGeneration, R d { d with inspectionGeneration }) (s : Inventory ν)
    (other : String) (d : Device ν) : At id R s (beginInspection s other d).1 :=
  h.andThen (h.modify s other fun d => hgeneration d _) (.of_eq h.refl rfl)

theorem mergePresence
    (hbye : ∀ d : Device ν, R d { d with
      state := if d.state = .conflict then .conflict else .suspect, suspectSince := d.suspectSince.or (some now) })
    (hseen : ∀ d seenAt, R d { d with seenAt }) (hcandidate : ∀ d, R d { d with state := .candidate })
    (s : Inventory ν) (other : String) (message : DiscoveryMessage) : At id R s (mergePresence now s other message).1 := by
  unfold Discovery.mergePresence
  split
  · exact h.modify s other hbye
  · dsimp only
    have hseen : At id R s (if message.sequence.isSome then s.modify other ({ · with seenAt := now }) else s) := by
      split
      · exact h.modify s other fun d => hseen d now
      · exact .refl h.refl
    generalize (if message.sequence.isSome then s.modify other ({ · with seenAt := now }) else s) = seen at hseen ⊢
    split
    · exact h.andThen hseen (h.modify seen other hcandidate)
    · exact hseen

theorem accept {entry : DiscoveryMatch} {message : DiscoveryMessage} {incoming : Provenance} {other : String}
    (hendpoints : At id R s (mergeEndpoints setting now s other entry.xaddrs incoming).1)
    (hpresence : ∀ s, At id R s (Discovery.mergePresence now s other message).1) (hsupersede : ∀ d, R d (supersede d)) :
    At id R s (accept setting now s other entry message incoming) := by
  have hmerged : At id R s (mergeMetadata setting now s other entry message incoming).1 :=
    h.andThen (h.andThen (h.andThen hendpoints (h.mergeVersion _ _ _)) (h.mergeClaims _ _ _)) (hpresence _)
  unfold Discovery.accept
  dsimp only
  refine h.andThen hmerged (h.andThen ?_ (h.modify _ other fun d => h.updatedAt d now))
  split
  · exact h.modify _ other hsupersede
  · exact .refl h.refl

theorem liveness (hlive : ∀ d lastLivenessRound failedLivenessRounds, R d { d with lastLivenessRound, failedLivenessRounds })
    (s : Inventory ν) (other : String) (round : Int) (responsive confirmedTimeout : Bool) :
    At id R s (liveness s other round responsive confirmedTimeout) := by
  unfold Discovery.liveness
  split
  · exact .refl h.refl
  · split
    · exact .refl h.refl
    · exact h.andThen (h.modify s other fun d => hlive d _ _) (.of_eq h.refl rfl)

section
variable (hbare : ∀ a b, SameBare a b → R a b) (hendpoints : ∀ d endpoints, R d { d with endpoints })
include hbare hendpoints

theorem mergeXAddr (s : Inventory ν) (other : String) (incoming : Provenance) (xaddr : String) :
    At id R s (mergeXAddr setting now s other incoming xaddr).1 := by
  have hendpoint (s : Inventory ν) (index : Nat) : At id R s (mergeEndpointProvenance setting now s other incoming index).1 :=
    (mergeEndpointProvenance_bare s other incoming index).mono hbare
  unfold Discovery.mergeXAddr
  split
  · exact .refl h.refl
  · split
    · exact hendpoint _ _
    · split
      · exact h.diagnostic _ _ _ _ _
      · split
        · exact h.diagnostic _ _ _ _ _
        · exact h.andThen (h.modify s other fun d => hendpoints d _) (hendpoint _ _)

theorem mergeEndpoints (s : Inventory ν) (other : String) (xaddrs : List String) (incoming : Provenance) :
    At id R s (mergeEndpoints setting now s other xaddrs incoming).1 := by
  have hxaddrs : At id R s (forEach (fun s => Discovery.mergeXAddr setting now s other incoming) xaddrs (s, false)).1 :=
    forEach_at h.refl h.trans (fun s xaddr => h.mergeXAddr hbare hendpoints s other incoming xaddr) xaddrs (s, false)
  exact h.andThen hxaddrs ((mergeDeviceProvenance_bare _ _ _).mono hbare)

end

end Plain

namespace Indifferent

variable {R : Device ν → Device ν → Prop} (h : Indifferent R)
include h

theorem mergeResource (s : Inventory ν) (other : String) (incoming : ResourceInventory ν) :
    At id R s (mergeResource setting now other s incoming) := by
  unfold Discovery.mergeResource
  split
  · exact .refl h.refl
  · split
    · exact h.modify s other fun d => h.resources d _
    · split
      · exact h.modify s other fun d => h.resources d _
      · exact h.diagnostic _ _ _ _ _

theorem retainReads (report : InspectionReport ν) (d : Device ν) : R d (retainReads setting report d) := by
  unfold Discovery.retainReads Device.retainServices
  dsimp only
  split <;> exact h.reads d _ _ _

theorem applyReads (s : Inventory ν) (other : String) (report : InspectionReport ν) :
    At id R s (report.resources.foldl (Discovery.mergeResource setting now other)
      (s.modify other (Discovery.retainReads setting report))) :=
  h.andThen (h.modify s other (h.retainReads report))
    (foldl_at h.refl h.trans (fun s incoming => h.mergeResource s other incoming) report.resources _)

end Indifferent

-- What is seen of a device

section
variable {α : Type} {π : Device ν → α}

def Inventory.seen (π : Device ν → α) (s : Inventory ν) (id : String) : Option α := (s.device id).map π

theorem At.seen (h : At id (fun a b => π a = π b) s s') : s'.seen π id = s.seen π id := by
  unfold Inventory.seen
  cases hd : s.device id with
  | none => rw [h.2 hd]
  | some d =>
    obtain ⟨d', hd', hv⟩ := h.1 d hd
    rw [hd']
    exact congrArg some hv.symm

theorem modify_seen {v w : α} (h : s.seen π id = some v) {f : Device ν → Device ν} (hf : ∀ d, π d = v → π (f d) = w) :
    (s.modify id f).seen π id = some w := by
  obtain ⟨d, hd, hv⟩ := Option.map_eq_some_iff.mp h
  rw [Inventory.seen, device_modify_self hd]
  exact congrArg some (hf d hv)

def Grown (fresh : α) (before after : Option α) : Prop := after = before ∨ before = none ∧ after = some fresh

theorem Grown.trans {fresh : α} {a b c : Option α} (h : Grown fresh a b) (h' : Grown fresh b c) : Grown fresh a c := by
  rcases h with rfl | ⟨ha, hb⟩
  · exact h'
  · rcases h' with rfl | ⟨hb', _⟩
    · exact .inr ⟨ha, hb⟩
    · rw [hb] at hb'
      cases hb'

theorem Grown.getD {fresh : α} {a b : Option α} (h : Grown fresh a b) : b.getD fresh = a.getD fresh := by
  rcases h with rfl | ⟨rfl, rfl⟩ <;> rfl

theorem Grown.chained {fresh : α} (hsame : ∀ a b, Same a b → π a = π b)
    (hnew : ∀ endpointReference, π { endpointReference, seenAt := now, updatedAt := now, information := unknown _ now
                                     services := unknown _ now } = fresh) :
    Chained now fun a b : Option (Device ν) => Grown fresh (a.map π) (b.map π) where
  refl _ := .inl rfl
  trans := Grown.trans
  same hab := .inl (congrArg some (hsame _ _ hab).symm)
  new endpointReference := .inr ⟨rfl, congrArg some (hnew endpointReference)⟩

theorem restored_seen (h : s.device id = none ∨ (s'.device id).isSome) :
    (restored s' id (s.device id)).seen π id = s.seen π id := by
  unfold restored Inventory.seen
  cases hd : s.device id with
  | none => simp [Inventory.device]
  | some prior =>
    obtain ⟨d, hd'⟩ := Option.isSome_iff_exists.mp (h.resolve_left (by simp [hd]))
    rw [device_modify_self hd']

theorem restored_other {other : String} (hid : id ≠ other) (s : Inventory ν) (prior : Option (Device ν)) :
    (restored s other prior).seen π id = s.seen π id := by
  unfold restored Inventory.seen
  cases prior with
  | none => simp [Inventory.device, AList.lookup_erase_ne hid]
  | some prior => rw [device_modify, if_neg hid]

theorem commitInspection_seen {inspected : α → α} (hp : Plain fun a b : Device ν => π a = π b) {token : InspectionToken}
    {report : InspectionReport ν}
    (happly : ∀ (s : Inventory ν) v, s.seen π token.deviceId = some v →
      (applyReport setting now s token.deviceId report).seen π token.deviceId = some (inspected v)) :
    let r := commitInspection setting now s token report
    r.1.seen π id = if r.2 = true ∧ id = token.deviceId then (s.seen π id).map inspected else s.seen π id := by
  have hsame {s s' : Inventory ν} (h : At id Same s s') : s'.seen π id = s.seen π id := (h.mono hp.same).seen
  by_cases hid : id = token.deviceId
  on_goal 2 =>
    simpa [hid] using hsame (commitInspection_other setting now s token report hid)
  subst hid
  unfold commitInspection
  dsimp only
  split
  · simpa using hsame (diagnostic_same _ _ _ _ _)
  · rename_i previous hfound
    obtain ⟨hd, _⟩ := Option.filter_eq_some_iff.mp hfound
    have hv : s.seen π token.deviceId = some (π previous) := by rw [Inventory.seen, hd]; rfl
    split
    · simpa using hsame (diagnostic_same _ _ _ _ _)
    · split
      · have hquarantined : At token.deviceId _ s (s.modify token.deviceId quarantine) := hp.modify s _ hp.quarantine
        simpa using (hp.andThen hquarantined (hp.diagnostic _ _ _ _ _)).seen
      · have hevidence : (addIdentityEvidence setting now s token.deviceId report.identityEvidence).1.seen π token.deviceId =
            s.seen π token.deviceId := (hp.addIdentityEvidence _ _ _).seen
        split
        · simpa using hevidence
        · have happlied := happly _ _ (hevidence.trans hv)
          generalize applyReport setting now (addIdentityEvidence setting now s token.deviceId
            report.identityEvidence).1 token.deviceId report = s₁ at happlied ⊢
          split
          · have hback : (s₁.modify token.deviceId fun _ => previous).seen π token.deviceId = some (π previous) :=
              modify_seen happlied fun _ _ => rfl
            simpa [hv] using (hsame (diagnostic_same _ _ _ _ _)).trans hback
          · rw [hv, if_pos ⟨rfl, rfl⟩]
            exact happlied

theorem inspectSeed_seen {fresh : α} {inspected : α → α} {seedId : String} {seed : SeedSnapshot}
    {report : InspectionReport ν} {incoming : Provenance}
    (hgrown : Grown fresh (s.seen π id) ((approach setting now s seedId seed report incoming).1.seen π id))
    (hbegun : ∀ (s : Inventory ν) other d, (beginInspection s other d).1.seen π id = s.seen π id)
    (hcommit : ∀ (s : Inventory ν) token, (commitInspection setting now s token report).1.seen π id =
      if (commitInspection setting now s token report).2 = true ∧ id = token.deviceId
      then (s.seen π id).map inspected else s.seen π id) :
    let r := inspectSeed setting now s seedId seed report incoming
    if r.2 = some id then r.1.seen π id = some (inspected ((s.seen π id).getD fresh))
    else Grown fresh (s.seen π id) (r.1.seen π id) := by
  have hcases := approach_cases setting now s seedId seed report incoming
  unfold inspectSeed
  dsimp only
  generalize approach setting now s seedId seed report incoming = found at hgrown hcases ⊢
  split
  · rw [if_neg nofun]
    exact hgrown
  · rename_i other d hfound
    have hdevice : found.1.device other = some d := by
      rcases hcases with ⟨hnone, _⟩ | ⟨other', d', hsome, hd, _⟩
      · rw [hnone] at hfound
        cases hfound
      · obtain ⟨rfl, rfl⟩ := Prod.mk.inj (Option.some.inj (hsome.symm.trans hfound))
        exact hd
    have hcommit := hcommit (beginInspection found.1 other d).1 (beginInspection found.1 other d).2
    have hnamed : (beginInspection found.1 other d).2.deviceId = other := rfl
    rw [hbegun, hnamed] at hcommit
    generalize commitInspection setting now (beginInspection found.1 other d).1 (beginInspection found.1 other d).2
      report = committed at hcommit ⊢
    split
    · rename_i hrefused
      rw [if_neg nofun, hcommit, if_neg fun h => hrefused h.1]
      exact hgrown
    · rename_i haccepted
      rw [not_not] at haccepted
      have hset (s : Inventory ν) (seed : SeedSnapshot) : (setOutcome s seedId seed).seen π id = s.seen π id := rfl
      rw [hset, hcommit]
      by_cases hid : other = id
      · subst hid
        obtain ⟨v, hv⟩ : ∃ v, found.1.seen π other = some v := by
          rw [Inventory.seen, hdevice]
          exact ⟨_, rfl⟩
        rw [if_pos rfl, if_pos ⟨haccepted, rfl⟩, ← hgrown.getD, hv]
        rfl
      · rw [if_neg (by simpa using hid), if_neg fun h => hid h.2.symm]
        exact hgrown

end

end WotAv.Discovery
