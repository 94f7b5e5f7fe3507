import WotAv.Discovery.Inventory

/-!
# How the inventory changes one device

`Onward id R s s'`: the device of the identity, where `s` has one, is in `s'`
too, and `R` holds of the two. `At id R s s'`: and it is not in `s'` where `s`
has none. Every function of the inventory is read once for what it does to a
device.
-/

namespace WotAv.Discovery

variable {ν : Type} {setting : Setting ν} {now : Int} {s s' s'' : Inventory ν} {id other : String}

theorem device_modify (s : Inventory ν) (id other : String) (f : Device ν → Device ν) :
    (s.modify id f).device other = if other = id then (s.device id).map f else s.device other := by
  unfold Inventory.modify
  cases hd : s.device id with
  | none =>
    by_cases ho : other = id
    · simp [ho, hd]
    · simp [ho]
  | some d =>
    by_cases ho : other = id
    · subst ho
      simp [Inventory.device]
    · simp [ho, Inventory.device, AList.lookup_insert_ne]

theorem device_modify_self (h : s.device id = some d) (f : Device ν → Device ν) :
    (s.modify id f).device id = some (f d) := by
  simp [device_modify, h]

theorem modify_absent (h : s.device id = none) (other : String) (f : Device ν → Device ν) :
    (s.modify other f).device id = none := by
  rw [device_modify]
  split
  · rename_i ho
    subst ho
    rw [h]
    rfl
  · exact h

def Onward (id : String) (R : Device ν → Device ν → Prop) (s s' : Inventory ν) : Prop :=
  ∀ d, s.device id = some d → ∃ d', s'.device id = some d' ∧ R d d'

def At (id : String) (R : Device ν → Device ν → Prop) (s s' : Inventory ν) : Prop :=
  Onward id R s s' ∧ (s.device id = none → s'.device id = none)

section
variable {R R' R'' : Device ν → Device ν → Prop}

theorem Onward.refl (hr : ∀ d, R d d) : Onward id R s s := fun d hd => ⟨d, hd, hr d⟩

theorem Onward.trans (ht : ∀ a b c, R a b → R' b c → R'' a c) (h : Onward id R s s') (h' : Onward id R' s' s'') :
    Onward id R'' s s'' := by
  intro d hd
  obtain ⟨d', hd', hr⟩ := h d hd
  obtain ⟨d'', hd'', hr'⟩ := h' d' hd'
  exact ⟨d'', hd'', ht _ _ _ hr hr'⟩

theorem Onward.mono (hm : ∀ a b, R a b → R' a b) (h : Onward id R s s') : Onward id R' s s' := by
  intro d hd
  obtain ⟨d', hd', hr⟩ := h d hd
  exact ⟨d', hd', hm _ _ hr⟩

end

namespace At

variable {R R' R'' : Device ν → Device ν → Prop}

theorem of_eq (hr : ∀ d, R d d) (h : s'.device id = s.device id) : At id R s s' :=
  ⟨fun d hd => ⟨d, h.trans hd, hr d⟩, fun hd => h.trans hd⟩

theorem refl (hr : ∀ d, R d d) : At id R s s := of_eq hr rfl

theorem trans (ht : ∀ a b c, R a b → R' b c → R'' a c) (h : At id R s s') (h' : At id R' s' s'') :
    At id R'' s s'' :=
  ⟨h.1.trans ht h'.1, fun hd => h'.2 (h.2 hd)⟩

theorem mono (hm : ∀ a b, R a b → R' a b) (h : At id R s s') : At id R' s s' := ⟨h.1.mono hm, h.2⟩

theorem modify (hr : ∀ d, R d d) {f : Device ν → Device ν}
    (hf : id = other → ∀ d, s.device other = some d → R d (f d)) :
    At id R s (s.modify other f) := by
  refine ⟨fun d hd => ?_, fun hd => modify_absent hd other f⟩
  rw [device_modify]
  split
  · rename_i ho
    subst ho
    exact ⟨f d, by rw [hd]; rfl, hf rfl d hd⟩
  · exact ⟨d, hd, hr d⟩

theorem touch (hr : ∀ d, R d d) {deviceId : Option String} {f : Device ν → Device ν} (hf : ∀ d, R d (f d)) :
    At id R s (s.touch deviceId f) := by
  cases deviceId with
  | none => exact refl hr
  | some other => exact modify hr fun _ d _ => hf d

end At

-- What leaves a device as it was

def core (d : Device ν) : Device ν := { d with diagnostics := [] }

def Same (a b : Device ν) : Prop := core a = core b

theorem Same.rfl' (d : Device ν) : Same d d := rfl

theorem Same.trans (a b c : Device ν) (h : Same a b) (h' : Same b c) : Same a c := Eq.trans h h'

theorem shed_same (deviceId : Option String) (n : Nat) (s : Inventory ν) :
    At id Same s (shed setting now deviceId n s) := by
  induction n generalizing s with
  | zero => exact .refl Same.rfl'
  | succ n ih =>
    unfold shed
    split
    · exact .refl Same.rfl'
    · have hdropped : At id Same s { s with diagnostics := s.diagnostics.tail, truncated := true } := .of_eq Same.rfl' rfl
      refine At.trans Same.trans ?_ (ih _)
      exact hdropped.trans Same.trans (.touch Same.rfl' fun _ => rfl)

theorem diagnostic_same (s : Inventory ν) (code message : String) (deviceId : Option String) (truncated : Bool) :
    At id Same s (diagnostic setting now s code message deviceId truncated) := by
  have hadded : At id Same s { s with
      diagnostics := addDiagnostic setting ⟨code, message, now, deviceId⟩ s.diagnostics, revision := s.revision + 1
      truncated := s.truncated || truncated } := .of_eq Same.rfl' rfl
  refine At.trans Same.trans ?_ (shed_same _ _ _)
  exact hadded.trans Same.trans (.touch Same.rfl' fun _ => rfl)

def bare (d : Device ν) : Device ν :=
  { d with diagnostics := [], provenance := [], endpoints := d.endpoints.map ({ · with provenance := [] }) }

def SameBare (a b : Device ν) : Prop := bare a = bare b

theorem SameBare.rfl' (d : Device ν) : SameBare d d := rfl

theorem SameBare.trans (a b c : Device ν) (h : SameBare a b) (h' : SameBare b c) : SameBare a c := Eq.trans h h'

theorem Same.bare (a b : Device ν) (h : Same a b) : SameBare a b := by
  change Discovery.bare (core a) = Discovery.bare (core b)
  rw [show core a = core b from h]

theorem mergeProvenance_same (s : Inventory ν) (list : List Provenance) (incoming : Provenance) :
    At id Same s (mergeProvenance setting now s list incoming).1 := by
  unfold mergeProvenance
  split
  · exact .refl Same.rfl'
  · split
    · exact diagnostic_same _ _ _ _ _
    · exact .refl Same.rfl'

theorem mergeDeviceProvenance_bare (s : Inventory ν) (other : String) (incoming : Provenance) :
    At id SameBare s (mergeDeviceProvenance setting now s other incoming).1 := by
  unfold mergeDeviceProvenance
  split
  · exact .refl SameBare.rfl'
  · rename_i d _
    have h : At id SameBare s (mergeProvenance setting now s d.provenance incoming).1 :=
      (mergeProvenance_same s d.provenance incoming).mono Same.bare
    dsimp only
    split
    · exact h.trans SameBare.trans (.modify SameBare.rfl' fun _ _ _ => rfl)
    · exact h

theorem map_modify {α β : Type} {f : α → α} {g : α → β} (h : ∀ a, g (f a) = g a) (l : List α) (index : Nat) :
    (l.modify index f).map g = l.map g := by
  refine List.ext_getElem? fun i => ?_
  rw [List.getElem?_map, List.getElem?_map, List.getElem?_modify]
  cases l[i]? with
  | none => rfl
  | some a =>
    by_cases hi : index = i
    · simp [hi, h]
    · simp [hi]

theorem mergeEndpointProvenance_bare (s : Inventory ν) (other : String) (incoming : Provenance) (index : Nat) :
    At id SameBare s (mergeEndpointProvenance setting now s other incoming index).1 := by
  unfold mergeEndpointProvenance
  split
  · exact .refl SameBare.rfl'
  · rename_i endpoint _
    have h : At id SameBare s (mergeProvenance setting now s endpoint.provenance incoming).1 :=
      (mergeProvenance_same s endpoint.provenance incoming).mono Same.bare
    dsimp only
    split
    · refine h.trans SameBare.trans (.modify SameBare.rfl' fun _ d _ => ?_)
      simp only [SameBare, bare]
      rw [map_modify]
      exact fun _ => rfl
    · exact h

theorem forEach_at {α : Type} {R : Device ν → Device ν → Prop} (hr : ∀ d, R d d)
    (ht : ∀ a b c, R a b → R b c → R a c)
    {round : Inventory ν → α → Inventory ν × Bool} (h : ∀ s a, At id R s (round s a).1) :
    ∀ (as : List α) (r : Inventory ν × Bool), At id R r.1 (forEach round as r).1 := by
  intro as
  induction as with
  | nil => exact fun r => .refl hr
  | cons a as ih => exact fun r => At.trans ht (h r.1 a) (ih ((round r.1 a).1, (round r.1 a).2 || r.2))

theorem again_bare (message : DiscoveryMessage) (incoming : Provenance) (s : Inventory ν) (other : String) :
    At id SameBare s (again setting now message incoming s other) := by
  have h (indices : List Nat) : At id SameBare s (forEach (fun s => mergeEndpointProvenance setting now s other incoming) indices
      (mergeDeviceProvenance setting now s other incoming)).1 :=
    (mergeDeviceProvenance_bare s other incoming).trans SameBare.trans
      (forEach_at SameBare.rfl' SameBare.trans (fun s => mergeEndpointProvenance_bare s other incoming) indices _)
  unfold again
  split
  · dsimp only
    split
    · exact (h _).trans SameBare.trans (.of_eq SameBare.rfl' rfl)
    · exact h _
  · exact .refl SameBare.rfl'

theorem foldl_at {α : Type} {R : Device ν → Device ν → Prop} (hr : ∀ d, R d d) (ht : ∀ a b c, R a b → R b c → R a c)
    {f : Inventory ν → α → Inventory ν} (h : ∀ s a, At id R s (f s a)) (as : List α) (s : Inventory ν) :
    At id R s (as.foldl f s) := by
  induction as generalizing s with
  | nil => exact .refl hr
  | cons a as ih => exact (h s a).trans ht (ih _)

-- The devices that a match is not about

section
variable (hid : id ≠ other)
include hid

theorem modify_other (s : Inventory ν) (f : Device ν → Device ν) : At id Same s (s.modify other f) :=
  .modify Same.rfl' fun h => absurd h hid

theorem mergeDeviceProvenance_other (s : Inventory ν) (incoming : Provenance) :
    At id Same s (mergeDeviceProvenance setting now s other incoming).1 := by
  unfold mergeDeviceProvenance
  split
  · exact .refl Same.rfl'
  · dsimp only
    split
    · exact (mergeProvenance_same _ _ _).trans Same.trans (modify_other hid _ _)
    · exact mergeProvenance_same _ _ _

theorem mergeEndpointProvenance_other (s : Inventory ν) (incoming : Provenance) (index : Nat) :
    At id Same s (mergeEndpointProvenance setting now s other incoming index).1 := by
  unfold mergeEndpointProvenance
  split
  · exact .refl Same.rfl'
  · dsimp only
    split
    · exact (mergeProvenance_same _ _ _).trans Same.trans (modify_other hid _ _)
    · exact mergeProvenance_same _ _ _

theorem mergeXAddr_other (s : Inventory ν) (incoming : Provenance) (xaddr : String) :
    At id Same s (mergeXAddr setting now s other incoming xaddr).1 := by
  unfold mergeXAddr
  split
  · exact .refl Same.rfl'
  · split
    · exact mergeEndpointProvenance_other hid _ _ _
    · split
      · exact diagnostic_same _ _ _ _ _
      · split
        · exact diagnostic_same _ _ _ _ _
        · exact (modify_other hid _ _).trans Same.trans (mergeEndpointProvenance_other hid _ _ _)

theorem mergeEndpoints_other (s : Inventory ν) (xaddrs : List String) (incoming : Provenance) :
    At id Same s (mergeEndpoints setting now s other xaddrs incoming).1 := by
  have h : At id Same s (forEach (fun s => mergeXAddr setting now s other incoming) xaddrs (s, false)).1 :=
    forEach_at Same.rfl' Same.trans (fun s xaddr => mergeXAddr_other hid s incoming xaddr) xaddrs (s, false)
  exact h.trans Same.trans (mergeDeviceProvenance_other hid _ _)

theorem retainEach_other {α : Type} [DecidableEq α] {kept : Device ν → List α} {push : α → Device ν → Device ν}
    (limit : Nat)
    (code message : String) (claims : List α) (s : Inventory ν) :
    At id Same s (retainEach setting now kept push limit code message other claims s) := by
  induction claims generalizing s with
  | nil => exact .refl Same.rfl'
  | cons claim claims ih =>
    unfold retainEach
    split
    · exact .refl Same.rfl'
    · split
      · exact ih s
      · split
        · exact diagnostic_same _ _ _ _ _
        · exact (modify_other hid _ _).trans Same.trans (ih _)

theorem mergeVersion_other (s : Inventory ν) (metadataVersion : Option String) :
    At id Same s (mergeVersion setting now s other metadataVersion).1 := by
  unfold mergeVersion
  split
  · split
    · exact diagnostic_same _ _ _ _ _
    · split
      · exact modify_other hid _ _
      · exact .refl Same.rfl'
  · exact .refl Same.rfl'

theorem mergePresence_other (s : Inventory ν) (message : DiscoveryMessage) :
    At id Same s (mergePresence now s other message).1 := by
  unfold mergePresence
  split
  · exact modify_other hid _ _
  · dsimp only
    have hseen : At id Same s (if message.sequence.isSome then s.modify other ({ · with seenAt := now }) else s) := by
      split
      · exact modify_other hid _ _
      · exact .refl Same.rfl'
    generalize (if message.sequence.isSome then s.modify other ({ · with seenAt := now }) else s) = seen at hseen ⊢
    split
    · exact hseen.trans Same.trans (modify_other hid _ _)
    · exact hseen

end

theorem accept_other (setting : Setting ν) (now : Int) (hid : id ≠ other) (s : Inventory ν)
    (entry : DiscoveryMatch) (message : DiscoveryMessage) (incoming : Provenance) :
    At id Same s (accept setting now s other entry message incoming) := by
  have hmerged : At id Same s (mergeMetadata setting now s other entry message incoming).1 := by
    unfold mergeMetadata mergeTypes mergeScopes
    dsimp only
    refine At.trans Same.trans (At.trans Same.trans ?_ (modify_other hid _ _)) (mergePresence_other hid _ _)
    refine At.trans Same.trans (At.trans Same.trans ?_ (retainEach_other hid _ _ _ _ _)) (retainEach_other hid _ _ _ _ _)
    exact At.trans Same.trans (mergeEndpoints_other hid _ _ _) (mergeVersion_other hid _ _)
  unfold accept
  dsimp only
  generalize mergeMetadata setting now s other entry message incoming = merged at hmerged ⊢
  refine hmerged.trans Same.trans (.trans Same.trans ?_ (modify_other hid _ _))
  split
  · exact modify_other hid _ _
  · exact .refl Same.rfl'

theorem order_other (setting : Setting ν) (now : Int) (hid : id ≠ other) (s : Inventory ν) (d : Device ν)
    (message : DiscoveryMessage) :
    At id Same s (order setting now s other d message).1 := by
  unfold order
  split
  · exact diagnostic_same _ _ _ _ _
  · rename_i sequence hs
    split
    · exact diagnostic_same _ _ _ _ _
    · have hentered : At id Same s (if newer sequence d then s.modify other (·.enter sequence.instanceId) else s) := by
        split
        · exact modify_other hid _ _
        · exact .refl Same.rfl'
      dsimp only
      generalize (if newer sequence d then s.modify other (·.enter sequence.instanceId) else s) = s₁ at hentered ⊢
      generalize (if newer sequence d then d.enter sequence.instanceId else d) = d₁
      split
      · exact hentered.trans Same.trans (diagnostic_same _ _ _ _ _)
      · split
        · exact hentered.trans Same.trans (diagnostic_same _ _ _ _ _)
        · refine hentered.trans Same.trans (.trans Same.trans ?_ (modify_other hid _ _))
          split
          · exact (modify_other hid _ _).trans Same.trans (diagnostic_same _ _ _ _ _)
          · exact .refl Same.rfl'

-- What a device never takes back

namespace Device

def instance? (d : Device ν) : WithBot ℕ := d.ordering.instanceId.map bigInt

def mark (d : Device ν) (sequenceId : Option String) : WithBot ℕ :=
  (d.watermark sequenceId).map fun item => bigInt item.messageNumber

def version (d : Device ν) : WithBot ℕ := d.metadataVersion.map bigInt

def confirmed (d : Device ν) :=
  (d.information, d.services, d.reads, d.resources, d.observedFeatures, d.verifiedAt, d.registryEvidence)

def summary (d : Device ν) :=
  (d.ordering, d.epoch, d.inspectionGeneration, d.metadataVersion, d.endpoints.map (·.xaddr), d.state, d.identityConflict,
    d.confirmed)

end Device

structure Ordered (a b : Device ν) : Prop where
  instances : a.instance? ≤ b.instance?
  marks : a.instance? = b.instance? → ∀ sequenceId, a.mark sequenceId ≤ b.mark sequenceId
  versions : a.version ≤ b.version
  epochs : a.epoch ≤ b.epoch
  reboots : a.epoch = b.epoch ↔ a.instance? = b.instance?

theorem Ordered.trans {a b c : Device ν} (h : Ordered a b) (h' : Ordered b c) : Ordered a c where
  instances := h.instances.trans h'.instances
  marks he sequenceId := by
    have hab : a.instance? = b.instance? := le_antisymm h.instances (he ▸ h'.instances)
    exact (h.marks hab sequenceId).trans (h'.marks (hab.symm.trans he) sequenceId)
  versions := h.versions.trans h'.versions
  epochs := h.epochs.trans h'.epochs
  reboots := by
    have := h.epochs
    have := h'.epochs
    constructor
    · intro he
      exact (h.reboots.mp (by omega)).trans (h'.reboots.mp (by omega))
    · intro he
      have hab : a.instance? = b.instance? := le_antisymm h.instances (he ▸ h'.instances)
      exact (h.reboots.mpr hab).trans (h'.reboots.mpr (hab.symm.trans he))

theorem Ordered.of_eq {a b : Device ν} (ho : a.ordering = b.ordering) (he : a.epoch = b.epoch)
    (hv : a.version ≤ b.version) : Ordered a b := by
  have hi : a.instance? = b.instance? := by rw [Device.instance?, Device.instance?, ho]
  have hm (sequenceId : Option String) : a.mark sequenceId = b.mark sequenceId := by
    rw [Device.mark, Device.mark, Device.watermark, Device.watermark, ho]
  exact ⟨hi.le, fun _ sequenceId => (hm sequenceId).le, hv, he.le, iff_of_true he hi⟩

structure Undisturbed (a b : Device ν) : Prop where
  epoch : a.epoch = b.epoch
  version : a.metadataVersion = b.metadataVersion
  xaddrs : a.endpoints.map (·.xaddr) = b.endpoints.map (·.xaddr)
  present : b.state = .departed → a.state = .departed

/-- How a device may change; `changed` where it is still to be noticed. -/
structure Evolves (changed : Bool) (a b : Device ν) : Prop where
  ordered : Ordered a b
  generation : a.inspectionGeneration ≤ b.inspectionGeneration
  still : changed = false → a.inspectionGeneration = b.inspectionGeneration → Undisturbed a b
  quarantine : a.identityConflict → a.state = .conflict →
    b.identityConflict ∧ b.state = .conflict ∧ a.confirmed = b.confirmed

structure Moves (changed : Bool) (a b : Device ν) : Prop extends Evolves changed a b where
  unverified : b.state = .verified → a.state = .verified
  unquarantined : b.identityConflict = a.identityConflict

section
variable {a b c : Device ν} {x y : Bool}

theorem Evolves.trans (h : Evolves x a b) (h' : Evolves y b c) : Evolves (x || y) a c where
  ordered := h.ordered.trans h'.ordered
  generation := h.generation.trans h'.generation
  still hc hg := by
    rw [Bool.or_eq_false_iff] at hc
    have := h.generation
    have := h'.generation
    have hab := h.still hc.1 (by omega)
    have hbc := h'.still hc.2 (by omega)
    exact ⟨hab.epoch.trans hbc.epoch, hab.version.trans hbc.version, hab.xaddrs.trans hbc.xaddrs,
      fun hd => hab.present (hbc.present hd)⟩
  quarantine hq hs := by
    obtain ⟨hq, hs, hc⟩ := h.quarantine hq hs
    obtain ⟨hq, hs, hc'⟩ := h'.quarantine hq hs
    exact ⟨hq, hs, hc.trans hc'⟩

theorem Moves.trans (h : Moves x a b) (h' : Moves y b c) : Moves (x || y) a c where
  toEvolves := h.toEvolves.trans h'.toEvolves
  unverified hv := h.unverified (h'.unverified hv)
  unquarantined := h'.unquarantined.trans h.unquarantined

theorem Moves.weaken (h : Moves x a b) (hxy : x → y) : Moves y a b where
  toEvolves := { h.toEvolves with still := fun hy => h.still (by cases x <;> simp_all) }
  unverified := h.unverified
  unquarantined := h.unquarantined

theorem Moves.of_summary (h : a.summary = b.summary) : Moves x a b := by
  simp only [Device.summary, Prod.mk.injEq] at h
  obtain ⟨ho, he, hg, hv, hx, hs, hi, hc⟩ := h
  have hversion : a.version = b.version := by rw [Device.version, Device.version, hv]
  exact ⟨⟨.of_eq ho he hversion.le, hg.le, fun _ _ => ⟨he, hv, hx, fun hd => hs.trans hd⟩,
    fun hq hs' => ⟨hi ▸ hq, hs ▸ hs', hc⟩⟩, fun hd => hs.trans hd, hi.symm⟩

theorem Moves.rfl' (d : Device ν) : Moves x d d := .of_summary rfl

theorem SameBare.summary (h : SameBare a b) : a.summary = b.summary := by
  have hx (d : Device ν) : d.endpoints.map (·.xaddr) = (bare d).endpoints.map (·.xaddr) := by simp [bare, Function.comp_def]
  have hsummary (d : Device ν) : d.summary = (bare d).summary := by simp only [Device.summary, hx d]; rfl
  rw [hsummary a, hsummary b, h]

theorem Same.ordering (h : Same a b) : a.ordering = b.ordering := by
  change (core a).ordering = (core b).ordering
  rw [h]

theorem Same.moves (h : Same a b) : Moves x a b := .of_summary (SameBare.summary (Same.bare _ _ h))

theorem Moves.changed (ho : a.ordering = b.ordering) (he : a.epoch = b.epoch)
    (hg : a.inspectionGeneration = b.inspectionGeneration) (hv : a.version ≤ b.version)
    (hi : a.identityConflict = b.identityConflict) (hs : a.state = .conflict → b.state = .conflict)
    (hc : a.confirmed = b.confirmed) (hu : b.state = .verified → a.state = .verified) : Moves true a b where
  ordered := .of_eq ho he hv
  generation := hg.le
  still := nofun
  quarantine hq hs' := ⟨hi ▸ hq, hs hs', hc⟩
  unverified := hu
  unquarantined := hi.symm

theorem Moves.superseded (h : Moves x a b) : Moves false a (supersede b) where
  ordered := ⟨h.ordered.instances, h.ordered.marks, h.ordered.versions, h.ordered.epochs, h.ordered.reboots⟩
  generation := h.generation.trans (Nat.le_succ _)
  still _ hg := by
    have := h.generation
    simp only [supersede] at hg
    omega
  quarantine hq hs := by
    obtain ⟨hq, hs, hc⟩ := h.quarantine hq hs
    exact ⟨hq, by simp [supersede, hs], hc⟩
  unverified hv := by
    by_cases hb : b.state = .verified
    · exact h.unverified hb
    · simp [supersede, hb] at hv
  unquarantined := h.unquarantined

end

-- What a match does to a device

section
variable {x y : Bool}

theorem at_moves_trans (h : At id (Moves (x && decide (id = other))) s s')
    (h' : At id (Moves (y && decide (id = other))) s' s'') :
    At id (Moves ((x || y) && decide (id = other))) s s'' :=
  h.trans (fun _ _ _ hab hbc => (hab.trans hbc).weaken (by cases x <;> cases y <;> simp)) h'

theorem At.moves (h : At id (Moves false) s s') (h' : At id (Moves false) s' s'') : At id (Moves false) s s'' :=
  h.trans (fun _ _ _ hab hbc => hab.trans hbc) h'

theorem at_bare_moves (h : At id SameBare s s') : At id (Moves x) s s' := h.mono fun _ _ h => .of_summary h.summary

theorem diagnostic_moves (s : Inventory ν) (code message : String) (deviceId : Option String) (truncated : Bool) :
    At id (Moves x) s (diagnostic setting now s code message deviceId truncated) :=
  (diagnostic_same s code message deviceId truncated).mono fun _ _ => Same.moves

theorem modify_moves {f : Device ν → Device ν} (hf : id = other → ∀ d, s.device other = some d → Moves x d (f d)) :
    At id (Moves x) s (s.modify other f) := .modify Moves.rfl' hf

theorem mergeXAddr_moves (s : Inventory ν) (other : String) (incoming : Provenance) (xaddr : String) :
    At id (Moves ((mergeXAddr setting now s other incoming xaddr).2 && decide (id = other))) s
      (mergeXAddr setting now s other incoming xaddr).1 := by
  unfold mergeXAddr
  split
  · exact .refl Moves.rfl'
  · split
    · exact at_bare_moves (mergeEndpointProvenance_bare _ _ _ _)
    · split
      · exact diagnostic_moves _ _ _ _ _
      · split
        · exact diagnostic_moves _ _ _ _ _
        · refine at_moves_trans (x := true) (y := false) (modify_moves fun ho d _ => ?_)
            (at_bare_moves (mergeEndpointProvenance_bare _ _ _ _))
          simp only [ho, decide_true, Bool.and_true]
          exact .changed rfl rfl rfl le_rfl rfl (fun h => h) rfl fun h => h

theorem forEach_moves {α : Type} {round : Inventory ν → α → Inventory ν × Bool}
    (h : ∀ s a, At id (Moves ((round s a).2 && decide (id = other))) s (round s a).1) (as : List α) :
    ∀ (r : Inventory ν × Bool), At id (Moves (r.2 && decide (id = other))) s r.1 →
      At id (Moves ((forEach round as r).2 && decide (id = other))) s (forEach round as r).1 := by
  induction as with
  | nil => exact fun r hr => hr
  | cons a as ih =>
    intro r hr
    have := at_moves_trans hr (h r.1 a)
    rw [Bool.or_comm] at this
    exact ih ((round r.1 a).1, (round r.1 a).2 || r.2) this

theorem mergeEndpoints_moves (s : Inventory ν) (other : String) (xaddrs : List String) (incoming : Provenance) :
    At id (Moves ((mergeEndpoints setting now s other xaddrs incoming).2 && decide (id = other))) s
      (mergeEndpoints setting now s other xaddrs incoming).1 := by
  have h : At id (Moves ((forEach (fun s => mergeXAddr setting now s other incoming) xaddrs (s, false)).2 && decide (id = other)))
      s (forEach (fun s => mergeXAddr setting now s other incoming) xaddrs (s, false)).1 :=
    forEach_moves (fun s xaddr => mergeXAddr_moves s other incoming xaddr) xaddrs (s, false) (.refl Moves.rfl')
  unfold mergeEndpoints
  dsimp only
  exact h.trans (fun _ _ _ hab (hbc : Moves false _ _) => (hab.trans hbc).weaken (by simp))
    (at_bare_moves (mergeDeviceProvenance_bare _ _ _))

theorem retainEach_moves {α : Type} [DecidableEq α] {kept : Device ν → List α} {push : α → Device ν → Device ν}
    (hpush : ∀ claim d, Device.summary d = (push claim d).summary) (limit : Nat) (code message : String)
    (other : String)
    (claims : List α) (s : Inventory ν) :
    At id (Moves x) s (retainEach setting now kept push limit code message other claims s) := by
  induction claims generalizing s with
  | nil => exact .refl Moves.rfl'
  | cons claim claims ih =>
    unfold retainEach
    split
    · exact .refl Moves.rfl'
    · split
      · exact ih s
      · split
        · exact diagnostic_moves _ _ _ _ _
        · have hm : At id (Moves false) s (s.modify other (push claim)) :=
            modify_moves fun _ d _ => .of_summary (hpush claim d)
          exact hm.trans (fun _ _ _ hab hbc => (hab.trans hbc).weaken (by simp)) (ih _)

theorem mergeVersion_moves (s : Inventory ν) (other : String) (metadataVersion : Option String) :
    At id (Moves ((mergeVersion setting now s other metadataVersion).2 && decide (id = other))) s
      (mergeVersion setting now s other metadataVersion).1 := by
  unfold mergeVersion
  split
  · rename_i d version hd
    split
    · exact diagnostic_moves _ _ _ _ _
    · rename_i hregress
      split
      · refine modify_moves fun ho d' hd' => ?_
        obtain rfl := Option.some.inj (hd.symm.trans hd')
        simp only [ho, decide_true, Bool.and_true]
        refine .changed rfl rfl rfl ?_ rfl (fun h => h) rfl fun h => h
        unfold Device.version
        cases hv : d.metadataVersion with
        | none => exact bot_le
        | some prior =>
          rw [hv, Option.any_some, decide_eq_true_eq, not_lt] at hregress
          exact WithBot.coe_le_coe.mpr hregress
      · exact .refl Moves.rfl'
  · exact .refl Moves.rfl'

theorem mergePresence_moves (s : Inventory ν) (other : String) (message : DiscoveryMessage) :
    At id (Moves ((mergePresence now s other message).2 && decide (id = other))) s (mergePresence now s other message).1 := by
  unfold mergePresence
  split
  · refine modify_moves fun ho d _ => ?_
    simp only [ho, decide_true, Bool.and_true]
    refine .changed rfl rfl rfl le_rfl rfl (fun hs => by simp [hs]) rfl fun hv => ?_
    by_cases hd : d.state = .conflict
    · simp [hd] at hv
    · simp [hd] at hv
  · dsimp only
    have hseen : At id (Moves false) s (if message.sequence.isSome then s.modify other ({ · with seenAt := now }) else s) := by
      split
      · exact modify_moves fun _ d _ => .of_summary rfl
      · exact .refl Moves.rfl'
    generalize (if message.sequence.isSome then s.modify other ({ · with seenAt := now }) else s) = seen at hseen ⊢
    split
    · rename_i hdeparted
      refine at_moves_trans (x := false) (y := true) hseen (modify_moves fun ho d hd => ?_)
      rw [hd, Option.any_some, decide_eq_true_eq] at hdeparted
      simp only [ho, decide_true, Bool.and_true]
      exact .changed rfl rfl rfl le_rfl rfl (fun hs => by simp [hdeparted] at hs) rfl nofun
    · exact hseen

theorem mergeMetadata_moves (s : Inventory ν) (other : String) (entry : DiscoveryMatch) (message : DiscoveryMessage)
    (incoming : Provenance) :
    At id (Moves ((mergeMetadata setting now s other entry message incoming).2 && decide (id = other))) s
      (mergeMetadata setting now s other entry message incoming).1 := by
  have hendpoints := @mergeEndpoints_moves ν setting now id s other entry.xaddrs incoming
  have hversion := @mergeVersion_moves ν setting now id
    (mergeEndpoints setting now s other entry.xaddrs incoming).1 other entry.metadataVersion
  have hboth := at_moves_trans hendpoints hversion
  unfold mergeMetadata
  dsimp only
  have hclaims (s : Inventory ν) : At id (Moves false) s ((mergeScopes setting now other entry.scopes
      (mergeTypes setting now other entry.types s)).modify other
        (·.mergeClaims setting.bounds.maxScopes (profileClaims entry.scopes .discoveryScope now))) := by
    have htypes : At id (Moves false) s (mergeTypes setting now other entry.types s) :=
      retainEach_moves (by intros; rfl) _ _ _ _ _ _
    have hscopes := htypes.trans (fun _ _ _ hab hbc => hab.trans hbc)
      (show At id (Moves false) _ (mergeScopes setting now other entry.scopes _) from
        retainEach_moves (by intros; rfl) _ _ _ _ _ _)
    exact hscopes.trans (fun _ _ _ hab hbc => hab.trans hbc) (modify_moves fun _ d _ => .of_summary rfl)
  have hpresence := fun s => @mergePresence_moves ν now id s other message
  have := (hboth.trans (fun _ _ _ hab hbc => hab.trans hbc) (hclaims _)).trans
    (fun _ _ _ hab hbc => hab.trans hbc) (hpresence _)
  refine this.mono fun _ _ h => h.weaken ?_
  simp only [Bool.or_false, Bool.or_eq_true, Bool.and_eq_true]
  tauto

end

end WotAv.Discovery
