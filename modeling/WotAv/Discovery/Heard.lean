import WotAv.Discovery.Frames
import WotAv.Discovery.Persistence

/-!
# Where a device was heard

The provenance of a device and of its endpoints, as one list: what each function
of the inventory adds to it.
-/

namespace WotAv.Discovery

variable {ν : Type} {setting : Setting ν} {now : Int} {s s' s'' : Inventory ν} {id other : String} {incoming : Provenance}

abbrev Place := Option String

def Device.heardAt (d : Device ν) : List (Place × Provenance) :=
  d.provenance.map (none, ·) ++ d.endpoints.flatMap fun endpoint => endpoint.provenance.map (some endpoint.xaddr, ·)

def Inventory.heardAt (s : Inventory ν) (id : String) : List (Place × Provenance) := (s.device id).elim [] Device.heardAt

theorem heardAt_none {d : Device ν} {p : Provenance} : (none, p) ∈ d.heardAt ↔ p ∈ d.provenance := by
  simp [Device.heardAt]

variable {xaddr : String}

theorem heardAt_some {d : Device ν} {p : Provenance} :
    (some xaddr, p) ∈ d.heardAt ↔ ∃ endpoint ∈ d.endpoints, endpoint.xaddr = xaddr ∧ p ∈ endpoint.provenance := by
  simp only [Device.heardAt, List.mem_append, List.mem_map, List.mem_flatMap, Prod.mk.injEq, reduceCtorEq, false_and,
    and_false, exists_false, false_or, Option.some.injEq]
  constructor
  · rintro ⟨endpoint, he, q, hq, rfl, rfl⟩
    exact ⟨endpoint, he, rfl, hq⟩
  · rintro ⟨endpoint, he, rfl, hp⟩
    exact ⟨endpoint, he, p, hp, rfl, rfl⟩

-- What is added

def Mute (a b : Device ν) : Prop := b.provenance = a.provenance ∧ b.endpoints = a.endpoints

structure Unheard (R : Device ν → Device ν → Prop) : Prop where
  mute : ∀ a b, Mute a b → R a b
  trans : ∀ a b c, R a b → R b c → R a c

theorem Same.mute (a b : Device ν) (h : Same a b) : Mute a b := by
  have hcore : Mute (core a) (core b) := by
    rw [show core a = core b from h]
    exact ⟨rfl, rfl⟩
  exact hcore

theorem Mute.rfl' (d : Device ν) : Mute d d := ⟨rfl, rfl⟩

theorem unheard_mute : Unheard (Mute (ν := ν)) where
  mute _ _ h := h
  trans _ _ _ h h' := ⟨h'.1.trans h.1, h'.2.trans h.2⟩

theorem Unheard.indifferent {R : Device ν → Device ν → Prop} (h : Unheard R) : Indifferent R where
  same a b hab := h.mute a b (hab.mute)
  trans := h.trans
  enter _ _ := h.mute _ _ ⟨rfl, rfl⟩
  record _ _ _ := h.mute _ _ ⟨rfl, rfl⟩
  conflict _ := h.mute _ _ ⟨rfl, rfl⟩
  types _ _ := h.mute _ _ ⟨rfl, rfl⟩
  scopes _ _ := h.mute _ _ ⟨rfl, rfl⟩
  claims _ _ := h.mute _ _ ⟨rfl, rfl⟩
  metadataVersion _ _ := h.mute _ _ ⟨rfl, rfl⟩
  identityEvidence _ _ := h.mute _ _ ⟨rfl, rfl⟩
  quarantine _ := h.mute _ _ ⟨rfl, rfl⟩
  updatedAt _ _ := h.mute _ _ ⟨rfl, rfl⟩
  reads _ _ _ _ := h.mute _ _ ⟨rfl, rfl⟩
  resources _ _ := h.mute _ _ ⟨rfl, rfl⟩

theorem Unheard.accept {R : Device ν → Device ν → Prop} (h : Unheard R) {s : Inventory ν} {entry : DiscoveryMatch}
    (hendpoints : At id R s (mergeEndpoints setting now s other entry.xaddrs incoming).1) (message : DiscoveryMessage) :
    At id R s (accept setting now s other entry message incoming) :=
  h.indifferent.accept hendpoints
    (fun s => h.indifferent.mergePresence (fun _ => h.mute _ _ ⟨rfl, rfl⟩) (fun _ _ => h.mute _ _ ⟨rfl, rfl⟩)
      (fun _ => h.mute _ _ ⟨rfl, rfl⟩) s other message)
    fun _ => h.mute _ _ ⟨rfl, rfl⟩

section
variable {Q Q' : Place × Provenance → Prop}

def Hears (Q : Place × Provenance → Prop) (a b : Device ν) : Prop := ∀ x ∈ b.heardAt, x ∈ a.heardAt ∨ Q x

theorem unheard_hears (Q : Place × Provenance → Prop) : Unheard (Hears Q (ν := ν)) where
  mute a b h x hx := .inl (by unfold Device.heardAt at hx ⊢; rwa [h.1, h.2] at hx)
  trans _ _ _ h h' x hx := (h' x hx).elim (h x) .inr

theorem hears (Q : Place × Provenance → Prop) : Indifferent (Hears Q (ν := ν)) := (unheard_hears Q).indifferent

def Adds (id : String) (Q : Place × Provenance → Prop) (s s' : Inventory ν) : Prop :=
  ∀ x ∈ s'.heardAt id, x ∈ s.heardAt id ∨ Q x

theorem Adds.of_eq (h : s'.device id = s.device id) : Adds id Q s s' := fun _ hx => .inl (by
  rwa [Inventory.heardAt, h] at hx)

theorem Adds.trans (h : Adds id Q s s') (h' : Adds id Q s' s'') : Adds id Q s s'' :=
  fun x hx => (h' x hx).elim (h x) .inr

theorem Adds.mono (h : Adds id Q s s') (hq : ∀ x, Q x → Q' x) : Adds id Q' s s' :=
  fun x hx => (h x hx).imp_right (hq x)

theorem At.adds (h : At id (Hears Q) s s') : Adds id Q s s' := by
  intro x hx
  unfold Inventory.heardAt at hx ⊢
  cases hd : s.device id with
  | none =>
    rw [h.2 hd] at hx
    cases hx
  | some d =>
    obtain ⟨d', hd', hq⟩ := h.1 d hd
    rw [hd'] at hx
    exact hq x hx

theorem At.same_adds (h : At id Same s s') : Adds id Q s s' := (h.mono (hears Q).same).adds

end

-- One list

def Takes (limit : Nat) (list : List Provenance) (incoming : Provenance) : Prop :=
  (∀ item ∈ list, provenanceKey item ≠ provenanceKey incoming) ∧ list.length < limit

theorem mergeProvenance_list (setting : Setting ν) (now : Int) (s : Inventory ν) (list : List Provenance) (incoming : Provenance) :
    (∃ s', mergeProvenance setting now s list incoming = (s', list, false)) ∨
    Takes setting.bounds.maxProvenance list incoming ∧
      mergeProvenance setting now s list incoming = (s, list ++ [incoming], true) := by
  unfold mergeProvenance
  split
  · exact .inl ⟨_, rfl⟩
  · rename_i hkey
    split
    · exact .inl ⟨_, rfl⟩
    · rename_i hroom
      refine .inr ⟨⟨fun item hi he => hkey (List.any_eq_true.mpr ⟨item, hi, decide_eq_true he⟩), Nat.lt_of_not_le hroom⟩, rfl⟩

def Device.takes (limit : Nat) (d : Device ν) (incoming : Provenance) : Place → Prop
  | none => Takes limit d.provenance incoming
  | some xaddr => ∃ endpoint ∈ d.endpoints, endpoint.xaddr = xaddr ∧ Takes limit endpoint.provenance incoming

variable {limit : Nat}

theorem takes_append {list : List Provenance} : ¬Takes limit (list ++ [incoming]) incoming :=
  fun h => h.1 incoming (by simp) rfl

/-- What was heard is added only where it is taken, to the device and the named
endpoints that it has. -/
structure Widens (limit : Nat) (xaddrs : List String) (incoming : Provenance) (a b : Device ν) : Prop where
  heard : Hears (fun x => x.2 = incoming ∧ (∀ xaddr ∈ x.1, xaddr ∈ xaddrs) ∧ a.takes limit incoming x.1) a b
  takes : ∀ place, b.takes limit incoming place → a.takes limit incoming place

variable {xaddrs : List String}

theorem Widens.rfl' (d : Device ν) : Widens limit xaddrs incoming d d :=
  ⟨fun _ hx => .inl hx, fun _ h => h⟩

theorem Widens.trans (a b c : Device ν) (h : Widens limit xaddrs incoming a b)
    (h' : Widens limit xaddrs incoming b c) : Widens limit xaddrs incoming a c where
  heard x hx := (h'.heard x hx).elim (h.heard x) fun hq => .inr ⟨hq.1, hq.2.1, h.takes _ hq.2.2⟩
  takes place hp := h.takes place (h'.takes place hp)

theorem Same.widens (a b : Device ν) (h : Same a b) :
    Widens limit xaddrs incoming a b := by
  have hb : Widens limit xaddrs incoming (core a) (core b) := by
    rw [show core a = core b from h]
    exact .rfl' _
  exact ⟨hb.heard, hb.takes⟩

theorem mergeDeviceProvenance_widens (s : Inventory ν) (other : String) :
    At id (Widens setting.bounds.maxProvenance xaddrs incoming) s
      (mergeDeviceProvenance setting now s other incoming).1 := by
  unfold mergeDeviceProvenance
  split
  · exact .refl Widens.rfl'
  · rename_i d hd
    have hkept : At id Same s (mergeProvenance setting now s d.provenance incoming).1 := mergeProvenance_same _ _ _
    rcases mergeProvenance_list setting now s d.provenance incoming with
      ⟨s', hlist⟩ | ⟨htakes, hlist⟩
    · rw [hlist] at hkept ⊢
      exact hkept.mono Same.widens
    · rw [hlist]
      refine .modify Widens.rfl' fun _ d' hd' => ?_
      obtain rfl := Option.some.inj (hd.symm.trans hd')
      refine ⟨?_, fun place hp => ?_⟩
      · rintro ⟨_ | xaddr, p⟩ hx
        · rcases List.mem_append.mp (heardAt_none.mp hx) with hp | hp
          · exact .inl (heardAt_none.mpr hp)
          · exact .inr ⟨List.mem_singleton.mp hp, nofun, htakes⟩
        · have hendpoint := heardAt_some.mp hx
          exact .inl (heardAt_some.mpr hendpoint)
      · cases place with
        | none => exact htakes
        | some xaddr => exact hp

theorem mergeEndpointProvenance_widens (s : Inventory ν) (other : String) (index : Nat)
    (hindex : id = other → ∀ d, s.device other = some d → ∀ endpoint, d.endpoints[index]? = some endpoint →
      endpoint.xaddr ∈ xaddrs) :
    At id (Widens setting.bounds.maxProvenance xaddrs incoming) s
      (mergeEndpointProvenance setting now s other incoming index).1 := by
  unfold mergeEndpointProvenance
  split
  · exact .refl Widens.rfl'
  · rename_i endpoint hendpoint
    obtain ⟨d, hd, hendpoint⟩ := Option.bind_eq_some_iff.mp hendpoint
    have hkept : At id Same s (mergeProvenance setting now s endpoint.provenance incoming).1 := mergeProvenance_same _ _ _
    rcases mergeProvenance_list setting now s endpoint.provenance incoming with
      ⟨s', hlist⟩ | ⟨htakes, hlist⟩
    · rw [hlist] at hkept ⊢
      exact hkept.mono Same.widens
    · rw [hlist]
      refine .modify Widens.rfl' fun hid d' hd' => ?_
      obtain rfl := Option.some.inj (hd.symm.trans hd')
      have hmem : endpoint ∈ d.endpoints := List.mem_of_getElem? hendpoint
      have hmodified (other : EndpointObservation)
          (ho : other ∈ d.endpoints.modify index ({ · with provenance := endpoint.provenance ++ [incoming] })) :
          other ∈ d.endpoints ∨ other = { endpoint with provenance := endpoint.provenance ++ [incoming] } := by
        obtain ⟨i, hi⟩ := List.mem_iff_getElem?.mp ho
        rw [List.getElem?_modify] at hi
        split at hi
        · rename_i he
          subst he
          rw [hendpoint] at hi
          exact .inr (Option.some.inj hi).symm
        · exact .inl (List.mem_of_getElem? (by simpa using hi))
      refine ⟨?_, fun place hp => ?_⟩
      · rintro ⟨_ | xaddr, p⟩ hx
        · have hp := heardAt_none.mp hx
          exact .inl (heardAt_none.mpr hp)
        · obtain ⟨other, ho, rfl, hp⟩ := heardAt_some.mp hx
          rcases hmodified other ho with ho | rfl
          · exact .inl (heardAt_some.mpr ⟨other, ho, rfl, hp⟩)
          · rcases List.mem_append.mp hp with hp | hp
            · exact .inl (heardAt_some.mpr ⟨endpoint, hmem, rfl, hp⟩)
            · refine .inr ⟨List.mem_singleton.mp hp, ?_, endpoint, hmem, rfl, htakes⟩
              rintro _ ⟨⟩
              exact hindex hid d hd endpoint hendpoint
      · cases place with
        | none => exact hp
        | some xaddr =>
          obtain ⟨other, ho, rfl, hother⟩ := hp
          rcases hmodified other ho with ho | rfl
          · exact ⟨other, ho, rfl, hother⟩
          · exact absurd hother takes_append

-- A message that is remembered

def Named (xaddrs : List String) (index : Nat) (d : Device ν) : Prop :=
  ∀ endpoint, d.endpoints[index]? = some endpoint → endpoint.xaddr ∈ xaddrs

theorem Named.bare {index : Nat} {a b : Device ν} (h : Named xaddrs index a) (hab : SameBare a b) :
    Named xaddrs index b := by
  intro endpoint he
  have hendpoints : a.endpoints.map ({ · with provenance := [] }) = b.endpoints.map ({ · with provenance := [] }) :=
    congrArg Device.endpoints (show Discovery.bare a = Discovery.bare b from hab)
  have hmapped := congrArg (·[index]?) hendpoints
  simp only [List.getElem?_map, he, Option.map_some] at hmapped
  obtain ⟨other, ho, heq⟩ := Option.map_eq_some_iff.mp hmapped
  have hxaddr : other.xaddr = endpoint.xaddr := (EndpointObservation.mk.inj heq).1
  exact hxaddr ▸ h other ho

theorem forEach_widens (indices : List Nat) (s : Inventory ν) (changed : Bool)
    (h : ∀ index ∈ indices, ∀ d, s.device id = some d → Named xaddrs index d) :
    At id (Widens setting.bounds.maxProvenance xaddrs incoming) s
      (forEach (fun s => mergeEndpointProvenance setting now s id incoming) indices (s, changed)).1 := by
  induction indices generalizing s changed with
  | nil => exact .refl Widens.rfl'
  | cons index indices ih =>
    have hround : At id (Widens setting.bounds.maxProvenance xaddrs incoming) s
        (mergeEndpointProvenance setting now s id incoming index).1 :=
      mergeEndpointProvenance_widens s id index fun _ d hd => h index List.mem_cons_self d hd
    refine hround.trans Widens.trans (ih _ _ fun index' hi d' hd' => ?_)
    have hbare : At id SameBare s (mergeEndpointProvenance setting now s id incoming index).1 :=
      mergeEndpointProvenance_bare s id incoming index
    cases hd : s.device id with
    | none => cases (hbare.2 hd).symm.trans hd'
    | some d =>
      obtain ⟨b, hb, hs⟩ := hbare.1 d hd
      obtain rfl := Option.some.inj (hb.symm.trans hd')
      exact (h index' (List.mem_cons_of_mem _ hi) d hd).bare hs

variable {message : DiscoveryMessage}

theorem again_widens {entry : DiscoveryMatch} (s : Inventory ν)
    (hentry : (message.entries.find? fun entry => setting.endpointIdentity entry.endpointReference = id) = some entry) :
    At id (Widens setting.bounds.maxProvenance entry.xaddrs incoming) s (again setting now message incoming s id) := by
  unfold again
  rw [hentry]
  split
  · rename_i d entry' hd hsome
    obtain rfl := Option.some.inj hsome
    have hdevice : At id SameBare s (mergeDeviceProvenance setting now s id incoming).1 :=
      mergeDeviceProvenance_bare s id incoming
    obtain ⟨d₁, hd₁, hbare⟩ := hdevice.1 d hd
    have hfirst : At id (Widens setting.bounds.maxProvenance entry.xaddrs incoming) s
        (mergeDeviceProvenance setting now s id incoming).1 := mergeDeviceProvenance_widens s id
    have hmerged : At id (Widens setting.bounds.maxProvenance entry.xaddrs incoming) s
        (forEach (fun s => mergeEndpointProvenance setting now s id incoming)
          ((List.range d.endpoints.length).filter fun index =>
            (d.endpoints[index]?).any fun endpoint => entry.xaddrs.contains endpoint.xaddr)
          (mergeDeviceProvenance setting now s id incoming)).1 := by
      refine hfirst.trans Widens.trans (forEach_widens _ _ _ ?_)
      intro index hi d' hd'
      obtain rfl := Option.some.inj (hd₁.symm.trans hd')
      refine Named.bare (fun endpoint he => ?_) hbare
      have hnamed := (List.mem_filter.mp hi).2
      rw [he, Option.any_some] at hnamed
      exact List.contains_iff_mem.mp hnamed
    dsimp only
    split
    · exact hmerged.trans Widens.trans (.of_eq Widens.rfl' rfl)
    · exact hmerged
  · exact .refl Widens.rfl'

theorem again_unnamed (s : Inventory ν)
    (hentry : (message.entries.find? fun entry => setting.endpointIdentity entry.endpointReference = id) = none) :
    again setting now message incoming s id = s := by
  unfold again
  rw [hentry]
  cases s.device id <;> rfl

theorem again_other (hid : id ≠ other) (s : Inventory ν) :
    At id Same s (again setting now message incoming s other) := by
  unfold again
  split
  · have hmerged (indices : List Nat) : At id Same s (forEach (fun s => mergeEndpointProvenance setting now s other incoming)
        indices (mergeDeviceProvenance setting now s other incoming)).1 :=
      (mergeDeviceProvenance_other hid s incoming).trans Same.trans
        (forEach_at Same.rfl' Same.trans (fun s => mergeEndpointProvenance_other hid s incoming) indices _)
    dsimp only
    split
    · exact (hmerged _).trans Same.trans (.of_eq Same.rfl' rfl)
    · exact hmerged _
  · exact .refl Same.rfl'

theorem foldl_again_other (ids : List String) (hid : id ∉ ids) (s : Inventory ν) :
    At id Same s (ids.foldl (again setting now message incoming) s) := by
  induction ids generalizing s with
  | nil => exact .refl Same.rfl'
  | cons other ids ih =>
    rw [List.mem_cons, not_or] at hid
    exact (again_other hid.1 s).trans Same.trans (ih hid.2 _)

def Repeats (setting : Setting ν) (s : Inventory ν) (message : DiscoveryMessage) (incoming : Provenance) (id : String)
    (place : Place) : Prop :=
  ∃ prior, remembered s message.messageId = some prior ∧ prior.fingerprint = setting.fingerprint message ∧
    id ∈ prior.deviceIds ∧ ∃ d entry, s.device id = some d ∧
      (message.entries.find? fun entry => setting.endpointIdentity entry.endpointReference = id) = some entry ∧
      (∀ xaddr ∈ place, xaddr ∈ entry.xaddrs) ∧ d.takes setting.bounds.maxProvenance incoming place

theorem observeDuplicate_adds (s : Inventory ν) (message : DiscoveryMessage) (incoming : Provenance) :
    Adds id (fun x => x.2 = incoming ∧ Repeats setting s message incoming id x.1) s
      (observeDuplicate setting now s message incoming).1 := by
  unfold observeDuplicate
  split
  · exact .of_eq rfl
  · rename_i prior hprior
    split
    · exact (diagnostic_same _ _ _ _ _).same_adds
    · rename_i hfingerprint
      rw [not_not] at hfingerprint
      dsimp only
      by_cases hid : id ∈ prior.deviceIds
      · cases hentry : message.entries.find? fun entry => setting.endpointIdentity entry.endpointReference = id with
        | none =>
          refine At.same_adds (foldl_at Same.rfl' Same.trans (fun s other => ?_) prior.deviceIds s)
          by_cases ho : id = other
          · subst ho
            rw [again_unnamed s hentry]
            exact .refl Same.rfl'
          · exact again_other ho s
        | some entry =>
          have hwidens : At id (Widens setting.bounds.maxProvenance entry.xaddrs incoming) s
              (prior.deviceIds.foldl (again setting now message incoming) s) := by
            refine foldl_at Widens.rfl' Widens.trans (fun s other => ?_) prior.deviceIds s
            by_cases ho : id = other
            · subst ho
              exact again_widens s hentry
            · exact (again_other ho s).mono Same.widens
          intro x hx
          unfold Inventory.heardAt at hx ⊢
          cases hd : s.device id with
          | none =>
            rw [hwidens.2 hd] at hx
            cases hx
          | some d =>
            obtain ⟨d', hd', hw⟩ := hwidens.1 d hd
            rw [hd'] at hx
            exact (hw.heard x hx).imp_right fun ⟨hp, hnamed, htakes⟩ =>
              ⟨hp, prior, hprior, hfingerprint, hid, d, entry, hd, hentry, hnamed, htakes⟩
      · exact (foldl_again_other prior.deviceIds hid s).same_adds

-- A message that is new

def News (xaddrs : List String) (incoming : Provenance) (x : Place × Provenance) : Prop :=
  x.2 = incoming ∧ ∀ xaddr ∈ x.1, xaddr ∈ xaddrs

theorem Widens.hears (a b : Device ν) (h : Widens limit xaddrs incoming a b) :
    Hears (News xaddrs incoming) a b := fun x hx => (h.heard x hx).imp_right fun hq => ⟨hq.1, hq.2.1⟩

theorem mergeXAddr_hears (hx : xaddr ∈ xaddrs) (s : Inventory ν) :
    At id (Hears (News xaddrs incoming)) s (mergeXAddr setting now s id incoming xaddr).1 := by
  unfold mergeXAddr
  split
  · exact .refl (hears _).refl
  · rename_i d hd
    split
    · rename_i index hindex
      refine (mergeEndpointProvenance_widens s id index fun _ d' hd' endpoint he => ?_).mono Widens.hears
      obtain rfl := Option.some.inj (hd.symm.trans hd')
      obtain ⟨hlt, hxaddr, _⟩ := List.findIdx?_eq_some_iff_getElem.mp hindex
      rw [List.getElem?_eq_getElem hlt] at he
      rw [← Option.some.inj he, of_decide_eq_true hxaddr]
      exact hx
    · split
      · exact (hears _).diagnostic _ _ _ _ _
      · split
        · exact (hears _).diagnostic _ _ _ _ _
        · rename_i approved _
          have hpushed : At id (Hears (News xaddrs incoming)) s
              (s.modify id fun d => { d with endpoints := d.endpoints ++ [⟨xaddr, approved, []⟩] }) :=
            (hears _).modify s id fun d x hx => .inl (by simpa [Device.heardAt] using hx)
          refine (hears _).andThen hpushed (.mono Widens.hears
            (mergeEndpointProvenance_widens _ id _ fun _ d' hd' endpoint he => ?_))
          rw [device_modify_self hd] at hd'
          obtain rfl := Option.some.inj hd'
          rw [List.getElem?_concat_length] at he
          rw [← Option.some.inj he]
          exact hx

theorem mergeEndpoints_hears (s : Inventory ν) (xaddrs : List String) :
    At id (Hears (News xaddrs incoming)) s (mergeEndpoints setting now s id xaddrs incoming).1 := by
  have hloop (some_ : List String) (hsub : some_ ⊆ xaddrs) (r : Inventory ν × Bool) :
      At id (Hears (News xaddrs incoming)) r.1
        (forEach (fun s => mergeXAddr setting now s id incoming) some_ r).1 := by
    induction some_ generalizing r with
    | nil => exact .refl (hears _).refl
    | cons xaddr some_ ih =>
      rw [List.cons_subset] at hsub
      have hround : At id (Hears (News xaddrs incoming)) r.1 (mergeXAddr setting now r.1 id incoming xaddr).1 :=
        mergeXAddr_hears hsub.1 r.1
      unfold forEach
      dsimp only
      exact (hears _).andThen hround (ih hsub.2 (_, (mergeXAddr setting now r.1 id incoming xaddr).2 || r.2))
  exact (hears _).andThen (hloop xaddrs (List.Subset.refl _) (s, false))
    (.mono Widens.hears (mergeDeviceProvenance_widens _ id))

theorem accept_hears (s : Inventory ν) (entry : DiscoveryMatch) (message : DiscoveryMessage) :
    At id (Hears (News entry.xaddrs incoming)) s (accept setting now s id entry message incoming) :=
  (unheard_hears _).accept (mergeEndpoints_hears s entry.xaddrs) message

theorem chained_adds (Q : Place × Provenance → Prop) : Chained now fun a b : Option (Device ν) =>
    ∀ x ∈ b.elim [] Device.heardAt, x ∈ a.elim [] Device.heardAt ∨ Q x where
  refl _ _ hx := .inl hx
  trans hab hbc x hx := (hbc x hx).elim (hab x) .inr
  same hab x hx := (hears Q).same _ _ hab x hx
  new _ _ hx := nomatch hx

def Told (setting : Setting ν) (entries : List DiscoveryMatch) (incoming : Provenance) (id : String)
    (x : Place × Provenance) : Prop :=
  ∃ entry ∈ entries, setting.endpointIdentity entry.endpointReference = id ∧ News entry.xaddrs incoming x

theorem observeMatch_adds (message : DiscoveryMessage) (s : Inventory ν) (entry : DiscoveryMatch) :
    Adds id (Told setting [entry] incoming id) s (observeMatch setting now message incoming s entry).1 := by
  refine (chained_adds _).observeMatch (fun s d _ => ((hears _).order s _ d message).adds) (fun s => ?_) s
  by_cases hid : id = setting.endpointIdentity entry.endpointReference
  · subst hid
    exact (accept_hears s entry message).adds.mono fun x hx => ⟨entry, List.mem_cons_self, rfl, hx⟩
  · exact (accept_other setting now hid s entry message incoming).same_adds

theorem Told.mono {entries entries' : List DiscoveryMatch} {x : Place × Provenance} (h : Told setting entries incoming id x)
    (hsub : entries ⊆ entries') : Told setting entries' incoming id x := by
  obtain ⟨entry, he, hx⟩ := h
  exact ⟨entry, hsub he, hx⟩

theorem observeMatches_adds (message : DiscoveryMessage) (entries : List DiscoveryMatch) (s : Inventory ν) :
    Adds id (Told setting entries incoming id) s (observeMatches setting now message incoming entries s).1 :=
  (chained_adds _).observeMatches entries
    (fun entry he s => (observeMatch_adds message s entry).mono fun x hx => hx.mono (by simpa using he)) s

theorem observe_adds (s : Inventory ν) (message fingerprintSource : DiscoveryMessage)
    (h : message.discoveryProxy ∨ (observeDuplicate setting now s message incoming).2 = false) :
    Adds id (Told setting message.entries incoming id) s (observe setting now s message incoming fingerprintSource).1 := by
  unfold observe
  split
  · exact (diagnostic_same _ _ _ _ _).same_adds
  · rename_i hproxy
    have hnew := h.resolve_left hproxy
    dsimp only
    rw [hnew, if_neg nofun, observeDuplicate_new message incoming hnew]
    exact (observeMatches_adds message message.entries s).trans (.of_eq rfl)

-- A device that leaves

def Device.grows (setting : Setting ν) (d : Device ν) (xaddr : String) : Prop :=
  (∀ endpoint ∈ d.endpoints, endpoint.xaddr ≠ xaddr) ∧ d.endpoints.length < setting.bounds.maxXAddrs ∧
    (setting.approveXAddr xaddr).isSome

def Rooted (a b : Device ν) : Prop := b.endpoints = a.endpoints

theorem unheard_rooted : Unheard (Rooted (ν := ν)) where
  mute _ _ h := h.2
  trans _ _ _ h h' := h'.trans h

theorem rooted : Indifferent (Rooted (ν := ν)) := unheard_rooted.indifferent

def Device.stale (setting : Setting ν) (incoming : Provenance) (d : Device ν) (xaddr : String) : Prop :=
  ¬d.takes setting.bounds.maxProvenance incoming (some xaddr) ∧ ¬d.grows setting xaddr

theorem mergeXAddr_rooted (s : Inventory ν)
    (h : ∀ d, s.device id = some d → d.stale setting incoming xaddr) :
    At id Rooted s (mergeXAddr setting now s id incoming xaddr).1 := by
  unfold mergeXAddr
  split
  · exact .refl rooted.refl
  · rename_i d hd
    obtain ⟨htakes, hgrows⟩ := h d hd
    split
    · rename_i index hindex
      obtain ⟨hlt, hxaddr, _⟩ := List.findIdx?_eq_some_iff_getElem.mp hindex
      have hendpoint : (s.device id).bind (·.endpoints[index]?) = some d.endpoints[index] := by
        rw [hd, Option.bind_some, List.getElem?_eq_getElem hlt]
      unfold mergeEndpointProvenance
      rw [hendpoint]
      rcases mergeProvenance_list setting now s d.endpoints[index].provenance incoming with
        ⟨s', hlist⟩ | ⟨htaken, _⟩
      · have hkept : At id Same s (mergeProvenance setting now s d.endpoints[index].provenance incoming).1 :=
          mergeProvenance_same _ _ _
        rw [hlist] at hkept
        dsimp only
        rw [hlist]
        exact hkept.mono rooted.same
      · exact absurd ⟨_, List.getElem_mem hlt, of_decide_eq_true hxaddr, htaken⟩ htakes
    · rename_i hnone
      split
      · exact rooted.diagnostic _ _ _ _ _
      · rename_i hroom
        split
        · exact rooted.diagnostic _ _ _ _ _
        · rename_i approved happroved
          refine absurd ⟨fun endpoint he hx => ?_, Nat.lt_of_not_le hroom, by rw [happroved]; rfl⟩ hgrows
          have := List.findIdx?_eq_none_iff.mp hnone endpoint he
          exact of_decide_eq_false this hx

theorem Device.stale.rooted {a b : Device ν} (h : a.stale setting incoming xaddr) (hab : Rooted a b) :
    b.stale setting incoming xaddr := by
  unfold Device.stale Device.takes Device.grows at h ⊢
  rwa [show b.endpoints = a.endpoints from hab]

theorem At.stale (hat : At id Rooted s s')
    (h : ∀ d, s.device id = some d → ∀ xaddr ∈ xaddrs, d.stale setting incoming xaddr) :
    ∀ d, s'.device id = some d → ∀ xaddr ∈ xaddrs, d.stale setting incoming xaddr := by
  intro d' hd' xaddr hx
  cases hd : s.device id with
  | none => cases (hat.2 hd).symm.trans hd'
  | some d =>
    obtain ⟨b, hb, hr⟩ := hat.1 d hd
    obtain rfl := Option.some.inj (hb.symm.trans hd')
    exact (h d hd xaddr hx).rooted hr

theorem forEach_rooted (xaddrs : List String) (r : Inventory ν × Bool)
    (h : ∀ d, r.1.device id = some d → ∀ xaddr ∈ xaddrs, d.stale setting incoming xaddr) :
    At id Rooted r.1 (forEach (fun s => mergeXAddr setting now s id incoming) xaddrs r).1 := by
  induction xaddrs generalizing r with
  | nil => exact .refl rooted.refl
  | cons xaddr xaddrs ih =>
    have hround : At id Rooted r.1 (mergeXAddr setting now r.1 id incoming xaddr).1 :=
      mergeXAddr_rooted r.1 fun d hd => h d hd xaddr List.mem_cons_self
    have hlater := hround.stale h
    unfold forEach
    exact rooted.andThen hround (ih (_, (mergeXAddr setting now r.1 id incoming xaddr).2 || r.2)
      fun d hd a ha => hlater d hd a (List.mem_cons_of_mem _ ha))

theorem mergeEndpoints_rooted (s : Inventory ν) (xaddrs : List String)
    (h : ∀ d, s.device id = some d → ∀ xaddr ∈ xaddrs, d.stale setting incoming xaddr) :
    At id Rooted s (mergeEndpoints setting now s id xaddrs incoming).1 := by
  have hdevice (s : Inventory ν) : At id Rooted s (mergeDeviceProvenance setting now s id incoming).1 := by
    unfold mergeDeviceProvenance
    split
    · exact .refl rooted.refl
    · dsimp only
      have hkept (list : List Provenance) : At id Rooted s (mergeProvenance setting now s list incoming).1 :=
        (mergeProvenance_same s list incoming).mono rooted.same
      split
      · exact rooted.andThen (hkept _) (rooted.modify _ id fun _ => rfl)
      · exact hkept _
  exact rooted.andThen (forEach_rooted xaddrs (s, false) h) (hdevice _)

theorem accept_rooted (s : Inventory ν) (entry : DiscoveryMatch) (message : DiscoveryMessage)
    (h : ∀ d, s.device id = some d → ∀ xaddr ∈ entry.xaddrs, d.stale setting incoming xaddr) :
    At id Rooted s (accept setting now s id entry message incoming) :=
  unheard_rooted.accept (mergeEndpoints_rooted s entry.xaddrs h) message

def Stale (setting : Setting ν) (s : Inventory ν) (incoming : Provenance) (entries : List DiscoveryMatch) : Prop :=
  ∀ entry ∈ entries, ∀ d, s.device (setting.endpointIdentity entry.endpointReference) = some d →
    ∀ xaddr ∈ entry.xaddrs, d.stale setting incoming xaddr

theorem observeMatch_rooted (hbye : message.kind = .bye) (s : Inventory ν)
    (entry : DiscoveryMatch) (h : Stale setting s incoming [entry]) (id : String) :
    At id Rooted s (observeMatch setting now message incoming s entry).1 := by
  unfold observeMatch
  dsimp only
  split
  · exact .refl rooted.refl
  · rename_i hprior
    obtain ⟨d, hd⟩ : ∃ d, s.device (setting.endpointIdentity entry.endpointReference) = some d := by
      rw [← Option.isSome_iff_exists]
      simpa [hbye, ← Option.isSome_iff_ne_none] using hprior
    have hlocated : located setting now s entry = s := by simp [located, hd]
    rw [hlocated, hd]
    dsimp only
    have hordered (id : String) : At id Rooted s
        (order setting now s (setting.endpointIdentity entry.endpointReference) d message).1 := rooted.order s _ d message
    split
    · exact hordered id
    · generalize (order setting now s (setting.endpointIdentity entry.endpointReference) d message).1 = s₁ at hordered ⊢
      have haccepted : At id Rooted s₁
          (accept setting now s₁ (setting.endpointIdentity entry.endpointReference) entry message incoming) := by
        by_cases hid : id = setting.endpointIdentity entry.endpointReference
        · subst hid
          exact accept_rooted s₁ entry message ((hordered _).stale (h entry (List.mem_singleton_self _)))
        · exact (accept_other setting now hid s₁ entry message incoming).mono rooted.same
      have hall := rooted.andThen (hordered id) haccepted
      split
      · refine rooted.andThen ?_ (rooted.diagnostic _ _ _ _ _)
        unfold restored
        by_cases hid : id = setting.endpointIdentity entry.endpointReference
        · subst hid
          refine ⟨fun a ha => ?_, fun ha => absurd (hd.symm.trans ha) (Option.some_ne_none d)⟩
          obtain rfl := Option.some.inj (hd.symm.trans ha)
          obtain ⟨b, hb, _⟩ := hall.1 d hd
          exact ⟨d, device_modify_self hb _, rfl⟩
        · refine rooted.andThen hall ((modify_other hid _ _).mono rooted.same)
      · exact rooted.andThen hall (.of_eq rooted.refl rfl)

theorem observeMatches_rooted (hbye : message.kind = .bye) (entries : List DiscoveryMatch)
    (s : Inventory ν) (h : Stale setting s incoming entries) (id : String) :
    At id Rooted s (observeMatches setting now message incoming entries s).1 := by
  induction entries generalizing s with
  | nil => exact .refl rooted.refl
  | cons entry entries ih =>
    have hentry (id : String) : At id Rooted s (observeMatch setting now message incoming s entry).1 :=
      observeMatch_rooted hbye s entry (fun e he => h e (by simp_all)) id
    exact rooted.andThen (hentry id) (ih _ fun e he => (hentry _).stale (h e (List.mem_cons_of_mem _ he)))

theorem observe_rooted (hbye : message.kind = .bye) (s : Inventory ν)
    (fingerprintSource : DiscoveryMessage) (h : Stale setting s incoming message.entries)
    (hnew : message.discoveryProxy ∨ (observeDuplicate setting now s message incoming).2 = false) (id : String) :
    At id Rooted s (observe setting now s message incoming fingerprintSource).1 := by
  unfold observe
  split
  · exact rooted.diagnostic _ _ _ _ _
  · rename_i hproxy
    have hnew := hnew.resolve_left hproxy
    dsimp only
    rw [hnew, if_neg nofun, observeDuplicate_new message incoming hnew]
    exact rooted.andThen (observeMatches_rooted hbye message.entries s h id) (.of_eq rooted.refl rfl)

theorem At.rooted_heard (h : At id Rooted s s') {p : Provenance} (hx : (some xaddr, p) ∈ s'.heardAt id) :
    (some xaddr, p) ∈ s.heardAt id := by
  unfold Inventory.heardAt at hx ⊢
  cases hd : s.device id with
  | none =>
    rw [h.2 hd] at hx
    cases hx
  | some d =>
    obtain ⟨d', hd', hr⟩ := h.1 d hd
    rw [hd'] at hx
    have hendpoints := heardAt_some.mp hx
    rw [show d'.endpoints = d.endpoints from hr] at hendpoints
    exact heardAt_some.mpr hendpoints

-- The other operations

def Operation.silent : Operation ν → Bool
  | .observe .. | .observeDuplicate .. | .inspectSeed .. => false
  | _ => true

theorem mute : Indifferent (Mute (ν := ν)) := unheard_mute.indifferent

theorem concludeReport_mute (report : InspectionReport ν) (d : Device ν) : Mute d (concludeReport setting report d) := by
  unfold concludeReport Device.updateRegistryEvidence
  dsimp only
  split <;> split <;> split <;> exact ⟨rfl, rfl⟩

theorem commitInspection_mute (s : Inventory ν) (token : InspectionToken) (report : InspectionReport ν) :
    At id Mute s (commitInspection setting now s token report).1 := by
  unfold commitInspection
  dsimp only
  split
  · exact mute.diagnostic _ _ _ _ _
  · rename_i previous hfound
    obtain ⟨hd, _⟩ := Option.filter_eq_some_iff.mp hfound
    split
    · exact mute.diagnostic _ _ _ _ _
    · split
      · exact mute.andThen (mute.modify s token.deviceId mute.quarantine) (mute.diagnostic _ _ _ _ _)
      · have hevidenced : At id Mute s (addIdentityEvidence setting now s token.deviceId report.identityEvidence).1 :=
          mute.addIdentityEvidence _ _ _
        split
        · exact hevidenced
        · have happlied : At id Mute s (applyReport setting now
              (addIdentityEvidence setting now s token.deviceId report.identityEvidence).1 token.deviceId report) := by
            unfold applyReport
            dsimp only
            refine mute.andThen ?_ (.of_eq mute.refl rfl)
            refine mute.andThen ?_ (mute.modify _ token.deviceId (concludeReport_mute report))
            exact mute.andThen hevidenced (mute.applyReads _ token.deviceId report)
          split
          · refine mute.andThen ?_ (mute.diagnostic _ _ _ _ _)
            by_cases hid : id = token.deviceId
            · subst hid
              refine ⟨fun a ha => ?_, fun ha => absurd (hd.symm.trans ha) nofun⟩
              obtain rfl := Option.some.inj (hd.symm.trans ha)
              obtain ⟨b, hb, _⟩ := happlied.1 previous hd
              exact ⟨previous, device_modify_self hb _, rfl, rfl⟩
            · exact mute.andThen happlied ((modify_other hid _ _).mono mute.same)
          · exact mute.andThen happlied (.of_eq mute.refl rfl)

theorem reconcileDevice_mute (d : Device ν) : Mute d (reconcileDevice setting now d).1 := by
  unfold reconcileDevice
  split
  · exact .rfl' d
  · refine unheard_mute.trans _ (goStale setting now d) _ ?_ ?_
    · unfold goStale
      dsimp only
      split <;> exact ⟨rfl, rfl⟩
    · unfold depart
      dsimp only
      split <;> exact ⟨rfl, rfl⟩

theorem reconcile_mute (s : Inventory ν) : At id Mute s (reconcile setting now s) := by
  refine foldl_at mute.refl mute.trans (fun s other => ?_) s.devices.keys s
  split
  · exact .refl mute.refl
  · dsimp only
    split
    · exact .refl mute.refl
    · exact mute.andThen (mute.modify s other reconcileDevice_mute) (.of_eq mute.refl rfl)

theorem operate_mute (setting : Setting ν) (now : Int) (s : Inventory ν) (op : Operation ν) (h : op.silent) :
    At id Mute s (operate setting now s op) := by
  cases op with
  | diagnostic code message deviceId truncated => exact mute.diagnostic _ _ _ _ _
  | observe message fingerprintSource incoming => cases h
  | observeDuplicate message incoming => cases h
  | beginInspection other =>
    unfold operate
    dsimp only
    split
    · exact .refl mute.refl
    · exact mute.beginInspection (fun _ _ => ⟨rfl, rfl⟩) _ _ _
  | commitInspection token report => exact commitInspection_mute s token report
  | liveness other round responsive confirmedTimeout => exact mute.liveness (fun _ _ _ => ⟨rfl, rfl⟩) s other _ _ _
  | reconcile => exact reconcile_mute s
  | addSeed seedId seed =>
    unfold operate addSeed
    dsimp only
    repeat' split
    all_goals exact .of_eq mute.refl rfl
  | inspectSeed seedId report incoming => cases h

theorem inspectSeed_adds (s : Inventory ν) (seedId : String) (seed : SeedSnapshot) (report : InspectionReport ν) :
    Adds id (fun x => x.2 = incoming) s (inspectSeed setting now s seedId seed report incoming).1 := by
  have hfound : Adds id (fun x => x.2 = incoming) s (approach setting now s seedId seed report incoming).1 := by
    refine (chained_adds _).approach (fun s endpoint => ?_) s seedId
    by_cases hid : id = setting.endpointIdentity endpoint
    · subst hid
      exact (mergeEndpoints_hears s _).adds.mono fun _ hx => hx.1
    · exact (mergeEndpoints_other hid s _ _).same_adds
  unfold inspectSeed
  dsimp only
  split
  · exact hfound
  · rename_i other d _
    have hmute (s : Inventory ν) : At id Mute s
        (commitInspection setting now (beginInspection s other d).1 (beginInspection s other d).2 report).1 :=
      mute.andThen (mute.beginInspection (fun _ _ => ⟨rfl, rfl⟩) s other d) (commitInspection_mute _ _ report)
    have hcommitted := hfound.trans ((hmute _).mono (unheard_hears _).mute).adds
    split
    · exact hcommitted
    · exact hcommitted.trans (.of_eq rfl)

end WotAv.Discovery
