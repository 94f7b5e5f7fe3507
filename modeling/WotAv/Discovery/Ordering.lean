import WotAv.Discovery.Evolution

/-!
# The order of announcements

Instances, the watermarks of their sequences, and metadata versions only grow;
what they have passed is ignored. By the order of one match, of one message,
and of a run of messages.
-/

namespace WotAv.Discovery

variable {ν : Type} {setting : Setting ν} {now : Int} {s s' s'' : Inventory ν} {id other : String} {d : Device ν}

-- Watermarks

theorem watermark_record (d : Device ν) (sequence : AppSequence) (kind : AnnouncementKind) :
    (d.record sequence kind).watermark sequence.sequenceId = some ⟨sequence.sequenceId, sequence.messageNumber,
      kind⟩ := by
  unfold Device.record Device.watermark
  dsimp only
  split
  · rename_i hsome
    generalize d.ordering.sequences = items at hsome ⊢
    induction items with
    | nil => simp at hsome
    | cons item items ih =>
      by_cases hi : item.sequenceId = sequence.sequenceId
      · simp [hi]
      · simpa [hi] using ih (by simpa [hi] using hsome)
  · rename_i hnone
    rw [Bool.not_eq_true, Option.isSome_eq_false_iff, Option.isNone_iff_eq_none] at hnone
    simp [List.find?_append, hnone]

theorem watermark_record_other (d : Device ν) (sequence : AppSequence) (kind : AnnouncementKind)
    {sequenceId : Option String}
    (h : sequenceId ≠ sequence.sequenceId) :
    (d.record sequence kind).watermark sequenceId = d.watermark sequenceId := by
  unfold Device.record Device.watermark
  dsimp only
  split
  · rename_i hsome
    clear hsome
    generalize d.ordering.sequences = items
    induction items with
    | nil => rfl
    | cons item items ih =>
      by_cases hi : item.sequenceId = sequence.sequenceId
      · simpa [hi, h.symm] using ih
      · by_cases hq : item.sequenceId = sequenceId
        · simp [hq, h]
        · simpa [hi, hq] using ih
  · simp [List.find?_append, h.symm]

abbrev Point := ℕ × Option String × ℕ

def AppSequence.point (sequence : AppSequence) : Point :=
  (bigInt sequence.instanceId, sequence.sequenceId, bigInt sequence.messageNumber)

def Passed (point : Point) (d : Device ν) : Prop :=
  (point.1 : WithBot ℕ) < d.instance? ∨ (point.1 : WithBot ℕ) = d.instance? ∧ (point.2.2 : WithBot ℕ) ≤ d.mark point.2.1

theorem Passed.mono {point : Point} {a b : Device ν} (h : Passed point a) (hab : Ordered a b) : Passed point b := by
  rcases h with h | ⟨hi, hn⟩
  · exact .inl (h.trans_le hab.instances)
  · rcases hab.instances.lt_or_eq with hlt | heq
    · exact .inl (hi ▸ hlt)
    · exact .inr ⟨hi.trans heq, hn.trans (hab.marks heq _)⟩

def Ignored (message : DiscoveryMessage) (d : Device ν) : Prop := match message.sequence with
  | none => d.ordering.instanceId.isSome ∨ d.verifiedAt.isSome ∨ message.kind = .bye
  | some sequence => Passed sequence.point d

theorem enter_moves (sequence : AppSequence) (h : newer sequence d) :
    Moves false d (d.enter sequence.instanceId) := by
  have hlt : d.instance? < (d.enter sequence.instanceId).instance? := by
    unfold newer at h
    unfold Device.instance? Device.enter
    cases hi : d.ordering.instanceId with
    | none => exact WithBot.bot_lt_coe _
    | some prior =>
      rw [hi] at h
      exact WithBot.coe_lt_coe.mpr (by simpa using h)
  refine ⟨⟨⟨hlt.le, fun he => absurd he hlt.ne, le_rfl, Nat.le_succ _, ?_⟩, Nat.le_succ _, fun _ hg => ?_, ?_⟩, fun hv => ?_, rfl⟩
  · exact iff_of_false (Nat.lt_succ_self _).ne hlt.ne
  · exact absurd hg (Nat.lt_succ_self _).ne
  · exact fun hq hs => ⟨hq, by simp [Device.enter, hs], rfl⟩
  · by_cases hs : d.state = .conflict <;> simp [Device.enter, hs] at hv

theorem record_moves (sequence : AppSequence) (kind : AnnouncementKind)
    (h : d.mark sequence.sequenceId < (bigInt sequence.messageNumber : WithBot ℕ)) :
    Moves false d (d.record sequence kind) := by
  refine ⟨⟨⟨le_rfl, fun _ sequenceId => ?_, le_rfl, le_rfl, iff_of_true rfl rfl⟩, le_rfl, fun _ _ => ⟨rfl, rfl, rfl, fun h => h⟩,
    fun hq hs => ⟨hq, hs, rfl⟩⟩, fun h => h, rfl⟩
  by_cases hs : sequenceId = sequence.sequenceId
  · subst hs
    refine h.le.trans (le_of_eq ?_)
    rw [Device.mark, watermark_record]
    rfl
  · rw [Device.mark, Device.mark, watermark_record_other d sequence kind hs]
    exact le_rfl

theorem entered (hd : s.device other = some d) (sequence : AppSequence)
    (hold : ¬d.ordering.instanceId.any fun prior => bigInt sequence.instanceId < bigInt prior) :
    (∀ id, At id (Moves false) s (if newer sequence d then s.modify other (·.enter sequence.instanceId) else s)) ∧
    (if newer sequence d then s.modify other (·.enter sequence.instanceId) else s).device other =
      some (if newer sequence d then d.enter sequence.instanceId else d) ∧
    Ordered d (if newer sequence d then d.enter sequence.instanceId else d) ∧
    (if newer sequence d then d.enter sequence.instanceId else d).instance? = (bigInt sequence.instanceId : WithBot ℕ) := by
  split
  · rename_i hn
    refine ⟨fun id => modify_moves fun _ d' hd' => ?_, device_modify_self hd _, (enter_moves sequence hn).ordered, rfl⟩
    obtain rfl := Option.some.inj (hd.symm.trans hd')
    exact enter_moves sequence hn
  · rename_i hn
    refine ⟨fun id => .refl Moves.rfl', hd, (Moves.rfl' (x := false) d).ordered, ?_⟩
    unfold newer at hn
    unfold Device.instance?
    cases hi : d.ordering.instanceId with
    | none => simp [hi] at hn
    | some prior =>
      simp only [hi, Option.any_some, decide_eq_true_eq, not_lt] at hold hn
      exact congrArg some (Nat.le_antisymm hold hn)

theorem contradicted (setting : Setting ν) (now : Int) (hd : s.device other = some d) (contradicts : Bool)
    (code text : String) :
    (∀ id, At id (Moves false) s (if contradicts then
      diagnostic setting now (s.modify other ({ · with state := .conflict })) code text (some other) else s)) ∧
    ∃ d', (if contradicts then diagnostic setting now (s.modify other ({ · with state := .conflict })) code text (some other)
      else s).device other = some d' ∧ d'.ordering = d.ordering := by
  cases contradicts with
  | false => exact ⟨fun id => .refl Moves.rfl', d, hd, rfl⟩
  | true =>
    refine ⟨fun id => ?_, ?_⟩
    · refine (modify_moves fun _ d _ => ?_).moves (diagnostic_moves _ _ _ _ _)
      exact ⟨⟨.of_eq rfl rfl le_rfl, le_rfl, fun _ _ => ⟨rfl, rfl, rfl, nofun⟩, fun hq _ => ⟨hq, rfl, rfl⟩⟩, nofun, rfl⟩
    · obtain ⟨d', hd', hsame⟩ := (diagnostic_same _ code text (some other) false).1 _ (device_modify_self hd ({ · with state := .conflict }))
      exact ⟨d', hd', hsame.ordering.symm⟩

theorem order_cases (setting : Setting ν) (now : Int) (hd : s.device other = some d) (message : DiscoveryMessage) :
    (∀ id, At id (Moves false) s (order setting now s other d message).1) ∧
    (Ignored message d → (order setting now s other d message).2 = false ∧
      ∀ id, At id Same s (order setting now s other d message).1) ∧
    ((order setting now s other d message).2 → ∀ sequence, message.sequence = some sequence →
      ∃ d', (order setting now s other d message).1.device other = some d' ∧ Passed sequence.point d') := by
  unfold order
  split
  · rename_i hnone
    refine ⟨fun id => diagnostic_moves _ _ _ _ _, fun hi => ⟨?_, fun id => diagnostic_same _ _ _ _ _⟩, ?_⟩
    · simp only [Ignored, hnone] at hi
      cases hi' : d.ordering.instanceId <;> cases hv : d.verifiedAt <;> simp_all
    · intro _ sequence hs
      rw [hnone] at hs
      cases hs
  · rename_i sequence hsome
    split
    · exact ⟨fun id => diagnostic_moves _ _ _ _ _, fun _ => ⟨rfl, fun id => diagnostic_same _ _ _ _ _⟩, nofun⟩
    · rename_i hold
      obtain ⟨hmoves, hdevice, hordered, hinstance⟩ := entered hd sequence hold
      -- Where the device has entered an instance, it has not passed the sequence.
      have hentered (hi : Ignored message d) : newer sequence d = false := by
        simp only [Ignored, hsome] at hi
        by_contra hn
        rw [Bool.not_eq_false] at hn
        have hlt : d.instance? < (bigInt sequence.instanceId : WithBot ℕ) := by
          rw [if_pos hn] at hordered hinstance
          rw [← hinstance]
          refine lt_of_le_of_ne hordered.instances fun he => ?_
          exact absurd (hordered.reboots.mpr he) (Nat.lt_succ_self d.epoch).ne
        rcases hi with hi | ⟨hi, _⟩
        · exact absurd hi hlt.not_gt
        · exact absurd hi hlt.ne'
      have hsame (hi : Ignored message d) :
          (if newer sequence d then s.modify other (·.enter sequence.instanceId) else s) = s := by simp [hentered hi]
      dsimp only
      generalize hs₁ : (if newer sequence d then s.modify other (·.enter sequence.instanceId) else s) = s₁ at *
      generalize hd₁ : (if newer sequence d then d.enter sequence.instanceId else d) = d₁ at *
      have hdiagnostic (code text : String) (truncated : Bool) :
          (∀ id, At id (Moves false) s (diagnostic setting now s₁ code text (some other) truncated)) ∧
          (Ignored message d → ∀ id, At id Same s (diagnostic setting now s₁ code text (some other) truncated)) := by
        refine ⟨fun id => (hmoves id).moves (diagnostic_moves _ _ _ _ _), fun hi id => ?_⟩
        obtain rfl := hsame hi
        exact diagnostic_same _ _ _ _ _
      split
      · exact ⟨(hdiagnostic _ _ _).1, fun hi => ⟨rfl, (hdiagnostic _ _ _).2 hi⟩, nofun⟩
      · rename_i hnumber
        split
        · exact ⟨(hdiagnostic _ _ _).1, fun hi => ⟨rfl, (hdiagnostic _ _ _).2 hi⟩, nofun⟩
        · have hmark : d₁.mark sequence.sequenceId < (bigInt sequence.messageNumber : WithBot ℕ) := by
            unfold Device.mark
            cases hw : d₁.watermark sequence.sequenceId with
            | none => exact WithBot.bot_lt_coe _
            | some mark =>
              rw [hw, Option.any_some, decide_eq_true_eq, not_le] at hnumber
              exact WithBot.coe_lt_coe.mpr hnumber
          have hnot : ¬Ignored message d := by
            intro hi
            simp only [Ignored, hsome] at hi
            rcases hi.mono hordered with hi | ⟨_, hi⟩
            · exact absurd hi (hinstance ▸ lt_irrefl _)
            · exact absurd hi hmark.not_ge
          -- The presence that other sequences tell may contradict this one.
          obtain ⟨hmoves₂, d₂, hd₂, heq₂⟩ := contradicted setting now hdevice
            ((d₁.ordering.sequences.filter (·.sequenceId ≠ sequence.sequenceId)).any fun item =>
              decide (item.kind = .bye) ≠ decide (message.kind = .bye)) "IncomparablePresence"
              "Different SequenceIds contradict presence; arrival time cannot resolve them"
          have hmark₂ : d₂.mark sequence.sequenceId < (bigInt sequence.messageNumber : WithBot ℕ) := by
            rwa [Device.mark, Device.watermark, heq₂]
          refine ⟨fun id => ?_, fun hi => absurd hi hnot, fun _ sequence' hs' => ?_⟩
          · refine ((hmoves id).moves (hmoves₂ id)).moves (modify_moves fun _ d hd => ?_)
            obtain rfl := Option.some.inj (hd₂.symm.trans hd)
            exact record_moves sequence message.kind hmark₂
          · obtain rfl := Option.some.inj (hsome.symm.trans hs')
            refine ⟨_, device_modify_self hd₂ _, .inr ⟨?_, ?_⟩⟩
            · change (bigInt sequence.instanceId : WithBot ℕ) = d₂.ordering.instanceId.map bigInt
              rw [heq₂]
              exact hinstance.symm
            · change (bigInt sequence.messageNumber : WithBot ℕ) ≤
                ((d₂.record sequence message.kind).watermark sequence.sequenceId).map fun item => bigInt item.messageNumber
              rw [watermark_record]
              exact le_rfl

-- One match

variable {R : Device ν → Device ν → Prop}

/-- A relation of what there is of a device before and after, which holds where
nothing happens to it and where it is created. -/
structure Chained (now : Int) (R : Option (Device ν) → Option (Device ν) → Prop) : Prop where
  refl : ∀ a, R a a
  trans : ∀ {a b c}, R a b → R b c → R a c
  same : ∀ {a b}, Same a b → R (some a) (some b)
  new : ∀ endpointReference, R none (some { endpointReference, seenAt := now, updatedAt := now
                                            information := unknown _ now, services := unknown _ now })

namespace Chained

variable {R : Option (Device ν) → Option (Device ν) → Prop} (h : Chained now R)
include h

theorem of_eq (heq : s'.device id = s.device id) : R (s.device id) (s'.device id) := heq ▸ h.refl _

theorem of_same (hs : At id Same s s') : R (s.device id) (s'.device id) := by
  cases hd : s.device id with
  | none => exact hs.2 hd ▸ h.refl none
  | some d =>
    obtain ⟨d', hd', hsame⟩ := hs.1 d hd
    exact hd' ▸ h.same hsame

theorem create (s : Inventory ν) (endpoint : DiscoveryEndpointReference) :
    R (s.device id) ((create setting now s endpoint).1.device id) := by
  unfold Discovery.create
  dsimp only
  split
  · exact h.refl _
  · rename_i habsent
    split
    · exact h.of_same (diagnostic_same _ _ _ _ _)
    · by_cases hid : id = setting.endpointIdentity endpoint
      · subst hid
        rw [Option.not_isSome_iff_eq_none.mp habsent]
        simpa [Inventory.device] using h.new endpoint
      · exact h.of_eq (by simp [Inventory.device, AList.lookup_insert_ne hid])

theorem located (s : Inventory ν) (entry : DiscoveryMatch) : R (s.device id) ((located setting now s entry).device id) := by
  unfold Discovery.located
  split
  · exact h.create s _
  · exact h.refl _

theorem restored (hs : R (s.device id) (s'.device id)) :
    R (s.device id) ((restored s' other (s.device other)).device id) := by
  unfold Discovery.restored
  by_cases hid : id = other
  · subst hid
    cases hd : s.device id with
    | none => simpa [Inventory.device] using h.refl none
    | some prior =>
      dsimp only
      rw [device_modify, if_pos rfl]
      cases hd' : s'.device id with
      | none => rwa [hd, hd'] at hs
      | some _ => exact h.refl _
  · cases s.device other with
    | none => simpa [Inventory.device, AList.lookup_erase_ne hid] using hs
    | some prior => simpa [device_modify, hid] using hs

variable {message : DiscoveryMessage} {incoming : Provenance}

theorem observeMatch {entry : DiscoveryMatch}
    (hordered : ∀ s d, s.device (setting.endpointIdentity entry.endpointReference) = some d → R (s.device id)
      ((order setting now s (setting.endpointIdentity entry.endpointReference) d message).1.device id))
    (haccepted : ∀ s, R (s.device id)
      ((accept setting now s (setting.endpointIdentity entry.endpointReference) entry message incoming).device id))
    (s : Inventory ν) : R (s.device id) ((observeMatch setting now message incoming s entry).1.device id) := by
  have hlocated : R (s.device id) ((Discovery.located setting now s entry).device id) := h.located s entry
  unfold Discovery.observeMatch
  dsimp only
  split
  · exact h.refl _
  · split
    · exact hlocated
    · rename_i d hd
      have hordered := h.trans hlocated (hordered _ d hd)
      split
      · exact hordered
      · have haccepted := h.trans hordered (haccepted _)
        split
        · exact h.trans (h.restored haccepted) (h.of_same (diagnostic_same _ _ _ _ _))
        · exact haccepted

theorem observeMatches (entries : List DiscoveryMatch)
    (hmatch : ∀ entry ∈ entries, ∀ s, R (s.device id) ((Discovery.observeMatch setting now message incoming s entry).1.device id))
    (s : Inventory ν) : R (s.device id) ((observeMatches setting now message incoming entries s).1.device id) := by
  induction entries generalizing s with
  | nil => exact h.refl _
  | cons entry entries ih =>
    exact h.trans (hmatch entry List.mem_cons_self s) (ih (fun entry he => hmatch entry (List.mem_cons_of_mem _ he)) _)

theorem observe (hduplicate : R (s.device id) ((observeDuplicate setting now s message incoming).1.device id))
    (hmatch : ∀ entry ∈ message.entries, ∀ s,
      R (s.device id) ((Discovery.observeMatch setting now message incoming s entry).1.device id))
    (fingerprintSource : DiscoveryMessage) :
    R (s.device id) ((observe setting now s message incoming fingerprintSource).1.device id) := by
  unfold Discovery.observe
  split
  · exact h.of_same (diagnostic_same _ _ _ _ _)
  · dsimp only
    split
    · exact hduplicate
    · exact h.trans hduplicate (h.observeMatches message.entries hmatch _)

end Chained

theorem chained {R : Device ν → Device ν → Prop} (hr : ∀ d, R d d) (ht : ∀ a b c, R a b → R b c → R a c)
    (hs : ∀ a b, Same a b → R a b) : Chained now fun a b : Option (Device ν) => ∀ d, a = some d → ∃ d', b = some d' ∧ R d d' where
  refl _ d hd := ⟨d, hd, hr d⟩
  trans hab hbc d hd := by
    obtain ⟨b, hb, hdb⟩ := hab d hd
    obtain ⟨c, hc, hbc⟩ := hbc b hb
    exact ⟨c, hc, ht d b c hdb hbc⟩
  same hab d hd := by
    obtain rfl := Option.some.inj hd
    exact ⟨_, rfl, hs _ _ hab⟩
  new _ _ hd := nomatch hd

theorem chained_moves : Chained now fun a b : Option (Device ν) => ∀ d, a = some d → ∃ d', b = some d' ∧ Moves false d d' :=
  chained Moves.rfl' (fun _ _ _ hab hbc => hab.trans hbc) fun _ _ => Same.moves

theorem accept_moves (setting : Setting ν) (now : Int) (s : Inventory ν) (other : String)
    (entry : DiscoveryMatch) (message : DiscoveryMessage)
    (incoming : Provenance) : At id (Moves false) s (accept setting now s other entry message incoming) := by
  have hmerged := @mergeMetadata_moves ν setting now id s other entry message incoming
  unfold accept
  dsimp only
  generalize mergeMetadata setting now s other entry message incoming = merged at hmerged ⊢
  refine At.moves ⟨fun d hd => ?_, fun hd => ?_⟩ (modify_moves fun _ d _ => .of_summary rfl)
  on_goal 2 =>
    split
    · exact modify_absent (hmerged.2 hd) _ _
    · exact hmerged.2 hd
  obtain ⟨d', hd', hm⟩ := hmerged.1 d hd
  by_cases hid : id = other
  · subst hid
    split
    · exact ⟨_, device_modify_self hd' _, hm.superseded⟩
    · rename_i hc
      exact ⟨d', hd', hm.weaken fun h => absurd (by simpa using h) hc⟩
  · refine ⟨d', ?_, hm.weaken fun h => absurd h (by simp [hid])⟩
    split
    · rw [device_modify, if_neg hid, hd']
    · exact hd'

theorem observeMatch_moves (message : DiscoveryMessage) (incoming : Provenance) (s : Inventory ν)
    (entry : DiscoveryMatch) :
    Onward id (Moves false) s (observeMatch setting now message incoming s entry).1 :=
  chained_moves.observeMatch (fun _ _ hd => ((order_cases setting now hd message).1 id).1)
    (fun s => (accept_moves setting now s _ entry message incoming).1) s

theorem observeMatch_ignored (setting : Setting ν) (now : Int) (message : DiscoveryMessage) (incoming : Provenance)
    (entry : DiscoveryMatch) (hd : s.device id = some d) (hi : Ignored message d) :
    Onward id Same s (observeMatch setting now message incoming s entry).1 ∧
      ((observeMatch setting now message incoming s entry).2 →
        id ≠ setting.endpointIdentity entry.endpointReference) := by
  by_cases hid : id = setting.endpointIdentity entry.endpointReference
  · subst hid
    have hlocated : located setting now s entry = s := by simp [located, hd]
    obtain ⟨hrefused, hsame⟩ := (order_cases setting now hd message).2.1 hi
    unfold observeMatch
    simp only [hlocated, hd, hrefused]
    simpa using (hsame _).1
  · refine ⟨?_, fun _ => hid⟩
    exact (chained Same.rfl' Same.trans fun _ _ h => h).observeMatch
      (fun s d _ => (order_other setting now hid s d message).1)
      (fun s => (accept_other setting now hid s entry message incoming).1) s

theorem observeMatch_admits {sequence : AppSequence} (message : DiscoveryMessage) (incoming : Provenance)
    (entry : DiscoveryMatch)
    (hs : message.sequence = some sequence) : (observeMatch setting now message incoming s entry).2 →
    ∃ d', (observeMatch setting now message incoming s entry).1.device (setting.endpointIdentity entry.endpointReference) = some d' ∧
      Passed sequence.point d' := by
  unfold observeMatch
  dsimp only
  split
  · exact nofun
  · split
    · exact nofun
    · rename_i d hd
      split
      · exact nofun
      · rename_i hordered
        split
        · exact nofun
        · rw [not_not] at hordered
          obtain ⟨d', hd', hpassed⟩ := (order_cases setting now hd message).2.2 hordered sequence hs
          obtain ⟨d'', hd'', hm⟩ := (accept_moves setting now _ _ entry message incoming).1 d' hd'
          exact fun _ => ⟨d'', hd'', hpassed.mono hm.ordered⟩

theorem observeMatch_bye (message : DiscoveryMessage) (incoming : Provenance) (entry : DiscoveryMatch)
    (s : Inventory ν)
    (h : s.device id = none) (hb : message.kind = .bye) :
    (observeMatch setting now message incoming s entry).1.device id = none := by
  by_cases hprior : s.device (setting.endpointIdentity entry.endpointReference) = none
  · simp [observeMatch, hprior, hb, h]
  · obtain ⟨d, hd⟩ := Option.ne_none_iff_exists'.mp hprior
    have hlocated : located setting now s entry = s := by simp [located, hd]
    have hordered := (((order_cases setting now hd message).1 id).2 h)
    unfold observeMatch
    dsimp only
    rw [hlocated, hd]
    simp only [Option.isNone_some, Bool.false_eq_true, false_and, if_false]
    split
    · exact hordered
    · have haccepted := (accept_moves setting now _ (setting.endpointIdentity entry.endpointReference) entry message incoming).2 hordered
      split
      · exact (diagnostic_same _ _ _ _ _).2 (modify_absent haccepted _ _)
      · exact haccepted

-- One message

theorem Ignored.same {message : DiscoveryMessage} {a b : Device ν} (h : Ignored message a) (hab : Same a b) :
    Ignored message b := by
  have ho : a.ordering = b.ordering := hab.ordering
  have hv : a.verifiedAt = b.verifiedAt := by
    change (core a).verifiedAt = (core b).verifiedAt
    rw [show core a = core b from hab]
  unfold Ignored at h ⊢
  cases hs : message.sequence with
  | none => rwa [hs, ho, hv] at h
  | some sequence =>
    rw [hs] at h
    exact h.mono (hab.moves (x := false)).ordered

section
variable (message : DiscoveryMessage) (incoming : Provenance)

theorem observeMatches_moves (entries : List DiscoveryMatch) (s : Inventory ν) :
    Onward id (Moves false) s (observeMatches setting now message incoming entries s).1 :=
  chained_moves.observeMatches entries (fun entry _ s => observeMatch_moves message incoming s entry) s

theorem observeMatches_ignored (setting : Setting ν) (now : Int) (entries : List DiscoveryMatch)
    (hd : s.device id = some d) (hi : Ignored message d) :
    Onward id Same s (observeMatches setting now message incoming entries s).1 ∧
      id ∉ (observeMatches setting now message incoming entries s).2 := by
  induction entries generalizing s d with
  | nil => exact ⟨.refl Same.rfl', nofun⟩
  | cons entry entries ih =>
    obtain ⟨hsame, hadmitted⟩ := observeMatch_ignored setting now message incoming entry hd hi
    obtain ⟨d', hd', hs⟩ := hsame d hd
    obtain ⟨hrest, hnot⟩ := ih hd' (hi.same hs)
    refine ⟨hsame.trans Same.trans hrest, ?_⟩
    unfold observeMatches
    dsimp only
    split
    · rename_i h
      rw [List.mem_cons, not_or]
      exact ⟨hadmitted h, hnot⟩
    · exact hnot

theorem observeMatches_admits {sequence : AppSequence} (hs : message.sequence = some sequence)
    (entries : List DiscoveryMatch) (s : Inventory ν) :
    (observeMatches setting now message incoming entries s).2.Nodup ∧
    ∀ id ∈ (observeMatches setting now message incoming entries s).2, ∃ d',
      (observeMatches setting now message incoming entries s).1.device id = some d' ∧ Passed sequence.point d' := by
  induction entries generalizing s with
  | nil => exact ⟨List.nodup_nil, nofun⟩
  | cons entry entries ih =>
    obtain ⟨hnodup, hpassed⟩ := ih (observeMatch setting now message incoming s entry).1
    unfold observeMatches
    dsimp only
    split
    · rename_i h
      obtain ⟨d, hd, hp⟩ := observeMatch_admits message incoming entry hs h
      have hi : Ignored message d := by simpa [Ignored, hs] using hp
      refine ⟨hnodup.cons (observeMatches_ignored message incoming setting now entries hd hi).2, fun id hid => ?_⟩
      rcases List.mem_cons.mp hid with rfl | hid
      · obtain ⟨d', hd', hm⟩ := observeMatches_moves message incoming entries _ d hd
        exact ⟨d', hd', hp.mono hm.ordered⟩
      · exact hpassed id hid
    · exact ⟨hnodup, hpassed⟩

theorem observeMatches_bye (hb : message.kind = .bye) (entries : List DiscoveryMatch) (s : Inventory ν)
    (h : s.device id = none) :
    (observeMatches setting now message incoming entries s).1.device id = none := by
  induction entries generalizing s with
  | nil => exact h
  | cons entry entries ih => exact ih _ (observeMatch_bye message incoming entry s h hb)

def Duplicate (setting : Setting ν) (s : Inventory ν) : Prop :=
  ∃ prior, remembered s message.messageId = some prior ∧ prior.fingerprint = setting.fingerprint message

theorem observeDuplicate_same (h : ¬Duplicate message setting s) :
    At id Same s (observeDuplicate setting now s message incoming).1 := by
  unfold observeDuplicate
  cases hr : remembered s message.messageId with
  | none => exact .refl Same.rfl'
  | some prior =>
    dsimp only
    split
    · exact diagnostic_same _ _ _ _ _
    · rename_i hf
      exact absurd ⟨prior, hr, not_not.mp hf⟩ h

theorem observeDuplicate_bare (s : Inventory ν) :
    At id SameBare s (observeDuplicate setting now s message incoming).1 := by
  unfold observeDuplicate
  split
  · exact .refl SameBare.rfl'
  · split
    · exact (diagnostic_same _ _ _ _ _).mono Same.bare
    · exact foldl_at SameBare.rfl' SameBare.trans (again_bare message incoming) _ _

theorem observeDuplicate_new (h : (observeDuplicate setting now s message incoming).2 = false) :
    (observeDuplicate setting now s message incoming).1 = s := by
  unfold observeDuplicate at h ⊢
  cases hr : remembered s message.messageId with
  | none => rfl
  | some prior =>
    rw [hr] at h
    dsimp only at h
    split at h <;> cases h

variable (fingerprintSource : DiscoveryMessage)

theorem observe_moves (s : Inventory ν) :
    Onward id (Moves false) s (observe setting now s message incoming fingerprintSource).1 :=
  chained_moves.observe (at_bare_moves (observeDuplicate_bare message incoming s)).1
    (fun entry _ s => observeMatch_moves message incoming s entry) fingerprintSource

theorem observe_ignored (hd : s.device id = some d) (hi : Ignored message d) :
    Onward id SameBare s (observe setting now s message incoming fingerprintSource).1 ∧
    (¬Duplicate message setting s → Onward id Same s (observe setting now s message incoming fingerprintSource).1) ∧
    id ∉ (observe setting now s message incoming fingerprintSource).2 := by
  unfold observe
  split
  · exact ⟨(diagnostic_same _ _ _ _ _).1.mono Same.bare, fun _ => (diagnostic_same _ _ _ _ _).1, nofun⟩
  · dsimp only
    split
    · exact ⟨(observeDuplicate_bare message incoming s).1, fun h => (observeDuplicate_same message incoming h).1, nofun⟩
    · rename_i hnew
      rw [observeDuplicate_new message incoming (by simpa using hnew)]
      obtain ⟨hmatches, hnot⟩ := observeMatches_ignored message incoming setting now message.entries hd hi
      exact ⟨hmatches.mono Same.bare, fun _ => hmatches, hnot⟩

theorem observe_admits {sequence : AppSequence} (hs : message.sequence = some sequence) (s : Inventory ν) :
    (observe setting now s message incoming fingerprintSource).2.Nodup ∧
    ∀ id ∈ (observe setting now s message incoming fingerprintSource).2, ∃ d',
      (observe setting now s message incoming fingerprintSource).1.device id = some d' ∧
      Passed sequence.point d' := by
  unfold observe
  split
  · exact ⟨List.nodup_nil, nofun⟩
  · dsimp only
    split
    · exact ⟨List.nodup_nil, nofun⟩
    · exact observeMatches_admits message incoming hs message.entries _

theorem observe_bye (hb : message.kind = .bye) (h : s.device id = none) :
    (observe setting now s message incoming fingerprintSource).1.device id = none := by
  unfold observe
  split
  · exact (diagnostic_same _ _ _ _ _).2 h
  · dsimp only
    split
    · exact (observeDuplicate_bare message incoming s).2 h
    · exact observeMatches_bye message incoming hb message.entries _ ((observeDuplicate_bare message incoming s).2 h)

end

end WotAv.Discovery
