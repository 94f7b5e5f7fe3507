import WotAv.Discovery.Persistence

/-!
# Durability

What is stored when a `persist` is fulfilled, in runs whose calls are timely.
-/

namespace WotAv.Discovery

open WotAv.Lib

variable {ν : Type} {ports : Ports ν} {s : Engine ν} {inventory inventory' : Inventory ν}
  {a : InventorySnapshot ν} {now : Int}

-- Snapshots and the store

def Taken (a : InventorySnapshot ν) (inventory : Inventory ν) : Prop :=
  a.revision < inventory.revision ∨ a.timeless = inventory.view 0

theorem Taken.view : Taken (inventory.view now) inventory := .inr rfl

theorem Taken.le (h : Taken a inventory) : a.revision ≤ inventory.revision := by
  rcases h with h | h
  · exact h.le
  · exact le_of_eq (congrArg InventorySnapshot.revision h)

theorem Taken.agrees (h : Taken a inventory) (hr : a.revision = inventory.revision) :
    a.timeless = inventory.view 0 := by
  rcases h with h | h
  · exact absurd hr h.ne
  · exact h

theorem Taken.advances (h : Taken a inventory) (hi : Advances inventory inventory') : Taken a inventory' := by
  rcases hi with hlt | ⟨hr, hd⟩
  · exact .inl (h.le.trans_lt hlt)
  · rcases h with h | h
    · exact .inl (hr ▸ h)
    · refine .inr (h.trans ?_)
      simp only [Inventory.data, Prod.mk.injEq] at hd
      simp [Inventory.view, hr, hd]

theorem write_spec (ports : Ports ν) (stored : Option (InventorySnapshot ν)) (a : InventorySnapshot ν)
    (written : Written) :
    ((write ports stored a written).1 = stored ∨
      (write ports stored a written).1 = some a ∧ ∀ prior, stored = some prior → prior.revision ≤ a.revision) ∧
    ((write ports stored a written).2 = true → ∃ b, (write ports stored a written).1 = some b ∧
      a.revision ≤ b.revision) := by
  unfold write
  split
  · exact ⟨.inl rfl, nofun⟩
  · split
    · exact ⟨.inl rfl, nofun⟩
    · rename_i hstale
      have hle (prior : InventorySnapshot ν) (hp : stored = some prior) : prior.revision ≤ a.revision := by
        subst hp
        simp only [Option.any_some, Bool.or_eq_true, decide_eq_true_eq, not_or, not_lt] at hstale
        exact hstale.1
      split
      · rename_i hsame
        refine ⟨.inl rfl, fun _ => ?_⟩
        cases stored with
        | none => simp at hsame
        | some prior => exact ⟨prior, rfl, le_of_eq (by simpa using hsame)⟩
      · cases written with
        | failed => exact ⟨.inl rfl, nofun⟩
        | renamed => exact ⟨.inr ⟨rfl, hle⟩, nofun⟩
        | synced => exact ⟨.inr ⟨rfl, hle⟩, fun _ => ⟨a, rfl, le_rfl⟩⟩

-- The invariant

/-- No other call was pending, and the store holds nothing newer nor anything
contradictory. -/
structure SaveCall.Sound (c : SaveCall ν) : Prop where
  alone : c.pending = false
  older : ∀ stored, c.stored = some stored → stored.revision ≤ c.snapshot.revision
  agrees : ∀ stored, c.stored = some stored → stored.revision = c.snapshot.revision → stored.timeless = c.snapshot.timeless

namespace Engine

structure Durable (s : Engine ν) : Prop where
  snapshots : ∀ a ∈ s.snapshots, Taken a s.inventory
  alike : ∀ a ∈ s.snapshots, ∀ b ∈ s.snapshots, a.revision = b.revision → a.timeless = b.timeless
  stored : s.unrestored = false → ∀ a, s.stored = some a → Taken a s.inventory
  saved : ∀ r, s.savedRevision = some r → ∃ a, s.stored = some a ∧ r ≤ a.revision
  waiting : ∀ r ∈ s.waiting, r ≤ s.inventory.revision
  fulfilled : ∀ p ∈ s.fulfilled, ∃ a, p.2 = some a ∧ p.1 ≤ a.revision
  saves : ∀ c ∈ s.saves, c.Sound
  closed : s.closing = .persisted ∨ s.closing = .closed → s.savedRevision = some s.inventory.revision ∧ s.unrestored = false
  fresh : s.loaded = false → s.inventory = {} ∧ s.savedRevision = none ∧ s.saving = none ∧ s.closing = .no ∧
    s.unrestored = s.stored.isSome

def Held (s : Engine ν) : Prop := match s.saving with
  | some (.saving a settled) => s.unrestored = false ∧ Taken a s.inventory ∧ s.pending = settled.isNone ∧
      (settled = some true → ∃ b, s.stored = some b ∧ a.revision ≤ b.revision) ∧
      s.closing ≠ .persisted ∧ s.closing ≠ .closed
  | _ => s.pending = false ∧ s.waiting = []

def Inv (s : Engine ν) : Prop := s.Durable ∧ s.Held ∧ (s.saving.isSome → s.loaded)

-- Steps

theorem Durable.advances (h : s.Durable) (hl : s.loaded = true) (hc : s.closing = .no)
    (hi : Advances s.inventory inventory) : ({ s with inventory := inventory } : Engine ν).Durable where
  snapshots a ha := (h.snapshots a ha).advances hi
  alike := h.alike
  stored hu a ha := (h.stored hu a ha).advances hi
  saved := h.saved
  waiting r hr := (h.waiting r hr).trans hi.le
  fulfilled := h.fulfilled
  saves := h.saves
  closed hf := by simp [hc] at hf
  fresh hf := by simp [hl] at hf

theorem Held.advances (h : s.Held) (hi : Advances s.inventory inventory) :
    ({ s with inventory := inventory } : Engine ν).Held := by
  unfold Held at h ⊢
  dsimp only
  split at h
  · exact ⟨h.1, h.2.1.advances hi, h.2.2⟩
  · exact h

theorem Durable.take (h : s.Durable) (now : Int) : (s.take now).Durable where
  snapshots := List.forall_mem_cons.mpr ⟨.view, h.snapshots⟩
  alike a ha b hb hr := by
    rcases List.mem_cons.mp ha with rfl | ha
    · rcases List.mem_cons.mp hb with rfl | hb
      · rfl
      · exact ((h.snapshots b hb).agrees hr.symm).symm
    · rcases List.mem_cons.mp hb with rfl | hb
      · exact (h.snapshots a ha).agrees hr
      · exact h.alike a ha b hb hr
  stored := h.stored
  saved := h.saved
  waiting := h.waiting
  fulfilled := h.fulfilled
  saves := h.saves
  closed := h.closed
  fresh := h.fresh

/-- What is stored is as new as the inventory once that is the saved revision. -/
theorem Durable.current (h : s.Durable) (hs : s.savedRevision = some s.inventory.revision) :
    ∃ a, s.stored = some a ∧ s.inventory.revision ≤ a.revision := h.saved _ hs

theorem Durable.answer (h : s.Durable) (hl : s.loaded = true) (hu : s.unrestored = false) {revisions : List Nat}
    {fulfilled : Bool}
    (hr : ∀ r ∈ revisions, r ≤ s.inventory.revision)
    (hf : fulfilled = true → s.savedRevision = some s.inventory.revision) :
    (s.answer revisions fulfilled).Durable where
  snapshots := h.snapshots
  alike := h.alike
  stored := h.stored
  saved := h.saved
  waiting := h.waiting
  fulfilled := by
    cases fulfilled with
    | false => exact h.fulfilled
    | true =>
      obtain ⟨a, ha, hle⟩ := h.current (hf rfl)
      refine List.forall_mem_append.mpr ⟨?_, h.fulfilled⟩
      simp only [List.forall_mem_map]
      exact fun r hm => ⟨a, ha, (hr r hm).trans hle⟩
  saves := h.saves
  closed hc := by
    unfold Engine.answer at hc ⊢
    dsimp only at hc ⊢
    split at hc
    · cases fulfilled with
      | false => simp at hc
      | true => exact ⟨hf rfl, hu⟩
    · exact h.closed hc
  fresh hc := by simp [Engine.answer, hl] at hc

theorem Durable.finish (h : s.Durable) (hl : s.loaded = true) (hu : s.unrestored = false) {fulfilled : Bool}
    (hf : fulfilled = true → s.savedRevision = some s.inventory.revision) : (s.finish fulfilled).Durable := by
  have h' := h.answer hl hu h.waiting hf
  exact ⟨h'.snapshots, h'.alike, h'.stored, h'.saved, nofun, h'.fulfilled, h'.saves, h'.closed,
    fun hc => by simp [Engine.finish, Engine.answer, hl] at hc⟩

theorem Durable.look (h : s.Durable) (hl : s.loaded = true) (hu : s.unrestored = false) (hp : s.pending = false)
    (now : Int) : (s.look ports now).Inv := by
  unfold Engine.look
  dsimp only
  split
  · rename_i heq
    exact ⟨(h.take now).finish hl hu fun _ => heq.symm, ⟨hp, rfl⟩, fun _ => hl⟩
  · rename_i hne
    split
    · exact ⟨(h.take now).finish hl hu nofun, ⟨hp, rfl⟩, fun _ => hl⟩
    · have h' := h.take now
      have hcalled : SaveCall.Sound (ν := ν) ⟨s.inventory.view now, s.pending, s.stored⟩ :=
        ⟨hp, fun b hb => (h.stored hu b hb).le, fun b hb hr => (h.stored hu b hb).agrees hr⟩
      refine ⟨⟨h'.snapshots, h'.alike, h'.stored, h'.saved, h'.waiting, h'.fulfilled,
        List.forall_mem_cons.mpr ⟨hcalled, h.saves⟩, h'.closed, fun hf => ?_⟩, ?_, fun _ => hl⟩
      · simp [Engine.save, Engine.take, hl] at hf
      · exact ⟨hu, .view, by simp [Engine.save, Engine.take, hp], by simp [Engine.take, hp],
          fun hc => hne (h.closed (.inl hc)).1.symm, fun hc => hne (h.closed (.inr hc)).1.symm⟩

theorem Inv.persist (h : s.Inv) (hl : s.loaded = true) (hu : s.unrestored = false) (now : Int)
    (he : s.saving = some (.ended true) → s.savedRevision = some s.inventory.revision) :
    (s.persist ports now).Inv := by
  obtain ⟨hd, hh, hs⟩ := h
  unfold Engine.persist
  dsimp only
  unfold Held at hh
  split
  · rename_i hnone
    rw [hnone] at hh
    have hd' : ({ s with waiting := [s.inventory.revision] } : Engine ν).Durable :=
      ⟨hd.snapshots, hd.alike, hd.stored, hd.saved, by simp, hd.fulfilled, hd.saves, hd.closed, hd.fresh⟩
    exact hd'.look hl hu hh.1 now
  · rename_i snapshot settled hsaving
    refine ⟨⟨hd.snapshots, hd.alike, hd.stored, hd.saved, List.forall_mem_cons.mpr ⟨le_rfl, hd.waiting⟩, hd.fulfilled, hd.saves,
      hd.closed, hd.fresh⟩, ?_, hs⟩
    rw [hsaving] at hh
    simpa [Held, hsaving] using hh
  · rename_i fulfilled hended
    rw [hended] at hh
    refine ⟨hd.answer hl hu (by simp) ?_, ?_, hs⟩
    · rintro rfl
      exact he hended
    · simpa [Held, Engine.answer, hended] using hh

theorem Inv.load (h : s.Inv) (hl : s.loaded = false) (now : Int) (succeeds : Bool) :
    (s.load ports now succeeds).Inv := by
  obtain ⟨hd, hh, hs⟩ := h
  obtain ⟨hi, hr, hn, hc, hu⟩ := hd.fresh hl
  have hfailed : ({ s with
      loaded := true
      inventory := diagnostic ports.setting now s.inventory "StartupFailed"
        "Discovery did not establish its configured transport and persistence contract" } : Engine ν).Inv := by
    have hi := @diagnostic_advances ν ports.setting now s.inventory "StartupFailed"
      "Discovery did not establish its configured transport and persistence contract" none false
    refine ⟨⟨fun a ha => (hd.snapshots a ha).advances hi, hd.alike, fun hu a ha => (hd.stored hu a ha).advances hi, hd.saved,
      fun r hr => (hd.waiting r hr).trans hi.le, hd.fulfilled, hd.saves, fun hf => by simp [hc] at hf, nofun⟩,
      hh.advances hi, fun _ => rfl⟩
  unfold Engine.load
  dsimp only
  split
  · exact hfailed
  · split
    · exact ⟨⟨hd.snapshots, hd.alike, hd.stored, hd.saved, hd.waiting, hd.fulfilled, hd.saves, hd.closed, nofun⟩, hh, fun _ => rfl⟩
    · rename_i a ha
      split
      · exact hfailed
      · split
        · exact hfailed
        · rename_i inventory hrestored
          have hlt : a.revision < inventory.revision := by
            unfold restore at hrestored
            split at hrestored
            · simp at hrestored
            · rw [← Option.some.inj hrestored]
              exact Nat.lt_succ_self _
          have hzero (b : InventorySnapshot ν) (hb : b ∈ s.snapshots) : b.revision ≤ 0 := by
            have := (hd.snapshots b hb).le
            rwa [hi] at this
          refine ⟨⟨fun b hb => .inl ((hzero b hb).trans_lt (Nat.zero_lt_of_lt hlt)), hd.alike, fun _ b hb => ?_, ?_, fun r hr => ?_,
            hd.fulfilled, hd.saves, fun hf => by simp [hc] at hf, nofun⟩, ?_, fun _ => rfl⟩
          · rw [show b = a from Option.some.inj (hb.symm.trans ha)]
            exact .inl hlt
          · rintro r hr
            exact ⟨a, ha, le_of_eq (Option.some.inj hr).symm⟩
          · have := hd.waiting r hr
            rw [hi] at this
            exact this.trans (Nat.zero_le _)
          · unfold Held at hh ⊢
            dsimp only
            rw [hn] at hh ⊢
            exact hh

theorem Inv.step (h : s.Inv) (event : Event ν) (ht : s.Timely event) : (s.step ports event).Inv := by
  obtain ⟨hd, hh, hs⟩ := h
  cases event with
  | load now succeeds =>
    unfold Engine.step
    dsimp only
    split
    · exact ⟨hd, hh, hs⟩
    · rename_i hl
      exact Inv.load ⟨hd, hh, hs⟩ (by simpa using hl) now succeeds
  | operate now op =>
    unfold Engine.step
    dsimp only
    split
    · rename_i hl
      have hi := operate_advances ports.setting now s.inventory op
      exact ⟨hd.advances hl.1 hl.2 hi, hh.advances hi, hs⟩
    · exact ⟨hd, hh, hs⟩
  | transportFailure now =>
    unfold Engine.step
    dsimp only
    split
    · rename_i hl
      have hi := @diagnostic_advances ν ports.setting now s.inventory "DatagramTransportFailure"
        "Configured discovery channel reported a transport error" none false
      exact ⟨hd.advances hl ht hi, hh.advances hi, hs⟩
    · exact ⟨hd, hh, hs⟩
  | snapshot now => exact ⟨hd.take now, hh, hs⟩
  | persist now =>
    unfold Engine.step
    dsimp only
    split
    · rename_i hl
      refine Inv.persist ⟨hd, hh, hs⟩ hl ht.1 now fun he => ?_
      have h' := ht.2
      rwa [he] at h'
    · exact ⟨hd, hh, hs⟩
  | shutdown now =>
    unfold Engine.step
    dsimp only
    split
    · rename_i hl
      have hd' : ({ s with closing := .persisting } : Engine ν).Durable :=
        ⟨hd.snapshots, hd.alike, hd.stored, hd.saved, hd.waiting, hd.fulfilled, hd.saves, by simp, fun hf => by simp [hl.1] at hf⟩
      have hh' : ({ s with closing := .persisting } : Engine ν).Held := by
        unfold Held at hh ⊢
        dsimp only
        split at hh
        · exact ⟨hh.1, hh.2.1, hh.2.2.1, hh.2.2.2.1, nofun, nofun⟩
        · exact hh
      refine Inv.persist ⟨hd', hh', hs⟩ hl.1 ht.1 now fun he => ?_
      have h' := ht.2
      rwa [show s.saving = _ from he] at h'
    · exact ⟨hd, hh, hs⟩
  | settle written =>
    unfold Engine.step
    dsimp only
    split
    · rename_i a hsaving
      rw [Held, hsaving] at hh
      obtain ⟨hu, ha, _, _, hc⟩ := hh
      obtain ⟨hstored, hfulfilled⟩ := write_spec ports s.stored a written
      have hl := hs (by simp [hsaving])
      refine ⟨⟨hd.snapshots, hd.alike, fun _ b hb => ?_, fun r hr => ?_, hd.waiting, hd.fulfilled, hd.saves, hd.closed,
        fun hf => by simp [hl] at hf⟩, ⟨hu, ha, rfl, fun ht => hfulfilled (Option.some.inj ht), hc⟩, fun _ => hl⟩
      · dsimp only at hb
        rcases hstored with heq | ⟨heq, _⟩
        · exact hd.stored hu b (heq ▸ hb)
        · rw [heq] at hb
          exact Option.some.inj hb ▸ ha
      · obtain ⟨b, hb, hle⟩ := hd.saved r hr
        rcases hstored with heq | ⟨heq, hnewer⟩
        · exact ⟨b, heq.trans hb, hle⟩
        · exact ⟨a, heq, hle.trans (hnewer b hb)⟩
    · exact ⟨hd, hh, hs⟩
  | resume now =>
    unfold Engine.step
    dsimp only
    split
    · rename_i a hsaving
      rw [Held, hsaving] at hh
      obtain ⟨hu, ha, hp, hstored, hc⟩ := hh
      have hl := hs (by simp [hsaving])
      have hd' : ({ s with savedRevision := some a.revision } : Engine ν).Durable :=
        ⟨hd.snapshots, hd.alike, hd.stored, fun r hr => Option.some.inj hr ▸ hstored rfl, hd.waiting, hd.fulfilled, hd.saves,
          fun hf => absurd hf (not_or.mpr hc), fun hf => by simp [hl] at hf⟩
      exact hd'.look hl hu hp now
    · rename_i a hsaving
      rw [Held, hsaving] at hh
      have hl := hs (by simp [hsaving])
      exact ⟨hd.finish hl hh.1 nofun, ⟨hh.2.2.1, rfl⟩, fun _ => hl⟩
    · exact ⟨hd, hh, hs⟩
  | clear =>
    unfold Engine.step
    dsimp only
    split
    · rename_i fulfilled hsaving
      rw [Held, hsaving] at hh
      have hl := hs (by simp [hsaving])
      exact ⟨⟨hd.snapshots, hd.alike, hd.stored, hd.saved, hd.waiting, hd.fulfilled, hd.saves, hd.closed,
        fun hf => by simp [hl] at hf⟩, hh, nofun⟩
    · exact ⟨hd, hh, hs⟩
  | close =>
    unfold Engine.step
    dsimp only
    split
    · rename_i hc
      refine ⟨⟨hd.snapshots, hd.alike, hd.stored, hd.saved, hd.waiting, hd.fulfilled, hd.saves, fun _ => hd.closed (.inl hc),
        fun hf => ?_⟩, ?_, hs⟩
      · simp [(hd.fresh hf).2.2.2.1] at hc
      · unfold Held at hh ⊢
        dsimp only
        split at hh
        · exact absurd hc hh.2.2.2.2.1
        · exact hh
    · exact ⟨hd, hh, hs⟩

theorem inv_initial (stored : Option (InventorySnapshot ν)) : (initial stored).Inv := by
  refine ⟨⟨nofun, nofun, fun hu a ha => ?_, nofun, nofun, nofun, nofun, nofun, fun _ => ⟨rfl, rfl, rfl, rfl, rfl⟩⟩, ⟨rfl, rfl⟩, nofun⟩
  simp [initial, show stored = some a from ha] at hu

theorem inv_of_reachable (h : ((system ports).when Timely).Reachable s) : s.Inv := by
  refine h.invariant ?_ ?_
  · rintro s ⟨stored, rfl⟩
    exact inv_initial stored
  · intro s event s' hs hstep
    exact (show s' = _ from hstep.2) ▸ Inv.step hs event hstep.1

/-- Snapshots of one revision are alike; when `persist` is fulfilled, its
revision or a higher one is stored; no `save` is called while another is pending,
or with what is older or contradicts; and when `close` is fulfilled the final
inventory is stored. -/
theorem persist_durable (h : ((system ports).when Timely).Reachable s) :
    (∀ a ∈ s.snapshots, ∀ b ∈ s.snapshots, a.revision = b.revision → a.timeless = b.timeless) ∧
    (∀ p ∈ s.fulfilled, ∃ snapshot, p.2 = some snapshot ∧ p.1 ≤ snapshot.revision) ∧
    (∀ c ∈ s.saves, c.pending = false ∧ ∀ stored, c.stored = some stored → stored.revision ≤ c.snapshot.revision ∧
      (stored.revision = c.snapshot.revision → stored.timeless = c.snapshot.timeless)) ∧
    (s.closing = .closed → ∃ snapshot, s.stored = some snapshot ∧ snapshot.timeless = s.inventory.view 0) := by
  obtain ⟨hd, -, -⟩ := inv_of_reachable h
  refine ⟨hd.alike, hd.fulfilled, fun c hc => ?_, fun hc => ?_⟩
  · exact ⟨(hd.saves c hc).alone, fun a ha => ⟨(hd.saves c hc).older a ha, (hd.saves c hc).agrees a ha⟩⟩
  · obtain ⟨hs, hu⟩ := hd.closed (.inr hc)
    obtain ⟨a, ha, hle⟩ := hd.saved _ hs
    have htaken := hd.stored hu a ha
    exact ⟨a, ha, htaken.agrees (htaken.le.antisymm hle)⟩

-- Runs

def roomy : Ports Unit where
  setting :=
    { bounds := ⟨16, 16, 16, 16, 16, 16, 16, 16, 16, 16, 4096⟩
      staleMs := 1000
      departureGraceMs := 1000
      approveXAddr := fun _ => some true
      endpointIdentity := (·.address)
      fingerprint := (·.messageId)
      assertJson := fun _ _ => true }
  assertSnapshot _ := true
  storable _ := true
  stringify snapshot := toString snapshot.revision

def saved : List (Event Unit) :=
  [.load 0 true, .persist 1, .settle .synced, .resume 2, .clear, .operate 3 (.diagnostic "NoApprovedXAddr" "" none false),
    .shutdown 4, .settle .synced, .resume 5, .close]

instance (s : Engine Unit) (event : Event Unit) : Decidable (s.Timely event) := by
  unfold Timely
  split
  · split <;> infer_instance
  · split <;> infer_instance
  · infer_instance
  · infer_instance

theorem persist_durable_saved :
    let s := saved.foldl (step roomy) (initial none)
    s.closing = .closed ∧ ∃ snapshot, s.stored = some snapshot ∧ snapshot.timeless = s.inventory.view 0 := by
  have h := persist_durable (System.Reachable.follows saved _ (.start ⟨none, rfl⟩) (by decide +kernel) :
    ((system roomy).when Timely).Reachable (saved.foldl (step roomy) (initial none)))
  exact ⟨by decide +kernel, h.2.2.2 (by decide +kernel)⟩

def joined : List (Event Unit) :=
  [.load 0 true, .persist 1, .settle .synced, .resume 2, .clear, .persist 3,
    .operate 3 (.diagnostic "NoApprovedXAddr" "Device has no exact approved native endpoint on an opened segment" none false), .persist 3]

theorem persist_joined : ∃ s, (system roomy).Reachable s ∧
    ∃ p ∈ s.fulfilled, ∃ snapshot, p.2 = some snapshot ∧ snapshot.revision < p.1 := by
  refine ⟨joined.foldl (step roomy) (initial none), ⟨initial none, joined, ⟨none, rfl⟩, System.run_ofFun.mpr rfl⟩, ?_⟩
  have h : ((joined.foldl (step roomy) (initial none)).fulfilled.any fun p =>
      p.2.any fun snapshot => snapshot.revision < p.1) = true := by decide +kernel
  obtain ⟨p, hp, h⟩ := List.any_eq_true.mp h
  obtain ⟨snapshot, hs, hlt⟩ := (Option.any_eq_true _ _).mp h
  exact ⟨p, hp, snapshot, hs, by simpa using hlt⟩

end Engine

end WotAv.Discovery
