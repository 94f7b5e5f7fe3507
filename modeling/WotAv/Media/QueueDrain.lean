import WotAv.Media.QueueDelivery

/-!
# Reads after the end

A queue that has ended gives each attached subscriber what it still holds for
it, in order, and then nothing but `done`. With the accounts this is what the
queue delivers.
-/

namespace WotAv.Media.BoundedMediaQueue

open WotAv.Lib WotAv.Binding

variable {α ρ : Type}

inductive ReadResult (α : Type)
  | value (call : Nat) (value : α)
  | done
  | failed (error : OnvifError)
  deriving DecidableEq

def resultOf (slot : Nat) : QueueEvent α ρ → Option (ReadResult α)
  | .handed s call value => if s = slot then some (.value call value) else none
  | .left s .yielded call value => if s = slot then some (.value call value) else none
  | .done s => if s = slot then some .done else none
  | .failed s error => if s = slot then some (.failed error) else none
  | _ => none

def results (slot : Nat) (log : List (QueueEvent α ρ)) : List (ReadResult α) := log.filterMap (resultOf slot)

structure Live (q : BoundedMediaQueue α ρ) : Prop where
  slots : ∀ slot ∈ q.subscribers, (q.slots slot).ended = false
  failure : q.ended = false → q.failure = none

structure Apart (slot : Nat) (q q' : BoundedMediaQueue α ρ) : Prop where
  slots : q'.slots slot = q.slots slot
  flags : q'.draining = q.draining ∧ q'.ended = q.ended ∧ q'.failure = q.failure
  log : ∃ extra, q'.log = q.log ++ extra ∧ results slot extra = []

theorem Apart.refl (q : BoundedMediaQueue α ρ) : Apart slot q q := ⟨rfl, ⟨rfl, rfl, rfl⟩, [], by simp, rfl⟩

theorem Apart.trans {q q' q'' : BoundedMediaQueue α ρ} (h : Apart slot q q') (h' : Apart slot q' q'') :
    Apart slot q q'' := by
  obtain ⟨extra, hl, hr⟩ := h.log
  obtain ⟨extra', hl', hr'⟩ := h'.log
  refine ⟨h'.slots.trans h.slots, ?_, extra ++ extra', by rw [hl', hl, List.append_assoc], ?_⟩
  · exact ⟨h'.flags.1.trans h.flags.1, h'.flags.2.1.trans h.flags.2.1, h'.flags.2.2.trans h.flags.2.2⟩
  · rw [results, List.filterMap_append]
    simp only [results] at hr hr'
    rw [hr, hr', List.append_nil]

variable {q : BoundedMediaQueue α ρ}

theorem apart_emit (h : resultOf slot event = none) : Apart slot q (q.emit event) :=
  ⟨rfl, ⟨rfl, rfl, rfl⟩, [event], rfl, by simp [results, h]⟩

theorem apart_update (h : slot ≠ t) : Apart slot q (q.update t f) :=
  ⟨by simp [update, h], ⟨rfl, rfl, rfl⟩, [], by simp [update], rfl⟩

theorem apart_relinquish (q : BoundedMediaQueue α ρ) : Apart slot q (q.relinquish call release) := by
  unfold relinquish
  dsimp only
  split
  · exact ⟨rfl, ⟨rfl, rfl, rfl⟩, [_], rfl, rfl⟩
  · exact ⟨rfl, ⟨rfl, rfl, rfl⟩, [], by simp, rfl⟩

theorem apart_remove (route : Route) (q : BoundedMediaQueue α ρ) (h : slot ≠ t) :
    Apart slot q (q.removeAndRelease t route).1 := by
  cases he : (q.slots t).entries with
  | nil => rw [removeAndRelease_nil q he]; exact .refl q
  | cons e es =>
    rw [removeAndRelease_cons he]
    refine ((apart_update h).trans (apart_emit ?_)).trans (apart_relinquish _)
    cases route <;> simp [resultOf, Ne.symm h]

theorem apart_discardSlot (q : BoundedMediaQueue α ρ) (h : slot ≠ t) : Apart slot q (q.discardSlot t) := by
  unfold discardSlot
  generalize (q.slots t).entries = entries
  induction entries generalizing q with
  | nil => exact .refl q
  | cons e es ih => exact (apart_remove _ q h).trans (ih _)

theorem apart_resolve (q : BoundedMediaQueue α ρ) (h : slot ≠ t) : Apart slot q (q.resolvePending t) := by
  unfold resolvePending
  split
  · refine (apart_update h).trans (apart_emit ?_)
    unfold terminal
    split <;> simp [resultOf, Ne.symm h]
  · exact .refl q

theorem apart_unregister (q : BoundedMediaQueue α ρ) : Apart slot q (q.unregister t) := by
  unfold unregister
  split
  · exact ⟨rfl, ⟨rfl, rfl, rfl⟩, [_], rfl, rfl⟩
  · exact .refl q

theorem apart_detach (q : BoundedMediaQueue α ρ) (h : slot ≠ t) : Apart slot q (q.detach t) :=
  (((apart_update h).trans (apart_discardSlot _ h)).trans (apart_resolve _ h)).trans (apart_unregister _)

/-- The slot of `units` since the log had length `start`, the queue having
ended: reads were given the units in order, then nothing but `done`. -/
structure Drains (slot : Nat) (units : List (Nat × α)) (start : Nat) (q : BoundedMediaQueue α ρ) : Prop where
  closed : q.draining = true ∧ q.ended = false ∧ q.failure = none
  began : start ≤ q.log.length
  stopped : (q.slots slot).ended → q.queuedOf slot = []
  read : ∃ k m, results slot (q.log.drop start) =
      (units.take k).map (fun u => .value u.1 u.2) ++ List.replicate m .done ∧
    q.queuedOf slot = units.drop k ∧ (m ≠ 0 → units.drop k = [])

theorem Drains.apart {q q' : BoundedMediaQueue α ρ} (h : Drains slot units start q) (ha : Apart slot q q') :
    Drains slot units start q' := by
  obtain ⟨hclosed, hbegan, hstopped, k, m, hread, hqueued, hdone⟩ := h
  obtain ⟨hslots, ⟨hd, he, hf⟩, extra, hlog, hextra⟩ := ha
  have hq : q'.queuedOf slot = q.queuedOf slot := queuedOf_of_entries (by rw [hslots])
  refine ⟨by rw [hd, he, hf]; exact hclosed, by rw [hlog, List.length_append]; omega, ?_, k, m, ?_, hq.trans hqueued, hdone⟩
  · rw [hslots, hq]; exact hstopped
  · rw [hlog, List.drop_append_of_le_length hbegan, results, List.filterMap_append]
    simp only [results] at hread hextra
    rw [hread, hextra, List.append_nil]

theorem Drains.done (h : Drains slot units start q) (hq : q.queuedOf slot = []) :
    Drains slot units start (q.emit (.done slot)) := by
  obtain ⟨hclosed, hbegan, hstopped, k, m, hread, hqueued, _⟩ := h
  refine ⟨hclosed, by simp only [emit, List.length_append]; omega, hstopped, k, m + 1, ?_, hqueued, fun _ => hqueued ▸ hq⟩
  simp only [emit]
  rw [List.drop_append_of_le_length hbegan, results, List.filterMap_append]
  simp only [results] at hread
  rw [hread, List.append_assoc, List.replicate_succ']
  simp [resultOf]

theorem Live.congr {q q' : BoundedMediaQueue α ρ} (h : Live q) (hs : ∀ s ∈ q'.subscribers, s ∈ q.subscribers)
    (he : ∀ s ∈ q'.subscribers, (q'.slots s).ended = (q.slots s).ended)
    (hf : q'.ended = false → q.ended = false ∧ q'.failure = q.failure) : Live q' :=
  ⟨fun s hm => (he s hm).trans (h.slots s (hs s hm)), fun hq => (hf hq).2.trans (h.failure (hf hq).1)⟩

theorem Live.update (h : Live q)
    (hf : (f (q.slots slot)).ended = (q.slots slot).ended) : Live (q.update slot f) := by
  refine h.congr (fun _ hs => hs) (fun s _ => ?_) fun hq => ⟨hq, rfl⟩
  by_cases hs : s = slot
  · subst hs; simpa [BoundedMediaQueue.update] using hf
  · simp [BoundedMediaQueue.update, hs]

theorem Live.emit (h : Live q) : Live (q.emit event) := ⟨h.slots, h.failure⟩

theorem Live.relinquish (h : Live q) : Live (q.relinquish call release) := by
  unfold BoundedMediaQueue.relinquish
  dsimp only
  split <;> exact ⟨h.slots, h.failure⟩

theorem Live.remove (h : Live q) : Live (q.removeAndRelease slot route).1 := by
  cases he : (q.slots slot).entries with
  | nil => rw [removeAndRelease_nil q he]; exact h
  | cons e es =>
    rw [removeAndRelease_cons he]
    have h' : Live (q.update slot fun s => { s with entries := es, bytes := s.bytes - e.bytes }) := h.update rfl
    exact Live.relinquish ⟨h'.slots, h'.failure⟩

theorem live_detach (h : Live q) (ho : Owned q none)
    (he : (q.slots slot).entries = []) : Live (q.detach slot) := by
  rw [detach_empty q he]
  generalize hq' : (q.update slot fun s => { s with ended := true }).resolvePending slot = q'
  have hapart : ∀ s, s ≠ slot → Apart s q q' := by
    intro s hs
    rw [← hq']
    exact (apart_update hs).trans (apart_resolve _ hs)
  have hsubs : q'.subscribers = q.subscribers := by rw [← hq', resolvePending_subscribers]; rfl
  have hflags : q'.ended = q.ended ∧ q'.failure = q.failure := by
    rw [← hq', resolvePending]
    split <;> exact ⟨rfl, rfl⟩
  have hmem : ∀ s ∈ (q'.unregister slot).subscribers, s ∈ q.subscribers ∧ s ≠ slot := by
    rw [unregister_subscribers, hsubs]
    exact fun s hs => ⟨List.mem_of_mem_erase hs, fun h => ho.subscribers.1.not_mem_erase (h ▸ hs)⟩
  have hun : (q'.unregister slot).slots = q'.slots ∧ (q'.unregister slot).ended = q'.ended ∧
      (q'.unregister slot).failure = q'.failure := by
    unfold unregister
    split <;> exact ⟨rfl, rfl, rfl⟩
  refine h.congr (fun s hs => (hmem s hs).1) (fun s hs => ?_) fun hq => ?_
  · rw [hun.1, (hapart s (hmem s hs).2).slots]
  · rw [hun.2.1, hflags.1] at hq
    exact ⟨hq, hun.2.2.trans hflags.2⟩

theorem Effect.live {r r' : Running α ρ} (ho : Owned r.queue r.loop) (h : Live r.queue) (he : Effect r r') :
    Live r'.queue := by
  cases he with
  | add ha =>
    have ha := add_ok ha
    have hf := ha.flags
    refine ⟨fun s hs => ?_, fun hq => hf.2.2.trans (h.failure (hf.1 ▸ hq))⟩
    rw [ha.slots]
    rcases ha.registered with ⟨_, hsubs, _⟩ | ⟨hopen, hsubs, _⟩ <;> rw [hsubs] at hs
    · have hlt := ho.subscribers.2.2 s hs
      have hne : s ≠ _ := Nat.ne_of_lt (ha.fresh ▸ hlt)
      simpa [hne] using h.slots s hs
    · rcases List.mem_append.mp hs with hs | hs
      · have hlt := ho.subscribers.2.2 s hs
        have hne : s ≠ _ := Nat.ne_of_lt (ha.fresh ▸ hlt)
        simpa [hne] using h.slots s hs
      · rw [List.mem_singleton.mp hs]
        simpa using hopen
  | claim hs => exact h.update (f := fun s => { s with claimed := true }) rfl
  | hand hp => exact (h.update (f := fun s => { s with pending := false }) rfl).emit
  | evict hm hs => exact h.remove
  | gap => dsimp only; split <;> exact ⟨h.slots, h.failure⟩
  | push hp hfull =>
    refine h.congr (fun _ hs => hs) (fun s _ => ?_) fun hq => ⟨hq, rfl⟩
    simp only [BoundedMediaQueue.push, emit, BoundedMediaQueue.update, Function.update_apply]
    split
    · subst_vars; rfl
    · rfl
  | relinquish => exact h.relinquish
  | remove hr => exact h.remove
  | detach hs => exact live_detach h ho hs
  | close => exact ⟨h.slots, fun hq => absurd hq (by simp)⟩
  | wait hs => exact h.update (f := fun s => { s with pending := true }) rfl
  | _ => exact ⟨h.slots, h.failure⟩

theorem live_of_reachable (h : system.Reachable q) : Owned q none ∧ Live q := by
  refine h.invariant (P := fun q => Owned q none ∧ Live q) ?_ ?_
  · rintro q ⟨_, _, _, _, hq⟩
    refine ⟨owned_make hq, ?_⟩
    obtain ⟨o, _, _, _, _, rfl⟩ := make_ok.mp hq
    exact ⟨fun _ _ => rfl, fun _ => rfl⟩
  · rintro q op _ ⟨ho, hd⟩ rfl
    exact apply_keeps (P := fun r => Owned r.queue r.loop ∧ Live r.queue)
      (fun _ _ h he => ⟨Effect.owned h.1 he, Effect.live h.1 h.2 he⟩) ho.initial ⟨ho, hd⟩ op

-- The operations on a queue that has ended

section
variable {q : BoundedMediaQueue α ρ} {slot start : Nat} {units : List (Nat × α)}

theorem queuedOf_empty (h : (q.slots slot).entries = []) : q.queuedOf slot = [] := by
  rw [queuedOf, h]; rfl

section
variable (h : Drains slot units start q)
include h

theorem Drains.flags (he : (q.slots slot).entries = [])
    {f : Subscriber α ρ → Subscriber α ρ} (hf : (f (q.slots slot)).entries = (q.slots slot).entries) :
    Drains slot units start (q.update slot f) := by
  obtain ⟨hclosed, hbegan, _, hread⟩ := h
  have hq : (q.update slot f).queuedOf slot = q.queuedOf slot := queuedOf_of_entries (update_entries hf slot)
  exact ⟨hclosed, hbegan, fun _ => hq.trans (queuedOf_empty he), by rw [hq]; exact hread⟩

theorem Drains.terminal : q.terminal t = .done t := by
  unfold BoundedMediaQueue.terminal
  rw [h.closed.2.2]

theorem Drains.detach (he : (q.slots slot).entries = []) :
    Drains slot units start (q.detach slot) := by
  have hmark := h.flags (f := fun s => { s with ended := true }) he rfl
  rw [detach_empty q he]
  refine Drains.apart ?_ (apart_unregister _)
  unfold resolvePending
  split
  · rw [hmark.terminal]
    have he' : ((q.update slot fun s => { s with ended := true }).slots slot).entries = [] :=
      (update_entries rfl slot).trans he
    refine (hmark.flags (f := fun s => { s with pending := false }) he' rfl).done ?_
    exact queuedOf_empty ((update_entries rfl slot).trans he')
  · exact hmark

theorem Drains.take (he : (q.slots slot).entries = e :: es) :
    Drains slot units start (q.removeAndRelease slot .yielded).1 := by
  obtain ⟨hclosed, hbegan, hstopped, k, m, hread, hqueued, hdone⟩ := h
  rw [removeAndRelease_cons he]
  refine Drains.apart ?_ (apart_relinquish _)
  have hcons : q.queuedOf slot = (e.call, e.value) :: es.map fun e => (e.call, e.value) := by rw [queuedOf, he]; rfl
  rw [hcons] at hqueued
  have hm : m = 0 := by
    by_contra hm
    rw [hdone hm] at hqueued
    cases hqueued
  have htake : units.take (k + 1) = units.take k ++ [(e.call, e.value)] := by
    rw [List.take_add, ← hqueued]; rfl
  have hdrop : units.drop (k + 1) = es.map fun e => (e.call, e.value) := by
    rw [← List.drop_drop, ← hqueued]; rfl
  refine ⟨hclosed, ?_, fun hend => ?_, k + 1, 0, ?_, ?_, fun h => absurd rfl h⟩
  · simp only [emit, update, List.length_append]
    omega
  · have hempty := hstopped (by simpa [emit, update] using hend)
    rw [hcons] at hempty
    cases hempty
  · simp only [emit, update]
    rw [List.drop_append_of_le_length hbegan, results, List.filterMap_append]
    simp only [results] at hread
    rw [hread, hm, htake]
    simp [resultOf]
  · rw [hdrop]
    simp [queuedOf, emit, update]

end

theorem apart_next (q : BoundedMediaQueue α ρ) (ht : slot ≠ t) : Apart slot q (q.next t) := by
  have hnone : ∀ q : BoundedMediaQueue α ρ, resultOf slot (q.terminal t) = none := fun q => by
    unfold BoundedMediaQueue.terminal
    split <;> simp [resultOf, Ne.symm ht]
  unfold BoundedMediaQueue.next
  split
  · exact apart_emit (hnone q)
  · have hrem := apart_remove .yielded q ht
    generalize hr : q.removeAndRelease t .yielded = r at hrem
    obtain ⟨q', entry⟩ := r
    cases entry with
    | some e => exact hrem
    | none =>
      dsimp only
      split
      · exact (hrem.trans (apart_detach _ ht)).trans (apart_emit (by simp [resultOf, Ne.symm ht]))
      · split
        · exact hrem.trans (apart_emit rfl)
        · exact hrem.trans (apart_update ht)

section
variable (h : Drains slot units start q)
include h

theorem Drains.next (t : Nat) : Drains slot units start (q.next t) := by
  by_cases ht : slot = t
  · subst ht
    unfold BoundedMediaQueue.next
    split
    · rename_i hend
      rw [h.terminal]
      exact h.done (h.stopped (by simpa [h.closed.2.1] using hend))
    · cases he : (q.slots slot).entries with
      | nil =>
        rw [removeAndRelease_nil q he]
        simp only [h.closed.1, if_true]
        exact (h.detach he).done (queuedOf_empty (detach_entries q slot))
      | cons e es =>
        have hpair : q.removeAndRelease slot .yielded = ((q.removeAndRelease slot .yielded).1, some e) := by
          simp [removeAndRelease, removeEntry, he]
        rw [hpair]
        exact h.take he
  · exact h.apart (apart_next q ht)

theorem Drains.publish (value : α) (bytes : Number) (release : ρ) :
    Drains slot units start (q.publish value bytes release).1 := by
  unfold BoundedMediaQueue.publish
  split
  · exact h
  · have hc : ((q.begin_ value).ended || (q.begin_ value).draining) = true := by
      have : q.draining = true := h.closed.1
      simp [begin_, emit, this]
    simp only [hc, if_true]
    refine h.apart (Apart.trans ?_ (apart_relinquish _))
    exact ⟨rfl, ⟨rfl, rfl, rfl⟩, [_], rfl, rfl⟩

theorem Drains.asyncIterator (hlt : slot < q.created) :
    Drains slot units start q.asyncIterator.1 := by
  have hclaim : ∀ {q : BoundedMediaQueue α ρ} (t : Nat), Drains slot units start q →
      Drains slot units start (q.update t fun s => { s with claimed := true }) := by
    intro q t hd
    by_cases ht : slot = t
    · subst ht
      obtain ⟨hclosed, hbegan, hstopped, hread⟩ := hd
      have hq : (q.update slot fun s => { s with claimed := true }).queuedOf slot = q.queuedOf slot :=
        queuedOf_of_entries (update_entries rfl slot)
      exact ⟨hclosed, hbegan, fun hend => hq.trans (hstopped (by simpa [update] using hend)),
        by rw [hq]; exact hread⟩
    · exact hd.apart (apart_update ht)
  unfold BoundedMediaQueue.asyncIterator
  split
  · exact h
  · rename_i q' t hadd
    split at hadd
    · have ha := add_ok hadd
      refine hclaim t (h.apart ⟨?_, ⟨ha.flags.2.1, ha.flags.1, ha.flags.2.2⟩, ?_⟩)
      · rw [ha.slots, ha.fresh]
        simp [Nat.ne_of_lt hlt]
      · rcases ha.registered with ⟨_, _, hlog⟩ | ⟨_, _, hlog⟩
        · exact ⟨[], by simp [hlog], rfl⟩
        · exact ⟨[.created t], hlog, rfl⟩
    · obtain ⟨rfl, rfl⟩ := Prod.mk.inj (Except.ok.inj hadd)
      exact hclaim _ h

end

end

/-- The operations that leave what a slot holds to its reader. -/
def Op.spares (slot : Nat) : Op α ρ → Bool
  | .discard | .resume | .finish _ => false
  | .return_ t | .throw_ t => t ≠ slot
  | _ => true

theorem Drains.apply (h : Drains slot units start q) (hlt : slot < q.created)
    {op : Op α ρ} (hop : op.spares slot) : Drains slot units start (q.apply op) := by
  cases op with
  | publish value bytes release => exact h.publish value bytes release
  | discard => cases hop
  | end_ =>
    have hclosed : q.end_ = q := by
      have := h.closed.1
      simp [end_, this]
    show Drains slot units start q.end_
    rwa [hclosed]
  | resume => cases hop
  | finish error => cases hop
  | asyncIterator => exact h.asyncIterator hlt
  | next t =>
    unfold BoundedMediaQueue.apply; dsimp only; split
    · exact h.next t
    · exact h
  | return_ t =>
    unfold BoundedMediaQueue.apply; dsimp only; split
    · exact h.apart (apart_detach q (Ne.symm (by simpa [Op.spares] using hop)))
    · exact h
  | throw_ t =>
    unfold BoundedMediaQueue.apply; dsimp only; split
    · exact h.apart (apart_detach q (Ne.symm (by simpa [Op.spares] using hop)))
    · exact h

theorem drains_end (h : Live q) (hopen : q.ended = false ∧ q.draining = false)
    (hs : slot ∈ q.subscribers) : Drains slot (q.queuedOf slot) q.log.length q.end_ := by
  have hstart : Drains slot (q.queuedOf slot) q.log.length { q with draining := true } := by
    refine ⟨⟨rfl, hopen.1, h.failure hopen.1⟩, le_rfl, fun hend => ?_, 0, 0, ?_, rfl, fun h => absurd rfl h⟩
    · rw [show (q.slots slot).ended = false from h.slots slot hs] at hend
      cases hend
    · simp [results]
  have hnot : (q.ended || q.draining) = false := by simp [hopen]
  rw [end_, hnot, if_neg Bool.false_ne_true]
  -- the loop takes nothing from a slot: it detaches the empty ones
  generalize hq : { q with draining := true } = q₁ at hstart ⊢
  clear hq
  generalize q.subscribers = slots
  induction slots generalizing q₁ with
  | nil => exact hstart
  | cons t slots ih =>
    rw [List.foldl_cons]
    refine ih _ ?_
    split
    · rename_i hempty
      by_cases ht : slot = t
      · subst ht
        exact hstart.detach (List.isEmpty_iff.mp hempty)
      · exact hstart.apart (apart_detach _ ht)
    · exact hstart

@[simp] theorem removeAndRelease_created (q : BoundedMediaQueue α ρ) :
    (q.removeAndRelease slot route).1.created = q.created := by
  unfold removeAndRelease removeEntry
  cases (q.slots slot).entries <;> simp [emit, update]

@[simp] theorem resolvePending_created (q : BoundedMediaQueue α ρ) :
    (q.resolvePending slot).created = q.created := by
  unfold resolvePending; split <;> rfl

@[simp] theorem unregister_created (q : BoundedMediaQueue α ρ) : (q.unregister slot).created = q.created := by
  unfold unregister; split <;> rfl

theorem Effect.created {r r' : Running α ρ} (h : Effect r r') : r.queue.created ≤ r'.queue.created := by
  cases h with
  | add ha => exact (add_ok ha).created ▸ Nat.le_succ _
  | gap => dsimp only; split <;> exact le_rfl
  | evict hm hs => exact (removeAndRelease_created _).ge
  | remove hr => exact (removeAndRelease_created _).ge
  | relinquish => exact (relinquish_created _).ge
  | detach hs => rw [detach_empty _ hs]; simp [BoundedMediaQueue.update]
  | _ => exact le_rfl

theorem Drains.run (h : Drains slot units start q) (ho : Owned q none)
    (hlt : slot < q.created) (ops : List (Op α ρ)) (hops : ∀ op ∈ ops, op.spares slot) :
    Drains slot units start (ops.foldl BoundedMediaQueue.apply q) := by
  induction ops generalizing q with
  | nil => exact h
  | cons op ops ih =>
    have hcreated : q.created ≤ (q.apply op).created :=
      apply_keeps (P := fun r => q.created ≤ r.queue.created) (fun _ _ hle he => hle.trans he.created)
        ho.initial le_rfl op
    rw [List.foldl_cons]
    exact ih (h.apply hlt (hops op List.mem_cons_self)) (owned_apply ho op) (lt_of_lt_of_le hlt hcreated)
      fun o hm => hops o (List.mem_cons_of_mem _ hm)

theorem queue_delivery {q : BoundedMediaQueue α ρ} (h : system.Reachable q) :
    (∀ slot, (q.account slot).yielded.Sublist ((q.account slot).published.map fun u => (u.1, u.2.1)) ∧
      ((q.account slot).published.map Prod.fst).Pairwise (· < ·) ∧
      (q.account slot).published.countP (·.2.2) = (q.account slot).settled (q.queuedOf slot).length) ∧
    (q.options.mode = .live → q.reported = q.dropped ∧ ∀ slot, (q.account slot).refused = 0) ∧
    (q.options.mode = .recorded → q.dropped = 0) ∧
    (q.ended = false → q.draining = false → ∀ slot ∈ q.subscribers, ∀ ops : List (Op α ρ),
      (∀ op ∈ ops, op.spares slot) → ∃ k m,
        results slot ((ops.foldl apply q.end_).log.drop q.log.length) =
          ((q.queuedOf slot).take k).map (fun u => .value u.1 u.2) ++ List.replicate m .done ∧
        (ops.foldl apply q.end_).queuedOf slot = (q.queuedOf slot).drop k ∧
        (m ≠ 0 → (q.queuedOf slot).drop k = [])) := by
  obtain ⟨ho, hd⟩ := delivered_of_reachable h
  obtain ⟨_, hr⟩ := reported_of_reachable h
  obtain ⟨_, hl⟩ := live_of_reachable h
  refine ⟨fun slot => ?_, fun hm => ⟨by simpa using hr.gaps, hr.live hm⟩, hr.recorded, ?_⟩
  · obtain ⟨_, hinc, _, served, hserved, hsub, hcount⟩ := hd.balanced slot
    have hserved' : (q.account slot).published = served := by simpa [waitingAt] using hserved
    rw [← hserved'] at hsub hcount
    exact ⟨(List.sublist_append_left _ _).trans hsub, hinc, hcount⟩
  · intro he hdrain slot hs ops hops
    have hend : Drains slot (q.queuedOf slot) q.log.length q.end_ := drains_end hl ⟨he, hdrain⟩ hs
    have hcreated : slot < q.end_.created :=
      lt_of_lt_of_le (ho.subscribers.2.2 slot hs) <|
        apply_keeps (P := fun r => q.created ≤ r.queue.created) (fun _ _ hle he => hle.trans he.created)
          ho.initial le_rfl .end_
    exact (hend.run (owned_apply ho .end_) hcreated ops hops).read

/-- A full slot evicts a unit for the next one. -/
theorem queue_delivery_evicting :
    ([.publish 7 (2 : Nat) (), .publish 8 (2 : Nat) ()].foldl apply
      (fresh ⟨6, 1, 2, .live⟩) : BoundedMediaQueue Nat Unit).reported = 1 :=
  ((queue_delivery (reachable_fresh (by decide) (by decide) (by decide) _)).2.1 (by decide)).1

/-- The slot is attached all the time: a unit published after `end()` is
accounted for nowhere, nor is one at which `publish` throws, and `discard()`
comes between `end()` and the read. -/
theorem queue_delivery_closing :
    (∃ q : BoundedMediaQueue Nat Unit, system.Reachable q ∧ q.options.mode = .live ∧ 0 ∈ q.subscribers ∧
      (q.account 0).published.length ≠ (q.account 0).yielded.length + (q.queuedOf 0).length +
        (q.account 0).evicted + (q.account 0).oversize + (q.account 0).discarded) ∧
    (∃ q : BoundedMediaQueue Nat Unit, system.Reachable q ∧ q.options.mode = .recorded ∧ 0 ∈ q.subscribers ∧
      (q.account 0).published.length ≠ (q.account 0).yielded.length + (q.queuedOf 0).length +
        (q.account 0).evicted + (q.account 0).oversize + (q.account 0).discarded) ∧
    ∃ q : BoundedMediaQueue Nat Unit, system.Reachable q ∧ q.queuedOf 0 = [(0, 7)] ∧
      results 0 (([.discard, .next 0].foldl apply q.end_).log.drop q.log.length) = [.done] := by
  refine ⟨⟨[.publish 7 (2 : Nat) (), .end_, .publish 8 (2 : Nat) ()].foldl apply (fresh ⟨6, 2, 2, .live⟩),
      reachable_fresh (by decide) (by decide) (by decide) _, by decide⟩,
    ⟨[.publish 7 (2 : Nat) (), .publish 8 (2 : Nat) ()].foldl apply (fresh ⟨6, 1, 2, .recorded⟩),
      reachable_fresh (by decide) (by decide) (by decide) _, by decide⟩,
    ⟨[.asyncIterator, .publish 7 (2 : Nat) ()].foldl apply (fresh ⟨6, 2, 2, .live⟩),
      reachable_fresh (by decide) (by decide) (by decide) _, by decide⟩⟩

end WotAv.Media.BoundedMediaQueue
