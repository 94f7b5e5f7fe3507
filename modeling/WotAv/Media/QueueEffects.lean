import Mathlib.Logic.Relation
import WotAv.Media.Queue

/-!
# The queue one effect at a time

Each operation of the queue is a sequence of effects: one entry enters or
leaves a slot, one value goes to a reader, one reference is given up. What
every effect keeps, every operation keeps (`apply_keeps`), so that the
invariants are checked once for each effect and not for each route an
operation may take.
-/

namespace WotAv.Media.BoundedMediaQueue

open WotAv.Binding Relation

variable {α ρ : Type}

/-- A `publish` call between two turns of its loops: the entry it offers, the
slots it has yet to serve and what it has evicted from the first of them. -/
structure Publishing (α ρ : Type) where
  entry : Entry α ρ
  rest : List Nat
  dropped : Nat := 0

structure Running (α ρ : Type) where
  queue : BoundedMediaQueue α ρ
  loop : Option (Publishing α ρ) := none

def Full (slot bytes : Nat) (q : BoundedMediaQueue α ρ) : Prop :=
  (q.slots slot).entries.length ≥ q.options.maxUnits ∨ (q.slots slot).bytes + bytes > q.options.maxBytes

inductive Effect : Running α ρ → Running α ρ → Prop
  | add (h : q.add = .ok (q', slot)) : Effect ⟨q, none⟩ ⟨q', none⟩
  | makeInitial (h : slot < q.created) : Effect ⟨q, none⟩ ⟨{ q with initial := slot }, none⟩
  | claim (h : slot < q.created) : Effect ⟨q, none⟩ ⟨q.update slot fun s => { s with claimed := true }, none⟩
  | begin_ (h : 0 < bytes) : Effect ⟨q, none⟩ ⟨q.begin_ value,
      some ⟨⟨value, bytes, q.published, release⟩, if q.ended || q.draining then [] else q.subscribers, 0⟩⟩
  | hand (h : (q.slots slot).pending) :
      Effect ⟨q, some ⟨entry, slot :: rest, 0⟩⟩ ⟨q.hand slot entry, some ⟨entry, rest, 0⟩⟩
  | oversize (hm : q.options.mode = .live) :
      Effect ⟨q, some ⟨entry, slot :: rest, 0⟩⟩
        ⟨(q.emit (.oversize slot entry.call)).emit (.gap 1), some ⟨entry, rest, 0⟩⟩
  | evict (hm : q.options.mode = .live) (h : (q.slots slot).entries ≠ []) :
      Effect ⟨q, some ⟨entry, slot :: rest, dropped⟩⟩
        ⟨(q.removeAndRelease slot .evicted).1, some ⟨entry, slot :: rest, dropped + 1⟩⟩
  | gap : Effect ⟨q, some ⟨entry, rest, dropped⟩⟩
      ⟨if dropped ≠ 0 then q.emit (.gap dropped) else q, some ⟨entry, rest, 0⟩⟩
  | push (hp : (q.slots slot).pending = false) (h : ¬q.Full slot entry.bytes) :
      Effect ⟨q, some ⟨entry, slot :: rest, 0⟩⟩ ⟨q.push slot entry, some ⟨entry, rest, 0⟩⟩
  | throw (h : q.options.mode = .recorded ∨
        (q.slots slot).entries = [] ∧ entry.bytes ≤ q.options.maxBytes ∧ q.Full slot entry.bytes) :
      Effect ⟨q, some ⟨entry, slot :: rest, dropped⟩⟩ ⟨q.emit (.threw (slot :: rest)), some ⟨entry, [], 0⟩⟩
  | relinquish : Effect ⟨q, some ⟨entry, [], 0⟩⟩ ⟨q.relinquish entry.call entry.release, none⟩
  | remove (hr : route ≠ .evicted) : Effect ⟨q, none⟩ ⟨(q.removeAndRelease slot route).1, none⟩
  | detach (h : (q.slots slot).entries = []) : Effect ⟨q, none⟩ ⟨q.detach slot, none⟩
  | drain : Effect ⟨q, none⟩ ⟨{ q with draining := true }, none⟩
  | undrain (h : q.subscribers = []) : Effect ⟨q, none⟩ ⟨{ q with draining := false }, none⟩
  | close : Effect ⟨q, none⟩ ⟨{ q with ended := true, failure := error }, none⟩
  | wait (h : (q.slots slot).entries = []) :
      Effect ⟨q, none⟩ ⟨q.update slot fun s => { s with pending := true }, none⟩
  | terminal : Effect ⟨q, none⟩ ⟨q.emit (q.terminal slot), none⟩
  | done : Effect ⟨q, none⟩ ⟨q.emit (.done slot), none⟩
  | busy : Effect ⟨q, none⟩ ⟨q.emit (.busy slot), none⟩

abbrev Effects : Running α ρ → Running α ρ → Prop := ReflTransGen Effect

-- What the small operations leave alone

section
variable (q : BoundedMediaQueue α ρ)
include q

@[simp] theorem relinquish_slots :
    (q.relinquish call release).slots = q.slots := by
  unfold relinquish; dsimp only; split <;> rfl

@[simp] theorem relinquish_options :
    (q.relinquish call release).options = q.options := by
  unfold relinquish; dsimp only; split <;> rfl

@[simp] theorem relinquish_subscribers :
    (q.relinquish call release).subscribers = q.subscribers := by
  unfold relinquish; dsimp only; split <;> rfl

@[simp] theorem removeAndRelease_options :
    (q.removeAndRelease slot route).1.options = q.options := by
  unfold removeAndRelease removeEntry
  cases (q.slots slot).entries <;> simp [emit, update]

@[simp] theorem removeAndRelease_subscribers :
    (q.removeAndRelease slot route).1.subscribers = q.subscribers := by
  unfold removeAndRelease removeEntry
  cases (q.slots slot).entries <;> simp [emit, update]

@[simp] theorem removeAndRelease_entries :
    ((q.removeAndRelease slot route).1.slots slot).entries = (q.slots slot).entries.tail := by
  unfold removeAndRelease removeEntry
  cases h : (q.slots slot).entries <;> simp [emit, update, h]

@[simp] theorem removeAndRelease_pending :
    ((q.removeAndRelease slot route).1.slots s).pending = (q.slots s).pending := by
  unfold removeAndRelease removeEntry
  cases h : (q.slots slot).entries with
  | nil => rfl
  | cons e es => by_cases hs : s = slot <;> simp [emit, update, hs]

theorem removeAndRelease_other (hs : s ≠ slot) :
    (q.removeAndRelease slot route).1.slots s = q.slots s := by
  unfold removeAndRelease removeEntry
  cases (q.slots slot).entries <;> simp [emit, update, hs]

theorem removeAndRelease_nil (h : (q.slots slot).entries = []) :
    q.removeAndRelease slot route = (q, none) := by
  simp [removeAndRelease, removeEntry, h]

end

theorem removeAndRelease_cons {q : BoundedMediaQueue α ρ} (he : (q.slots slot).entries = e :: es) :
    (q.removeAndRelease slot route).1 =
      (((q.update slot fun s => { s with entries := es, bytes := s.bytes - e.bytes }).emit
        (.left slot route e.call e.value)).relinquish e.call e.release) := by
  simp [removeAndRelease, removeEntry, he]

-- Operations as effects

theorem makeRoom_effects (slot : Nat) (entry : Entry α ρ) (rest : List Nat) (entries : List (Entry α ρ)) :
    ∀ (dropped : Nat) (q : BoundedMediaQueue α ρ),
    (q.slots slot).entries = entries → (q.slots slot).pending = false → entry.bytes ≤ q.options.maxBytes →
    ∃ left, Effects ⟨q, some ⟨entry, slot :: rest, dropped⟩⟩
        ⟨(q.makeRoom slot entry.bytes entries dropped).1, some ⟨entry, slot :: rest, left⟩⟩ ∧
      match q.makeRoom slot entry.bytes entries dropped with
      | (q', .ok d) => d = left ∧ (q'.slots slot).pending = false ∧ ¬q'.Full slot entry.bytes
      | (q', .error _) => q'.options.mode = .recorded ∨
          (q'.slots slot).entries = [] ∧ entry.bytes ≤ q'.options.maxBytes ∧ q'.Full slot entry.bytes := by
  induction entries with
  | nil =>
    intro dropped q he hp hb
    refine ⟨dropped, ?_⟩
    unfold makeRoom
    split
    · rename_i hfull
      split
      · exact ⟨.refl, .inl (by assumption)⟩
      · exact ⟨.refl, .inr ⟨he, hb, by rwa [Full, he]⟩⟩
    · rename_i hroom
      exact ⟨.refl, rfl, hp, by rwa [Full, he]⟩
  | cons e es ih =>
    intro dropped q he hp hb
    by_cases hfull : (e :: es).length ≥ q.options.maxUnits ∨
        (q.slots slot).bytes + entry.bytes > q.options.maxBytes
    · by_cases hm : q.options.mode = .recorded
      · refine ⟨dropped, ?_⟩
        rw [makeRoom, if_pos hfull, if_pos hm]
        exact ⟨.refl, .inl hm⟩
      · have hlive : q.options.mode = .live := by
          cases h : q.options.mode <;> simp_all
        obtain ⟨left, heff, hend⟩ := ih (dropped + 1) (q.removeAndRelease slot .evicted).1
          (by simp [he]) (by simpa using hp) (by simpa using hb)
        refine ⟨left, ?_⟩
        rw [makeRoom, if_pos hfull, if_neg hm]
        exact ⟨.head (.evict hlive (by simp [he])) heff, hend⟩
    · refine ⟨dropped, ?_⟩
      rw [makeRoom, if_neg hfull]
      exact ⟨.refl, rfl, hp, by simpa [Full, he] using hfull⟩

theorem serve_effects (slots : List Nat) : ∀ q : BoundedMediaQueue α ρ,
    Effects ⟨q, some ⟨entry, slots, 0⟩⟩ ⟨(serve entry slots q).1, some ⟨entry, [], 0⟩⟩ := by
  induction slots with
  | nil => intro q; exact .refl
  | cons slot slots ih =>
    intro q
    unfold serve
    split
    · exact .head (.hand (by assumption)) (ih _)
    · rename_i hp
      split
      · split
        · exact .single (.throw (.inl (by assumption)))
        · refine .head (.oversize ?_) (ih _)
          cases h : q.options.mode <;> simp_all
      · rename_i hb
        obtain ⟨left, heff, hend⟩ := makeRoom_effects slot entry slots
          (q.slots slot).entries 0 q rfl (by simpa using hp) (by omega)
        generalize hr : q.makeRoom slot entry.bytes (q.slots slot).entries 0 = r at heff hend
        obtain ⟨q', res⟩ := r
        cases res with
        | error e => exact heff.trans (.single (.throw hend))
        | ok dropped =>
          obtain ⟨rfl, hp', hroom⟩ := hend
          refine heff.trans (.head .gap (.head (.push ?_ ?_) (ih _)))
          · split <;> exact hp'
          · split <;> exact hroom

theorem publish_effects (value : α) (bytes : Number) (release : ρ) (q : BoundedMediaQueue α ρ) :
    Effects ⟨q, none⟩ ⟨(q.publish value bytes release).1, none⟩ := by
  unfold publish
  split
  · exact .refl
  · rename_i bytes h
    obtain ⟨_, hpos, _, _⟩ := positiveInteger_ok.mp h
    refine .head (@Effect.begin_ _ _ _ _ value release hpos) ?_
    by_cases hc : q.ended || q.draining
    · have hc' : ((q.begin_ value).ended || (q.begin_ value).draining) = true := hc
      simp only [hc, hc', if_true]
      exact .single .relinquish
    · have hc' : ¬((q.begin_ value).ended || (q.begin_ value).draining) = true := hc
      simp only [hc, hc', if_false, Bool.false_eq_true]
      exact (serve_effects _ _).tail .relinquish

section
variable (q : BoundedMediaQueue α ρ)
include q

theorem discardSlot_effects (slot : Nat) :
    Effects ⟨q, none⟩ ⟨q.discardSlot slot, none⟩ := by
  unfold discardSlot
  generalize (q.slots slot).entries = entries
  induction entries generalizing q with
  | nil => exact .refl
  | cons e es ih => exact .head (.remove (by simp)) (ih _)

theorem discardSlot_entries (slot : Nat) :
    ((q.discardSlot slot).slots slot).entries = [] := by
  unfold discardSlot
  generalize h : (q.slots slot).entries = entries
  induction entries generalizing q with
  | nil => exact h
  | cons e es ih => exact ih _ (by simp [h])

theorem discardSlot_subscribers (slot : Nat) :
    (q.discardSlot slot).subscribers = q.subscribers := by
  unfold discardSlot
  generalize (q.slots slot).entries = entries
  induction entries generalizing q with
  | nil => rfl
  | cons e es ih => rw [List.foldl_cons, ih, removeAndRelease_subscribers]

@[simp] theorem resolvePending_entries :
    ((q.resolvePending slot).slots s).entries = (q.slots s).entries := by
  unfold resolvePending
  split
  · by_cases hs : s = slot <;> simp [emit, update, hs]
  · rfl

@[simp] theorem resolvePending_subscribers :
    (q.resolvePending slot).subscribers = q.subscribers := by
  unfold resolvePending
  split <;> rfl

theorem unregister_subscribers (slot : Nat) :
    (q.unregister slot).subscribers = q.subscribers.erase slot := by
  unfold unregister
  split
  · rfl
  · rw [List.erase_of_not_mem (by assumption)]

theorem discardSlot_empty (h : (q.slots slot).entries = []) :
    q.discardSlot slot = q := by
  simp [discardSlot, h]

theorem removeAndRelease_mark :
    ((q.update slot fun s => { s with ended := true }).removeAndRelease slot route).1 =
      (q.removeAndRelease slot route).1.update slot fun s => { s with ended := true } := by
  cases he : (q.slots slot).entries with
  | nil =>
    rw [removeAndRelease_nil q he, removeAndRelease_nil]
    simpa [update] using he
  | cons e es =>
    rw [removeAndRelease_cons he, removeAndRelease_cons (e := e) (by simpa [update] using he)]
    unfold relinquish
    dsimp only [update, emit]
    split <;> simp

theorem discardSlot_mark :
    (q.update slot fun s => { s with ended := true }).discardSlot slot =
      (q.discardSlot slot).update slot fun s => { s with ended := true } := by
  have hentries : ((q.update slot fun s => { s with ended := true }).slots slot).entries =
      (q.slots slot).entries := by simp [update]
  unfold discardSlot
  rw [hentries]
  generalize (q.slots slot).entries = entries
  induction entries generalizing q with
  | nil => rfl
  | cons e es ih => rw [List.foldl_cons, removeAndRelease_mark, ih _ (by simp [update])]; rfl

theorem detach_empty (h : (q.slots slot).entries = []) : q.detach slot =
    ((q.update slot fun s => { s with ended := true }).resolvePending slot).unregister slot := by
  rw [detach, discardSlot_empty]
  simpa [update] using h

theorem detach_discardSlot : (q.discardSlot slot).detach slot = q.detach slot := by
  unfold detach
  rw [discardSlot_mark, discardSlot_mark, discardSlot_empty _ (discardSlot_entries q slot)]

theorem detach_effects (slot : Nat) :
    Effects ⟨q, none⟩ ⟨q.detach slot, none⟩ := by
  rw [← detach_discardSlot]
  exact (discardSlot_effects q slot).tail (.detach (discardSlot_entries q slot))

theorem unregister_slots : (q.unregister slot).slots = q.slots := by
  unfold unregister
  split <;> rfl

theorem detach_entries (slot : Nat) : ((q.detach slot).slots slot).entries = [] := by
  rw [detach, unregister_slots, resolvePending_entries, discardSlot_entries]

theorem detach_subscribers (slot : Nat) :
    (q.detach slot).subscribers = q.subscribers.erase slot := by
  rw [detach, unregister_subscribers, resolvePending_subscribers, discardSlot_subscribers]
  rfl

end

theorem foldl_effects {f : BoundedMediaQueue α ρ → Nat → BoundedMediaQueue α ρ}
    (hf : ∀ q slot, Effects ⟨q, none⟩ ⟨f q slot, none⟩) (slots : List Nat) (q : BoundedMediaQueue α ρ) :
    Effects ⟨q, none⟩ ⟨slots.foldl f q, none⟩ := by
  induction slots generalizing q with
  | nil => exact .refl
  | cons slot slots ih => exact (hf q slot).trans (ih _)

section
variable (q : BoundedMediaQueue α ρ)
include q

theorem detachAll_effects : Effects ⟨q, none⟩ ⟨q.detachAll, none⟩ :=
  foldl_effects detach_effects q.subscribers q

theorem detachAll_subscribers : q.detachAll.subscribers = [] := by
  unfold detachAll
  generalize h : q.subscribers = slots
  induction slots generalizing q with
  | nil => exact h
  | cons slot slots ih => exact ih _ (by simp [detach_subscribers, h])

theorem end_effects : Effects ⟨q, none⟩ ⟨q.end_, none⟩ := by
  unfold end_
  split
  · exact .refl
  · refine .head .drain (foldl_effects (fun q slot => ?_) _ _)
    split
    · exact detach_effects q slot
    · exact .refl

end

structure Added (q q' : BoundedMediaQueue α ρ) (slot : Nat) : Prop where
  fresh : slot = q.created
  capacity : q.subscribers.length < q.options.maxSubscribers
  created : q'.created = q.created + 1
  options : q'.options = q.options
  initial : q'.initial = q.initial
  published : q'.published = q.published
  references : q'.references = q.references
  slots : q'.slots = Function.update q.slots slot { ended := q.ended || q.draining }
  flags : q'.ended = q.ended ∧ q'.draining = q.draining ∧ q'.failure = q.failure
  registered : (q.ended || q.draining) ∧ q'.subscribers = q.subscribers ∧ q'.log = q.log ∨
    ¬(q.ended || q.draining) ∧ q'.subscribers = q.subscribers ++ [slot] ∧ q'.log = q.log ++ [.created slot]

theorem add_ok {q q' : BoundedMediaQueue α ρ} (h : q.add = .ok (q', slot)) : Added q q' slot := by
  unfold add at h
  split at h
  · cases h
  · obtain ⟨rfl, rfl⟩ := Prod.mk.inj (Except.ok.inj h)
    by_cases hc : q.ended || q.draining
    · simp only [hc, if_true]
      exact ⟨rfl, by omega, rfl, rfl, rfl, rfl, rfl, by rw [hc], ⟨rfl, rfl, rfl⟩, .inl ⟨hc, rfl, rfl⟩⟩
    · simp only [hc, if_false, Bool.false_eq_true]
      exact ⟨rfl, by omega, rfl, rfl, rfl, rfl, rfl, by simp only [hc]; rfl, ⟨rfl, rfl, rfl⟩, .inr ⟨hc, rfl, rfl⟩⟩

theorem add_slot {q q' : BoundedMediaQueue α ρ} (h : q.add = .ok (q', slot)) : slot < q'.created := by
  rw [(add_ok h).fresh, (add_ok h).created]
  exact Nat.lt_succ_self _

theorem resume_effects (q : BoundedMediaQueue α ρ) : Effects ⟨q, none⟩ ⟨q.resume.1, none⟩ := by
  unfold resume
  split
  · exact .refl
  · split
    · exact .refl
    · refine (detachAll_effects q).trans (.head (.undrain (detachAll_subscribers q)) ?_)
      dsimp only
      split
      · exact .refl
      · rename_i q' slot h
        exact .head (.add h) (.single (.makeInitial (add_slot h)))

theorem finish_effects (error : Option OnvifError) (q : BoundedMediaQueue α ρ) :
    Effects ⟨q, none⟩ ⟨q.finish error, none⟩ := by
  unfold finish
  split
  · exact .refl
  · have hclear := detachAll_subscribers { q with ended := true, failure := error }.discard.1
    rw [← hclear]
    exact .head .close ((foldl_effects discardSlot_effects _ _).trans (detachAll_effects _))

theorem asyncIterator_effects (q : BoundedMediaQueue α ρ) (hi : q.initial < q.created) :
    Effects ⟨q, none⟩ ⟨q.asyncIterator.1, none⟩ := by
  unfold asyncIterator
  split
  · exact .refl
  · rename_i q' slot h
    split at h
    · exact .head (.add h) (.single (.claim (add_slot h)))
    · obtain ⟨rfl, rfl⟩ := Prod.mk.inj (Except.ok.inj h)
      exact .single (.claim hi)

theorem removeAndRelease_none {q q' : BoundedMediaQueue α ρ}
    (h : q.removeAndRelease slot route = (q', none)) : q' = q ∧ (q.slots slot).entries = [] := by
  unfold removeAndRelease removeEntry at h
  cases he : (q.slots slot).entries with
  | nil =>
    simp only [he] at h
    exact ⟨(congrArg Prod.fst h).symm, rfl⟩
  | cons e es => simp [he] at h

theorem next_effects (q : BoundedMediaQueue α ρ) (slot : Nat) :
    Effects ⟨q, none⟩ ⟨q.next slot, none⟩ := by
  unfold next
  split
  · exact .single .terminal
  · generalize hr : q.removeAndRelease slot .yielded = r
    obtain ⟨q', entry⟩ := r
    cases entry with
    | some e =>
      have : q' = (q.removeAndRelease slot .yielded).1 := by rw [hr]
      rw [this]
      exact .single (.remove (by simp))
    | none =>
      obtain ⟨rfl, he⟩ := removeAndRelease_none hr
      dsimp only
      split
      · exact (detach_effects _ slot).tail .done
      · split
        · exact .single .busy
        · exact .single (.wait he)

theorem apply_effects (q : BoundedMediaQueue α ρ) (hi : q.initial < q.created) (op : Op α ρ) :
    Effects ⟨q, none⟩ ⟨q.apply op, none⟩ := by
  cases op with
  | publish value bytes release => exact publish_effects value bytes release q
  | discard => exact foldl_effects discardSlot_effects _ _
  | end_ => exact end_effects q
  | resume => exact resume_effects q
  | finish error => exact finish_effects error q
  | asyncIterator => exact asyncIterator_effects q hi
  | next slot =>
    unfold apply; dsimp only; split
    · exact next_effects q slot
    · exact .refl
  | return_ slot =>
    unfold apply; dsimp only; split
    · exact detach_effects q slot
    · exact .refl
  | throw_ slot =>
    unfold apply; dsimp only; split
    · exact detach_effects q slot
    · exact .refl

theorem Effects.keeps {P : Running α ρ → Prop} (hstep : ∀ r r', P r → Effect r r' → P r')
    {r r' : Running α ρ} (h : Effects r r') (hr : P r) : P r' := by
  induction h with
  | refl => exact hr
  | tail _ h ih => exact hstep _ _ ih h

theorem apply_keeps {P : Running α ρ → Prop} (hstep : ∀ r r', P r → Effect r r' → P r')
    {q : BoundedMediaQueue α ρ} (hi : q.initial < q.created) (hq : P ⟨q, none⟩) (op : Op α ρ) :
    P ⟨q.apply op, none⟩ :=
  Effects.keeps hstep (apply_effects q hi op) hq

end WotAv.Media.BoundedMediaQueue
