import Mathlib.Algebra.Order.BigOperators.Group.Finset
import WotAv.Media.QueueDelivery
import WotAv.Media.Session

/-!
# What a queue holds and what it has given back

A unit that a queue has taken is held by a slot or released. The distinct
units of the slots and the releases called so far therefore add up to what was
published, in units and in bytes. A queue that is never offered more than it
has room for neither evicts, drops nor refuses a unit.
-/

namespace WotAv.Media.BoundedMediaQueue

open WotAv.Lib WotAv.Binding Finset

variable {α ρ : Type}

def heldUnits (q : BoundedMediaQueue α ρ) : Finset (Nat × Nat) :=
  ((List.range q.created).flatMap fun slot => (q.slots slot).entries.map fun e => (e.call, e.bytes)).toFinset

def heldBytes (q : BoundedMediaQueue α ρ) : Nat := ∑ unit ∈ q.heldUnits, unit.2

def overflows : QueueEvent α ρ → Bool
  | .left _ .evicted _ _ | .oversize _ _ | .threw _ => true
  | _ => false

def Calm (q : BoundedMediaQueue α ρ) : Prop := ∀ event ∈ q.log, overflows event = false

-- What an effect writes

def Has (r : Running α ρ) (entry : Entry α ρ) : Prop :=
  (∃ slot, entry ∈ (r.queue.slots slot).entries) ∨ ∃ l, r.loop = some l ∧ l.entry = entry

def Tells (r : Running α ρ) : QueueEvent α ρ → Prop
  | .released call release => ∃ entry, Has r entry ∧ entry.call = call ∧ entry.release = release
  | event => overflows event = true → r.loop ≠ none

theorem relinquish_log (q : BoundedMediaQueue α ρ) : (q.relinquish call release).log = q.log ∨
    (q.relinquish call release).log = q.log ++ [.released call release] := by
  unfold relinquish
  dsimp only
  split
  · exact .inr rfl
  · exact .inl rfl

def Wrote (p : QueueEvent α ρ → Prop) (q q' : BoundedMediaQueue α ρ) : Prop :=
  ∃ events, q'.log = q.log ++ events ∧ ∀ event ∈ events, p event

section
variable {p p' : QueueEvent α ρ → Prop} {q q' q'' : BoundedMediaQueue α ρ}

theorem Wrote.of_eq (h : q'.log = q.log) : Wrote p q q' := ⟨[], by simp [h], by simp⟩

theorem Wrote.one {event : QueueEvent α ρ} (h : q'.log = q.log ++ [event]) (he : p event) : Wrote p q q' :=
  ⟨[event], h, by simpa using he⟩

theorem Wrote.trans (h : Wrote p q q') (h' : Wrote p q' q'') : Wrote p q q'' := by
  obtain ⟨events, hlog, hp⟩ := h
  obtain ⟨events', hlog', hp'⟩ := h'
  refine ⟨events ++ events', by rw [hlog', hlog, List.append_assoc], fun event he => ?_⟩
  rcases List.mem_append.mp he with he | he
  · exact hp event he
  · exact hp' event he

theorem Wrote.mono (h : Wrote p q q') (hp : ∀ event, p event → p' event) : Wrote p' q q' := by
  obtain ⟨events, hlog, he⟩ := h
  exact ⟨events, hlog, fun event hm => hp event (he event hm)⟩

theorem wrote_relinquish (h : p (.released call release)) : Wrote p q (q.relinquish call release) := by
  rcases relinquish_log q with hlog | hlog
  · exact .of_eq hlog
  · exact .one hlog h

theorem wrote_remove (slot : Nat) (route : Route)
    (h : ∀ entry ∈ (q.slots slot).entries, p (.left slot route entry.call entry.value) ∧
      p (.released entry.call entry.release)) : Wrote p q (q.removeAndRelease slot route).1 := by
  cases he : (q.slots slot).entries with
  | nil => rw [removeAndRelease_nil q he]; exact .of_eq rfl
  | cons entry entries =>
    obtain ⟨hleft, hreleased⟩ := h entry (by simp [he])
    rw [removeAndRelease_cons he]
    have hemit : Wrote p q ((q.update slot fun s => { s with entries, bytes := s.bytes - entry.bytes }).emit
        (.left slot route entry.call entry.value)) := .one rfl hleft
    exact hemit.trans (wrote_relinquish hreleased)

end

theorem terminal_cases {p : QueueEvent α ρ → Prop} (q : BoundedMediaQueue α ρ) (slot : Nat)
    (hdone : p (.done slot)) (hfailed : ∀ e, p (.failed slot e)) : p (q.terminal slot) := by
  unfold terminal
  split
  · exact hfailed _
  · exact hdone

variable {q : BoundedMediaQueue α ρ}

theorem wrote_detach {p : QueueEvent α ρ → Prop} (he : (q.slots slot).entries = [])
    (hterminal : p (q.terminal slot)) (hdetached : p (.detached slot)) : Wrote p q (q.detach slot) := by
  rw [detach_empty q he]
  have hresolve : Wrote p q ((q.update slot fun s => { s with ended := true }).resolvePending slot) := by
    unfold resolvePending
    split
    · exact .one rfl hterminal
    · exact .of_eq rfl
  refine hresolve.trans ?_
  unfold unregister
  split
  · exact .one rfl hdetached
  · exact .of_eq rfl

variable {r r' : Running α ρ}

theorem Effect.wrote (h : Effect r r') : Wrote (Tells r) r.queue r'.queue := by
  cases h with
  | add ha =>
    rcases (add_ok ha).registered with ⟨_, _, hlog⟩ | ⟨_, _, hlog⟩
    · exact .of_eq hlog
    · exact .one hlog nofun
  | begin_ hb => exact .one rfl nofun
  | hand hp => exact .one rfl nofun
  | @oversize q entry slot rest hm =>
    have hrefused : Wrote (Tells ⟨q, some ⟨entry, slot :: rest, 0⟩⟩) q (q.emit (.oversize slot entry.call)) :=
      .one rfl fun _ => nofun
    exact hrefused.trans (.one rfl nofun)
  | evict hm hs => exact wrote_remove _ _ fun entry he => ⟨fun _ => nofun, entry, .inl ⟨_, he⟩, rfl, rfl⟩
  | gap =>
    dsimp only
    split
    · exact .one rfl nofun
    · exact .of_eq rfl
  | push hp hfull => exact .one rfl nofun
  | throw hm => exact .one rfl fun _ => nofun
  | relinquish => exact wrote_relinquish ⟨_, .inr ⟨_, rfl, rfl⟩, rfl, rfl⟩
  | @remove route slot q hr =>
    refine wrote_remove _ _ fun entry he => ⟨?_, entry, .inl ⟨_, he⟩, rfl, rfl⟩
    cases route with
    | evicted => exact absurd rfl hr
    | _ => exact nofun
  | detach hs => exact wrote_detach hs (terminal_cases _ _ nofun fun _ => nofun) nofun
  | terminal => exact .one rfl (terminal_cases _ _ nofun fun _ => nofun)
  | done => exact .one rfl nofun
  | busy => exact .one rfl nofun
  | _ => exact .of_eq rfl

variable {q q' : BoundedMediaQueue α ρ} {entry : Entry α ρ}

theorem Has.of {loop loop' : Option (Publishing α ρ)}
    (h : Has ⟨q', loop'⟩ entry)
    (hs : ∀ slot, ∀ entry ∈ (q'.slots slot).entries, entry ∈ (q.slots slot).entries ∨ ∃ l, loop = some l ∧ l.entry = entry)
    (hl : ∀ l', loop' = some l' → ∃ l, loop = some l ∧ l.entry = l'.entry) : Has ⟨q, loop⟩ entry := by
  rcases h with ⟨slot, hm⟩ | ⟨l', rfl, rfl⟩
  · rcases hs slot entry hm with hm | hm
    · exact .inl ⟨slot, hm⟩
    · exact .inr hm
  · exact .inr (hl l' rfl)

theorem Has.idle (h : Has ⟨q', none⟩ entry)
    (hs : ∀ slot, ∀ entry ∈ (q'.slots slot).entries, entry ∈ (q.slots slot).entries) : Has ⟨q, none⟩ entry :=
  h.of (fun slot entry he => .inl (hs slot entry he)) fun _ hl => nomatch hl

theorem Has.busy {l l' : Publishing α ρ}
    (h : Has ⟨q', some l'⟩ entry) (hs : ∀ slot, ∀ entry ∈ (q'.slots slot).entries, entry ∈ (q.slots slot).entries)
    (hl : l'.entry = l.entry) : Has ⟨q, some l⟩ entry :=
  h.of (fun slot entry he => .inl (hs slot entry he)) fun _ hl' => ⟨l, rfl, Option.some.inj hl' ▸ hl.symm⟩

theorem mem_update {f : Subscriber α ρ → Subscriber α ρ}
    (hf : (f (q.slots slot)).entries = (q.slots slot).entries) (s : Nat)
    (he : entry ∈ ((q.update slot f).slots s).entries) : entry ∈ (q.slots s).entries :=
  update_entries hf s ▸ he

theorem mem_remove (s : Nat)
    (he : entry ∈ ((q.removeAndRelease slot route).1.slots s).entries) : entry ∈ (q.slots s).entries := by
  by_cases hs : s = slot
  · subst hs
    rw [removeAndRelease_entries] at he
    exact List.mem_of_mem_tail he
  · rwa [removeAndRelease_other _ hs] at he

theorem mem_add (h : q.add = .ok (q', slot)) (s : Nat)
    (he : entry ∈ (q'.slots s).entries) : entry ∈ (q.slots s).entries := by
  rw [(add_ok h).slots] at he
  by_cases hs : s = slot
  · subst hs; simp at he
  · simpa [hs] using he

theorem mem_push {entry e : Entry α ρ} (s : Nat)
    (he : e ∈ ((q.push slot entry).slots s).entries) : e ∈ (q.slots s).entries ∨ entry = e := by
  by_cases hs : s = slot
  · subst hs
    have he : e ∈ (q.slots s).entries ∨ e = entry := by simpa [push, emit, update] using he
    exact he.imp_right Eq.symm
  · exact .inl (by simpa [push, emit, update, hs] using he)

theorem mem_detach (hempty : (q.slots slot).entries = []) (s : Nat)
    (he : entry ∈ ((q.detach slot).slots s).entries) : entry ∈ (q.slots s).entries := by
  rwa [detach_empty _ hempty, unregister_slots, resolvePending_entries, update_entries rfl] at he

theorem Effect.has (h : Effect r r') (hp : r'.queue.published = r.queue.published) (he : Has r' entry) : Has r entry := by
  cases h with
  | add ha => exact he.idle fun s _ => mem_add ha s
  | begin_ hb => exact absurd hp (Nat.succ_ne_self _)
  | claim hs => exact he.idle fun s _ => mem_update rfl s
  | wait hs => exact he.idle fun s _ => mem_update rfl s
  | hand hpend => exact he.busy (fun s _ => mem_update (f := fun s => { s with pending := false }) rfl s) rfl
  | evict hm hs => exact he.busy (fun s _ => mem_remove s) rfl
  | gap => exact he.busy (fun _ _ hm => by split at hm <;> exact hm) rfl
  | push hpend hfull =>
    refine he.of (fun s e hm => ?_) fun _ hl => ⟨_, rfl, Option.some.inj hl ▸ rfl⟩
    exact (mem_push s hm).imp_right fun h => ⟨_, rfl, h⟩
  | oversize hm => exact he.busy (fun _ _ => id) rfl
  | throw hm => exact he.busy (fun _ _ => id) rfl
  | relinquish => exact he.of (fun s e hm => .inl (by simpa using hm)) fun _ hl => nomatch hl
  | remove hr => exact he.idle fun s _ => mem_remove s
  | detach hs => exact he.idle fun s _ => mem_detach hs s
  | _ => exact he.idle fun _ _ => id

-- The bytes of a unit

structure Sized (size : Nat → Nat) (r : Running α Nat) : Prop where
  entries : ∀ entry, Has r entry → entry.bytes = size entry.call ∧ entry.release = size entry.call
  released : ∀ call bytes, .released call bytes ∈ r.queue.log → bytes = size call

theorem Effect.sized {r r' : Running α Nat} (h : Effect r r') (hp : r'.queue.published = r.queue.published)
    (hs : Sized size r) : Sized size r' := by
  obtain ⟨events, hlog, htells⟩ := h.wrote
  refine ⟨fun entry he => hs.entries entry (h.has hp he), fun call bytes hm => ?_⟩
  rw [hlog, List.mem_append] at hm
  rcases hm with hm | hm
  · exact hs.released call bytes hm
  · obtain ⟨entry, he, rfl, rfl⟩ := htells _ hm
    exact (hs.entries entry he).2

theorem Effects.quiet {P : Running α ρ → Prop}
    (hstep : ∀ r r', P r → Effect r r' → r'.queue.published = r.queue.published → P r') (h : Effects r r') (he : r'.queue.published = r.queue.published) (hr : P r) : P r' := by
  have hmono : ∀ {a b : Running α ρ}, Effects a b → a.queue.published ≤ b.queue.published := by
    intro a b hab
    exact Effects.keeps (P := fun r => a.queue.published ≤ r.queue.published) (fun _ _ ih h => ih.trans h.published) hab le_rfl
  induction h with
  | refl => exact hr
  | @tail b c hb hbc ih =>
    have h₁ := hmono hb
    have h₂ := hbc.published
    have hc : b.queue.published = r.queue.published := by omega
    exact hstep b c (ih hc) hbc (by omega)

theorem Effect.calm (h : Effect r r') (hp : r'.queue.published = r.queue.published)
    (hr : r.loop = none ∧ Calm r.queue) : r'.loop = none ∧ Calm r'.queue := by
  obtain ⟨events, hlog, htells⟩ := h.wrote
  refine ⟨?_, fun event hm => ?_⟩
  · cases h with
    | begin_ hb => exact absurd hp (Nat.succ_ne_self _)
    | _ => first | rfl | cases hr.1
  · rw [hlog, List.mem_append] at hm
    rcases hm with hm | hm
    · exact hr.2 event hm
    · have ht := htells event hm
      cases event with
      | released call release => rfl
      | _ => exact Bool.eq_false_iff.mpr fun ho => ht ho hr.1

-- How many units were published

theorem foldl_published {β : Type} {f : BoundedMediaQueue α ρ → β → BoundedMediaQueue α ρ}
    (hf : ∀ q b, (f q b).published = q.published) (l : List β) (q : BoundedMediaQueue α ρ) :
    (l.foldl f q).published = q.published := by
  induction l generalizing q with
  | nil => rfl
  | cons b l ih => exact (ih _).trans (hf q b)

@[simp] theorem discardSlot_published (q : BoundedMediaQueue α ρ) : (q.discardSlot slot).published = q.published :=
  foldl_published (fun _ _ => removeAndRelease_published _) _ q

@[simp] theorem detach_published (q : BoundedMediaQueue α ρ) : (q.detach slot).published = q.published := by
  simp [detach, update]

theorem detachAll_published (q : BoundedMediaQueue α ρ) : q.detachAll.published = q.published :=
  foldl_published (fun _ _ => detach_published _) _ q

theorem discard_published (q : BoundedMediaQueue α ρ) : q.discard.1.published = q.published :=
  foldl_published (fun _ _ => discardSlot_published _) _ q

theorem end_published (q : BoundedMediaQueue α ρ) : q.end_.published = q.published := by
  unfold end_
  split
  · rfl
  · refine (foldl_published (fun q slot => ?_) _ _).trans rfl
    split
    · exact detach_published q
    · rfl

theorem resume_published (q : BoundedMediaQueue α ρ) : q.resume.1.published = q.published := by
  unfold resume
  split
  · rfl
  · split
    · rfl
    · dsimp only
      split
      · exact detachAll_published q
      · rename_i h
        exact (add_ok h).published.trans (detachAll_published q)

theorem finish_published (error : Option OnvifError) (q : BoundedMediaQueue α ρ) :
    (q.finish error).published = q.published := by
  unfold finish
  split
  · rfl
  · exact (detachAll_published _).trans (discard_published _)

theorem asyncIterator_published (q : BoundedMediaQueue α ρ) : q.asyncIterator.1.published = q.published := by
  unfold asyncIterator
  split
  · rfl
  · rename_i h
    split at h
    · exact (add_ok h).published
    · obtain ⟨rfl, rfl⟩ := Prod.mk.inj (Except.ok.inj h)
      rfl

theorem next_published (q : BoundedMediaQueue α ρ) (slot : Nat) : (q.next slot).published = q.published := by
  unfold next
  split
  · rfl
  · generalize hr : q.removeAndRelease slot .yielded = r
    have hp : r.1.published = q.published := hr ▸ removeAndRelease_published q
    obtain ⟨q', entry⟩ := r
    cases entry with
    | some e => exact hp
    | none =>
      dsimp only
      split
      · exact (detach_published q').trans hp
      · split
        · exact hp
        · exact hp

def Op.publishes : Op α ρ → Bool
  | .publish .. => true
  | _ => false

theorem apply_published (q : BoundedMediaQueue α ρ) {op : Op α ρ} (h : op.publishes = false) :
    (q.apply op).published = q.published := by
  cases op with
  | publish value bytes release => cases h
  | discard => exact discard_published q
  | end_ => exact end_published q
  | resume => exact resume_published q
  | finish error => exact finish_published error q
  | asyncIterator => exact asyncIterator_published q
  | next slot =>
    unfold apply; dsimp only; split
    · exact next_published q slot
    · rfl
  | return_ slot =>
    unfold apply; dsimp only; split
    · exact detach_published q
    · rfl
  | throw_ slot =>
    unfold apply; dsimp only; split
    · exact detach_published q
    · rfl

theorem publish_begun {value : α} {bytes : Number} {release : ρ}
    (h : positiveInteger bytes "media unit bytes" (128 * 1024 * 1024) = .ok n) :
    let entry : Entry α ρ := ⟨value, n, q.published, release⟩
    Effects ⟨q.begin_ value, some ⟨entry, if q.ended || q.draining then [] else q.subscribers, 0⟩⟩
      ⟨(q.publish value bytes release).1, none⟩ := by
  unfold publish
  rw [h]
  by_cases hc : q.ended || q.draining
  · have hc' : ((q.begin_ value).ended || (q.begin_ value).draining) = true := hc
    simp only [hc, hc', if_true]
    exact .single .relinquish
  · have hc' : ¬((q.begin_ value).ended || (q.begin_ value).draining) = true := hc
    simp only [hc, hc', if_false, Bool.false_eq_true]
    exact (serve_effects _ _).tail .relinquish

-- A publish that finds room

theorem full_congr (hs : q'.slots slot = q.slots slot) (ho : q'.options = q.options) :
    q'.Full slot bytes ↔ q.Full slot bytes := by
  simp only [Full, hs, ho]

theorem makeRoom_spare (h : ¬q.Full slot bytes) :
    q.makeRoom slot bytes (q.slots slot).entries 0 = (q, .ok 0) := by
  unfold makeRoom
  exact if_neg h

theorem serve_spare (entry : Entry α ρ) (slots : List Nat) : ∀ {q : BoundedMediaQueue α ρ}, slots.Nodup →
    (∀ slot ∈ slots, ¬q.Full slot entry.bytes) → entry.bytes ≤ q.options.maxBytes →
    (serve entry slots q).2 = none ∧ (serve entry slots q).1.published = q.published ∧
      Wrote (fun event => overflows event = false) q (serve entry slots q).1 := by
  induction slots with
  | nil => intro q _ _ _; exact ⟨rfl, rfl, .of_eq rfl⟩
  | cons slot slots ih =>
    intro q hn hroom hb
    obtain ⟨hslot, hn⟩ := List.nodup_cons.mp hn
    have hrest {q' : BoundedMediaQueue α ρ} (hs : ∀ s, s ≠ slot → q'.slots s = q.slots s) (ho : q'.options = q.options) :
        ∀ s ∈ slots, ¬q'.Full s entry.bytes := by
      intro s hm
      rw [full_congr (hs s fun he => hslot (he ▸ hm)) ho]
      exact hroom s (List.mem_cons_of_mem _ hm)
    unfold serve
    split
    · obtain ⟨hnone, hpub, hwrote⟩ := ih (q := q.hand slot entry) hn
        (hrest (fun s hs => by simp [hand, emit, update, hs]) rfl) hb
      exact ⟨hnone, hpub, Wrote.trans (.one rfl rfl) hwrote⟩
    · rw [if_neg (by omega), makeRoom_spare (hroom slot List.mem_cons_self)]
      obtain ⟨hnone, hpub, hwrote⟩ := ih (q := q.push slot entry) hn
        (hrest (fun s hs => by simp [push, emit, update, hs]) rfl) hb
      exact ⟨hnone, hpub, Wrote.trans (.one rfl rfl) hwrote⟩

theorem publish_spare (value : α) {bytes : Number} (release : ρ) (ho : Owned q none)
    (h : positiveInteger bytes "media unit bytes" (128 * 1024 * 1024) = .ok n)
    (hroom : ∀ slot, ¬q.Full slot n) (hb : n ≤ q.options.maxBytes) :
    (q.publish value bytes release).2 = none ∧ (q.publish value bytes release).1.published = q.published + 1 ∧
      Wrote (fun event => overflows event = false) q (q.publish value bytes release).1 := by
  have hbegin : Wrote (fun event => overflows event = false) q (q.begin_ value) := .one rfl rfl
  unfold publish
  rw [h]
  dsimp only
  split
  · exact ⟨rfl, relinquish_published _, hbegin.trans (wrote_relinquish rfl)⟩
  · have hspare : ∀ slot ∈ (q.begin_ value).subscribers, ¬(q.begin_ value).Full slot n := fun slot _ => hroom slot
    obtain ⟨hnone, hpub, hwrote⟩ := serve_spare ⟨value, n, q.published, release⟩
      (q.begin_ value).subscribers ho.subscribers.1 hspare hb
    exact ⟨hnone, (relinquish_published _).trans hpub, hbegin.trans (hwrote.trans (wrote_relinquish rfl))⟩

-- Held and released

def callOf : QueueEvent α ρ → Option Nat
  | .released call _ => some call
  | _ => none

theorem released_count (q : BoundedMediaQueue α ρ) (call : Nat) : q.released call = (q.log.filterMap callOf).count call := by
  unfold released
  generalize q.log = log
  induction log with
  | nil => rfl
  | cons event log ih =>
    cases event with
    | released c release => simp [callOf, isReleased, ih, List.countP_cons, List.count_cons]
    | _ => simpa [callOf, isReleased, List.countP_cons, List.filterMap_cons] using ih

theorem sum_released (h : Owned q none) (w : Nat → Nat) :
    ((q.log.filterMap callOf).map w).sum = ∑ call ∈ range q.published, q.released call * w call := by
  rw [Finset.sum_list_map_count]
  simp only [← released_count, nsmul_eq_mul, Nat.cast_id]
  refine sum_subset (fun call hc => ?_) fun call _ hn => ?_
  · rw [List.mem_toFinset, ← List.count_pos_iff, ← released_count] at hc
    by_contra hlt
    have hzero := (h.accounts.unknown call (by simpa using hlt)).2
    omega
  · rw [List.mem_toFinset, ← List.count_pos_iff, ← released_count] at hn
    rw [Nat.eq_zero_of_not_pos hn, Nat.zero_mul]

theorem mem_heldUnits : unit ∈ q.heldUnits ↔
    ∃ slot < q.created, ∃ entry ∈ (q.slots slot).entries, (entry.call, entry.bytes) = unit := by
  simp [heldUnits]

variable {q : BoundedMediaQueue α Nat}

theorem heldUnits_eq (h : Owned q none) (hs : Sized size ⟨q, none⟩) :
    q.heldUnits = ((range q.published).filter fun call => q.released call = 0).image fun call => (call, size call) := by
  ext ⟨call, bytes⟩
  simp only [mem_heldUnits, mem_image, mem_filter, mem_range, Prod.mk.injEq]
  constructor
  · rintro ⟨slot, hslot, entry, he, rfl, rfl⟩
    have hheld : q.Held entry.call := ⟨slot, List.mem_map_of_mem he⟩
    have hcall : entry.call < q.published := by
      by_contra hn
      have hzero := (h.accounts.unknown entry.call hn).1
      exact (held_iff h).mp hheld (by omega)
    exact ⟨entry.call, ⟨hcall, (released_iff h hcall).1 hheld⟩, rfl, (hs.entries entry (.inl ⟨slot, he⟩)).1.symm⟩
  · rintro ⟨call, ⟨hcall, hzero⟩, rfl, rfl⟩
    have hheld : q.Held call := by
      by_contra hn
      have := (released_iff h hcall).2 hn
      omega
    obtain ⟨slot, hm⟩ := hheld
    obtain ⟨entry, he, rfl⟩ := List.mem_map.mp hm
    refine ⟨slot, h.subscribers.2.2 slot (mem_subscribers h ?_), entry, he, rfl, (hs.entries entry (.inl ⟨slot, he⟩)).1⟩
    exact List.ne_nil_of_mem he

theorem held_released (h : Owned q none) (hs : Sized size ⟨q, none⟩) (w : Nat → Nat) :
    ∑ unit ∈ q.heldUnits, w unit.1 + ((q.log.filterMap callOf).map w).sum = ∑ call ∈ range q.published, w call := by
  have hinj : Set.InjOn (fun call => (call, size call)) ((range q.published).filter fun call => q.released call = 0) :=
    fun _ _ _ _ he => (Prod.mk.inj he).1
  rw [heldUnits_eq h hs, sum_image hinj, sum_released h, sum_filter, ← sum_add_distrib]
  refine sum_congr rfl fun call hc => ?_
  have hone := released_iff h (mem_range.mp hc)
  by_cases hheld : q.Held call
  · simp [hone.1 hheld]
  · simp [hone.2 hheld]

theorem nodup_units (h : Delivered q none) (slot : Nat) :
    ((q.slots slot).entries.map fun entry => (entry.call, entry.bytes)).Nodup := by
  obtain ⟨served, hpublished, hsub, _⟩ := (h.balanced slot).settled
  have hsub := ((List.sublist_append_right _ _).trans hsub).map Prod.fst
  have hcalls : (served.map fun u => (u.1, u.2.1)).map Prod.fst = (q.account slot).published.map Prod.fst := by
    simp [hpublished, waitingAt]
  rw [hcalls] at hsub
  refine List.Nodup.of_map Prod.fst ?_
  have hnodup := (h.balanced slot).increasing.nodup.sublist hsub
  simpa [queuedOf, Function.comp_def] using hnodup

theorem slot_le_held (ho : Owned q none) (hd : Delivered q none) (slot : Nat) :
    (q.slots slot).entries.length ≤ q.heldUnits.card ∧ (q.slots slot).bytes ≤ q.heldBytes := by
  have hsub : ((q.slots slot).entries.map fun entry => (entry.call, entry.bytes)).toFinset ⊆ q.heldUnits := by
    intro unit hm
    obtain ⟨entry, he, rfl⟩ := List.mem_map.mp (List.mem_toFinset.mp hm)
    exact mem_heldUnits.mpr ⟨slot, ho.subscribers.2.2 slot (mem_subscribers ho (List.ne_nil_of_mem he)), entry, he, rfl⟩
  constructor
  · have hcard := card_le_card hsub
    rwa [List.toFinset_card_of_nodup (nodup_units hd slot), List.length_map] at hcard
  · have hsum := sum_le_sum_of_subset (f := Prod.snd) hsub
    rw [List.sum_toFinset _ (nodup_units hd slot), List.map_map] at hsum
    rw [(ho.within slot).bytes]
    exact hsum

-- A queue with its books in order

structure InOrder (o : MediaQueueOptions) (q : BoundedMediaQueue α Nat) : Prop where
  options : q.options = o
  owned : Owned q none
  delivered : Delivered q none
  sized : ∃ size, Sized size ⟨q, none⟩
  calm : Calm q

structure Settles (q q' : BoundedMediaQueue α Nat) (taken : List Nat) : Prop where
  units : q'.heldUnits.card + (NativeSession.releases q q').length = q.heldUnits.card + taken.length
  bytes : q'.heldBytes + (NativeSession.releases q q').sum = q.heldBytes + taken.sum

theorem releases_append {q q' : BoundedMediaQueue α Nat} {events : List (QueueEvent α Nat)} (h : q'.log = q.log ++ events)
    (hs : Sized size ⟨q', none⟩) : NativeSession.releases q q' = (events.filterMap callOf).map size := by
  have hsize : ∀ call bytes, .released call bytes ∈ events → bytes = size call := fun call bytes hm =>
    hs.released call bytes (by simp [h, hm])
  unfold NativeSession.releases
  rw [h, List.drop_left]
  clear h
  induction events with
  | nil => rfl
  | cons event events ih =>
    have ih := ih fun call bytes hm => hsize call bytes (List.mem_cons_of_mem _ hm)
    cases event with
    | released call bytes =>
      have hb := hsize call bytes List.mem_cons_self
      simpa [callOf, hb] using ih
    | _ => simpa [callOf, List.filterMap_cons] using ih

theorem settles_of {q q' : BoundedMediaQueue α Nat} (ho : Owned q none) (ho' : Owned q' none) (hs : Sized size ⟨q, none⟩)
    (hs' : Sized size ⟨q', none⟩) (hw : Wrote p q q') (taken : List Nat)
    (hp : ∀ w : Nat → Nat, ∑ call ∈ range q'.published, w call =
      ∑ call ∈ range q.published, w call + (taken.map fun call => w call).sum) : Settles q q' (taken.map size) := by
  obtain ⟨events, hlog, _⟩ := hw
  have hsum (w : Nat → Nat) : ∑ unit ∈ q'.heldUnits, w unit.1 + ((events.filterMap callOf).map w).sum =
      ∑ unit ∈ q.heldUnits, w unit.1 + (taken.map fun call => w call).sum := by
    have h := held_released ho hs w
    have h' := held_released ho' hs' w
    rw [hlog, List.filterMap_append, List.map_append, List.sum_append, hp w] at h'
    omega
  have hbytes {q : BoundedMediaQueue α Nat} (ho : Owned q none) (hs : Sized size ⟨q, none⟩) :
      q.heldBytes = ∑ unit ∈ q.heldUnits, size unit.1 := by
    refine sum_congr rfl fun unit hm => ?_
    rw [heldUnits_eq ho hs] at hm
    obtain ⟨call, _, rfl⟩ := mem_image.mp hm
    rfl
  constructor
  · simpa [releases_append hlog hs'] using hsum fun _ => 1
  · rw [releases_append hlog hs', hbytes ho hs, hbytes ho' hs']
    exact hsum size

theorem inOrder_fresh {o : MediaQueueOptions} (ho : Owned (fresh o : BoundedMediaQueue α Nat) none) :
    InOrder o (fresh o : BoundedMediaQueue α Nat) where
  options := rfl
  owned := ho
  delivered := delivered_make
  sized := ⟨fun _ => 0, fun _ he => by simp [Has, fresh] at he, fun _ _ hm => by simp [fresh] at hm⟩
  calm := fun event hm => by
    obtain rfl : event = .created 0 := by simpa [fresh] using hm
    rfl

theorem InOrder.apply (h : InOrder o q) (op : Op α Nat) (hop : op.publishes = false) :
    InOrder o (q.apply op) ∧ Settles q (q.apply op) [] := by
  have heffects := apply_effects q h.owned.initial op
  have hpublished := apply_published q hop
  obtain ⟨size, hs⟩ := h.sized
  have howned := owned_apply h.owned op
  have hs' : Sized size ⟨q.apply op, none⟩ :=
    Effects.quiet (P := Sized size) (fun _ _ hr he hp => he.sized hp hr) heffects hpublished hs
  have hcalm : (none : Option (Publishing α Nat)) = none ∧ Calm (q.apply op) :=
    Effects.quiet (P := fun r => r.loop = none ∧ Calm r.queue) (fun _ _ hr he hp => he.calm hp hr) heffects hpublished ⟨rfl, h.calm⟩
  have hwrote : Wrote (fun _ => True) q (q.apply op) :=
    Effects.keeps (P := fun r => Wrote (fun _ => True) q r.queue) (fun _ _ hr he => hr.trans (he.wrote.mono fun _ _ => trivial))
      heffects (.of_eq rfl)
  refine ⟨⟨?_, howned, ?_, ⟨size, hs'⟩, hcalm.2⟩, ?_⟩
  · exact Effects.keeps (P := fun r => r.queue.options = o) (fun _ _ hr he => he.options.trans hr) heffects h.options
  · exact (apply_keeps (P := fun r => Owned r.queue r.loop ∧ Delivered r.queue r.loop)
      (fun _ _ h he => ⟨Effect.owned h.1 he, Effect.delivered h.1 h.2 he⟩) h.owned.initial ⟨h.owned, h.delivered⟩ op).2
  · exact settles_of h.owned howned hs hs' hwrote [] fun w => by simp [hpublished]

theorem Sized.congr (h : Sized size ⟨q, none⟩) (ho : Owned q none)
    (hsize : ∀ call < q.published, size' call = size call) : Sized size' ⟨q, none⟩ := by
  constructor
  · rintro entry (⟨slot, he⟩ | ⟨l, hl, _⟩)
    · have hcall : entry.call < q.published := by
        by_contra hn
        have hzero := (ho.accounts.unknown entry.call hn).1
        exact (held_iff ho).mp ⟨slot, List.mem_map_of_mem he⟩ (by omega)
      rw [hsize _ hcall]
      exact h.entries entry (.inl ⟨slot, he⟩)
    · cases hl
  · intro call bytes hm
    have hcall : call < q.published := by
      by_contra hn
      have hzero : q.log.countP (isReleased call) = 0 := (ho.accounts.unknown call hn).2
      exact absurd rfl (of_decide_eq_false (Bool.eq_false_iff.mpr (List.countP_eq_zero.mp hzero _ hm)))
    rw [hsize _ hcall]
    exact h.released call bytes hm

theorem InOrder.publish (h : InOrder o q) {bytes : Nat} (value : α) (hpos : 0 < bytes)
    (hmax : bytes ≤ 128 * 1024 * 1024) (hunits : q.heldUnits.card + 1 ≤ o.maxUnits) (hbytes : q.heldBytes + bytes ≤ o.maxBytes) :
    (q.publish value bytes bytes).2 = none ∧ InOrder o (q.publish value bytes bytes).1 ∧
      Settles q (q.publish value bytes bytes).1 [bytes] := by
  have hsafe : 128 * 1024 * 1024 ≤ maxSafeInteger := by decide
  have hok : positiveInteger (bytes : Number) "media unit bytes" (128 * 1024 * 1024) = .ok bytes :=
    positiveInteger_ok.mpr ⟨rfl, hpos, hmax, by omega⟩
  have hroom : ∀ slot, ¬q.Full slot bytes := by
    rintro slot (hfull | hfull)
    · have := (slot_le_held h.owned h.delivered slot).1
      rw [h.options] at hfull
      omega
    · have := (slot_le_held h.owned h.delivered slot).2
      rw [h.options] at hfull
      omega
  obtain ⟨hnone, hpublished, hwrote⟩ := publish_spare value bytes h.owned hok hroom
    (by rw [h.options]; omega)
  obtain ⟨size, hs⟩ := h.sized
  -- The unit gets the first free call number, so its size can be chosen now.
  let size' := Function.update size q.published bytes
  have hkeep : ∀ call < q.published, size' call = size call := fun call hc =>
    Function.update_of_ne (Nat.ne_of_lt hc) _ _
  have hlast : size' q.published = bytes := Function.update_self _ _ _
  have hbefore : Sized size' ⟨q, none⟩ := hs.congr h.owned hkeep
  have hafter : Sized size' ⟨(q.publish value bytes bytes).1, none⟩ := by
    refine Effects.quiet (P := Sized size') (fun _ _ hr he hp => he.sized hp hr) (publish_begun hok) hpublished ?_
    constructor
    · rintro entry (⟨slot, he⟩ | ⟨l, hl, rfl⟩)
      · exact hbefore.entries entry (.inl ⟨slot, he⟩)
      · obtain rfl := Option.some.inj hl
        exact ⟨hlast.symm, hlast.symm⟩
    · intro call n hm
      exact hbefore.released call n (by simpa [begin_, emit] using hm)
  have howned : Owned (q.publish value bytes bytes).1 none := owned_apply h.owned (.publish value bytes bytes)
  have heffects := publish_effects value bytes bytes q
  refine ⟨hnone, ⟨?_, howned, ?_, ⟨size', hafter⟩, ?_⟩, ?_⟩
  · exact Effects.keeps (P := fun r => r.queue.options = o) (fun _ _ hr he => he.options.trans hr) heffects h.options
  · exact (Effects.keeps (P := fun r => Owned r.queue r.loop ∧ Delivered r.queue r.loop)
      (fun _ _ h he => ⟨Effect.owned h.1 he, Effect.delivered h.1 h.2 he⟩) heffects ⟨h.owned, h.delivered⟩).2
  · obtain ⟨events, hlog, hcalm⟩ := hwrote
    intro event hm
    rw [hlog, List.mem_append] at hm
    exact hm.elim (h.calm event) (hcalm event)
  · rw [show [bytes] = [q.published].map size' by simp [hlast]]
    exact settles_of h.owned howned hbefore hafter hwrote [q.published] fun w => by
      rw [hpublished, sum_range_succ]
      simp

end WotAv.Media.BoundedMediaQueue
