import WotAv.Media.QueueInvariant

/-!
# What a subscriber is given

The account of one slot, kept from the events of the queue: what was
published while the slot was attached, what its reads were given and what
became of the rest. The account balances after every operation, and the reads
were given a part of what was published, in the order of publication.
-/

namespace WotAv.Media.BoundedMediaQueue

open WotAv.Lib WotAv.Binding

variable {α ρ : Type}

structure Account (α : Type) where
  attached : Bool := false
  published : List (Nat × α × Bool) := []
  yielded : List (Nat × α) := []
  evicted : Nat := 0
  oversize : Nat := 0
  discarded : Nat := 0
  /-- Calls that threw before they had served the slot. -/
  refused : Nat := 0

namespace Account

def note (slot : Nat) (a : Account α) : QueueEvent α ρ → Account α
  | .created s => if s = slot then { a with attached := true } else a
  | .detached s => if s = slot then { a with attached := false } else a
  | .published call value isOpen =>
    if a.attached then { a with published := a.published ++ [(call, value, isOpen)] } else a
  | .handed s call value => if s = slot then { a with yielded := a.yielded ++ [(call, value)] } else a
  | .oversize s _ => if s = slot then { a with oversize := a.oversize + 1 } else a
  | .left s .yielded call value => if s = slot then { a with yielded := a.yielded ++ [(call, value)] } else a
  | .left s .evicted _ _ => if s = slot then { a with evicted := a.evicted + 1 } else a
  | .left s .discarded _ _ => if s = slot then { a with discarded := a.discarded + 1 } else a
  | .threw unserved => if slot ∈ unserved then { a with refused := a.refused + 1 } else a
  | _ => a

def settled (a : Account α) (queued : Nat) : Nat :=
  a.yielded.length + queued + a.evicted + a.oversize + a.discarded + a.refused

end Account

def account (slot : Nat) (q : BoundedMediaQueue α ρ) : Account α := q.log.foldl (Account.note slot) {}

variable {q q' : BoundedMediaQueue α ρ}

theorem account_of_log (h : q'.log = q.log ++ [event]) (slot : Nat) :
    q'.account slot = (q.account slot).note slot event := by
  simp [account, h]

@[simp] theorem account_emit (q : BoundedMediaQueue α ρ) :
    (q.emit event).account slot = (q.account slot).note slot event := by
  simp [account, emit]

@[simp] theorem account_update (q : BoundedMediaQueue α ρ) : (q.update s f).account slot = q.account slot := rfl

@[simp] theorem account_relinquish (q : BoundedMediaQueue α ρ) :
    (q.relinquish call release).account slot = q.account slot := by
  unfold relinquish
  dsimp only
  split
  · rw [account_emit]; rfl
  · rfl

def queuedOf (slot : Nat) (q : BoundedMediaQueue α ρ) : List (Nat × α) :=
  (q.slots slot).entries.map fun e => (e.call, e.value)

/-- The account of a slot at which a running `publish` has yet to stop for
`waiting`: the calls before it are settled. -/
structure Balanced (slot : Nat) (waiting : Option (Nat × α)) (q : BoundedMediaQueue α ρ) : Prop where
  attached : (q.account slot).attached = decide (slot ∈ q.subscribers)
  increasing : ((q.account slot).published.map Prod.fst).Pairwise (· < ·)
  known : ∀ c ∈ (q.account slot).published.map Prod.fst, c < q.published
  settled : ∃ served : List (Nat × α × Bool),
    (q.account slot).published = served ++ waiting.toList.map (fun u => (u.1, u.2, true)) ∧
    ((q.account slot).yielded ++ q.queuedOf slot).Sublist (served.map fun u => (u.1, u.2.1)) ∧
    served.countP (·.2.2) = (q.account slot).settled (q.queuedOf slot).length

def waitingAt (slot : Nat) (loop : Option (Publishing α ρ)) : Option (Nat × α) :=
  match loop with
  | some l => if slot ∈ l.rest then some (l.entry.call, l.entry.value) else none
  | none => none

section
variable {q q' : BoundedMediaQueue α ρ} {slot : Nat} {waiting : Option (Nat × α)}

theorem Balanced.move (h : Balanced slot waiting q)
    (hpublished : (q'.account slot).published = (q.account slot).published)
    (hattached : (q'.account slot).attached = decide (slot ∈ q'.subscribers)) (hcalls : q.published ≤ q'.published)
    (hsub : ((q'.account slot).yielded ++ q'.queuedOf slot).Sublist ((q.account slot).yielded ++ q.queuedOf slot))
    (hsettled : (q'.account slot).settled (q'.queuedOf slot).length =
      (q.account slot).settled (q.queuedOf slot).length) : Balanced slot waiting q' := by
  obtain ⟨served, hs, hy, hn⟩ := h.settled
  refine ⟨hattached, by rw [hpublished]; exact h.increasing, ?_, served, by rw [hpublished, hs],
    hsub.trans hy, hn.trans hsettled.symm⟩
  rw [hpublished]
  exact fun c hc => lt_of_lt_of_le (h.known c hc) hcalls

theorem Balanced.congr (h : Balanced slot waiting q) (ha : q'.account slot = q.account slot)
    (he : (q'.slots slot).entries = (q.slots slot).entries)
    (hs : slot ∈ q'.subscribers ↔ slot ∈ q.subscribers) (hp : q.published ≤ q'.published) :
    Balanced slot waiting q' := by
  have hq : q'.queuedOf slot = q.queuedOf slot := by rw [queuedOf, queuedOf, he]
  refine h.move (by rw [ha]) ?_ hp (by rw [ha, hq]) (by rw [ha, hq])
  rw [ha, h.attached]
  exact decide_eq_decide.mpr hs.symm

theorem Balanced.serve (h : Balanced slot (some u) q)
    (hpublished : (q'.account slot).published = (q.account slot).published)
    (hattached : (q'.account slot).attached = (q.account slot).attached)
    (hsubscribers : q'.subscribers = q.subscribers) (hcalls : q'.published = q.published)
    (hsub : ((q'.account slot).yielded ++ q'.queuedOf slot).Sublist
      ((q.account slot).yielded ++ q.queuedOf slot ++ [u]))
    (hsettled : (q'.account slot).settled (q'.queuedOf slot).length =
      (q.account slot).settled (q.queuedOf slot).length + 1) : Balanced slot none q' := by
  obtain ⟨served, hs, hy, hn⟩ := h.settled
  refine ⟨by rw [hattached, hsubscribers]; exact h.attached, by rw [hpublished]; exact h.increasing,
    by rw [hpublished, hcalls]; exact h.known, served ++ [(u.1, u.2, true)], ?_, ?_, ?_⟩
  · rw [hpublished, hs]; simp
  · refine hsub.trans ?_
    rw [List.map_append]
    exact hy.append_right _
  · rw [List.countP_append, hn, hsettled]; simp

end

/-- The account of every slot, in the middle of a `publish` or between operations. -/
structure Delivered (q : BoundedMediaQueue α ρ) (loop : Option (Publishing α ρ)) : Prop where
  balanced : ∀ slot, Balanced slot (waitingAt slot loop) q
  serving : ∀ l, loop = some l → l.rest.Nodup

theorem queuedOf_of_entries (h : (q'.slots s).entries = (q.slots s).entries) :
    q'.queuedOf s = q.queuedOf s := by
  rw [queuedOf, queuedOf, h]

theorem account_remove (route : Route) (q : BoundedMediaQueue α ρ) (he : (q.slots slot).entries = e :: es)
    (s : Nat) :
    (q.removeAndRelease slot route).1.account s = (q.account s).note (ρ := ρ) s (.left slot route e.call e.value) := by
  rw [removeAndRelease_cons he, account_relinquish, account_emit, account_update]

variable {q : BoundedMediaQueue α ρ}

theorem delivered_remove (h : Delivered q loop) (slot : Nat) (route : Route) :
    Delivered (q.removeAndRelease slot route).1 loop := by
  cases he : (q.slots slot).entries with
  | nil => rw [removeAndRelease_nil q he]; exact h
  | cons e es =>
    refine ⟨fun s => ?_, h.serving⟩
    have hacc := account_remove route q he s
    have hb := h.balanced s
    have hp : q.published ≤ (q.removeAndRelease slot route).1.published := (removeAndRelease_published q).ge
    by_cases hs : s = slot
    · subst hs
      have hq : q.queuedOf s = (e.call, e.value) :: (q.removeAndRelease s route).1.queuedOf s := by
        simp [queuedOf, he]
      refine hb.move ?_ ?_ hp ?_ ?_
      · cases route <;> simp [hacc, Account.note]
      · cases route <;> simp [hacc, Account.note, hb.attached]
      · rw [hacc, hq]; cases route <;> simp [Account.note]
      · rw [hacc, hq]; cases route <;> simp [Account.note, Account.settled] <;> omega
    · have hs' : slot ≠ s := fun h => hs h.symm
      refine hb.congr ?_ (by rw [removeAndRelease_other q hs]) (by rw [removeAndRelease_subscribers]) hp
      rw [hacc]
      cases route <;> simp [Account.note, hs']

theorem delivered_add (h : Delivered q none) (ho : Owned q none)
    (ha : Added q q' slot) : Delivered q' none := by
  refine ⟨fun s => ?_, fun l hl => nomatch hl⟩
  have hb := h.balanced s
  have hentries := ha.entries ho s
  have hq := queuedOf_of_entries hentries
  rcases ha.registered with ⟨_, hsubs, hlog⟩ | ⟨_, hsubs, hlog⟩
  · exact hb.congr (by rw [account, hlog]; rfl) hentries (by rw [hsubs]) ha.published.ge
  · have hacc := account_of_log hlog s
    by_cases hs : slot = s
    · refine hb.move ?_ ?_ ha.published.ge ?_ ?_
      · simp [hacc, Account.note, hs]
      · simp [hacc, Account.note, hs, hsubs]
      · simp [hacc, Account.note, hs, hq]
      · simp [hacc, Account.note, hs, hq, Account.settled]
    · refine hb.congr ?_ hentries ?_ ha.published.ge
      · simp [hacc, Account.note, hs]
      · simp [hsubs, Ne.symm hs]

theorem delivered_begin (h : Delivered q none) (ho : Owned q none) (value : α)
    (bytes : Nat) (release : ρ) : Delivered (q.begin_ value)
      (some ⟨⟨value, bytes, q.published, release⟩, if q.ended || q.draining then [] else q.subscribers, 0⟩) := by
  refine ⟨fun s => ?_, ?_⟩
  · obtain ⟨hattached, hinc, hknown, served, hserved, hsub, hcount⟩ := h.balanced s
    have hacc : (q.begin_ value).account s = (q.account s).note (ρ := ρ) s
        (.published q.published value !(q.ended || q.draining)) := account_emit _
    have hq : (q.begin_ value).queuedOf s = q.queuedOf s := rfl
    have hserved' : (q.account s).published = served := by simpa [waitingAt] using hserved
    by_cases hs : s ∈ q.subscribers
    · have hpub : ((q.begin_ value).account s).published =
          served ++ [(q.published, value, !(q.ended || q.draining))] := by
        rw [hacc]; simp [Account.note, hattached, hs, hserved']
      have hmap : (((q.begin_ value).account s).published.map Prod.fst) =
          (q.account s).published.map Prod.fst ++ [q.published] := by
        rw [hpub, hserved']; simp
      refine ⟨?_, ?_, ?_, ?_⟩
      · rw [hacc]; simp [Account.note, hattached, hs, begin_, emit]
      · rw [hmap, List.pairwise_append]
        exact ⟨hinc, List.pairwise_singleton _ _, fun c hc d hd => by
          rw [List.mem_singleton.mp hd]; exact hknown c hc⟩
      · rw [hmap]
        intro c hc
        rcases List.mem_append.mp hc with hc | hc
        · exact Nat.lt_succ_of_lt (hknown c hc)
        · rw [List.mem_singleton.mp hc]; exact Nat.lt_succ_self _
      · by_cases hopen : q.ended || q.draining
        · refine ⟨served ++ [(q.published, value, false)], ?_, ?_, ?_⟩
          · simp [hpub, waitingAt, hopen]
          · rw [hacc, hq]
            simp only [Account.note, hattached, hs, decide_true, if_true, List.map_append]
            exact hsub.trans (List.sublist_append_left _ _)
          · rw [hacc, hq]
            simpa [Account.note, Account.settled, hattached, hs] using hcount
        · refine ⟨served, ?_, ?_, ?_⟩
          · simp [hpub, waitingAt, hopen, hs]
          · rw [hacc, hq]
            simpa only [Account.note, hattached, hs, decide_true, if_true] using hsub
          · rw [hacc, hq]
            simpa [Account.note, Account.settled, hattached, hs] using hcount
    · have hsame : (q.begin_ value).account s = q.account s := by
        rw [hacc]; simp [Account.note, hattached, hs]
      have hwait : waitingAt s (some (⟨⟨value, bytes, q.published, release⟩,
          if q.ended || q.draining then [] else q.subscribers, 0⟩ : Publishing α ρ)) = none := by
        have hrest : s ∉ if q.ended || q.draining then [] else q.subscribers := by
          split
          · exact List.not_mem_nil
          · exact hs
        exact if_neg hrest
      rw [hwait]
      exact (h.balanced s).congr hsame rfl Iff.rfl (Nat.le_succ _)
  · rintro l hl
    obtain rfl := Option.some.inj hl
    dsimp only
    split
    · exact List.nodup_nil
    · exact ho.subscribers.1

theorem delivered_unregister (h : Delivered q none) (ho : Owned q none)
    (slot : Nat) : Delivered (q.unregister slot) none := by
  by_cases hmem : slot ∈ q.subscribers
  · have hsubs := unregister_subscribers q slot
    have hlog : (q.unregister slot).log = q.log ++ [.detached slot] := by simp [unregister, hmem, emit]
    have hslots : (q.unregister slot).slots = q.slots := by simp [unregister, hmem, emit]
    have hpub : (q.unregister slot).published = q.published := by simp [unregister, hmem, emit]
    refine ⟨fun s => ?_, fun l hl => absurd hl (by simp)⟩
    have hb := h.balanced s
    have hacc := account_of_log hlog s
    have hq : (q.unregister slot).queuedOf s = q.queuedOf s := queuedOf_of_entries (by rw [hslots])
    by_cases hs : slot = s
    · subst hs
      refine hb.move ?_ ?_ hpub.ge ?_ ?_
      · simp [hacc, Account.note]
      · simp [hacc, Account.note, hsubs, ho.subscribers.1.not_mem_erase]
      · simp [hacc, Account.note, hq]
      · simp [hacc, Account.note, Account.settled, hq]
    · refine hb.congr ?_ (by rw [hslots]) ?_ hpub.ge
      · simp [hacc, Account.note, hs]
      · rw [hsubs, List.mem_erase_of_ne (Ne.symm hs)]
  · rw [unregister, if_neg hmem]
    exact h

section
variable {q : BoundedMediaQueue α ρ} {entry : Entry α ρ} {slot : Nat} {rest : List Nat} {dropped : Nat}

theorem waitingAt_other (hs : s ≠ slot) : waitingAt s (some ⟨entry, slot :: rest, dropped⟩) =
    waitingAt s (some (⟨entry, rest, 0⟩ : Publishing α ρ)) := by
  simp [waitingAt, hs]

theorem Delivered.advance {q' : BoundedMediaQueue α ρ} (h : Delivered q (some ⟨entry, slot :: rest, dropped⟩))
    (hslot : Balanced slot (some (entry.call, entry.value)) q → Balanced slot none q')
    (hother : ∀ s ≠ slot, q'.account s = q.account s ∧ (q'.slots s).entries = (q.slots s).entries)
    (hsubs : q'.subscribers = q.subscribers) (hcalls : q'.published = q.published) :
    Delivered q' (some ⟨entry, rest, 0⟩) := by
  have hnodup := List.nodup_cons.mp (h.serving _ rfl)
  refine ⟨fun s => ?_, fun l hl => ?_⟩
  · have hb := h.balanced s
    by_cases hs : s = slot
    · subst hs
      have hw : waitingAt s (some (⟨entry, rest, 0⟩ : Publishing α ρ)) = none := if_neg hnodup.1
      rw [hw]
      refine hslot ?_
      rwa [show waitingAt s (some (⟨entry, s :: rest, dropped⟩ : Publishing α ρ)) =
        some (entry.call, entry.value) from if_pos List.mem_cons_self] at hb
    · rw [waitingAt_other hs] at hb
      exact hb.congr (hother s hs).1 (hother s hs).2 (by rw [hsubs]) hcalls.ge
  · obtain rfl := Option.some.inj hl
    exact hnodup.2

section
variable (h : Delivered q (some ⟨entry, slot :: rest, 0⟩))
include h

theorem delivered_hand (he : (q.slots slot).entries = []) :
    Delivered (q.hand slot entry) (some ⟨entry, rest, 0⟩) := by
  have hacc := fun s => account_of_log (show (q.hand slot entry).log = q.log ++ [.handed slot entry.call entry.value] from rfl) s
  have hentries : ∀ s, ((q.hand slot entry).slots s).entries = (q.slots s).entries := by
    intro s
    by_cases hs : s = slot
    · subst hs; simp [hand, emit, update]
    · simp [hand, emit, update, hs]
  refine h.advance (fun hb => ?_) (fun s hs => ⟨?_, hentries s⟩) rfl rfl
  · have hq : (q.hand slot entry).queuedOf slot = [] := by rw [queuedOf, hentries, he]; rfl
    have hq' : q.queuedOf slot = [] := by rw [queuedOf, he]; rfl
    refine hb.serve ?_ ?_ rfl rfl ?_ ?_
    · simp [hacc, Account.note]
    · simp [hacc, Account.note]
    · simp [hacc, Account.note, hq, hq']
    · simp [hacc, Account.note, Account.settled, hq, hq']; omega
  · simp [hacc, Account.note, Ne.symm hs]

theorem delivered_oversize :
    Delivered ((q.emit (.oversize slot entry.call)).emit (.gap 1)) (some ⟨entry, rest, 0⟩) := by
  refine h.advance (fun hb => ?_) (fun s hs => ⟨?_, rfl⟩) rfl rfl
  · have hq : ((q.emit (.oversize slot entry.call)).emit (.gap 1)).queuedOf slot = q.queuedOf slot := rfl
    refine hb.serve ?_ ?_ rfl rfl ?_ ?_
    · simp [Account.note]
    · simp [Account.note]
    · simp [Account.note, hq]
    · simp [Account.note, Account.settled, hq]; omega
  · simp [Account.note, Ne.symm hs]

theorem delivered_push :
    Delivered (q.push slot entry) (some ⟨entry, rest, 0⟩) := by
  have hacc := fun s => account_of_log (show (q.push slot entry).log = q.log ++ [.queued slot entry.call] from rfl) s
  refine h.advance (fun hb => ?_) (fun s hs => ⟨?_, ?_⟩) rfl rfl
  · have hq : (q.push slot entry).queuedOf slot = q.queuedOf slot ++ [(entry.call, entry.value)] := by
      simp [queuedOf, push, emit, update]
    refine hb.serve ?_ ?_ rfl rfl ?_ ?_
    · simp [hacc, Account.note]
    · simp [hacc, Account.note]
    · simp [hacc, Account.note, hq]
    · simp [hacc, Account.note, Account.settled, hq]; omega
  · simp [hacc, Account.note]
  · simp [push, emit, update, hs]

end

theorem delivered_throw (h : Delivered q (some ⟨entry, slot :: rest, dropped⟩)) :
    Delivered (q.emit (.threw (slot :: rest))) (some ⟨entry, [], 0⟩) := by
  refine ⟨fun s => ?_, fun l hl => ?_⟩
  · have hb := h.balanced s
    have hw : waitingAt s (some (⟨entry, [], 0⟩ : Publishing α ρ)) = none := by simp [waitingAt]
    rw [hw]
    by_cases hs : s ∈ slot :: rest
    · rw [show waitingAt s (some (⟨entry, slot :: rest, dropped⟩ : Publishing α ρ)) =
        some (entry.call, entry.value) from if_pos hs] at hb
      have hq : (q.emit (.threw (slot :: rest))).queuedOf s = q.queuedOf s := rfl
      have hacc : (q.emit (.threw (slot :: rest))).account s =
          { q.account s with refused := (q.account s).refused + 1 } := by
        rw [account_emit]; exact if_pos hs
      refine hb.serve ?_ ?_ rfl rfl ?_ ?_
      · rw [hacc]
      · rw [hacc]
      · rw [hacc, hq]; exact List.sublist_append_left _ _
      · rw [hacc, hq]; simp [Account.settled]; omega
    · rw [show waitingAt s (some (⟨entry, slot :: rest, dropped⟩ : Publishing α ρ)) = none from if_neg hs] at hb
      refine hb.congr ?_ rfl Iff.rfl le_rfl
      rw [account_emit]
      exact if_neg hs
  · obtain rfl := Option.some.inj hl
    exact List.nodup_nil

end

theorem Delivered.quiet {loop loop' : Option (Publishing α ρ)}
    (h : Delivered q loop) (ha : ∀ s, q'.account s = q.account s)
    (he : ∀ s, (q'.slots s).entries = (q.slots s).entries) (hs : q'.subscribers = q.subscribers)
    (hp : q'.published = q.published) (hw : ∀ s, waitingAt s loop' = waitingAt s loop)
    (hr : ∀ l', loop' = some l' → l'.rest.Nodup) : Delivered q' loop' :=
  ⟨fun s => by rw [hw]; exact (h.balanced s).congr (ha s) (he s) (by rw [hs]) hp.ge, hr⟩

theorem account_terminal (q : BoundedMediaQueue α ρ) (a : Account α) : a.note s (q.terminal slot) = a := by
  unfold terminal
  split <;> rfl

theorem update_entries {f : Subscriber α ρ → Subscriber α ρ}
    (hf : (f (q.slots slot)).entries = (q.slots slot).entries) (s : Nat) :
    ((q.update slot f).slots s).entries = (q.slots s).entries := by
  by_cases hs : s = slot
  · subst hs; simpa [update] using hf
  · simp [update, hs]

theorem Delivered.flags (h : Delivered q none) {f : Subscriber α ρ → Subscriber α ρ}
    (hf : (f (q.slots slot)).entries = (q.slots slot).entries) : Delivered (q.update slot f) none :=
  h.quiet (fun _ => rfl) (update_entries hf) rfl rfl (fun _ => rfl) fun _ hl => (nomatch hl)

theorem delivered_resolve (h : Delivered q none) (slot : Nat) :
    Delivered (q.resolvePending slot) none := by
  refine h.quiet (fun s => ?_) (fun s => resolvePending_entries _) (resolvePending_subscribers _)
    (resolvePending_published _) (fun _ => rfl) fun _ hl => (nomatch hl)
  unfold resolvePending
  split
  · rw [account_emit, account_terminal, account_update]
  · rfl

theorem delivered_detach (h : Delivered q none) (ho : Owned q none)
    (he : (q.slots slot).entries = []) : Delivered (q.detach slot) none := by
  rw [detach_empty q he]
  exact delivered_unregister (delivered_resolve (h.flags (f := fun s => { s with ended := true }) rfl) slot)
    (owned_resolve (owned_mark ho slot) slot) slot

theorem Effect.delivered {r r' : Running α ρ} (ho : Owned r.queue r.loop) (h : Delivered r.queue r.loop)
    (he : Effect r r') : Delivered r'.queue r'.loop := by
  have hserving := h.serving
  have hwithin := ho.within
  cases he with
  | add ha => exact delivered_add h ho (add_ok ha)
  | makeInitial hs => exact h.quiet (fun _ => rfl) (fun _ => rfl) rfl rfl (fun _ => rfl) fun _ hl => (nomatch hl)
  | claim hs => exact h.flags (f := fun s => { s with claimed := true }) rfl
  | begin_ hb => exact delivered_begin h ho _ _ _
  | hand hp => exact delivered_hand h ((hwithin _).pending hp)
  | oversize hm => exact delivered_oversize h
  | evict hm hs =>
    refine ⟨fun s => (delivered_remove h _ .evicted).balanced s, fun l hl => ?_⟩
    obtain rfl := Option.some.inj hl
    have hnodup := hserving _ rfl
    exact hnodup
  | gap =>
    refine h.quiet (fun s => ?_) (fun s => ?_) ?_ ?_ (fun s => rfl) fun l hl => ?_
    · dsimp only; split <;> simp [Account.note]
    · dsimp only; split <;> rfl
    · dsimp only; split <;> rfl
    · dsimp only; split <;> rfl
    · obtain rfl := Option.some.inj hl
      have hnodup := hserving _ rfl
      exact hnodup
  | push hp hfull => exact delivered_push h
  | throw hm => exact delivered_throw h
  | relinquish =>
    refine h.quiet (fun s => account_relinquish _) (fun s => by simp) (by simp) (by simp) (fun s => ?_)
      fun _ hl => (nomatch hl)
    simp [waitingAt]
  | remove hr => exact delivered_remove h _ _
  | detach hs => exact delivered_detach h ho hs
  | drain => exact h.quiet (fun _ => rfl) (fun _ => rfl) rfl rfl (fun _ => rfl) fun _ hl => (nomatch hl)
  | undrain hs => exact h.quiet (fun _ => rfl) (fun _ => rfl) rfl rfl (fun _ => rfl) fun _ hl => (nomatch hl)
  | close => exact h.quiet (fun _ => rfl) (fun _ => rfl) rfl rfl (fun _ => rfl) fun _ hl => (nomatch hl)
  | wait hs => exact h.flags (f := fun s => { s with pending := true }) rfl
  | terminal =>
    refine h.quiet (fun s => ?_) (fun _ => rfl) rfl rfl (fun _ => rfl) fun _ hl => (nomatch hl)
    dsimp only
    rw [account_emit, account_terminal]
  | done =>
    exact h.quiet (fun s => account_emit _) (fun _ => rfl) rfl rfl (fun _ => rfl) fun _ hl => (nomatch hl)
  | busy =>
    exact h.quiet (fun s => account_emit _) (fun _ => rfl) rfl rfl (fun _ => rfl) fun _ hl => (nomatch hl)

theorem delivered_make {o : MediaQueueOptions} : Delivered (fresh o : BoundedMediaQueue α ρ) none := by
  refine ⟨fun s => ?_, fun l hl => absurd hl (by simp)⟩
  by_cases hs : s = 0
  · subst hs
    exact ⟨rfl, List.Pairwise.nil, List.forall_mem_nil _, [], rfl, List.Sublist.slnil, rfl⟩
  · have hacc : (fresh o : BoundedMediaQueue α ρ).account s = {} := if_neg (Ne.symm hs)
    have hsubs : s ∉ (fresh o : BoundedMediaQueue α ρ).subscribers := by simp [fresh, hs]
    refine ⟨?_, ?_, ?_, [], ?_, ?_, ?_⟩ <;> rw [hacc]
    · exact (decide_eq_false hsubs).symm
    · exact List.Pairwise.nil
    · exact List.forall_mem_nil _
    · rfl
    · exact List.Sublist.slnil
    · rfl

theorem delivered_of_reachable (h : system.Reachable q) :
    Owned q none ∧ Delivered q none := by
  refine h.invariant (P := fun q => Owned q none ∧ Delivered q none) ?_ ?_
  · rintro q ⟨_, _, _, _, hq⟩
    refine ⟨owned_make hq, ?_⟩
    obtain ⟨o, _, _, _, _, rfl⟩ := make_ok.mp hq
    exact delivered_make
  · rintro q op _ ⟨ho, hd⟩ rfl
    exact apply_keeps (P := fun r => Owned r.queue r.loop ∧ Delivered r.queue r.loop)
      (fun _ _ h he => ⟨Effect.owned h.1 he, Effect.delivered h.1 h.2 he⟩) ho.initial ⟨ho, hd⟩ op

-- What is reported

def gapUnits : QueueEvent α ρ → Nat
  | .gap units => units
  | _ => 0

def reported (q : BoundedMediaQueue α ρ) : Nat := (q.log.map gapUnits).sum

def isDropped : QueueEvent α ρ → Bool
  | .oversize _ _ => true
  | .left _ .evicted _ _ => true
  | _ => false

def dropped (q : BoundedMediaQueue α ρ) : Nat := q.log.countP isDropped

structure Reported (q : BoundedMediaQueue α ρ) (loop : Option (Publishing α ρ)) : Prop where
  gaps : q.reported + loop.elim 0 Publishing.dropped = q.dropped
  recorded : q.options.mode = .recorded → q.dropped = 0
  live : q.options.mode = .live → ∀ slot, (q.account slot).refused = 0

theorem Reported.of_log (h : Reported q loop) (ho : q'.options = q.options)
    (hl : q'.log = q.log ++ [event])
    (hg : gapUnits event + loop'.elim 0 Publishing.dropped =
      (if isDropped event then 1 else 0) + loop.elim 0 Publishing.dropped)
    (hd : isDropped event → q.options.mode = .live)
    (hr : q.options.mode = .live → ∀ slot (a : Account α), (a.note slot event).refused = a.refused) :
    Reported q' loop' := by
  have hreported : q'.reported = q.reported + gapUnits event := by simp [reported, hl]
  have hdropped : q'.dropped = q.dropped + if isDropped event then 1 else 0 := by
    simp [dropped, hl, List.countP_singleton]
  refine ⟨?_, fun hm => ?_, fun hm slot => ?_⟩
  · have := h.gaps
    rw [hreported, hdropped]
    omega
  · rw [ho] at hm
    rw [hdropped, h.recorded hm, if_neg fun hev => by rw [hd hev] at hm; cases hm]
  · rw [ho] at hm
    rw [account_of_log hl, hr hm, h.live hm]

theorem Reported.same (h : Reported q loop) (ho : q'.options = q.options)
    (hl : q'.log = q.log) (hloop : loop'.elim 0 Publishing.dropped = loop.elim 0 Publishing.dropped) :
    Reported q' loop' := by
  have hacc : ∀ slot, q'.account slot = q.account slot := fun slot => by rw [account, hl]; rfl
  refine ⟨?_, fun hm => ?_, fun hm slot => ?_⟩
  · rw [reported, dropped, hl, hloop]; exact h.gaps
  · rw [dropped, hl]; exact h.recorded (ho ▸ hm)
  · rw [hacc]; exact h.live (ho ▸ hm) slot

theorem Reported.relinquish (h : Reported q loop)
    (hloop : loop'.elim 0 Publishing.dropped = loop.elim 0 Publishing.dropped) :
    Reported (q.relinquish call release) loop' := by
  by_cases h0 : q.references call - 1 = 0
  · have hlog : (q.relinquish call release).log = q.log ++ [.released call release] := by
      simp [BoundedMediaQueue.relinquish, h0, emit]
    exact h.of_log (relinquish_options q) hlog (by simpa [gapUnits, isDropped] using hloop)
      (by simp [isDropped]) fun _ _ _ => rfl
  · refine h.same (relinquish_options q) ?_ hloop
    simp [BoundedMediaQueue.relinquish, h0]

theorem Reported.remove (h : Reported q loop) (hr : route ≠ .evicted) :
    Reported (q.removeAndRelease slot route).1 loop := by
  cases he : (q.slots slot).entries with
  | nil => rw [removeAndRelease_nil q he]; exact h
  | cons e es =>
    rw [removeAndRelease_cons he]
    refine Reported.relinquish ?_ rfl
    have hd : isDropped (.left slot route e.call e.value : QueueEvent α ρ) = false := by
      cases route <;> simp_all [isDropped]
    refine h.of_log rfl rfl (by simp [gapUnits, hd]) (fun h' => by rw [hd] at h'; cases h') fun _ s a => ?_
    cases route <;> simp only [Account.note] <;> split <;> rfl

theorem gapUnits_terminal (q : BoundedMediaQueue α ρ) : gapUnits (q.terminal slot) = 0 := by
  unfold terminal
  split <;> rfl

theorem isDropped_terminal (q : BoundedMediaQueue α ρ) : isDropped (q.terminal slot) = false := by
  unfold terminal
  split <;> rfl

theorem Reported.terminal (h : Reported q none) (ho : q'.options = q.options)
    (hl : q'.log = q.log ++ [q.terminal slot]) : Reported q' none := by
  refine h.of_log ho hl (by simp [gapUnits_terminal, isDropped_terminal]) (fun hd => ?_) fun _ s a => ?_
  · rw [isDropped_terminal] at hd; cases hd
  · rw [account_terminal]

section
variable {q : BoundedMediaQueue α ρ} {entry : Entry α ρ} {slot left : Nat} {rest : List Nat}

theorem reported_oversize (h : Reported q (some ⟨entry, slot :: rest, 0⟩)) (hm : q.options.mode = .live) :
    Reported ((q.emit (.oversize slot entry.call)).emit (.gap 1)) (some ⟨entry, rest, 0⟩) := by
  -- between its two events the unit is dropped but not yet reported
  have hdrop : Reported (q.emit (.oversize slot entry.call)) (some ⟨entry, rest, 1⟩) := by
    refine h.of_log rfl rfl rfl (fun _ => hm) fun _ s a => ?_
    simp only [Account.note]
    split <;> rfl
  exact hdrop.of_log rfl rfl rfl (fun hd => nomatch hd) fun _ _ _ => rfl

theorem reported_evict (h : Reported q (some ⟨entry, slot :: rest, left⟩)) (hm : q.options.mode = .live)
    (hs : (q.slots slot).entries ≠ []) :
    Reported (q.removeAndRelease slot .evicted).1 (some ⟨entry, slot :: rest, left + 1⟩) := by
  obtain ⟨e, es, he⟩ := List.exists_cons_of_ne_nil hs
  rw [removeAndRelease_cons he]
  refine Reported.relinquish (?_ : Reported _ (some ⟨entry, slot :: rest, left + 1⟩)) rfl
  refine h.of_log rfl rfl ?_ (fun _ => hm) fun _ s a => ?_
  · simp [gapUnits, isDropped, Nat.add_comm]
  · simp only [Account.note]
    split <;> rfl

theorem reported_gap (h : Reported q (some ⟨entry, rest, left⟩)) :
    Reported (if left ≠ 0 then q.emit (.gap left) else q) (some ⟨entry, rest, 0⟩) := by
  split
  · exact h.of_log rfl rfl (by simp [gapUnits, isDropped]) (fun hd => nomatch hd) fun _ _ _ => rfl
  · rename_i h0
    obtain rfl : left = 0 := not_not.mp h0
    exact h

theorem reported_throw (h : Reported q (some ⟨entry, slot :: rest, left⟩)) (hm : q.options.mode = .recorded) :
    Reported (q.emit (.threw (slot :: rest))) (some ⟨entry, [], 0⟩) := by
  have h0 : left = 0 := by
    have hgaps := h.gaps
    rw [h.recorded hm] at hgaps
    simp only [Option.elim_some] at hgaps
    omega
  refine h.of_log rfl rfl (by simp [gapUnits, isDropped, h0]) (fun hd => nomatch hd) fun hlive => ?_
  rw [hm] at hlive
  cases hlive

end

theorem reported_detach (h : Reported q none) (he : (q.slots slot).entries = []) :
    Reported (q.detach slot) none := by
  have hresolved : Reported ((q.update slot fun s => { s with ended := true }).resolvePending slot) none := by
    unfold resolvePending
    split
    · exact h.terminal rfl rfl
    · exact h.same rfl rfl rfl
  rw [detach_empty q he, unregister]
  split
  · refine hresolved.of_log rfl rfl rfl (fun hd => nomatch hd) fun _ s a => ?_
    simp only [Account.note]
    split <;> rfl
  · exact hresolved

theorem Effect.reported {r r' : Running α ρ} (ho : Owned r.queue r.loop) (h : Reported r.queue r.loop)
    (he : Effect r r') : Reported r'.queue r'.loop := by
  cases he with
  | add ha =>
    have ha := add_ok ha
    rcases ha.registered with ⟨_, _, hlog⟩ | ⟨_, _, hlog⟩
    · exact h.same ha.options hlog rfl
    · refine h.of_log ha.options hlog rfl (fun hd => nomatch hd) fun _ s a => ?_
      simp only [Account.note]
      split <;> rfl
  | begin_ hb =>
    refine h.of_log rfl rfl rfl (fun hd => nomatch hd) fun _ s a => ?_
    simp only [Account.note]
    split <;> rfl
  | hand hp =>
    refine h.of_log rfl rfl rfl (fun hd => nomatch hd) fun _ s a => ?_
    simp only [Account.note]
    split <;> rfl
  | oversize hm => exact reported_oversize h hm
  | evict hm hs => exact reported_evict h hm hs
  | gap => exact reported_gap h
  | push hp hfull => exact h.of_log rfl rfl rfl (fun hd => nomatch hd) fun _ _ _ => rfl
  | throw hm =>
    rcases hm with hm | ⟨hempty, hbytes, hfull⟩
    · exact reported_throw h hm
    · exact absurd hfull (not_full_of_empty ho hempty hbytes)
  | relinquish => exact h.relinquish rfl
  | remove hr => exact h.remove hr
  | detach hs => exact reported_detach h hs
  | terminal => exact h.terminal rfl rfl
  | done => exact h.of_log rfl rfl rfl (fun hd => nomatch hd) fun _ _ _ => rfl
  | busy => exact h.of_log rfl rfl rfl (fun hd => nomatch hd) fun _ _ _ => rfl
  | _ => exact h.same rfl rfl rfl

theorem reported_of_reachable (h : system.Reachable q) :
    Owned q none ∧ Reported q none := by
  refine h.invariant (P := fun q => Owned q none ∧ Reported q none) ?_ ?_
  · rintro q ⟨_, _, _, _, hq⟩
    refine ⟨owned_make hq, ?_⟩
    obtain ⟨o, _, _, _, _, rfl⟩ := make_ok.mp hq
    refine ⟨rfl, fun _ => rfl, fun _ slot => ?_⟩
    simp only [account, fresh, List.foldl_cons, List.foldl_nil, Account.note]
    split <;> rfl
  · rintro q op _ ⟨ho, hd⟩ rfl
    exact apply_keeps (P := fun r => Owned r.queue r.loop ∧ Reported r.queue r.loop)
      (fun _ _ h he => ⟨Effect.owned h.1 he, Effect.reported h.1 h.2 he⟩) ho.initial ⟨ho, hd⟩ op

end WotAv.Media.BoundedMediaQueue
