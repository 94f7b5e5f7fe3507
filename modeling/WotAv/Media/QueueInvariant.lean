import WotAv.Lib.References
import WotAv.Lib.Transition
import WotAv.Media.QueueEffects

/-!
# Who owns a queued value

The slots stay within their bounds, and the `references` of a publish call
count the slots that hold its value, plus the call itself while it runs. The
release callback has then been called exactly when nobody holds the value.
-/

namespace WotAv.Media.BoundedMediaQueue

open WotAv.Lib WotAv.Binding

variable {α ρ : Type}

structure Within (o : MediaQueueOptions) (s : Subscriber α ρ) : Prop where
  bytes : s.bytes = (s.entries.map Entry.bytes).sum
  maxBytes : s.bytes ≤ o.maxBytes
  maxUnits : s.entries.length ≤ o.maxUnits
  pending : s.pending → s.entries = []

def callsOf (q : BoundedMediaQueue α ρ) (slot : Nat) : List Nat := (q.slots slot).entries.map Entry.call

def own (loop : Option (Publishing α ρ)) (call : Nat) : Nat :=
  if loop.map (·.entry.call) = some call then 1 else 0

def isReleased (call : Nat) : QueueEvent α ρ → Bool
  | .released c _ => c = call
  | _ => false

def released (q : BoundedMediaQueue α ρ) (call : Nat) : Nat := q.log.countP (isReleased call)

structure Owned (q : BoundedMediaQueue α ρ) (loop : Option (Publishing α ρ)) : Prop where
  initial : q.initial < q.created
  room : 0 < q.options.maxUnits
  within : ∀ slot, Within q.options (q.slots slot)
  subscribers : q.subscribers.Nodup ∧ q.subscribers.length ≤ q.options.maxSubscribers ∧
    ∀ slot ∈ q.subscribers, slot < q.created
  /-- A slot that is not registered is empty. -/
  registered : ∀ slot, slot ∉ q.subscribers → (q.slots slot).entries = []
  serving : ∀ l, loop = some l → l.entry.call + 1 = q.published ∧ ∀ slot ∈ l.rest, slot ∈ q.subscribers
  accounts : Accounts (· < q.published) q.references q.released
    fun c => holders q.created q.callsOf c + own loop c

variable {q : BoundedMediaQueue α ρ}

theorem mem_subscribers (h : Owned q loop)
    (he : (q.slots slot).entries ≠ []) : slot ∈ q.subscribers := by
  by_contra hs
  exact he (h.registered slot hs)

theorem released_emit (h : ∀ c, isReleased c event = false) (c : Nat) :
    (q.emit event).released c = q.released c := by
  simp [released, emit, h]

theorem relinquish_released (q : BoundedMediaQueue α ρ) (c : Nat) : (q.relinquish call release).released c =
    q.released c + if c = call ∧ q.references call - 1 = 0 then 1 else 0 := by
  unfold relinquish released
  dsimp only
  by_cases h0 : q.references call - 1 = 0
  · by_cases hc : c = call
    · subst hc; simp [h0, emit, isReleased]
    · have hc' : call ≠ c := fun h => hc h.symm
      simp [h0, emit, isReleased, hc, hc']
  · simp [h0]

@[simp] theorem relinquish_references (q : BoundedMediaQueue α ρ) :
    (q.relinquish call release).references = Function.update q.references call (q.references call - 1) := by
  unfold relinquish; dsimp only; split <;> rfl

@[simp] theorem relinquish_created (q : BoundedMediaQueue α ρ) :
    (q.relinquish call release).created = q.created := by
  unfold relinquish; dsimp only; split <;> rfl

@[simp] theorem relinquish_initial (q : BoundedMediaQueue α ρ) :
    (q.relinquish call release).initial = q.initial := by
  unfold relinquish; dsimp only; split <;> rfl

@[simp] theorem relinquish_callsOf (q : BoundedMediaQueue α ρ) :
    (q.relinquish call release).callsOf = q.callsOf := by
  funext slot
  simp [callsOf]

@[simp] theorem relinquish_published (q : BoundedMediaQueue α ρ) :
    (q.relinquish call release).published = q.published := by
  unfold relinquish; dsimp only; split <;> rfl

theorem isReleased_terminal (c : Nat) (q : BoundedMediaQueue α ρ) : isReleased c (q.terminal slot) = false := by
  unfold terminal
  split <;> rfl

theorem Owned.emit (h : Owned q loop) (he : ∀ c, isReleased c event = false) :
    Owned (q.emit event) loop :=
  ⟨h.initial, h.room, h.within, h.subscribers, h.registered, h.serving,
    h.accounts.congr (released_emit he) fun _ => rfl⟩

theorem Owned.flags (h : Owned q loop) {f : Subscriber α ρ → Subscriber α ρ}
    (hentries : (f (q.slots slot)).entries = (q.slots slot).entries)
    (hbytes : (f (q.slots slot)).bytes = (q.slots slot).bytes)
    (hpending : (f (q.slots slot)).pending → (q.slots slot).entries = []) : Owned (q.update slot f) loop := by
  have hcalls : ∀ s, (q.update slot f).callsOf s = q.callsOf s := by
    intro s
    by_cases hs : s = slot
    · subst hs; simp [callsOf, update, hentries]
    · simp [callsOf, update, hs]
  refine ⟨h.initial, h.room, fun s => ?_, h.subscribers, fun s hs => ?_, h.serving,
    h.accounts.congr (fun _ => rfl) fun c => congrArg (· + own loop c) (holders_congr hcalls)⟩
  · by_cases hs : s = slot
    · subst hs
      obtain ⟨hb, hmax, hunits, _⟩ := h.within s
      refine ⟨?_, ?_, ?_, fun hp => ?_⟩ <;> simp only [update, Function.update_self, hentries, hbytes] at *
      · exact hb
      · exact hmax
      · exact hunits
      · exact hpending hp
    · simpa [update, hs] using h.within s
  · have := h.registered s hs
    by_cases hs' : s = slot
    · subst hs'; simpa [update, hentries] using this
    · simpa [update, hs'] using this

theorem Owned.advance {l l' : Publishing α ρ} (h : Owned q (some l))
    (hentry : l'.entry = l.entry) (hrest : ∀ s ∈ l'.rest, s ∈ l.rest) : Owned q (some l') := by
  refine ⟨h.initial, h.room, h.within, h.subscribers, h.registered, ?_, ?_⟩
  · rintro _ hl
    obtain rfl := Option.some.inj hl
    obtain ⟨hcall, hmem⟩ := h.serving l rfl
    exact ⟨by rw [hentry]; exact hcall, fun s hs => hmem s (hrest s hs)⟩
  · exact h.accounts.congr (fun _ => rfl) fun c => by simp [own, hentry]

theorem entries_created (h : Owned q loop) :
    (q.slots q.created).entries = [] :=
  h.registered _ fun hs => Nat.lt_irrefl _ (h.subscribers.2.2 _ hs)

theorem Added.entries {q q' : BoundedMediaQueue α ρ} (h : Added q q' slot) (ho : Owned q loop) (s : Nat) :
    (q'.slots s).entries = (q.slots s).entries := by
  rw [h.slots, h.fresh]
  by_cases hs : s = q.created
  · subst hs; simp [entries_created ho]
  · simp [hs]

theorem owned_add {q q' : BoundedMediaQueue α ρ} (h : Owned q none) (ha : Added q q' slot) : Owned q' none := by
  obtain ⟨hinitial, hroom, hwithin, ⟨hnodup, hmax, hlt⟩, hregistered, _, haccounts⟩ := id h
  have hentries := ha.entries h
  refine ⟨by rw [ha.initial, ha.created]; omega, by rw [ha.options]; exact hroom, fun s => ?_, ?_, fun s hs => ?_,
    fun l hl => (nomatch hl), ?_⟩
  · rw [ha.options, ha.slots]
    by_cases hs : s = slot
    · subst hs; exact ⟨by simp, by simp, by simp, by simp⟩
    · simpa [hs] using hwithin s
  · rw [ha.options, ha.created]
    rcases ha.registered with ⟨_, hsubs, _⟩ | ⟨_, hsubs, _⟩
    · rw [hsubs]
      exact ⟨hnodup, hmax, fun s hs => Nat.lt_succ_of_lt (hlt s hs)⟩
    · have hcapacity := ha.capacity
      rw [hsubs, ha.fresh]
      refine ⟨List.nodup_append.mpr ⟨hnodup, List.nodup_singleton _, fun s hs t ht => ?_⟩, ?_, fun s hs => ?_⟩
      · have := hlt s hs
        rw [List.mem_singleton] at ht
        omega
      · rw [List.length_append, List.length_singleton]
        omega
      · rcases List.mem_append.mp hs with hs | hs
        · exact Nat.lt_succ_of_lt (hlt s hs)
        · rw [List.mem_singleton.mp hs]
          exact Nat.lt_succ_self _
  · rw [hentries]
    refine hregistered s fun hs' => hs ?_
    rcases ha.registered with ⟨_, hsubs, _⟩ | ⟨_, hsubs, _⟩
    · rwa [hsubs]
    · rw [hsubs]; exact List.mem_append_left _ hs'
  · rw [ha.published, ha.references, ha.created]
    refine haccounts.congr (fun c => ?_) fun c => ?_
    · rcases ha.registered with ⟨_, _, hlog⟩ | ⟨_, _, hlog⟩
      · rw [released, hlog]; rfl
      · simp [released, hlog, isReleased]
    · have hcalls : ∀ s, q'.callsOf s = q.callsOf s := fun s => by rw [callsOf, hentries]; rfl
      have hempty : q'.callsOf q.created = [] := by
        rw [hcalls, callsOf, entries_created h]; rfl
      rw [holders_succ hempty, holders_congr hcalls]

@[simp] theorem removeAndRelease_published (q : BoundedMediaQueue α ρ) :
    (q.removeAndRelease slot route).1.published = q.published := by
  cases he : (q.slots slot).entries with
  | nil => rw [removeAndRelease_nil q he]
  | cons e es => rw [removeAndRelease_cons he, relinquish_published]; rfl

theorem owned_remove (h : Owned q loop) (slot : Nat) (route : Route) :
    Owned (q.removeAndRelease slot route).1 loop := by
  obtain ⟨hinitial, hroom, hwithin, hsub, hregistered, hserving, haccounts⟩ := id h
  cases he : (q.slots slot).entries with
  | nil =>
    rw [removeAndRelease_nil q he]
    exact h
  | cons e es =>
    have hmem : slot ∈ q.subscribers := mem_subscribers h (by simp [he])
    have hlt : slot < q.created := hsub.2.2 slot hmem
    rw [removeAndRelease_cons he]
    refine ⟨by simpa [emit, update] using hinitial, by simpa [emit, update] using hroom, fun s => ?_,
      by simpa [emit, update] using hsub, fun s hs => ?_, by simpa [emit, update] using hserving, ?_⟩
    · by_cases hs : s = slot
      · subst hs
        obtain ⟨hbytes, hmax, hunits, hpending⟩ := hwithin s
        rw [he, List.map_cons, List.sum_cons] at hbytes
        rw [he, List.length_cons] at hunits
        refine ⟨?_, ?_, ?_, fun hp => ?_⟩
        · simp [emit, update, hbytes]
        · simp [emit, update]; omega
        · simp [emit, update]; omega
        · have := hpending (by simpa [emit, update] using hp)
          rw [he] at this; cases this
      · simpa [emit, update, hs] using hwithin s
    · have hs' : s ∉ q.subscribers := by simpa [emit, update] using hs
      have hne : s ≠ slot := by rintro rfl; exact hs' hmem
      simpa [emit, update, hne] using hregistered s hs'
    · generalize hq' : ((q.update slot fun s => { s with entries := es, bytes := s.bytes - e.bytes }).emit
        (.left slot route e.call e.value)) = q₁
      have hholders : ∀ c, holders q.created q.callsOf c =
          holders q.created q₁.callsOf c + if c = e.call then 1 else 0 := by
        subst hq'
        exact holders_cons hlt (fun t ht => by simp [callsOf, emit, update, ht])
          (by simp [callsOf, emit, update, he])
      have hreleased : ∀ c, q₁.released c = q.released c := by
        subst hq'
        exact released_emit fun _ => rfl
      have hsame : q₁.published = q.published ∧ q₁.references = q.references ∧ q₁.created = q.created := by
        subst hq'
        exact ⟨rfl, rfl, rfl⟩
      have hacc : Accounts (· < q.published) _ (q₁.relinquish e.call e.release).released
          fun c => holders q.created q₁.callsOf c + own loop c :=
        haccounts.relinquish e.call rfl
          (fun c => by rw [relinquish_released, hreleased, hsame.2.1])
          fun c => by rw [hholders c]; exact Nat.add_right_comm _ _ _
      simpa [hsame] using hacc

theorem owned_begin (h : Owned q none) (value : α) (bytes : Nat) (release : ρ) :
    Owned (q.begin_ value)
      (some ⟨⟨value, bytes, q.published, release⟩, if q.ended || q.draining then [] else q.subscribers, 0⟩) := by
  obtain ⟨hinitial, hroom, hwithin, hsub, hregistered, _, haccounts⟩ := h
  refine ⟨hinitial, hroom, hwithin, hsub, hregistered, ?_, ?_⟩
  · rintro l hl
    obtain rfl := Option.some.inj hl
    refine ⟨rfl, fun slot hs => ?_⟩
    dsimp only at hs
    split at hs
    · cases hs
    · exact hs
  · refine haccounts.create q.published (Nat.lt_irrefl _) (fun c => ?_) rfl
      (fun c => released_emit (fun _ => rfl) c) fun c => ?_
    · simp only [begin_, emit]
      omega
    · simp only [own, Option.map_some, Option.map_none, Option.some.injEq, reduceCtorEq, if_false,
        Nat.add_zero, eq_comm (a := q.published)]
      rfl

variable {entry : Entry α ρ}

theorem owned_push (h : Owned q (some ⟨entry, slot :: rest, 0⟩))
    (hp : (q.slots slot).pending = false) (hfull : ¬q.Full slot entry.bytes) :
    Owned (q.push slot entry) (some ⟨entry, rest, 0⟩) := by
  obtain ⟨hinitial, hroom, hwithin, hsub, hregistered, hserving, haccounts⟩ := id h
  obtain ⟨hcall, hrest⟩ := hserving _ rfl
  have hmem : slot ∈ q.subscribers := hrest slot (by simp)
  rw [Full, not_or] at hfull
  refine ⟨hinitial, hroom, fun s => ?_, hsub, fun s hs => ?_, ?_, ?_⟩
  · by_cases hs : s = slot
    · subst hs
      obtain ⟨hbytes, hmax, hunits, hpending⟩ := hwithin s
      refine ⟨by simp [push, emit, update, hbytes], ?_, ?_, by simp [push, emit, update, hp]⟩
      · simp [push, emit, update]; omega
      · simp [push, emit, update]; omega
    · simpa [push, emit, update, hs] using hwithin s
  · have hne : s ≠ slot := by rintro rfl; exact hs hmem
    simpa [push, emit, update, hne] using hregistered s hs
  · rintro l hl
    obtain rfl := Option.some.inj hl
    exact ⟨hcall, fun s hs => hrest s (List.mem_cons_of_mem _ hs)⟩
  · refine haccounts.acquire entry.call ?_ rfl (fun c => released_emit (fun _ => rfl) c) fun c => ?_
    · simp [own]
    · have := @holders_concat _ _ _ _ _ q.callsOf (q.push slot entry).callsOf
        (hsub.2.2 slot hmem) (fun t ht => by simp [callsOf, push, emit, update, ht])
        (show _ = _ ++ [entry.call] by simp [callsOf, push, emit, update]) c
      exact (congrArg (· + own (some ⟨entry, rest, 0⟩) c) this).trans (Nat.add_right_comm _ _ _)

theorem owned_relinquish (h : Owned q (some ⟨entry, [], 0⟩)) :
    Owned (q.relinquish entry.call entry.release) none := by
  obtain ⟨hinitial, hroom, hwithin, hsub, hregistered, hserving, haccounts⟩ := h
  refine ⟨by simpa using hinitial, by simpa using hroom, by simpa using hwithin, by simpa using hsub,
    by simpa using hregistered, fun l hl => (nomatch hl), ?_⟩
  have hacc : Accounts (· < q.published) _ (q.relinquish entry.call entry.release).released
      fun c => holders q.created q.callsOf c + own (none : Option (Publishing α ρ)) c :=
    haccounts.relinquish entry.call rfl (fun c => relinquish_released q c) fun c => by
      simp only [own, Option.map_some, Option.map_none, Option.some.injEq, reduceCtorEq, if_false,
        Nat.add_zero, eq_comm (a := entry.call)]
  simpa using hacc

theorem owned_unregister (h : Owned q none) (he : (q.slots slot).entries = []) :
    Owned (q.unregister slot) none := by
  obtain ⟨hinitial, hroom, hwithin, ⟨hnodup, hmax, hlt⟩, hregistered, _, haccounts⟩ := id h
  unfold unregister
  split
  · refine ⟨hinitial, hroom, hwithin, ⟨hnodup.erase _, ?_, fun s hs => hlt s (List.mem_of_mem_erase hs)⟩,
      fun s hs => ?_, fun l hl => (nomatch hl), ?_⟩
    · exact (List.length_erase_le).trans hmax
    · by_cases hs' : s = slot
      · rw [hs']; exact he
      · exact hregistered s fun hm => hs ((List.mem_erase_of_ne hs').mpr hm)
    · exact haccounts.congr (fun c => released_emit (fun _ => rfl) c) fun _ => rfl
  · exact h

theorem owned_resolve (h : Owned q loop) (slot : Nat) :
    Owned (q.resolvePending slot) loop := by
  unfold resolvePending
  split
  · exact (h.flags (f := fun s => { s with pending := false }) rfl rfl (by simp)).emit
      fun c => isReleased_terminal c _
  · exact h

theorem owned_mark (h : Owned q loop) (slot : Nat) :
    Owned (q.update slot fun s => { s with ended := true }) loop :=
  h.flags (f := fun s => { s with ended := true }) rfl rfl (h.within _).pending

theorem owned_detach (h : Owned q none) (he : (q.slots slot).entries = []) :
    Owned (q.detach slot) none := by
  rw [detach_empty q he]
  exact owned_unregister (owned_resolve (owned_mark h slot) slot) (by simpa [update] using he)

variable {r r' : Running α ρ}

theorem Effect.owned (h : Owned r.queue r.loop) (he : Effect r r') :
    Owned r'.queue r'.loop := by
  have hwithin := h.within
  cases he with
  | add ha => exact owned_add h (add_ok ha)
  | makeInitial hs => exact ⟨hs, h.room, h.within, h.subscribers, h.registered, h.serving, h.accounts⟩
  | claim hs => exact h.flags (f := fun s => { s with claimed := true }) rfl rfl (hwithin _).pending
  | begin_ hb => exact owned_begin h _ _ _
  | hand hp =>
    exact ((h.flags (f := fun s => { s with pending := false }) rfl rfl (by simp)).emit fun _ => rfl).advance rfl
      fun s hs => List.mem_cons_of_mem _ hs
  | oversize hm => exact ((h.emit fun _ => rfl).emit fun _ => rfl).advance rfl fun s hs => List.mem_cons_of_mem _ hs
  | evict hm hs => exact (owned_remove h _ _).advance rfl fun s hs => hs
  | gap =>
    have h' : Owned _ (some ⟨_, _, 0⟩) := h.advance rfl fun s hs => hs
    dsimp only
    split
    · exact h'.emit fun _ => rfl
    · exact h'
  | push hp hfull => exact owned_push h hp hfull
  | throw hm => exact (h.emit fun _ => rfl).advance rfl fun s hs => nomatch hs
  | relinquish => exact owned_relinquish h
  | remove hr => exact owned_remove h _ _
  | detach hs => exact owned_detach h hs
  | drain => exact ⟨h.initial, h.room, h.within, h.subscribers, h.registered, h.serving, h.accounts⟩
  | undrain hs => exact ⟨h.initial, h.room, h.within, h.subscribers, h.registered, h.serving, h.accounts⟩
  | close => exact ⟨h.initial, h.room, h.within, h.subscribers, h.registered, h.serving, h.accounts⟩
  | wait hs => exact h.flags (f := fun s => { s with pending := true }) rfl rfl fun _ => hs
  | terminal => exact h.emit fun c => isReleased_terminal c _
  | done => exact h.emit fun _ => rfl
  | busy => exact h.emit fun _ => rfl

theorem owned_apply (h : Owned q none) (op : Op α ρ) : Owned (q.apply op) none :=
  apply_keeps (P := fun r => Owned r.queue r.loop) (fun _ _ => Effect.owned) h.initial h op

def fresh (o : MediaQueueOptions) : BoundedMediaQueue α ρ :=
  { options := o, created := 1, subscribers := [0], log := [.created 0] }

variable {maxBytes maxUnits maxSubscribers : Number}

theorem make_ok {mode : MediaQueueMode} :
    make maxBytes maxUnits maxSubscribers mode = .ok q ↔ ∃ o : MediaQueueOptions,
      positiveInteger maxBytes "queue bytes" (128 * 1024 * 1024) = .ok o.maxBytes ∧
      positiveInteger maxUnits "queue units" 256 = .ok o.maxUnits ∧
      positiveInteger maxSubscribers "queue subscribers" 16 = .ok o.maxSubscribers ∧
      o.mode = mode ∧ q = fresh o := by
  have hmake : ∀ b u n : Nat, 0 < n → (do
      let added ← add ({ options := ⟨b, u, n, mode⟩ } : BoundedMediaQueue α ρ)
      return { added.1 with initial := added.2 }) = Except.ok (fresh ⟨b, u, n, mode⟩) := by
    intro b u n hn
    have hcap : ¬(([] : List Nat).length ≥ n) := by simp; omega
    simp [bind, Except.bind, pure, Except.pure, add, emit, fresh, Nat.ne_of_gt hn]
  unfold make
  constructor
  · intro h
    cases h1 : positiveInteger maxBytes "queue bytes" (128 * 1024 * 1024) with
    | error e => rw [h1] at h; cases h
    | ok b =>
      cases h2 : positiveInteger maxUnits "queue units" 256 with
      | error e => rw [h1, h2] at h; cases h
      | ok u =>
        cases h3 : positiveInteger maxSubscribers "queue subscribers" 16 with
        | error e => rw [h1, h2, h3] at h; cases h
        | ok n =>
          rw [h1, h2, h3] at h
          have hok := hmake b u n (positiveInteger_ok.mp h3).2.1
          exact ⟨⟨b, u, n, mode⟩, rfl, rfl, rfl, rfl, Except.ok.inj (h.symm.trans hok)⟩
  · rintro ⟨o, h1, h2, h3, rfl, rfl⟩
    rw [h1, h2, h3]
    exact hmake o.maxBytes o.maxUnits o.maxSubscribers (positiveInteger_ok.mp h3).2.1

def system : System (BoundedMediaQueue α ρ) (Op α ρ) :=
  .ofFun (fun q => ∃ maxBytes maxUnits maxSubscribers mode,
    make maxBytes maxUnits maxSubscribers mode = .ok q) apply

theorem owned_make {mode : MediaQueueMode} (h : make maxBytes maxUnits maxSubscribers mode = .ok q) : Owned q none := by
  obtain ⟨o, _, hu, hn, _, rfl⟩ := make_ok.mp h
  have hu := (positiveInteger_ok.mp hu).2.1
  have hn := (positiveInteger_ok.mp hn).2.1
  refine ⟨Nat.one_pos, hu, fun s => ⟨rfl, Nat.zero_le _, Nat.zero_le _, fun _ => rfl⟩,
    ⟨List.nodup_singleton 0, hn, by simp [fresh]⟩, fun s _ => rfl, fun l hl => (nomatch hl), ?_, ?_, ?_⟩
  · intro c hc; exact absurd hc (Nat.not_lt_zero c)
  · intro c hc; exact absurd hc (Nat.not_lt_zero c)
  · intro c _
    exact ⟨by simp [fresh, own, holders, callsOf], by simp [fresh, released, isReleased]⟩

theorem owned_of_reachable (h : system.Reachable q) : Owned q none := by
  refine h.invariant (P := fun q => Owned q none) ?_ ?_
  · rintro q ⟨_, _, _, _, hq⟩
    exact owned_make hq
  · rintro q op _ hq rfl
    exact owned_apply hq op

-- The eviction loop

@[simp] theorem resolvePending_options (q : BoundedMediaQueue α ρ) :
    (q.resolvePending slot).options = q.options := by
  unfold resolvePending; split <;> rfl

@[simp] theorem resolvePending_published (q : BoundedMediaQueue α ρ) :
    (q.resolvePending slot).published = q.published := by
  unfold resolvePending; split <;> rfl

@[simp] theorem unregister_options (q : BoundedMediaQueue α ρ) : (q.unregister slot).options = q.options := by
  unfold unregister; split <;> rfl

@[simp] theorem unregister_published (q : BoundedMediaQueue α ρ) :
    (q.unregister slot).published = q.published := by
  unfold unregister; split <;> rfl

theorem Effect.options (h : Effect r r') : r'.queue.options = r.queue.options := by
  cases h with
  | add ha => exact (add_ok ha).options
  | gap => dsimp only; split <;> rfl
  | evict hm hs => exact removeAndRelease_options _
  | remove hr => exact removeAndRelease_options _
  | relinquish => exact relinquish_options _
  | detach hs => rw [detach_empty _ hs]; simp [update]
  | _ => rfl

theorem not_full_of_empty (h : Owned q loop) (he : (q.slots slot).entries = [])
    (hb : bytes ≤ q.options.maxBytes) : ¬q.Full slot bytes := by
  have hzero := (h.within slot).bytes
  have hroom := h.room
  rw [he, List.map_nil, List.sum_nil] at hzero
  rintro (hfull | hfull)
  · rw [he, List.length_nil] at hfull; omega
  · omega

theorem makeRoom_live
    (h : Owned q (some ⟨entry, slot :: rest, 0⟩)) (hm : q.options.mode = .live)
    (hp : (q.slots slot).pending = false) (hb : entry.bytes ≤ q.options.maxBytes) :
    ∃ q' dropped, q.makeRoom slot entry.bytes (q.slots slot).entries 0 = (q', .ok dropped) ∧
      Effects ⟨q, some ⟨entry, slot :: rest, 0⟩⟩ ⟨q', some ⟨entry, slot :: rest, dropped⟩⟩ ∧
      (q'.slots slot).pending = false ∧ ¬q'.Full slot entry.bytes := by
  obtain ⟨left, heff, hend⟩ := makeRoom_effects slot entry rest
    (q.slots slot).entries 0 q rfl hp hb
  generalize q.makeRoom slot entry.bytes (q.slots slot).entries 0 = r at heff hend
  obtain ⟨q', res⟩ := r
  have hq' : Owned q' (some ⟨entry, slot :: rest, left⟩) :=
    Effects.keeps (P := fun r => Owned r.queue r.loop) (fun _ _ => Effect.owned) heff h
  have ho : q'.options = q.options :=
    Effects.keeps (P := fun r => r.queue.options = q.options) (fun _ _ ih he => he.options.trans ih) heff rfl
  cases res with
  | ok d =>
    obtain ⟨rfl, hp', hroom⟩ := hend
    exact ⟨q', d, rfl, heff, hp', hroom⟩
  | error e =>
    exfalso
    rcases hend with hrec | ⟨hempty, hbytes, hfull⟩
    · rw [ho, hm] at hrec; cases hrec
    · exact not_full_of_empty hq' hempty hbytes hfull

theorem serve_live (slots : List Nat) : ∀ {q : BoundedMediaQueue α ρ} {entry : Entry α ρ},
    Owned q (some ⟨entry, slots, 0⟩) → q.options.mode = .live → (serve entry slots q).2 = none := by
  induction slots with
  | nil => intro q entry _ _; rfl
  | cons slot slots ih =>
    intro q entry h hm
    unfold serve
    rw [hm]
    split
    · exact ih (Effect.owned h (.hand (by assumption))) hm
    · rename_i hp
      split
      · exact ih (Effect.owned h (.oversize hm)) hm
      · obtain ⟨q', dropped, hr, heff, hp', hroom⟩ := makeRoom_live h hm (by simpa using hp) (by omega)
        have hgap := heff.tail .gap
        have hpush := hgap.tail (.push (by split <;> exact hp') (by split <;> exact hroom))
        rw [hr]
        refine ih (Effects.keeps (P := fun r => Owned r.queue r.loop) (fun _ _ => Effect.owned) hpush h) ?_
        have := Effects.keeps (P := fun r => r.queue.options = q.options) (fun _ _ ih he => he.options.trans ih) hpush rfl
        exact (congrArg MediaQueueOptions.mode this).trans hm

theorem publish_live (h : Owned q none) (hm : q.options.mode = .live)
    (hb : positiveInteger bytes "media unit bytes" (128 * 1024 * 1024) = .ok n) (value : α) (release : ρ) :
    (q.publish value bytes release).2 = none := by
  have hpos := (positiveInteger_ok.mp hb).2.1
  have hbegin := Effect.owned h (@Effect.begin_ _ _ _ _ value release hpos)
  unfold publish
  rw [hb]
  by_cases hc : q.ended || q.draining
  · simp [show ((q.begin_ value).ended || (q.begin_ value).draining) = true from hc]
  · have hc' : ¬((q.begin_ value).ended || (q.begin_ value).draining) = true := hc
    rw [if_neg hc] at hbegin
    simp only [if_neg hc']
    exact serve_live _ hbegin hm

-- Ownership

def Held (q : BoundedMediaQueue α ρ) (call : Nat) : Prop := ∃ slot, call ∈ q.callsOf slot

theorem held_iff (h : Owned q none) : q.Held call ↔
    holders q.created q.callsOf call ≠ 0 := by
  rw [ne_eq, holders_eq_zero]
  constructor
  · rintro ⟨slot, hs⟩ hnone
    refine hnone slot (h.subscribers.2.2 slot (mem_subscribers h ?_)) hs
    intro he
    simp [callsOf, he] at hs
  · intro hsome
    by_contra hnot
    exact hsome fun slot _ hs => hnot ⟨slot, hs⟩

theorem released_iff (h : Owned q none) (hc : call < q.published) :
    (q.Held call → q.released call = 0) ∧ (¬q.Held call → q.released call = 1) := by
  have hr := h.accounts.once call hc
  simp only [own, Option.map_none, reduceCtorEq, if_false, Nat.add_zero] at hr
  rw [held_iff h, hr]
  constructor
  · intro hn; rw [if_neg hn]
  · intro hn; rw [if_pos (not_not.mp hn)]

theorem Effect.published (h : Effect r r') : r.queue.published ≤ r'.queue.published := by
  cases h with
  | add ha => exact (add_ok ha).published.ge
  | begin_ hb => exact Nat.le_succ _
  | gap => dsimp only; split <;> exact le_rfl
  | evict hm hs => exact (removeAndRelease_published _).ge
  | remove hr => exact (removeAndRelease_published _).ge
  | relinquish => exact (relinquish_published _).ge
  | detach hs => rw [detach_empty _ hs]; simp [update]
  | _ => exact le_rfl

theorem finish_unheld (h : Owned q none) (he : q.ended = false)
    (error : Option OnvifError) (call : Nat) : ¬(q.finish error).Held call := by
  have hq := owned_apply h (.finish error)
  rintro ⟨slot, hs⟩
  have hempty : ((q.finish error).slots slot).entries = [] := by
    refine hq.registered slot ?_
    simp [apply, finish, he]
  simp [callsOf, hempty] at hs

/-- The queue keeps its bounds and its promise on release callbacks; a call
number is that of a `publish` that passed its byte check. -/
theorem queue_ownership {q : BoundedMediaQueue α ρ} (h : system.Reachable q) :
    (∀ slot, (q.slots slot).bytes = ((q.slots slot).entries.map Entry.bytes).sum ∧
      (q.slots slot).bytes ≤ q.options.maxBytes ∧ (q.slots slot).entries.length ≤ q.options.maxUnits ∧
      ((q.slots slot).pending → (q.slots slot).entries = [])) ∧
    q.subscribers.Nodup ∧ q.subscribers.length ≤ q.options.maxSubscribers ∧
    (∀ call < q.published, q.released call ≤ 1 ∧ (q.Held call → q.released call = 0) ∧
      (¬q.Held call → q.released call = 1)) ∧
    (q.ended = false → ∀ error, ∀ call < q.published, (q.finish error).released call = 1) ∧
    (q.options.mode = .live → ∀ value bytes release n,
      positiveInteger bytes "media unit bytes" (128 * 1024 * 1024) = .ok n →
        (q.publish value bytes release).2 = none) := by
  have ho := owned_of_reachable h
  refine ⟨fun slot => ?_, ho.subscribers.1, ho.subscribers.2.1, fun call hc => ?_, fun he error call hc => ?_, ?_⟩
  · obtain ⟨hb, hmax, hunits, hp⟩ := ho.within slot
    exact ⟨hb, hmax, hunits, hp⟩
  · obtain ⟨hheld, hnot⟩ := released_iff ho hc
    refine ⟨?_, hheld, hnot⟩
    by_cases hh : q.Held call
    · rw [hheld hh]; exact Nat.zero_le 1
    · rw [hnot hh]
  · have hpub : q.published ≤ (q.finish error).published := by
      refine Effects.keeps (P := fun r => q.published ≤ r.queue.published) ?_ (finish_effects error q) le_rfl
      exact fun _ _ ih h => ih.trans h.published
    exact (released_iff (owned_apply ho (.finish error)) (lt_of_lt_of_le hc hpub)).2 (finish_unheld ho he error call)
  · intro hm value bytes release n hb
    exact publish_live ho hm hb value release

theorem reachable_fresh {o : MediaQueueOptions} (hb : 0 < o.maxBytes ∧ o.maxBytes ≤ 128 * 1024 * 1024)
    (hu : 0 < o.maxUnits ∧ o.maxUnits ≤ 256) (hn : 0 < o.maxSubscribers ∧ o.maxSubscribers ≤ 16)
    (ops : List (Op α ρ)) : system.Reachable (ops.foldl apply (fresh o)) := by
  have hsafe : 128 * 1024 * 1024 ≤ maxSafeInteger := by decide
  refine ⟨fresh o, ops, ⟨(o.maxBytes : Number), (o.maxUnits : Number), (o.maxSubscribers : Number), o.mode,
    make_ok.mpr ⟨o, ?_, ?_, ?_, rfl, rfl⟩⟩, System.run_ofFun.mpr rfl⟩
  · exact positiveInteger_ok.mpr ⟨rfl, hb.1, hb.2, by omega⟩
  · exact positiveInteger_ok.mpr ⟨rfl, hu.1, hu.2, by omega⟩
  · exact positiveInteger_ok.mpr ⟨rfl, hn.1, hn.2, by omega⟩

theorem queue_ownership_shared :
    ([.asyncIterator, .asyncIterator, .publish "A" (2 : Nat) (), .next 0].foldl apply
      (fresh ⟨6, 2, 2, .live⟩) : BoundedMediaQueue String Unit).released 0 = 0 :=
  ((queue_ownership (reachable_fresh (by decide) (by decide) (by decide) _)).2.2.2.1 0 (by decide)).2.1
    ⟨1, by decide⟩

end WotAv.Media.BoundedMediaQueue
