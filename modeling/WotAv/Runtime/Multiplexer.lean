import Mathlib.Data.List.Nodup
import Mathlib.Logic.Function.Basic

/-!
# Ordinary and managed subscriptions

The `subscriptions` of the `MultiplexFactory`s, which have one entry for each
href, and the `OwnedSubscription`s of the runtime.
-/

namespace WotAv.Runtime

-- MultiplexFactory

structure HttpSubscription where
  factory : ℕ
  href : String
  unlinked : Bool
  deriving DecidableEq, Repr

/-- A call of `unlinkResource`, and the entry it has found, once it looked. -/
structure Unlinking where
  factory : ℕ
  href : String
  entry : Option (Option ℕ)
  deriving DecidableEq, Repr

/-- The factories of one runtime: the subscriptions ever started, the entries
of `subscriptions`, and the calls in progress. -/
structure Multiplexer where
  started : ℕ → Option HttpSubscription
  count : ℕ
  subscriptions : ℕ × String → Option ℕ
  subscribing : ℕ → Option (ℕ × String)
  subscribes : ℕ
  unlinking : ℕ → Option Unlinking
  unlinks : ℕ

def Multiplexer.empty : Multiplexer where
  started _ := none
  count := 0
  subscriptions _ := none
  subscribing _ := none
  subscribes := 0
  unlinking _ := none
  unlinks := 0

inductive HttpLabel
  /-- `subscribeResource` -/
  | subscribe (factory : ℕ) (href : String)
  /-- the client's `subscribeResource` settles, or nothing is subscribed -/
  | subscribed (call : ℕ) (ok : Bool)
  /-- `unlinkResource` -/
  | unlink (factory : ℕ) (href : String)
  /-- the entry of the href is looked up -/
  | look (call : ℕ)
  /-- the client's `unlinkResource` settles -/
  | unlinked (call : ℕ) (ok : Bool)
  deriving DecidableEq, Repr

namespace Multiplexer

def release (m : Multiplexer) : Option ℕ → Multiplexer
  | none => m
  | some o => { m with started := Function.update m.started o ((m.started o).map fun x => { x with unlinked := true }) }

def step (m : Multiplexer) : HttpLabel → Option Multiplexer
  | .subscribe f href =>
    some { m with subscribing := Function.update m.subscribing m.subscribes (some (f, href))
                  subscribes := m.subscribes + 1 }
  | .subscribed i ok => do
    let key ← m.subscribing i
    let m := { m with subscribing := Function.update m.subscribing i none }
    if ok = true then
      some { m with started := Function.update m.started m.count (some ⟨key.1, key.2, false⟩)
                    count := m.count + 1
                    subscriptions := Function.update m.subscriptions key (some m.count) }
    else some m
  | .unlink f href =>
    some { m with unlinking := Function.update m.unlinking m.unlinks (some ⟨f, href, none⟩)
                  unlinks := m.unlinks + 1 }
  | .look i => do
    let w ← m.unlinking i
    if w.entry = none then
      some { m with unlinking := Function.update m.unlinking i
                      (some { w with entry := some (m.subscriptions (w.factory, w.href)) }) }
    else none
  | .unlinked i ok => do
    let w ← m.unlinking i
    let entry ← w.entry
    let m := { m with unlinking := Function.update m.unlinking i none }
    if ok = true then
      some { m.release entry with subscriptions := Function.update m.subscriptions (w.factory, w.href) none }
    else some m

/-- What `close` of the factories unlinks. -/
def entries (m : Multiplexer) : List ℕ :=
  (List.range m.count).filter fun o => (m.started o).any fun x => m.subscriptions (x.factory, x.href) = some o

variable {m m' : Multiplexer} {i : ℕ} {ok : Bool}

theorem subscribed_ok (h : m.step (.subscribed i ok) = some m') : ∃ key, m.subscribing i = some key ∧
    (ok = true ∧ m' = { m with subscribing := Function.update m.subscribing i none
                               started := Function.update m.started m.count (some ⟨key.1, key.2, false⟩)
                               count := m.count + 1
                               subscriptions := Function.update m.subscriptions key (some m.count) } ∨
      ok = false ∧ m' = { m with subscribing := Function.update m.subscribing i none }) := by
  obtain ⟨key, hkey, h⟩ := Option.bind_eq_some_iff.mp h
  dsimp only at h
  refine ⟨key, hkey, ?_⟩
  split at h
  · rename_i hok
    exact .inl ⟨hok, (Option.some.inj h).symm⟩
  · rename_i hok
    exact .inr ⟨by simpa using hok, (Option.some.inj h).symm⟩

theorem look_ok (h : m.step (.look i) = some m') : ∃ w, m.unlinking i = some w ∧ w.entry = none ∧
    m' = { m with unlinking := Function.update m.unlinking i
                    (some { w with entry := some (m.subscriptions (w.factory, w.href)) }) } := by
  obtain ⟨w, hw, h⟩ := Option.bind_eq_some_iff.mp h
  split at h
  · rename_i he
    exact ⟨w, hw, he, (Option.some.inj h).symm⟩
  · cases h

theorem unlinked_ok (h : m.step (.unlinked i ok) = some m') : ∃ w entry, m.unlinking i = some w ∧
    w.entry = some entry ∧
      (ok = true ∧ m' = { m.release entry with
          unlinking := Function.update m.unlinking i none
          subscriptions := Function.update m.subscriptions (w.factory, w.href) none } ∨
        ok = false ∧ m' = { m with unlinking := Function.update m.unlinking i none }) := by
  obtain ⟨w, hw, h⟩ := Option.bind_eq_some_iff.mp h
  obtain ⟨entry, he, h⟩ := Option.bind_eq_some_iff.mp h
  dsimp only at h
  refine ⟨w, entry, hw, he, ?_⟩
  split at h
  · rename_i hok
    refine .inl ⟨hok, (Option.some.inj h).symm.trans ?_⟩
    cases entry <;> rfl
  · rename_i hok
    exact .inr ⟨by simpa using hok, (Option.some.inj h).symm⟩

/-- A subscription is entered while no other of its href is live, and an unlink
that succeeds drops no entry but the one that it has found. -/
def Apart (m : Multiplexer) : HttpLabel → Prop
  | .subscribed i true => ∀ key, m.subscribing i = some key →
      ∀ o x, m.started o = some x → (x.factory, x.href) = key → x.unlinked = true
  | .unlinked i true => ∀ w entry, m.unlinking i = some w → w.entry = some entry →
      ∀ o, m.subscriptions (w.factory, w.href) = some o → entry = some o
  | _ => True

/-- What is not unlinked has its entry. -/
structure Linked (m : Multiplexer) : Prop where
  fresh : ∀ o, m.count ≤ o → m.started o = none
  linked : ∀ o x, m.started o = some x → x.unlinked = false → m.subscriptions (x.factory, x.href) = some o

theorem Linked.mem_entries (h : Linked m) {o : ℕ} {x : HttpSubscription} (hx : m.started o = some x)
    (hu : x.unlinked = false) : o ∈ m.entries := by
  have hlt : o < m.count := by
    by_contra hle
    rw [h.fresh o (by omega)] at hx
    cases hx
  simp [entries, hlt, hx, h.linked o x hx hu]

theorem release_live {entry : Option ℕ} {o : ℕ} {x : HttpSubscription} (h : (m.release entry).started o = some x)
    (hu : x.unlinked = false) : m.started o = some x ∧ entry ≠ some o := by
  cases entry with
  | none => exact ⟨h, nofun⟩
  | some o' =>
    by_cases ho : o = o'
    · subst ho
      simp only [release, Function.update_self] at h
      obtain ⟨y, -, rfl⟩ := Option.map_eq_some_iff.mp h
      cases hu
    · refine ⟨?_, fun he => ho (Option.some.inj he).symm⟩
      simpa only [release, Function.update_of_ne ho] using h

theorem release_none {entry : Option ℕ} {o : ℕ} (h : m.started o = none) : (m.release entry).started o = none := by
  cases entry with
  | none => exact h
  | some o' => simp only [release]; grind [Function.update_apply]

theorem Linked.step (h : Linked m) {l : HttpLabel} (hok : Apart m l) (hs : m.step l = some m') : Linked m' := by
  obtain ⟨h₁, h₂⟩ := h
  cases l with
  | subscribe | unlink =>
    cases Option.some.inj hs
    exact ⟨h₁, h₂⟩
  | subscribed i ok =>
    obtain ⟨key, hkey, ⟨rfl, rfl⟩ | ⟨-, rfl⟩⟩ := subscribed_ok hs
    · have hlive := hok key hkey
      constructor <;> simp only <;> grind [Function.update_apply]
    · exact ⟨h₁, h₂⟩
  | look i =>
    obtain ⟨w, hw, he, rfl⟩ := look_ok hs
    exact ⟨h₁, h₂⟩
  | unlinked i ok =>
    obtain ⟨w, entry, hw, he, ⟨rfl, rfl⟩ | ⟨-, rfl⟩⟩ := unlinked_ok hs
    · refine ⟨fun o ho => release_none (h₁ o (by cases entry <;> exact ho)), fun o x hx hu => ?_⟩
      obtain ⟨hx, hne⟩ := release_live hx hu
      have hin := h₂ o x hx hu
      have hkey : (x.factory, x.href) ≠ (w.factory, w.href) := fun hkey => hne (hok w entry hw he o (hkey ▸ hin))
      exact (Function.update_of_ne hkey ..).trans hin
    · exact ⟨h₁, h₂⟩

end Multiplexer

-- manageSubscription

inductive SubscriptionState
  | active
  | closing
  | closed
  | uncertain
  deriving DecidableEq, Repr

/-- The `OwnedSubscription`s ever made, and the runtime's `subscriptions`. -/
structure ManagedSubscriptions where
  state : ℕ → Option SubscriptionState
  count : ℕ
  subscriptions : List ℕ

def ManagedSubscriptions.empty : ManagedSubscriptions := ⟨fun _ => none, 0, []⟩

inductive ManagedLabel
  /-- `manageSubscription` -/
  | manage
  /-- the first `stop` of a subscription, which begins its tracked cleanup -/
  | stop (subscription : ℕ)
  /-- the Unsubscribe settles -/
  | released (subscription : ℕ) (ok : Bool)
  deriving DecidableEq, Repr

namespace ManagedSubscriptions

def step (m : ManagedSubscriptions) : ManagedLabel → Option ManagedSubscriptions
  | .manage =>
    if m.subscriptions.length ≥ 64 then none
    else some { state := Function.update m.state m.count (some .active)
                count := m.count + 1
                subscriptions := m.count :: m.subscriptions }
  | .stop i =>
    if m.state i = some .active then some { m with state := Function.update m.state i (some .closing) } else none
  | .released i ok =>
    if m.state i = some .closing then
      if ok = true then
        some { m with state := Function.update m.state i (some .closed), subscriptions := m.subscriptions.erase i }
      else some { m with state := Function.update m.state i (some .uncertain) }
    else none

/-- `stop` of every subscription that is left. -/
def stopAll (m : ManagedSubscriptions) : ManagedSubscriptions :=
  { m with state := fun i => if m.state i = some .active ∧ i ∈ m.subscriptions then some .closing else m.state i }

/-- `subscriptions` has what is not closed, once. -/
structure Kept (m : ManagedSubscriptions) : Prop where
  fresh : ∀ i, m.count ≤ i → m.state i = none
  known : ∀ i ∈ m.subscriptions, m.state i ≠ none
  mem : ∀ i st, m.state i = some st → (i ∈ m.subscriptions ↔ st ≠ .closed)
  nodup : m.subscriptions.Nodup

variable {m m' : ManagedSubscriptions}

theorem Kept.step (h : Kept m) {l : ManagedLabel} (hs : m.step l = some m') : Kept m' := by
  obtain ⟨h₁, h₂, h₃, h₄⟩ := h
  cases l with
  | manage =>
    simp only [ManagedSubscriptions.step] at hs
    split at hs
    · cases hs
    · cases hs
      constructor <;> simp only <;> grind [Function.update_apply]
  | stop i =>
    simp only [ManagedSubscriptions.step] at hs
    split at hs
    · cases hs
      constructor <;> simp only <;> grind [Function.update_apply]
    · cases hs
  | released i ok =>
    simp only [ManagedSubscriptions.step] at hs
    split at hs
    · split at hs <;> cases hs
      · constructor <;> simp only <;> grind [Function.update_apply, List.Nodup.mem_erase_iff, List.Nodup.erase]
      · constructor <;> simp only <;> grind [Function.update_apply]
    · cases hs

theorem Kept.stopAll (h : Kept m) : Kept m.stopAll := by
  obtain ⟨h₁, h₂, h₃, h₄⟩ := h
  constructor <;> simp only [ManagedSubscriptions.stopAll] <;> grind

end ManagedSubscriptions

end WotAv.Runtime
