import Mathlib.Order.Nat
import Mathlib.Tactic.Common

/-!
# Matchers in continuation-passing style

A matcher over an input of length `n` takes a position and a continuation for
the positions it may end at. `Decides m r`: what the matcher explores, by
backtracking, is the relation `r` between start and end positions. The rules
below say which relations sequences, alternatives and repetitions decide; a
repetition that refuses empty iterations decides the same as one that counts
them.
-/

namespace WotAv.Lib

-- Iterated relations

def Times {α : Type} (r : α → α → Prop) : ℕ → α → α → Prop
  | 0, x, y => x = y
  | k + 1, x, y => ∃ z, r x z ∧ Times r k z y

/-- Between `minimum` and `maximum` steps, or any number from `minimum` on. -/
def Repeated {α : Type} (r : α → α → Prop) (minimum : ℕ) (maximum : Option ℕ) (x y : α) : Prop :=
  ∃ k, minimum ≤ k ∧ (∀ m, maximum = some m → k ≤ m) ∧ Times r k x y

section Times
variable {α : Type} {r s : α → α → Prop} {x y z : α} {k l : ℕ}

@[simp] theorem times_zero : Times r 0 x y ↔ x = y := Iff.rfl

theorem Times.trans (h : Times r k x y) (h' : Times r l y z) : Times r (k + l) x z := by
  induction k generalizing x with
  | zero =>
    obtain rfl := times_zero.mp h
    simpa using h'
  | succ k ih =>
    obtain ⟨w, hw, ht⟩ := h
    have hs : Times r (k + l + 1) x z := ⟨w, hw, ih ht⟩
    exact Nat.succ_add k l ▸ hs

theorem Times.snoc (h : Times r k x y) (hr : r y z) : Times r (k + 1) x z :=
  h.trans ⟨z, hr, rfl⟩

theorem times_succ' : Times r (k + 1) x z ↔ ∃ y, Times r k x y ∧ r y z := by
  constructor
  · intro h
    induction k generalizing x with
    | zero =>
      obtain ⟨w, hw, rfl⟩ := h
      exact ⟨x, rfl, hw⟩
    | succ k ih =>
      obtain ⟨w, hw, ht⟩ := h
      obtain ⟨y, hy, hr⟩ := ih ht
      exact ⟨y, ⟨w, hw, hy⟩, hr⟩
  · rintro ⟨y, h, hr⟩
    exact h.snoc hr

end Times

-- Matchers

/-- What is left to match, from each position at or after `x`. -/
abbrev Continuation (n x : ℕ) : Type := (y : ℕ) → x ≤ y → y ≤ n → Bool

abbrev Matcher (n : ℕ) : Type := (x : ℕ) → x ≤ n → Continuation n x → Bool

namespace Matcher

variable {n : ℕ}

def Forward (n : ℕ) (r : ℕ → ℕ → Prop) : Prop := ∀ x y, x ≤ n → r x y → x ≤ y ∧ y ≤ n

/-- The matcher succeeds exactly when its continuation does at some `r`-end. -/
structure Decides (m : Matcher n) (r : ℕ → ℕ → Prop) : Prop where
  forward : Forward n r
  iff : ∀ x hx c, m x hx c = true ↔ ∃ y, ∃ (hxy : x ≤ y) (hy : y ≤ n), r x y ∧ c y hxy hy = true

def skip : Matcher n := fun x hx c => c x le_rfl hx

def assertion (p : ℕ → Bool) : Matcher n := fun x hx c => p x && c x le_rfl hx

def character (input : List ℕ) (p : ℕ → Bool) : Matcher input.length := fun x _ c =>
  if h : x < input.length then p input[x] && c (x + 1) (Nat.le_succ x) h else false

def seq (m₁ m₂ : Matcher n) : Matcher n := fun x hx c =>
  m₁ x hx fun y hxy hy => m₂ y hy fun z hyz hz => c z (hxy.trans hyz) hz

def orElse (m₁ m₂ : Matcher n) : Matcher n := fun x hx c => m₁ x hx c || m₂ x hx c

/-- Repetition. An iteration past the minimum must not be empty; iterations
stop at the maximum; which of going on and leaving is tried first is `greedy`. -/
def rep (m : Matcher n) (min : ℕ) (max : Option ℕ) (greedy : Bool) (x : ℕ) (hx : x ≤ n)
    (c : Continuation n x) : Bool :=
  if max = some 0 then c x le_rfl hx
  else
    let d : Continuation n x := fun y hxy hy =>
      if h : min = 0 ∧ y = x then false
      else rep m (min - 1) (max.map (· - 1)) greedy y hy fun z hyz hz => c z (hxy.trans hyz) hz
    if min ≠ 0 then m x hx d
    else if greedy then m x hx d || c x le_rfl hx
    else c x le_rfl hx || m x hx d
termination_by (min, n - x)
decreasing_by
  by_cases hmin : min = 0
  · have hlt : x < y := lt_of_le_of_ne hxy fun hyx => h ⟨hmin, hyx.symm⟩
    subst hmin
    exact Prod.Lex.right _ (Nat.sub_lt_sub_left (hlt.trans_le hy) hlt)
  · exact Prod.Lex.left _ _ (Nat.sub_one_lt hmin)

theorem skip_decides : (skip : Matcher n).Decides Eq where
  forward := by
    rintro x _ hx rfl
    exact ⟨le_rfl, hx⟩
  iff := by
    intro x hx c
    constructor
    · intro h
      exact ⟨x, le_rfl, hx, rfl, h⟩
    · rintro ⟨y, _, _, rfl, h⟩
      exact h

theorem assertion_decides (p : ℕ → Bool) :
    (assertion p : Matcher n).Decides fun x y => p x = true ∧ x = y where
  forward := by
    rintro x _ hx ⟨-, rfl⟩
    exact ⟨le_rfl, hx⟩
  iff := by
    intro x hx c
    simp only [assertion, Bool.and_eq_true]
    constructor
    · rintro ⟨hp, h⟩
      exact ⟨x, le_rfl, hx, ⟨hp, rfl⟩, h⟩
    · rintro ⟨y, _, _, ⟨hp, rfl⟩, h⟩
      exact ⟨hp, h⟩

theorem character_decides (input : List ℕ) (p : ℕ → Bool) :
    (character input p).Decides fun x y => (∃ ch, input[x]? = some ch ∧ p ch = true) ∧ y = x + 1 where
  forward := by
    rintro x _ _ ⟨⟨ch, hch, -⟩, rfl⟩
    exact ⟨Nat.le_succ x, (List.getElem?_eq_some_iff.mp hch).1⟩
  iff := by
    intro x hx c
    simp only [character]
    constructor
    · intro h
      split at h
      · rename_i hlt
        obtain ⟨hp, hc⟩ := Bool.and_eq_true_iff.mp h
        exact ⟨x + 1, Nat.le_succ x, hlt, ⟨⟨_, List.getElem?_eq_getElem hlt, hp⟩, rfl⟩, hc⟩
      · cases h
    · rintro ⟨y, _, hy, ⟨⟨ch, hch, hp⟩, rfl⟩, hc⟩
      obtain ⟨hlt, rfl⟩ := List.getElem?_eq_some_iff.mp hch
      simp [hlt, hp, hc]

theorem Decides.seq {m₁ m₂ : Matcher n} {r s : ℕ → ℕ → Prop} (h₁ : m₁.Decides r) (h₂ : m₂.Decides s) :
    (seq m₁ m₂).Decides fun x z => ∃ y, r x y ∧ s y z where
  forward := by
    rintro x z hx ⟨y, hr, hs⟩
    obtain ⟨hxy, hy⟩ := h₁.forward x y hx hr
    obtain ⟨hyz, hz⟩ := h₂.forward y z hy hs
    exact ⟨hxy.trans hyz, hz⟩
  iff := by
    intro x hx c
    simp only [Matcher.seq]
    rw [h₁.iff]
    constructor
    · rintro ⟨y, hxy, hy, hr, h⟩
      obtain ⟨z, hyz, hz, hs, hc⟩ := (h₂.iff ..).mp h
      exact ⟨z, hxy.trans hyz, hz, ⟨y, hr, hs⟩, hc⟩
    · rintro ⟨z, _, hz, ⟨y, hr, hs⟩, hc⟩
      obtain ⟨hxy, hy⟩ := h₁.forward x y hx hr
      exact ⟨y, hxy, hy, hr, (h₂.iff ..).mpr ⟨z, (h₂.forward y z hy hs).1, hz, hs, hc⟩⟩

theorem Decides.orElse {m₁ m₂ : Matcher n} {r s : ℕ → ℕ → Prop} (h₁ : m₁.Decides r) (h₂ : m₂.Decides s) :
    (orElse m₁ m₂).Decides fun x y => r x y ∨ s x y where
  forward := by
    rintro x y hx (hr | hs)
    · exact h₁.forward x y hx hr
    · exact h₂.forward x y hx hs
  iff := by
    intro x hx c
    simp only [Matcher.orElse, Bool.or_eq_true, h₁.iff x hx c, h₂.iff x hx c]
    constructor
    · rintro (⟨y, hxy, hy, hr, hc⟩ | ⟨y, hxy, hy, hs, hc⟩)
      · exact ⟨y, hxy, hy, .inl hr, hc⟩
      · exact ⟨y, hxy, hy, .inr hs, hc⟩
    · rintro ⟨y, hxy, hy, hr | hs, hc⟩
      · exact .inl ⟨y, hxy, hy, hr, hc⟩
      · exact .inr ⟨y, hxy, hy, hs, hc⟩

variable {r : ℕ → ℕ → Prop}

theorem Forward.times (h : Forward n r) (k : ℕ) : Forward n (Times r k) := by
  induction k with
  | zero =>
    rintro x _ hx rfl
    exact ⟨le_rfl, hx⟩
  | succ k ih =>
    rintro x z hx ⟨y, hr, ht⟩
    obtain ⟨hxy, hy⟩ := h x y hx hr
    obtain ⟨hyz, hz⟩ := ih y z hy ht
    exact ⟨hxy.trans hyz, hz⟩

variable {m : Matcher n}

theorem rep_iff (hm : m.Decides r) {min : ℕ} {max : Option ℕ} {greedy : Bool}
    {x : ℕ} {hx : x ≤ n} {c : Continuation n x} (hle : ∀ b, max = some b → min ≤ b) :
    rep m min max greedy x hx c = true ↔ (min = 0 ∧ c x le_rfl hx = true) ∨
      max ≠ some 0 ∧ ∃ y, ∃ (hxy : x ≤ y) (hy : y ≤ n), r x y ∧ ¬ (min = 0 ∧ y = x) ∧
        rep m (min - 1) (max.map (· - 1)) greedy y hy (fun z hyz hz => c z (hxy.trans hyz) hz) = true := by
  rw [rep]
  by_cases hmax : max = some 0
  · have hmin : min = 0 := Nat.le_zero.mp (hle 0 hmax)
    simp [hmax, hmin]
  · by_cases hmin : min = 0
    · cases greedy <;> simp [hmax, hmin, hm.iff, or_comm]
    · simp [hmax, hmin, hm.iff]

theorem Decides.rep_sound (hm : m.Decides r) {greedy : Bool} :
    ∀ (bound : ℕ) {min : ℕ} {max : Option ℕ} {x : ℕ} {hx : x ≤ n} {c : Continuation n x},
      (∀ b, max = some b → min ≤ b) → min + (n - x) < bound → rep m min max greedy x hx c = true →
        ∃ y, ∃ (hxy : x ≤ y) (hy : y ≤ n), Repeated r min max x y ∧ c y hxy hy = true := by
  intro bound
  induction bound with
  | zero =>
    intro min max x hx c _ hb
    cases hb
  | succ bound ih =>
    intro min max x hx c hle hb h
    rcases (rep_iff hm hle).mp h with ⟨rfl, hc⟩ | ⟨hmax, y, hxy, hy, hr, hne, hrep⟩
    · exact ⟨x, le_rfl, hx, ⟨0, le_rfl, fun _ _ => Nat.zero_le _, rfl⟩, hc⟩
    · have hle' : ∀ b, max.map (· - 1) = some b → min - 1 ≤ b := by
        intro b hb'
        obtain ⟨b₀, rfl, rfl⟩ := Option.map_eq_some_iff.mp hb'
        have := hle b₀ rfl
        omega
      have hbound : min - 1 + (n - y) < bound := by
        by_cases hmin : min = 0
        · have : y ≠ x := fun hyx => hne ⟨hmin, hyx⟩
          omega
        · omega
      obtain ⟨z, hyz, hz, ⟨k, hk, hkm, ht⟩, hc⟩ := ih hle' hbound hrep
      refine ⟨z, hxy.trans hyz, hz, ⟨k + 1, by omega, fun b hb' => ?_, y, hr, ht⟩, hc⟩
      subst hb'
      have h0 : b ≠ 0 := fun h0 => hmax (by rw [h0])
      have := hkm (b - 1) rfl
      omega

theorem Decides.rep_complete (hm : m.Decides r) {greedy : Bool} (k : ℕ) :
    ∀ {min : ℕ} {max : Option ℕ} {x : ℕ} {hx : x ≤ n} {c : Continuation n x} {y : ℕ} (hxy : x ≤ y) (hy : y ≤ n),
      (∀ b, max = some b → min ≤ b) → min ≤ k → (∀ b, max = some b → k ≤ b) → Times r k x y →
        c y hxy hy = true → rep m min max greedy x hx c = true := by
  induction k with
  | zero =>
    rintro min max x hx c y hxy hy hle hk - rfl hc
    exact (rep_iff hm hle).mpr (.inl ⟨Nat.le_zero.mp hk, hc⟩)
  | succ k ih =>
    rintro min max x hx c y hxy hy hle hk hkm ⟨z, hr, ht⟩ hc
    obtain ⟨hxz, hz⟩ := hm.forward x z hx hr
    by_cases hempty : min = 0 ∧ z = x
    · -- An empty iteration past the minimum is left out.
      obtain ⟨rfl, rfl⟩ := hempty
      exact ih hxy hy hle (Nat.zero_le k) (fun b hb => (Nat.le_succ k).trans (hkm b hb)) ht hc
    · refine (rep_iff hm hle).mpr (.inr ⟨fun hmax => ?_, z, hxz, hz, hr, hempty, ?_⟩)
      · exact absurd (hkm 0 hmax) (Nat.not_succ_le_zero k)
      · refine ih (hm.forward.times k z y hz ht).1 hy (fun b hb => ?_) (by omega) (fun b hb => ?_) ht hc
        all_goals
          obtain ⟨b₀, rfl, rfl⟩ := Option.map_eq_some_iff.mp hb
          have := hle b₀ rfl
          have := hkm b₀ rfl
          omega

theorem Decides.rep (hm : m.Decides r) {min : ℕ} {max : Option ℕ}
    (greedy : Bool) (hle : ∀ b, max = some b → min ≤ b) :
    Decides (rep m min max greedy) (Repeated r min max) where
  forward := by
    rintro x y hx ⟨k, -, -, ht⟩
    exact hm.forward.times k x y hx ht
  iff := by
    intro x hx c
    constructor
    · exact hm.rep_sound _ hle (Nat.lt_succ_self _)
    · rintro ⟨y, hxy, hy, ⟨k, hk, hkm, ht⟩, hc⟩
      exact hm.rep_complete k hxy hy hle hk hkm ht hc

end Matcher

end WotAv.Lib
