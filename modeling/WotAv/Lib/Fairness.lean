import WotAv.Lib.Transition

/-!
# Endless runs

Runs that go on for ever, where nothing may happen for a while, and weak
fairness: what stays possible happens in the end.
-/

namespace WotAv.Lib.System

variable {σ ι : Type*}

structure Endless (m : System σ ι) where
  state : Nat → σ
  label : Nat → Option ι
  init : m.init (state 0)
  step : ∀ n, (label n = none ∧ state (n + 1) = state n) ∨ ∃ i, label n = some i ∧ m.step (state n) i (state (n + 1))

namespace Endless

variable {m : System σ ι} (run : m.Endless)

theorem reachable (n : Nat) : m.Reachable (run.state n) := by
  induction n with
  | zero => exact .start run.init
  | succ n ih =>
    rcases run.step n with ⟨-, hidle⟩ | ⟨i, -, hi⟩
    · exact hidle ▸ ih
    · exact ih.next hi

theorem keeps {P : σ → Prop} (hstep : ∀ s i s', m.Reachable s → P s → m.step s i s' → P s') {n k : Nat} (hk : n ≤ k)
    (h : P (run.state n)) : P (run.state k) := by
  induction hk with
  | refl => exact h
  | @step k hk ih =>
    rcases run.step k with ⟨-, hidle⟩ | ⟨i, -, hi⟩
    · exact hidle ▸ ih
    · exact hstep _ _ _ (run.reachable k) ih hi

/-- From every moment on there is one where no label of the kind is possible,
or where one is taken. -/
def Fair (A : ι → Prop) : Prop :=
  ∀ n, ∃ k, n ≤ k ∧ ((∀ i s', A i → ¬m.step (run.state k) i s') ∨ ∃ i, A i ∧ m.step (run.state k) i (run.state (k + 1)))

theorem leads {P Q : σ → Prop} (rank : σ → Nat)
    (h : ∀ n, P (run.state n) →
      ∃ k, n ≤ k ∧ (Q (run.state k) ∨ P (run.state k) ∧ rank (run.state k) < rank (run.state n)))
    (n : Nat) (hn : P (run.state n)) : ∃ k, n ≤ k ∧ Q (run.state k) := by
  induction hr : rank (run.state n) using Nat.strongRecOn generalizing n with
  | ind r ih =>
    obtain ⟨k, hk, hq | ⟨hp, hlt⟩⟩ := h n hn
    · exact ⟨k, hk, hq⟩
    · obtain ⟨l, hl, hq⟩ := ih _ (hr ▸ hlt) k hp rfl
      exact ⟨l, Nat.le_trans hk hl, hq⟩

end Endless

end WotAv.Lib.System
