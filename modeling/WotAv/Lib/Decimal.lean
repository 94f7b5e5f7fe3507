import Mathlib.Algebra.Order.Field.Rat
import Mathlib.Tactic.FieldSimp
import Mathlib.Tactic.LinearCombination
import Mathlib.Tactic.Ring

/-!
# Finite decimals

Numerals are compared by their lowest forms.
-/

namespace WotAv.Lib

/-- `integer / 10 ^ scale`, with no zero that could be struck off. -/
structure Decimal where
  integer : Int
  scale : Nat
  lowest : scale = 0 ∨ ¬(10 : Int) ∣ integer
  deriving DecidableEq

namespace Decimal

def lower (integer : Int) : Nat → Int × Nat
  | 0 => (integer, 0)
  | scale + 1 => if integer % 10 = 0 then lower (integer / 10) scale else (integer, scale + 1)

theorem lower_lowest (integer : Int) (scale : Nat) :
    (lower integer scale).2 = 0 ∨ ¬(10 : Int) ∣ (lower integer scale).1 := by
  induction scale generalizing integer with
  | zero => exact .inl rfl
  | succ scale ih =>
    unfold lower
    split
    · exact ih _
    · rename_i h
      exact .inr fun hd => h (Int.emod_eq_zero_of_dvd hd)

def ofScaled (integer : Int) (scale : Nat) : Decimal :=
  ⟨(lower integer scale).1, (lower integer scale).2, lower_lowest integer scale⟩

end Decimal

end WotAv.Lib
