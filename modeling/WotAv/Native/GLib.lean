import Mathlib.Algebra.Group.Nat.Defs
import Mathlib.Data.Nat.Basic

/-!
# Unsigned integers of the native worker

A `guint` is a natural number below `2 ^ 32`; its sum and difference wrap.
-/

namespace WotAv.Native

def guintAdd (a b : Nat) : Nat := (a + b) % 2 ^ 32

def guintSub (a b : Nat) : Nat := (a + 2 ^ 32 - b) % 2 ^ 32

theorem guintSub_of_le (h : b ≤ a) (ha : a < 2 ^ 32) : guintSub a b = a - b := by
  unfold guintSub
  omega

end WotAv.Native
