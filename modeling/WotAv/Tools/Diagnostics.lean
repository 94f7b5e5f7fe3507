import Mathlib.Data.Nat.Notation

/-!
# Stable diagnostics

`AVError` as the tools raise it, with the fields that their checks fill in.
-/

namespace WotAv.Tools

inductive Code
  | invalidSyntax
  | unsupportedNativeAccess
  | invalidNativeParameter
  | resourceLimit
  deriving DecidableEq, Repr

inductive Measured
  | count (n : ℕ)
  | number (digits exponent : ℕ)
  deriving DecidableEq, Repr

structure AVError where
  code : Code
  message : String
  stage : String
  limit : Option String := none
  measured : Option Measured := none
  deriving DecidableEq, Repr

end WotAv.Tools
