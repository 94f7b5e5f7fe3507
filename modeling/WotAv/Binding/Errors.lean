import Mathlib.Algebra.Group.Nat.Defs
import Mathlib.Data.Int.Order.Basic

/-!
# Errors and checked numbers (`src/binding/errors.ts`)
-/

namespace WotAv.Binding

inductive ExecutionCertainty
  | notSent
  | rejected
  | unknown
  deriving DecidableEq, Repr

inductive OnvifErrorCode
  | invalidConfiguration | invalidRegistry | invalidValue | invalidXml | xmlLimit
  | invalidSecurity | authenticationFailed | policyDenied | unsupportedCapability
  | transportError | outcomeUnknown | soapFault | runtimeClosed
  deriving DecidableEq, Repr

structure OnvifError where
  code : OnvifErrorCode
  message : String
  execution : ExecutionCertainty := .notSent
  deriving DecidableEq, Repr

/-- A JavaScript number as the integer checks see it: an integer of any
magnitude, or a fraction, a NaN or an infinity. -/
inductive Number
  | integer (value : Int)
  | other
  deriving DecidableEq, Repr

instance : Coe Nat Number := ⟨fun n => .integer n⟩

def maxSafeInteger : Nat := 2 ^ 53 - 1

def invalidValue (message : String) : Except OnvifError α := .error ⟨.invalidValue, message, .notSent⟩

/-- `Number.isSafeInteger(value) && value >= minimum && value <= maximum`. -/
def integerWithin (minimum maximum : Nat) : Number → Option Nat
  | .integer value =>
    if value.natAbs ≤ maxSafeInteger ∧ (minimum : Int) ≤ value ∧ value ≤ maximum then some value.toNat
    else none
  | .other => none

def positiveInteger (value : Number) (name : String) (maximum : Nat := maxSafeInteger) :
    Except OnvifError Nat :=
  match integerWithin 1 maximum value with
  | some n => .ok n
  | none => .error ⟨.invalidConfiguration,
      name ++ " must be a positive integer within its supported bound", .notSent⟩

/-- `if (!condition) throw new OnvifError(code, message, execution)`. -/
def require (condition : Prop) [Decidable condition] (code : OnvifErrorCode) (message : String)
    (execution : ExecutionCertainty := .notSent) : Except OnvifError Unit :=
  if condition then .ok () else .error ⟨code, message, execution⟩

@[simp] theorem require_ok {p : Prop} [Decidable p] : require p code message execution = .ok u ↔ p := by
  unfold require
  split <;> simp_all

@[simp] theorem require_bind_ok {p : Prop} [Decidable p] {k : Unit → Except OnvifError α} :
    (require p code message execution >>= k) = .ok a ↔ p ∧ k () = .ok a := by
  unfold require
  split
  · rename_i hp
    exact ⟨fun h => ⟨hp, h⟩, fun h => h.2⟩
  · rename_i hp
    exact ⟨fun h => (nomatch h), fun h => absurd h.1 hp⟩

theorem integerWithin_some :
    integerWithin minimum maximum value = some n ↔
      value = (n : Number) ∧ minimum ≤ n ∧ n ≤ maximum ∧ n ≤ maxSafeInteger := by
  cases value with
  | other => simp [integerWithin]
  | integer v =>
    simp only [integerWithin, Option.ite_none_right_eq_some, Option.some.injEq, Number.integer.injEq]
    omega

theorem integerWithin_natCast (h : minimum ≤ n ∧ n ≤ maximum ∧ n ≤ maxSafeInteger) :
    integerWithin minimum maximum (n : Number) = some n :=
  integerWithin_some.mpr ⟨rfl, h⟩

theorem positiveInteger_ok :
    positiveInteger value name maximum = .ok n ↔
      value = (n : Number) ∧ 0 < n ∧ n ≤ maximum ∧ n ≤ maxSafeInteger := by
  rw [positiveInteger]
  cases h : integerWithin 1 maximum value with
  | none =>
    simp only [reduceCtorEq, false_iff]
    intro hn
    rw [integerWithin_some.mpr hn] at h
    cases h
  | some m =>
    simp only [Except.ok.injEq]
    constructor
    · rintro rfl; exact integerWithin_some.mp h
    · intro hn
      rw [integerWithin_some.mpr hn] at h
      exact (Option.some.inj h).symm

end WotAv.Binding
