import WotAv.Lib.JsonParse
import WotAv.Tools.Diagnostics

/-!
# Exact numbers

Integers and decimals as strict JSON keeps them apart: a `Decimal` is a sign,
a coefficient and an exponent, so that `1.0` and `1.00` differ.
-/

namespace WotAv.Tools

open Nat (toDigits)
open WotAv.Lib (Json intChars)

def MAX_DIGITS : ℕ := 1024
def MAX_EXPONENT : ℕ := 512
def MAX_DEPTH : ℕ := 128

/-- `decimal.Decimal`, finite. -/
structure Decimal where
  negative : Bool
  coefficient : ℕ
  exponent : ℤ
  deriving DecidableEq, Repr

namespace Decimal

def digits (d : Decimal) : List Char := toDigits 10 d.coefficient

def signChars (d : Decimal) : List Char := if d.negative then ['-'] else []

end Decimal

inductive Number
  | integer (value : ℤ)
  | decimal (value : Decimal)
  deriving DecidableEq, Repr

abbrev Value := Json Number

def bit_length (n : ℤ) : ℕ := if n = 0 then 0 else n.natAbs.log2 + 1

def withinBudget (digits exponent : ℕ) : Except AVError Unit :=
  if MAX_DIGITS < digits ∨ MAX_EXPONENT < exponent then
    .error ⟨.resourceLimit, "Exact number exceeds declared digit/exponent budget", "numeric",
      some "numeric-digits/exponent", some (.number digits exponent)⟩
  else .ok ()

def numeric_limit : Number → Except AVError Unit
  | .decimal d => withinBudget d.digits.length d.exponent.natAbs
  | .integer n =>
    if MAX_DIGITS * 4 < bit_length n then
      .error ⟨.resourceLimit, "Integer digit budget exceeded", "numeric", some "numeric-digits", none⟩
    else withinBudget (toDigits 10 n.natAbs).length 0

/-- The budget that every value is checked against first. -/
def nesting (depth : ℕ) : Except AVError Unit :=
  if MAX_DEPTH < depth then
    .error ⟨.resourceLimit, "JSON nesting budget exceeded", "parse", some "json-depth", some (.count depth)⟩
  else .ok ()

mutual
/-- `check_json_domain`. Texts hold Unicode scalars, and names are texts. -/
def check_json_domain (depth : ℕ) : Value → Except AVError Unit
  | .object members => do
    nesting depth
    checkMembers (depth + 1) members
  | .array items => do
    nesting depth
    checkItems (depth + 1) items
  | .number value => do
    nesting depth
    numeric_limit value
  | _ => nesting depth
def checkItems (depth : ℕ) : List Value → Except AVError Unit
  | [] => .ok ()
  | item :: items => do
    check_json_domain depth item
    checkItems depth items
def checkMembers (depth : ℕ) : List (String × Value) → Except AVError Unit
  | [] => .ok ()
  | (_, item) :: members => do
    check_json_domain depth item
    checkMembers depth members
end

end WotAv.Tools
