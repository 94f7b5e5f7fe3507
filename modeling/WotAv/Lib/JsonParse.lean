import Mathlib.Tactic.NormNum
import WotAv.Lib.Json
import WotAv.Lib.Numerals

/-!
# Reading JSON texts

`parse` is `JSON.parse`. It is given the reader of its numbers, and takes the
text of a number to be as long as it can be.
-/

namespace WotAv.Lib

open Nat (toDigits ofDigitChars)

-- Numbers

def intChars (n : Int) : List Char :=
  if n < 0 then '-' :: toDigits 10 n.natAbs else toDigits 10 n.natAbs

theorem toDigits_isDigit (n : Nat) : ∀ c ∈ toDigits 10 n, c.isDigit := FiniteNumber.digits_isDigit n

theorem intChars_nat (n : Nat) : intChars n = toDigits 10 n := by
  simp [intChars]

theorem intChars_inj {a b : Int} (h : intChars a = intChars b) : a = b := by
  have head : ∀ n m : Nat, toDigits 10 n ≠ '-' :: toDigits 10 m := by
    intro n m h
    have := toDigits_isDigit n '-' (by simp [h])
    simp at this
  have digits : ∀ n m : Nat, toDigits 10 n = toDigits 10 m → n = m := by
    intro n m h
    rw [← Nat.ofDigitChars_ten_toDigits (n := n), h, Nat.ofDigitChars_ten_toDigits]
  unfold intChars at h
  split at h <;> split at h
  · have := digits _ _ (List.cons.inj h).2
    omega
  · exact absurd h.symm (head _ _)
  · exact absurd h (head _ _)
  · have := digits _ _ h
    omega

instance : Numerals Int where
  chars := intChars
  inj := intChars_inj
  numeral n c hc := by
    have hd : ∀ c ∈ toDigits 10 n.natAbs, FiniteNumber.isNumeral c := fun c hc => by
      simp [FiniteNumber.isNumeral, toDigits_isDigit _ c hc]
    unfold intChars at hc
    split at hc
    · rcases List.mem_cons.mp hc with rfl | hc
      · decide
      · exact hd c hc
    · exact hd c hc
  ne_nil n := by
    unfold intChars
    split <;> simp [Nat.toDigits_ne_nil]

def someDigits (cs : List Char) : Option (List Char × List Char) :=
  if cs.takeWhile Char.isDigit = [] then none
  else some (cs.takeWhile Char.isDigit, cs.dropWhile Char.isDigit)

def readFraction : List Char → Option (List Char × List Char)
  | '.' :: cs => someDigits cs
  | cs => some ([], cs)

def readSigned : List Char → Option (Int × List Char)
  | '-' :: cs => (someDigits cs).map fun (ds, cs) => (-(ofDigitChars 10 ds 0 : Int), cs)
  | '+' :: cs => (someDigits cs).map fun (ds, cs) => (ofDigitChars 10 ds 0, cs)
  | cs => (someDigits cs).map fun (ds, cs) => (ofDigitChars 10 ds 0, cs)

def readExponent? : List Char → Option (Int × List Char)
  | 'e' :: cs => readSigned cs
  | 'E' :: cs => readSigned cs
  | cs => some (0, cs)

-- Strings

namespace Json

def isSpace (c : Char) : Bool := c = ' ' || c = '\t' || c = '\n' || c = '\r'

def hexDigit (c : Char) : Option Nat :=
  if c.isDigit then some (c.toNat - 48)
  else if 'a' ≤ c ∧ c ≤ 'f' then some (c.toNat - 87)
  else if 'A' ≤ c ∧ c ≤ 'F' then some (c.toNat - 55)
  else none

/-- The code unit of `\u` and four digits, and the rest. -/
def codeUnit : List Char → Option (Nat × List Char)
  | a :: b :: c :: d :: cs => do
    return ((← hexDigit a) * 4096 + (← hexDigit b) * 256 + (← hexDigit c) * 16 + (← hexDigit d), cs)
  | _ => none

/-- The character at the front of the text of a string, and the rest. A lone
surrogate is no character here. -/
def readChar : List Char → Option (Char × List Char)
  | '\\' :: 'u' :: cs => do
    let (high, cs) ← codeUnit cs
    if high < 0xd800 ∨ 0xdfff < high then some (Char.ofNat high, cs)
    else match cs with
      | '\\' :: 'u' :: cs => do
        let (low, cs) ← codeUnit cs
        if high < 0xdc00 ∧ 0xdc00 ≤ low ∧ low ≤ 0xdfff then
          some (Char.ofNat (0x10000 + (high - 0xd800) * 0x400 + (low - 0xdc00)), cs)
        else none
      | _ => none
  | '\\' :: 'b' :: cs => some (Char.ofNat 8, cs)
  | '\\' :: 't' :: cs => some (Char.ofNat 9, cs)
  | '\\' :: 'n' :: cs => some (Char.ofNat 10, cs)
  | '\\' :: 'f' :: cs => some (Char.ofNat 12, cs)
  | '\\' :: 'r' :: cs => some (Char.ofNat 13, cs)
  | '\\' :: c :: cs => if c = '"' ∨ c = '\\' ∨ c = '/' then some (c, cs) else none
  | '"' :: _ => none
  | c :: cs => if c.toNat < 32 then none else some (c, cs)
  | [] => none

-- Values

mutual
def map {ν μ : Type} (f : ν → μ) : Json ν → Json μ
  | .null => .null
  | .bool value => .bool value
  | .number value => .number (f value)
  | .string value => .string value
  | .array items => .array (mapItems f items)
  | .object members => .object (mapMembers f members)
def mapItems {ν μ : Type} (f : ν → μ) : List (Json ν) → List (Json μ)
  | [] => []
  | item :: items => item.map f :: mapItems f items
def mapMembers {ν μ : Type} (f : ν → μ) : List (String × Json ν) → List (String × Json μ)
  | [] => []
  | (key, item) :: members => (key, item.map f) :: mapMembers f members
end

mutual
def Distinct {ν : Type} : Json ν → Prop
  | .array items => DistinctItems items
  | .object members => (members.map (·.1)).Nodup ∧ DistinctMembers members
  | _ => True
def DistinctItems {ν : Type} : List (Json ν) → Prop
  | [] => True
  | item :: items => item.Distinct ∧ DistinctItems items
def DistinctMembers {ν : Type} : List (String × Json ν) → Prop
  | [] => True
  | (_, item) :: members => item.Distinct ∧ DistinctMembers members
end

end Json

end WotAv.Lib
