import Mathlib.Data.List.Lex
import Mathlib.Data.List.Sort
import WotAv.Lib.Number

/-!
# JSON values and their canonical text

Values over any numbers that have texts. The text of a value tells where it
ends, so it can be taken off the front of what follows; the canonical text
therefore determines the value up to the order of the members of its records.
-/

namespace WotAv.Lib

/-- Numbers that can be told apart by their texts. -/
class Numerals (ν : Type) where
  chars : ν → List Char
  inj : ∀ {a b}, chars a = chars b → a = b
  numeral : ∀ a, ∀ c ∈ chars a, FiniteNumber.isNumeral c
  ne_nil : ∀ a, chars a ≠ []

instance : Numerals FiniteNumber where
  chars := FiniteNumber.toChars
  inj := FiniteNumber.toChars_inj
  numeral := FiniteNumber.toChars_numeral
  ne_nil := FiniteNumber.toChars_ne_nil

inductive Json (ν : Type)
  | null
  | bool (value : Bool)
  | number (value : ν)
  | string (value : String)
  | array (items : List (Json ν))
  | object (members : List (String × Json ν))

namespace Json

variable {ν : Type}

def asString : Json ν → Option String
  | .string value => some value
  | _ => none

def asNumber : Json ν → Option ν
  | .number value => some value
  | _ => none

def asArray : Json ν → Option (List (Json ν))
  | .array items => some items
  | _ => none

def asRecord : Json ν → Option (List (String × Json ν))
  | .object members => some members
  | _ => none

def get (key : String) (members : List (String × Json ν)) : Option (Json ν) :=
  (members.find? (·.1 = key)).map (·.2)

-- Strings

def hexChars (n : Nat) : List Char := [Nat.digitChar (n / 16), Nat.digitChar (n % 16)]

/-- How `JSON.stringify` writes a character of a string. -/
def escape (c : Char) : List Char :=
  if c = '"' ∨ c = '\\' then ['\\', c]
  else if c.toNat = 8 then ['\\', 'b']
  else if c.toNat = 9 then ['\\', 't']
  else if c.toNat = 10 then ['\\', 'n']
  else if c.toNat = 12 then ['\\', 'f']
  else if c.toNat = 13 then ['\\', 'r']
  else if c.toNat < 32 then ['\\', 'u', '0', '0'] ++ hexChars c.toNat
  else [c]

def hexValue (c : Char) : Nat := if c.isDigit then c.toNat - 48 else c.toNat - 87

def unescape : List Char → Option (Char × List Char)
  | '"' :: _ => none
  | '\\' :: 'u' :: _ :: _ :: h :: l :: rest => some (Char.ofNat (hexValue h * 16 + hexValue l), rest)
  | '\\' :: 'b' :: rest => some (Char.ofNat 8, rest)
  | '\\' :: 't' :: rest => some (Char.ofNat 9, rest)
  | '\\' :: 'n' :: rest => some (Char.ofNat 10, rest)
  | '\\' :: 'f' :: rest => some (Char.ofNat 12, rest)
  | '\\' :: 'r' :: rest => some (Char.ofNat 13, rest)
  | '\\' :: c :: rest => some (c, rest)
  | c :: rest => some (c, rest)
  | [] => none

theorem hexValue_chars : ∀ n < 32, hexValue (Nat.digitChar (n / 16)) * 16 + hexValue (Nat.digitChar (n % 16)) = n := by
  decide

theorem unescape_escape (c : Char) (rest : List Char) : unescape (escape c ++ rest) = some (c, rest) := by
  have named : ∀ n, c.toNat = n → c = Char.ofNat n := fun n hn => by rw [← hn, Char.ofNat_toNat]
  unfold escape
  split
  · rename_i h
    rcases h with rfl | rfl <;> rfl
  · rename_i hq
    simp only [not_or] at hq
    split
    · rename_i h; simp [unescape, named 8 h]
    split
    · rename_i h; simp [unescape, named 9 h]
    split
    · rename_i h; simp [unescape, named 10 h]
    split
    · rename_i h; simp [unescape, named 12 h]
    split
    · rename_i h; simp [unescape, named 13 h]
    split
    · rename_i h
      simp [unescape, hexChars, hexValue_chars c.toNat h, Char.ofNat_toNat]
    · simp only [List.cons_append, List.nil_append]
      unfold unescape
      split <;> simp_all

theorem escape_inj {c d : Char} {r s : List Char} (h : escape c ++ r = escape d ++ s) : c = d ∧ r = s := by
  have := congrArg unescape h
  simpa [unescape_escape] using this

theorem escape_quote (c : Char) (r s : List Char) : escape c ++ r ≠ '"' :: s := by
  intro h
  have := congrArg unescape h
  rw [unescape_escape] at this
  cases this

def quoted (value : List Char) : List Char := value.flatMap escape ++ ['"']

theorem quoted_inj {a b : List Char} {r s : List Char} (h : quoted a ++ r = quoted b ++ s) : a = b ∧ r = s := by
  induction a generalizing b with
  | nil =>
    cases b with
    | nil => exact ⟨rfl, by simpa [quoted] using h⟩
    | cons d b =>
      simp only [quoted, List.flatMap_nil, List.nil_append, List.flatMap_cons, List.append_assoc, List.cons_append] at h
      exact absurd h.symm (escape_quote d _ _)
  | cons c a ih =>
    cases b with
    | nil =>
      simp only [quoted, List.flatMap_nil, List.nil_append, List.flatMap_cons, List.append_assoc, List.cons_append] at h
      exact absurd h (escape_quote c _ _)
    | cons d b =>
      simp only [quoted, List.flatMap_cons, List.append_assoc] at h
      obtain ⟨rfl, h⟩ := escape_inj h
      obtain ⟨rfl, rfl⟩ := ih (b := b) (by simpa [quoted] using h)
      exact ⟨rfl, rfl⟩

def stringChars (value : String) : List Char := '"' :: quoted value.toList

theorem stringChars_inj {a b : String} {r s : List Char} (h : stringChars a ++ r = stringChars b ++ s) :
    a = b ∧ r = s := by
  obtain ⟨ha, hr⟩ := quoted_inj (List.cons.inj h).2
  exact ⟨String.toList_injective ha, hr⟩

-- Values

/-- The first character tells the kinds of values apart, and the closing
brackets from all of them. -/
def kindOf (c : Char) : Nat :=
  if FiniteNumber.isNumeral c then 0 else if c = 'n' then 1 else if c = 't' then 2 else if c = 'f' then 3
  else if c = '"' then 4 else if c = '[' then 5 else if c = '{' then 6 else 7

def kind : Json ν → Nat
  | .number _ => 0
  | .null => 1
  | .bool true => 2
  | .bool false => 3
  | .string _ => 4
  | .array _ => 5
  | .object _ => 6

theorem kind_lt (a : Json ν) : kind a < 7 := by
  cases a with
  | bool value => cases value <;> simp [kind]
  | _ => simp [kind]

section
variable [Numerals ν]

def comma {α : Type} (rest : List α) : List Char := if rest.isEmpty then [] else [',']

mutual
def chars : Json ν → List Char
  | .null => "null".toList
  | .bool true => "true".toList
  | .bool false => "false".toList
  | .number value => Numerals.chars value
  | .string value => stringChars value
  | .array items => '[' :: itemsChars items
  | .object members => '{' :: membersChars members
def itemsChars : List (Json ν) → List Char
  | [] => [']']
  | item :: items => chars item ++ comma items ++ itemsChars items
def membersChars : List (String × Json ν) → List Char
  | [] => ['}']
  | (key, item) :: members => stringChars key ++ ':' :: chars item ++ comma members ++ membersChars members
end

/-- What a value can be followed by, if its text is to end where it does. -/
def Ends (rest : List Char) : Prop := ∀ c ∈ rest.head?, FiniteNumber.isNumeral c = false

theorem ends_cons {c : Char} (rest : List Char) (h : FiniteNumber.isNumeral c = false) : Ends (c :: rest) := by
  simp [Ends, h]

theorem chars_head (a : Json ν) : ∃ c cs, chars a = c :: cs ∧ kindOf c = kind a := by
  cases a with
  | null => exact ⟨'n', _, rfl, (by decide : kindOf 'n' = 1)⟩
  | bool value =>
    cases value with
    | true => exact ⟨'t', _, rfl, (by decide : kindOf 't' = 2)⟩
    | false => exact ⟨'f', _, rfl, (by decide : kindOf 'f' = 3)⟩
  | number value =>
    obtain ⟨c, cs, hc⟩ := List.exists_cons_of_ne_nil (Numerals.ne_nil value)
    have hn := Numerals.numeral value c (by simp [hc])
    exact ⟨c, cs, hc, by simp [kindOf, hn, kind]⟩
  | string value => exact ⟨'"', _, rfl, (by decide : kindOf '"' = 4)⟩
  | array items => exact ⟨'[', _, by rw [chars], (by decide : kindOf '[' = 5)⟩
  | object members => exact ⟨'{', _, by rw [chars], (by decide : kindOf '{' = 6)⟩

theorem chars_close (a : Json ν) (r s : List Char) {c : Char} (hc : kindOf c = 7) : chars a ++ r ≠ c :: s := by
  obtain ⟨d, ds, hd, hk⟩ := chars_head a
  intro h
  rw [hd] at h
  have hlt := kind_lt a
  rw [← hk, (List.cons.inj h).1, hc] at hlt
  exact absurd hlt (by decide)

theorem same_kind {a b : Json ν} {r s : List Char} (h : chars a ++ r = chars b ++ s) : kind a = kind b := by
  obtain ⟨c, cs, hc, hk⟩ := chars_head a
  obtain ⟨d, ds, hd, hk'⟩ := chars_head b
  rw [hc, hd] at h
  rw [← hk, ← hk', (List.cons.inj h).1]

theorem numeral_inj {a b : ν} {r s : List Char} (hr : Ends r) (hs : Ends s)
    (h : Numerals.chars a ++ r = Numerals.chars b ++ s) : a = b ∧ r = s := by
  have cut : ∀ (n : ν) (t : List Char), Ends t → (Numerals.chars n ++ t).takeWhile FiniteNumber.isNumeral = Numerals.chars n := by
    intro n t ht
    rw [List.takeWhile_append_of_pos (Numerals.numeral n)]
    cases t with
    | nil => simp
    | cons c t =>
      have : FiniteNumber.isNumeral c = false := ht c (by simp)
      simp [this]
  have hn := congrArg (List.takeWhile FiniteNumber.isNumeral) h
  rw [cut a r hr, cut b s hs] at hn
  exact ⟨Numerals.inj hn, by simpa [hn] using h⟩

theorem ends_items (items : List (Json ν)) (r : List Char) : Ends (comma items ++ itemsChars items ++ r) := by
  cases items with
  | nil => simp [comma, itemsChars, Ends, FiniteNumber.isNumeral]
  | cons item items => simp [comma, Ends, FiniteNumber.isNumeral]

theorem ends_members (members : List (String × Json ν)) (r : List Char) :
    Ends (comma members ++ membersChars members ++ r) := by
  cases members with
  | nil => simp [comma, membersChars, Ends, FiniteNumber.isNumeral]
  | cons member members => simp [comma, Ends, FiniteNumber.isNumeral]

mutual
theorem chars_inj : ∀ (a b : Json ν) {r s : List Char}, Ends r → Ends s → chars a ++ r = chars b ++ s → a = b ∧ r = s
  | .null, b, r, s, _, _, h => by
    have hk := same_kind h
    cases b <;> simp only [kind] at hk <;> first | contradiction | skip
    · exact ⟨rfl, by simpa [chars] using h⟩
    · split at hk <;> contradiction
  | .bool a, b, r, s, _, _, h => by
    have hk := same_kind h
    cases a <;> cases b <;> simp only [kind] at hk <;> first | contradiction | skip
    all_goals
      rename_i b
      cases b <;> simp only at hk <;> first | contradiction | exact ⟨rfl, by simpa [chars] using h⟩
  | .number a, b, r, s, hr, hs, h => by
    have hk := same_kind h
    cases b <;> simp only [kind] at hk <;> first | contradiction | skip
    · split at hk <;> contradiction
    · obtain ⟨rfl, rfl⟩ := numeral_inj hr hs (by simpa [chars] using h)
      exact ⟨rfl, rfl⟩
  | .string a, b, r, s, _, _, h => by
    have hk := same_kind h
    cases b <;> simp only [kind] at hk <;> first | contradiction | skip
    · split at hk <;> contradiction
    · obtain ⟨rfl, rfl⟩ := stringChars_inj (by simpa [chars] using h)
      exact ⟨rfl, rfl⟩
  | .array as, b, r, s, _, _, h => by
    have hk := same_kind h
    cases b <;> simp only [kind] at hk <;> first | contradiction | skip
    · split at hk <;> contradiction
    · obtain ⟨rfl, rfl⟩ := itemsChars_inj as _ (by simpa [chars] using h)
      exact ⟨rfl, rfl⟩
  | .object as, b, r, s, _, _, h => by
    have hk := same_kind h
    cases b <;> simp only [kind] at hk <;> first | contradiction | skip
    · split at hk <;> contradiction
    · obtain ⟨rfl, rfl⟩ := membersChars_inj as _ (by simpa [chars] using h)
      exact ⟨rfl, rfl⟩

theorem itemsChars_inj : ∀ (as bs : List (Json ν)) {r s : List Char},
    itemsChars as ++ r = itemsChars bs ++ s → as = bs ∧ r = s
  | [], [], _, _, h => ⟨rfl, by simpa [itemsChars] using h⟩
  | [], b :: bs, r, s, h => by
    simp only [itemsChars, List.append_assoc] at h
    exact absurd h.symm (chars_close b _ _ (by decide))
  | a :: as, [], r, s, h => by
    simp only [itemsChars, List.append_assoc] at h
    exact absurd h (chars_close a _ _ (by decide))
  | a :: as, b :: bs, r, s, h => by
    simp only [itemsChars] at h
    obtain ⟨rfl, h⟩ := chars_inj a b (ends_items as r) (ends_items bs s) (by simpa using h)
    cases as with
    | nil =>
      cases bs with
      | nil => exact ⟨rfl, by simpa [comma, itemsChars] using h⟩
      | cons b bs => simp [comma, itemsChars] at h
    | cons a' as =>
      cases bs with
      | nil => simp [comma, itemsChars] at h
      | cons b bs =>
        obtain ⟨has, rfl⟩ := itemsChars_inj (a' :: as) (b :: bs) (by simpa [comma] using h)
        exact ⟨by rw [has], rfl⟩

theorem membersChars_inj : ∀ (as bs : List (String × Json ν)) {r s : List Char},
    membersChars as ++ r = membersChars bs ++ s → as = bs ∧ r = s
  | [], [], _, _, h => ⟨rfl, by simpa [membersChars] using h⟩
  | [], (key, b) :: bs, r, s, h => by simp [membersChars, stringChars] at h
  | (key, a) :: as, [], r, s, h => by simp [membersChars, stringChars] at h
  | (key, a) :: as, (key', b) :: bs, r, s, h => by
    simp only [membersChars] at h
    obtain ⟨rfl, h⟩ := stringChars_inj (a := key) (b := key') (by simpa using h)
    obtain ⟨rfl, h⟩ := chars_inj a b (ends_members as r) (ends_members bs s) (by simpa using h)
    cases as with
    | nil =>
      cases bs with
      | nil => exact ⟨rfl, by simpa [comma, membersChars] using h⟩
      | cons b bs => simp [comma, membersChars] at h
    | cons a' as =>
      cases bs with
      | nil => simp [comma, membersChars] at h
      | cons b bs =>
        obtain ⟨has, rfl⟩ := membersChars_inj (a' :: as) (b :: bs) (by simpa [comma] using h)
        exact ⟨by rw [has], rfl⟩
end

end

-- The canonical form

def utf16 (c : Char) : List Nat :=
  if c.toNat < 0x10000 then [c.toNat] else [0xd800 + (c.toNat - 0x10000) / 0x400, 0xdc00 + (c.toNat - 0x10000) % 0x400]

def keyLe (a b : String) : Bool := a.toList.flatMap utf16 ≤ b.toList.flatMap utf16

mutual
def canonical : Json ν → Json ν
  | .array items => .array (canonicalItems items)
  | .object members => .object ((canonicalMembers members).insertionSort fun a b => keyLe a.1 b.1)
  | value => value
def canonicalItems : List (Json ν) → List (Json ν)
  | [] => []
  | item :: items => canonical item :: canonicalItems items
def canonicalMembers : List (String × Json ν) → List (String × Json ν)
  | [] => []
  | (key, item) :: members => (key, canonical item) :: canonicalMembers members
end

def Same (a b : Json ν) : Prop := canonical a = canonical b

theorem Same.refl (a : Json ν) : Same a a := rfl

section
variable [Numerals ν]

def canonicalJson (value : Json ν) : String := String.ofList (chars (canonical value))

theorem canonicalJson_inj {a b : Json ν} : canonicalJson a = canonicalJson b ↔ Same a b := by
  constructor
  · intro h
    have h := String.ofList_injective h
    exact (chars_inj (canonical a) (canonical b) (r := []) (s := []) (by simp [Ends]) (by simp [Ends]) (by simp [h])).1
  · intro h
    rw [canonicalJson, canonicalJson, h]

end

end Json

end WotAv.Lib
