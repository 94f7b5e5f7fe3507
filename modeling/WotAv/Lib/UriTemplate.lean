import WotAv.Lib.Utf8

/-!
# URI templates

RFC 6570 for values that are texts: the grammar of templates, and what a
template expands to. A template alternates runs of literals and expressions.
-/

namespace WotAv.Lib.UriTemplate

-- Characters

def isHexdig (c : Char) : Bool := c.isDigit || ('a' ≤ c && c ≤ 'f') || ('A' ≤ c && c ≤ 'F')

def isUnreserved (c : Char) : Bool := c.isAlphanum || c = '-' || c = '.' || c = '_' || c = '~'

def isReserved (c : Char) : Bool := ":/?#[]@!$&'()*+,;=".toList.contains c

def wide : List (ℕ × ℕ) :=
  [(0xa0, 0xd7ff), (0xf900, 0xfdcf), (0xfdf0, 0xffef), (0x10000, 0x1fffd), (0x20000, 0x2fffd), (0x30000, 0x3fffd),
    (0x40000, 0x4fffd), (0x50000, 0x5fffd), (0x60000, 0x6fffd), (0x70000, 0x7fffd), (0x80000, 0x8fffd),
    (0x90000, 0x9fffd), (0xa0000, 0xafffd), (0xb0000, 0xbfffd), (0xc0000, 0xcfffd), (0xd0000, 0xdfffd),
    (0xe1000, 0xefffd), (0xe000, 0xf8ff), (0xf0000, 0xffffd), (0x100000, 0x10fffd)]

def narrow : List (ℕ × ℕ) :=
  [(0x21, 0x21), (0x23, 0x24), (0x26, 0x26), (0x28, 0x3b), (0x3d, 0x3d), (0x3f, 0x5b), (0x5d, 0x5d), (0x5f, 0x5f),
    (0x61, 0x7a), (0x7e, 0x7e)]

def isLiteral (c : Char) : Bool := (narrow ++ wide).any fun r => r.1 ≤ c.toNat && c.toNat ≤ r.2

def isUnits (ok : Char → Bool) : List Char → Bool
  | '%' :: a :: b :: rest => isHexdig a && isHexdig b && isUnits ok rest
  | c :: rest => ok c && isUnits ok rest
  | [] => true

def isLiterals : List Char → Bool := isUnits isLiteral

def isCopied : List Char → Bool := isUnits fun c => isUnreserved c || isReserved c

def HasTriplet (text : List Char) : Prop :=
  ∃ before a b after, text = before ++ '%' :: a :: b :: after ∧ isHexdig a ∧ isHexdig b

-- Percent-encoding

def hexdig (n : ℕ) : Char := (Nat.digitChar n).toUpper

def pctByte (b : UInt8) : List Char := ['%', hexdig (b.toNat / 16), hexdig (b.toNat % 16)]

def pctEncoded (c : Char) : List Char := (String.utf8EncodeChar c).flatMap pctByte

def encode (text : List Char) : List Char := text.flatMap fun c => if isUnreserved c then [c] else pctEncoded c

def encodeReserved : List Char → List Char
  | '%' :: a :: b :: rest =>
    if isHexdig a && isHexdig b then '%' :: a :: b :: encodeReserved rest
    else pctEncoded '%' ++ encodeReserved (a :: b :: rest)
  | c :: rest => (if isUnreserved c || isReserved c then [c] else pctEncoded c) ++ encodeReserved rest
  | [] => []

def tripletCount : List Char → ℕ
  | '%' :: a :: b :: rest => if isHexdig a && isHexdig b then tripletCount rest + 1 else tripletCount (a :: b :: rest)
  | _ :: rest => tripletCount rest
  | [] => 0

theorem hasTriplet_cons {c : Char} {rest : List Char} :
    HasTriplet (c :: rest) ↔
      (c = '%' ∧ ∃ a b after, rest = a :: b :: after ∧ isHexdig a ∧ isHexdig b) ∨ HasTriplet rest := by
  constructor
  · rintro ⟨before, a, b, after, heq, ha, hb⟩
    cases before with
    | nil =>
      obtain ⟨rfl, rfl⟩ := List.cons.inj heq
      exact .inl ⟨rfl, a, b, after, rfl, ha, hb⟩
    | cons d before => exact .inr ⟨before, a, b, after, (List.cons.inj heq).2, ha, hb⟩
  · rintro (⟨rfl, a, b, after, rfl, ha, hb⟩ | ⟨before, a, b, after, rfl, ha, hb⟩)
    · exact ⟨[], a, b, after, rfl, ha, hb⟩
    · exact ⟨c :: before, a, b, after, rfl, ha, hb⟩

theorem tripletCount_eq_zero (text : List Char) : tripletCount text = 0 ↔ ¬HasTriplet text := by
  fun_induction tripletCount text with
  | case1 a b rest h =>
    simp only [Bool.and_eq_true] at h
    simp only [Nat.add_eq_zero_iff, one_ne_zero, and_false, false_iff, not_not]
    exact ⟨[], a, b, rest, rfl, h.1, h.2⟩
  | case2 a b rest h ih =>
    rw [ih, hasTriplet_cons (c := '%'), not_or, iff_and_self]
    rintro - ⟨-, x, y, after, heq, hx, hy⟩
    simp only [List.cons.injEq] at heq
    obtain ⟨rfl, rfl, -⟩ := heq
    simp [hx, hy] at h
  | case3 c rest hne ih =>
    rw [ih, hasTriplet_cons, not_or, iff_and_self]
    rintro - ⟨rfl, a, b, after, rfl, -, -⟩
    exact hne a b after rfl rfl
  | case4 => simp [HasTriplet]

theorem encodeReserved_copied {text : List Char} (h : isCopied text) : encodeReserved text = text := by
  unfold isCopied at h
  fun_induction encodeReserved text with
  | case1 a b rest _ ih =>
    simp only [isUnits, Bool.and_eq_true] at h
    rw [ih h.2]
  | case2 a b rest hn ih =>
    simp only [isUnits, Bool.and_eq_true] at h
    simp [h.1] at hn
  | case3 c rest hne ih =>
    rw [isUnits, Bool.and_eq_true] at h
    · rw [h.1, ih h.2]
      rfl
    · exact hne
  | case4 => rfl

theorem encode_eq_nil {text : List Char} (h : encode text = []) : text = [] := by
  cases text with
  | nil => rfl
  | cons c text =>
    have hnil : (if isUnreserved c then [c] else pctEncoded c) = [] := (List.append_eq_nil_iff.mp h).1
    split at hnil
    · contradiction
    · have hlen := String.length_utf8EncodeChar c
      have hpos := Char.utf8Size_pos c
      cases henc : String.utf8EncodeChar c with
      | nil => simp [henc] at hlen; omega
      | cons b bytes => simp [pctEncoded, henc, pctByte] at hnil

-- The grammar

inductive Operator
  | simple | reserved | fragment | label | path | parameter | query | continuation
  deriving DecidableEq, Repr

def Operator.text : Operator → List Char
  | .simple => []
  | .reserved => ['+']
  | .fragment => ['#']
  | .label => ['.']
  | .path => ['/']
  | .parameter => [';']
  | .query => ['?']
  | .continuation => ['&']

inductive Modifier
  | whole
  | length (digits : List Char)
  | explode
  deriving DecidableEq, Repr

structure VarSpec where
  name : List Char
  modifier : Modifier
  deriving DecidableEq, Repr

structure Expression where
  operator : Operator
  specs : List VarSpec
  deriving DecidableEq, Repr

structure Template where
  pieces : List (List Char × Expression)
  tail : List Char
  deriving DecidableEq, Repr

def isWord (c : Char) : Bool := c.isAlphanum || c = '_'

inductive IsVarchar : List Char → Prop
  | word {c : Char} (h : isWord c) : IsVarchar [c]
  | triplet {a b : Char} (ha : isHexdig a) (hb : isHexdig b) : IsVarchar ['%', a, b]

inductive Varchars : List Char → Prop
  | nil : Varchars []
  | next {v rest : List Char} (hv : IsVarchar v) (hrest : Varchars rest) : Varchars (v ++ rest)
  | dot {v rest : List Char} (hv : IsVarchar v) (hrest : Varchars rest) : Varchars ('.' :: (v ++ rest))

def IsVarname (name : List Char) : Prop := ∃ v rest, IsVarchar v ∧ Varchars rest ∧ name = v ++ rest

def IsMaxLength (digits : List Char) : Prop :=
  ∃ d ds, digits = d :: ds ∧ d.isDigit ∧ d ≠ '0' ∧ ds.length ≤ 3 ∧ ∀ c ∈ ds, c.isDigit

def Modifier.WellFormed : Modifier → Prop
  | .length digits => IsMaxLength digits
  | _ => True

def Modifier.text : Modifier → List Char
  | .whole => []
  | .length digits => ':' :: digits
  | .explode => ['*']

def VarSpec.WellFormed (s : VarSpec) : Prop := IsVarname s.name ∧ s.modifier.WellFormed

def VarSpec.text (s : VarSpec) : List Char := s.name ++ s.modifier.text

def Expression.WellFormed (e : Expression) : Prop := e.specs ≠ [] ∧ ∀ s ∈ e.specs, s.WellFormed

def Expression.inner (e : Expression) : List Char :=
  e.operator.text ++ [','].intercalate (e.specs.map VarSpec.text)

def Expression.text (e : Expression) : List Char := '{' :: e.inner ++ ['}']

def Template.text (t : Template) : List Char := t.pieces.flatMap (fun p => p.1 ++ p.2.text) ++ t.tail

def Template.runs (t : Template) : List (List Char) := t.pieces.map (·.1) ++ [t.tail]

def Template.WellFormed (t : Template) : Prop :=
  (∀ p ∈ t.pieces, p.2.WellFormed) ∧ ∀ run ∈ t.runs, isLiterals run

-- Expansion

structure Rule where
  first : List Char
  sep : List Char
  named : Bool
  ifemp : List Char
  allow : Bool
  deriving DecidableEq, Repr

def Operator.rule : Operator → Rule
  | .simple => ⟨[], [','], false, [], false⟩
  | .reserved => ⟨[], [','], false, [], true⟩
  | .fragment => ⟨['#'], [','], false, [], true⟩
  | .label => ⟨['.'], ['.'], false, [], false⟩
  | .path => ⟨['/'], ['/'], false, [], false⟩
  | .parameter => ⟨[';'], [';'], true, [], false⟩
  | .query => ⟨['?'], ['&'], true, ['='], false⟩
  | .continuation => ⟨['&'], ['&'], true, ['='], false⟩

def Modifier.part (value : List Char) : Modifier → List Char
  | .length digits => value.take (Nat.ofDigitChars 10 digits 0)
  | _ => value

def VarSpec.encoded (rule : Rule) (s : VarSpec) (value : List Char) : List Char :=
  let part := s.modifier.part value
  let encoded := if rule.allow then encodeReserved part else encode part
  if rule.named then s.name ++ (if part.isEmpty then rule.ifemp else '=' :: encoded) else encoded

def VarSpec.expand (rule : Rule) (values : List Char → Option (List Char)) (s : VarSpec) : Option (List Char) :=
  (values s.name).map (s.encoded rule)

def Expression.expand (values : List Char → Option (List Char)) (e : Expression) : List Char :=
  let parts := e.specs.filterMap (VarSpec.expand e.operator.rule values)
  if parts.isEmpty then [] else e.operator.rule.first ++ e.operator.rule.sep.intercalate parts

def Template.expand (values : List Char → Option (List Char)) (t : Template) : List Char :=
  t.pieces.flatMap (fun p => encodeReserved p.1 ++ p.2.expand values) ++ encodeReserved t.tail

end WotAv.Lib.UriTemplate
