import WotAv.Xml.SimpleValues

/-!
# What the key of a value tells

`identityValueKey` gives values one key when they have one meaning: numbers
are compared as numbers, binary values by their octets, and everything that is
a text by its characters. A value of a type that is not compared has no key,
and neither has a decimal of more than 4096 characters.
-/

namespace WotAv.Xml

open WotAv.Lib WotAv.Binding

-- Values

/-- A value of a primitive type, or a list. -/
inductive XsdValue
  | decimal (value : Decimal)
  | boolean (value : Bool)
  | QName (name : QName)
  | hexBinary (octets : Bytes)
  | base64Binary (octets : Bytes)
  | string (text : String)
  | anyURI (text : String)
  | list (items : List XsdValue)

def decimalOf (text : List Char) : Decimal :=
  let digits := unsigned text
  let whole := digits.takeWhile Char.isDigit
  let fraction := (digits.dropWhile Char.isDigit).drop 1
  let n : Int := Nat.ofDigitChars 10 (whole ++ fraction) 0
  Decimal.ofScaled (if text.head? = some '-' then -n else n) fraction.length

def hexDigit (c : Char) : Nat := Json.hexValue c.toLower

def fromHex : List Char → Bytes
  | a :: b :: text => .ofNat (hexDigit a * 16 + hexDigit b) :: fromHex text
  | _ => []

/-- The value that a canonical value stands for; none where the type has no
comparison. -/
def xsdScalar : ScalarName → SimpleValue → Option XsdValue
  | .boolean, .boolean value => some (.boolean value)
  | .QName, .qname name => some (.QName name)
  | .int32, .number value | .uint32, .number value => some (.decimal (.ofScaled value 0))
  | .int64, .string text | .uint64, .string text | .integer, .string text | .decimal, .string text =>
    some (.decimal (decimalOf text.toList))
  | .hexBinary, .string text => some (.hexBinary (fromHex text.toList))
  | .base64Binary, .string text => some (.base64Binary (fromBase64 text.toList))
  | .anyURI, .string text => some (.anyURI text)
  | .string, .string text | .normalizedString, .string text | .token, .string text | .language, .string text
  | .Name, .string text | .NCName, .string text | .NMTOKEN, .string text | .ID, .string text => some (.string text)
  | _, _ => none

mutual

def xsdValue : SimpleType → SimpleValue → Option XsdValue
  | .restriction base _, value => xsdValue base value
  | .union members, .member name value => xsdMember members name value
  | .list item, .list values => (values.mapM (xsdValue item)).map .list
  | .scalar type, value => xsdScalar type value
  | _, _ => none

def xsdMember : List (String × SimpleType) → String → SimpleValue → Option XsdValue
  | [], _, _ => none
  | (name', type) :: members, name, value => if name' = name then xsdValue type value else xsdMember members name value

end

mutual

/-- A decimal in it is longer than what is compared. -/
def excessive : SimpleType → SimpleValue → Bool
  | .restriction base _, value => excessive base value
  | .union members, .member name value => excessiveMember members name value
  | .list item, .list values => values.any (excessive item)
  | .scalar type, value => type.isNumeric && 4096 < value.text.length
  | _, _ => false

def excessiveMember : List (String × SimpleType) → String → SimpleValue → Bool
  | [], _, _ => false
  | (name', type) :: members, name, value =>
    if name' = name then excessive type value else excessiveMember members name value

end

mutual

/-- Binary values without their encoding, and texts without their type. -/
def XsdValue.merged : XsdValue → XsdValue
  | .base64Binary octets => .hexBinary octets
  | .anyURI text => .string text
  | .list items => .list (mergedItems items)
  | value => value

def mergedItems : List XsdValue → List XsdValue
  | [] => []
  | item :: items => item.merged :: mergedItems items

end

mutual

def XsdValue.key : XsdValue → String
  | .decimal value => labelled "decimal:" (intChars value.integer ++ ':' :: intChars value.scale)
  | .boolean value => labelled "boolean:" (Json.chars (.bool value : Json Int))
  | .QName name => labelled "QName:" (stringify [name.namespace_, name.localName])
  | .hexBinary octets => labelled "binary:" (toHex octets)
  | .base64Binary octets => labelled "binary:" (toHex octets)
  | .string text => labelled "string:" (Json.chars (.string text : Json Int))
  | .anyURI text => labelled "string:" (Json.chars (.string text : Json Int))
  | .list items => labelled "list:" (stringify (itemKeys items))

def itemKeys : List XsdValue → List String
  | [] => []
  | item :: items => item.key :: itemKeys items

end

-- One key, one meaning

theorem chars_inj {a b : Json Int} (h : Json.chars a = Json.chars b) : a = b :=
  (Json.chars_inj a b (r := []) (s := []) nofun nofun (by rw [h])).1

theorem stringify_inj {a b : List String} (h : stringify a = stringify b) : a = b := by
  have harray : (a.map Json.string : List (Json Int)) = b.map .string := Json.array.inj (chars_inj h)
  exact List.map_injective_iff.mpr (fun _ _ => Json.string.inj) harray

theorem hexChars_inj {a b : UInt8} (h : Json.hexChars a.toNat = Json.hexChars b.toNat) : a = b := by
  have hdigit : ∀ n < 16, ∀ m < 16, Nat.digitChar n = Nat.digitChar m → n = m := by decide
  have ha := a.toNat_lt
  have hb := b.toNat_lt
  obtain ⟨hhigh, hlow⟩ : Nat.digitChar (a.toNat / 16) = Nat.digitChar (b.toNat / 16) ∧
      Nat.digitChar (a.toNat % 16) = Nat.digitChar (b.toNat % 16) := by simpa [Json.hexChars] using h
  have := hdigit _ (by omega) _ (by omega) hhigh
  have := hdigit _ (by omega) _ (by omega) hlow
  exact UInt8.toNat_inj.mp (by omega)

theorem toHex_inj : ∀ {a b : Bytes}, toHex a = toHex b → a = b
  | [], [], _ => rfl
  | [], _ :: _, h => by simp [toHex, Json.hexChars] at h
  | _ :: _, [], h => by simp [toHex, Json.hexChars] at h
  | a :: as, b :: bs, h => by
    simp only [toHex, List.flatMap_cons] at h
    obtain ⟨hhead, htail⟩ := List.append_inj h rfl
    rw [hexChars_inj hhead, toHex_inj htail]

theorem colon_inj {a b : Int} {r s : List Char} (h : intChars a ++ ':' :: r = intChars b ++ ':' :: s) :
    a = b ∧ r = s := by
  have hcolon : FiniteNumber.isNumeral ':' = false := rfl
  obtain ⟨rfl, hrest⟩ := Json.numeral_inj (ν := Int) (Json.ends_cons r hcolon) (Json.ends_cons s hcolon) h
  exact ⟨rfl, (List.cons.inj hrest).2⟩

def XsdValue.letters : XsdValue → List Char
  | .decimal _ => ['d', 'e']
  | .boolean _ => ['b', 'o']
  | .QName _ => ['Q', 'N']
  | .hexBinary _ | .base64Binary _ => ['b', 'i']
  | .string _ | .anyURI _ => ['s', 't']
  | .list _ => ['l', 'i']

theorem take_key (x : XsdValue) : x.key.toList.take 2 = x.letters := by
  cases x <;> exact (congrArg (List.take 2) String.toList_ofList).trans rfl

theorem labelled_inj {label : String} {a b : List Char} (h : labelled label a = labelled label b) : a = b :=
  List.append_cancel_left (String.ofList_inj.mp h)

mutual

theorem merged_of_key : ∀ {x y : XsdValue}, x.key = y.key → x.merged = y.merged := by
  intro x y h
  have hl : x.letters = y.letters := by rw [← take_key, ← take_key, h]
  cases x with
  | decimal value =>
    cases y with
    | decimal value' =>
      obtain ⟨hi, hs⟩ := colon_inj (labelled_inj h)
      have hscale := intChars_inj hs
      cases value
      cases value'
      simp_all
    | _ => simp [XsdValue.letters] at hl
  | boolean value =>
    cases y with
    | boolean value' => rw [Json.bool.inj (chars_inj (labelled_inj h))]
    | _ => simp [XsdValue.letters] at hl
  | QName name =>
    cases y with
    | QName name' =>
      have hpair := stringify_inj (labelled_inj h)
      cases name
      cases name'
      simp_all
    | _ => simp [XsdValue.letters] at hl
  | hexBinary octets =>
    cases y with
    | hexBinary octets' => rw [toHex_inj (labelled_inj h)]
    | base64Binary octets' => simp [XsdValue.merged, toHex_inj (labelled_inj h)]
    | _ => simp [XsdValue.letters] at hl
  | base64Binary octets =>
    cases y with
    | hexBinary octets' => simp [XsdValue.merged, toHex_inj (labelled_inj h)]
    | base64Binary octets' => rw [toHex_inj (labelled_inj h)]
    | _ => simp [XsdValue.letters] at hl
  | string text =>
    cases y with
    | string text' => rw [Json.string.inj (chars_inj (labelled_inj h))]
    | anyURI text' => simp [XsdValue.merged, Json.string.inj (chars_inj (labelled_inj h))]
    | _ => simp [XsdValue.letters] at hl
  | anyURI text =>
    cases y with
    | string text' => simp [XsdValue.merged, Json.string.inj (chars_inj (labelled_inj h))]
    | anyURI text' => rw [Json.string.inj (chars_inj (labelled_inj h))]
    | _ => simp [XsdValue.letters] at hl
  | list items =>
    cases y with
    | list items' => rw [XsdValue.merged, XsdValue.merged, merged_of_keys (stringify_inj (labelled_inj h))]
    | _ => simp [XsdValue.letters] at hl

theorem merged_of_keys : ∀ {xs ys : List XsdValue}, itemKeys xs = itemKeys ys → mergedItems xs = mergedItems ys := by
  intro xs ys h
  match xs, ys with
  | [], [] => rfl
  | [], _ :: _ => simp [itemKeys] at h
  | _ :: _, [] => simp [itemKeys] at h
  | x :: xs, y :: ys =>
    obtain ⟨hhead, htail⟩ := List.cons.inj (by simpa only [itemKeys] using h)
    rw [mergedItems, mergedItems, merged_of_key hhead, merged_of_keys htail]

end

mutual

theorem key_merged : ∀ x : XsdValue, x.merged.key = x.key
  | .decimal _ | .boolean _ | .QName _ | .hexBinary _ | .base64Binary _ | .string _ | .anyURI _ => rfl
  | .list items => congrArg (fun keys => labelled "list:" (stringify keys)) (keys_merged items)

theorem keys_merged : ∀ xs : List XsdValue, itemKeys (mergedItems xs) = itemKeys xs
  | [] => rfl
  | x :: xs => by simp [mergedItems, itemKeys, key_merged x, keys_merged xs]

end

theorem key_eq_iff {x y : XsdValue} : x.key = y.key ↔ x.merged = y.merged :=
  ⟨merged_of_key, fun h => by rw [← key_merged x, ← key_merged y, h]⟩

-- Numerals

theorem digit_ne {c d : Char} (hc : c.isDigit) (hd : d.isDigit = false) : c ≠ d := by
  rintro rfl
  simp [hc] at hd

theorem toBigInt_sign {sign digits : List Char} (hs : sign = [] ∨ sign = ['+'] ∨ sign = ['-'])
    (hd : ∀ c ∈ digits, c.isDigit) : toBigInt (sign ++ digits) =
      if sign = ['-'] then -(Nat.ofDigitChars 10 digits 0 : Int) else Nat.ofDigitChars 10 digits 0 := by
  rcases hs with rfl | rfl | rfl
  · cases digits with
    | nil => rfl
    | cons c digits =>
      have hc := hd c List.mem_cons_self
      have hminus := digit_ne (d := '-') hc rfl
      have hplus := digit_ne (d := '+') hc rfl
      simp only [List.nil_append, toBigInt]
      split <;> simp_all
  · simp [toBigInt]
  · simp [toBigInt]

theorem unsigned_cases (text : List Char) : ∃ sign, (sign = [] ∨ sign = ['+'] ∨ sign = ['-']) ∧
    text = sign ++ unsigned text ∧ (sign = [] → text.head? ≠ some '-') := by
  unfold unsigned
  split
  · exact ⟨['+'], by simp⟩
  · exact ⟨['-'], by simp⟩
  · rename_i hplus hminus
    refine ⟨[], by simp, rfl, fun _ hh => ?_⟩
    obtain ⟨rest, rfl⟩ := List.head?_eq_some_iff.mp hh
    exact hminus rest rfl

variable {text : List Char}

theorem decimalParts_ok (h : isDecimal text) (hl : text.length ≤ 4096) :
    ∃ integer scale, decimalParts text = .ok (integer, scale) ∧ decimalOf text = .ofScaled integer scale := by
  obtain ⟨sign, hsign, htext, hhead⟩ := unsigned_cases text
  have hminus : text.head? = some '-' ↔ sign = ['-'] := by
    rcases hsign with rfl | rfl | rfl
    · simpa using hhead rfl
    · rw [htext]
      simp
    · rw [htext]
      simp
  have hdot : '.' ∉ sign := by
    rcases hsign with rfl | rfl | rfl <;> decide
  have hwhole : ∀ c ∈ (unsigned text).takeWhile Char.isDigit, c.isDigit := fun c hc => List.mem_takeWhile_imp hc
  have hdigits : '.' ∉ (unsigned text).takeWhile Char.isDigit := fun hm => by simpa using hwhole _ hm
  have hsplit : (unsigned text).takeWhile Char.isDigit ++ (unsigned text).dropWhile Char.isDigit = unsigned text :=
    List.takeWhile_append_dropWhile
  have hreq : decimalParts text = .ok (toBigInt ((if (text.splitOn '.').headD [] = [] then ['0'] else
      (text.splitOn '.').headD []) ++ (text.splitOn '.').getD 1 []), ((text.splitOn '.').getD 1 []).length) := by
    exact require_bind_ok.mpr ⟨⟨hl, h⟩, rfl⟩
  rw [hreq]
  unfold isDecimal isUnsignedDecimal at h
  simp only at h
  simp only [decimalOf, hminus]
  generalize (unsigned text).takeWhile Char.isDigit = whole at h hwhole hdigits hsplit ⊢
  generalize (unsigned text).dropWhile Char.isDigit = rest at h hsplit ⊢
  split at h
  · rename_i hnil
    have hne : whole ≠ [] := by simpa using h
    have hall : text = sign ++ whole := by rw [htext, ← hsplit, List.append_nil]
    have hparts : text.splitOn '.' = [text] := List.splitOn_eq_singleton (by rw [hall]; simp [hdot, hdigits])
    refine ⟨_, _, rfl, ?_⟩
    have hfilled : text ≠ [] := by simp [hall, hne]
    have hvalue := toBigInt_sign hsign hwhole
    simp only [hparts, List.headD_cons, hfilled, if_false, List.getD_cons_succ, List.getD_nil, List.append_nil,
      List.drop_nil, List.length_nil]
    rw [hall, hvalue]
  · rename_i fraction
    obtain ⟨hfraction, hne⟩ : (∀ c ∈ fraction, c.isDigit) ∧ (whole ≠ [] ∨ fraction ≠ []) := by simpa using h
    have hall : text = sign ++ whole ++ '.' :: fraction := by rw [htext, ← hsplit, List.append_assoc]
    have hfdot : '.' ∉ fraction := fun hm => by simpa using hfraction _ hm
    have hparts : text.splitOn '.' = [sign ++ whole, fraction] := by
      rw [hall, List.splitOn_append_cons_self_of_not_mem (by simp [hdot, hdigits]), List.splitOn_eq_singleton hfdot]
    refine ⟨_, _, rfl, ?_⟩
    have hboth : ∀ c ∈ whole ++ fraction, c.isDigit := by
      intro c hc
      rcases List.mem_append.mp hc with hc | hc
      · exact hwhole c hc
      · exact hfraction c hc
    have hvalue := toBigInt_sign hsign hboth
    simp only [hparts, List.headD_cons, List.getD_cons_succ, List.getD_cons_zero, List.drop_succ_cons, List.drop_zero]
    by_cases hempty : sign ++ whole = []
    · rw [if_pos hempty]
      obtain ⟨rfl, rfl⟩ := List.append_eq_nil_iff.mp hempty
      have hzero : toBigInt (['0'] ++ fraction) = toBigInt fraction := by
        have hzeros : ∀ c ∈ '0' :: fraction, c.isDigit := by
          rintro c hc
          rcases List.mem_cons.mp hc with rfl | hc
          · rfl
          · exact hfraction c hc
        have hlead := @toBigInt_sign [] _ (.inl rfl) hzeros
        have hplain := @toBigInt_sign [] _ (.inl rfl) hfraction
        simp only [List.nil_append] at hlead hplain
        rw [List.singleton_append, hlead, hplain, Nat.ofDigitChars_cons]
        rfl
      simp only [List.nil_append] at hvalue ⊢
      rw [hzero, hvalue]
    · rw [if_neg hempty, List.append_assoc, hvalue]
  · simp at h

theorem takeWhile_digits {digits : List Char} (h : ∀ c ∈ digits, c.isDigit) :
    digits.takeWhile Char.isDigit = digits ∧ digits.dropWhile Char.isDigit = [] :=
  ⟨List.takeWhile_eq_self_iff.mpr h, List.dropWhile_eq_nil_iff.mpr h⟩

theorem isDecimal_of_isInteger (h : isInteger text) : isDecimal text := by
  obtain ⟨hne, hall⟩ : unsigned text ≠ [] ∧ ∀ c ∈ unsigned text, c.isDigit := by simpa [isInteger] using h
  obtain ⟨htake, hdrop⟩ := takeWhile_digits hall
  simp [isDecimal, isUnsignedDecimal, htake, hdrop, hne]

theorem decimal_intChars (n : Int) : isDecimal (intChars n) ∧ decimalOf (intChars n) = .ofScaled n 0 := by
  have hdigits := toDigits_isDigit n.natAbs
  have hne : Nat.toDigits 10 n.natAbs ≠ [] := Nat.toDigits_ne_nil
  obtain ⟨htake, hdrop⟩ := takeWhile_digits hdigits
  have hvalue : Nat.ofDigitChars 10 (Nat.toDigits 10 n.natAbs) 0 = n.natAbs := Nat.ofDigitChars_ten_toDigits
  unfold intChars
  split
  · rename_i hneg
    simp [isDecimal, isUnsignedDecimal, decimalOf, unsigned, htake, hdrop, hne, hvalue, abs_of_neg hneg]
  · have hn : (n.natAbs : Int) = n := by omega
    have hunsigned : unsigned (Nat.toDigits 10 n.natAbs) = Nat.toDigits 10 n.natAbs ∧
        (Nat.toDigits 10 n.natAbs).head? ≠ some '-' := by
      generalize Nat.toDigits 10 n.natAbs = digits at hdigits
      cases digits with
      | nil => exact ⟨rfl, nofun⟩
      | cons c digits =>
        have hc := hdigits c List.mem_cons_self
        have hminus := digit_ne (d := '-') hc rfl
        have hplus := digit_ne (d := '+') hc rfl
        unfold unsigned
        split <;> simp_all
    simp [isDecimal, isUnsignedDecimal, decimalOf, hunsigned, htake, hdrop, hne, hvalue, hn]

-- Octets

theorem hexDigit_lower {c : Char} (h : isHex c) : hexDigit c < 16 ∧ Nat.digitChar (hexDigit c) = c.toLower := by
  have hlt : c.toNat < 128 := by
    simp only [isHex, Char.isDigit, Bool.or_eq_true, Bool.and_eq_true, decide_eq_true_eq, Char.le_def, UInt32.le_iff_toNat_le] at h
    simp only [Char.toNat]
    have h0 : '9'.val.toNat = 57 := rfl
    have h1 : 'f'.val.toNat = 102 := rfl
    have h2 : 'F'.val.toNat = 70 := rfl
    omega
  have hall : ∀ n < 128, isHex (Char.ofNat n) → hexDigit (Char.ofNat n) < 16 ∧
      Nat.digitChar (hexDigit (Char.ofNat n)) = (Char.ofNat n).toLower := by decide
  have hc := hall c.toNat hlt
  rw [Char.ofNat_toNat] at hc
  exact hc h

theorem toHex_fromHex : ∀ {text : List Char}, isHexBinary text → toHex (fromHex text) = text.map Char.toLower
  | [], _ => rfl
  | [_], h => by simp [isHexBinary] at h
  | a :: b :: text, h => by
    obtain ⟨⟨ha, hb⟩, htext⟩ : (isHex a ∧ isHex b) ∧ isHexBinary text := by simpa [isHexBinary] using h
    obtain ⟨halt, ha⟩ := hexDigit_lower ha
    obtain ⟨hblt, hb⟩ := hexDigit_lower hb
    have hbyte : (UInt8.ofNat (hexDigit a * 16 + hexDigit b)).toNat = hexDigit a * 16 + hexDigit b :=
      UInt8.toNat_ofNat_of_lt' (by simp only [UInt8.size]; omega)
    have hhigh : (hexDigit a * 16 + hexDigit b) / 16 = hexDigit a := by omega
    have hlow : (hexDigit a * 16 + hexDigit b) % 16 = hexDigit b := by omega
    simp only [fromHex, toHex, List.flatMap_cons, hbyte, Json.hexChars, hhigh, hlow, ha, hb, List.map_cons]
    rw [← toHex_fromHex htext]
    rfl

-- What is decoded

def CanonicalScalar : ScalarName → SimpleValue → Prop
  | .boolean, .boolean _ => True
  | .boolean, _ => False
  | .QName, .qname name => isNCName name.localName.toList
  | .QName, _ => False
  | .int32, .number n | .uint32, .number n => n.natAbs < 2 ^ 32
  | .int32, _ | .uint32, _ => False
  | .int64, .string text | .uint64, .string text | .integer, .string text =>
    isDecimal text.toList ∧ text.toList.length ≤ 4096
  | .decimal, .string text => isDecimal text.toList
  | .hexBinary, .string text => isHexBinary text.toList
  | _, .string _ => True
  | _, _ => False

mutual

def Canonical : SimpleType → SimpleValue → Prop
  | .restriction base _, value => Canonical base value
  | .union members, .member name value => CanonicalMember members name value
  | .list item, .list values => ∀ value ∈ values, Canonical item value
  | .scalar type, value => CanonicalScalar type value
  | _, _ => False

def CanonicalMember : List (String × SimpleType) → String → SimpleValue → Prop
  | [], _, _ => False
  | (name', type) :: members, name, value =>
    if name' = name then Canonical type value else CanonicalMember members name value

end

mutual

/-- `assertSimple` has found the names of the members of each union distinct. -/
def Distinct : SimpleType → Prop
  | .restriction base _ => Distinct base
  | .union members => (members.map (·.1)).Nodup ∧ DistinctMembers members
  | .list item => Distinct item
  | .scalar _ => True

def DistinctMembers : List (String × SimpleType) → Prop
  | [] => True
  | (_, type) :: members => Distinct type ∧ DistinctMembers members

end

theorem lexical_ok (h : lexical text valid message = .ok value) :
    valid = true ∧ value = .string (String.ofList text) := by
  obtain ⟨hvalid, h⟩ := require_bind_ok.mp h
  exact ⟨hvalid, (Except.ok.inj h).symm⟩

theorem resolveQName_ok {text : String} {namespaces : List (String × String)} {name : QName}
    (h : resolveQName text namespaces = .ok name) : isNCName name.localName.toList := by
  unfold resolveQName at h
  split at h
  · obtain ⟨hname, h⟩ := require_bind_ok.mp h
    cases h
    simpa using hname
  · obtain ⟨⟨hname, -⟩, h⟩ := require_bind_ok.mp h
    split at h
    · cases h
    · cases h
      simpa using hname
  · cases h

variable {type : ScalarName} {value : SimpleValue}

theorem decodeInteger_ok
    (h : decodeInteger type text = .ok value) (ht : type = .int32 ∨ type = .uint32 ∨ type = .int64 ∨ type = .uint64 ∨ type = .integer) :
    CanonicalScalar type value := by
  obtain ⟨hinteger, h⟩ := require_bind_ok.mp h
  obtain ⟨hlength, h⟩ := require_bind_ok.mp h
  have hdecimal := isDecimal_of_isInteger hinteger
  rcases ht with rfl | rfl | rfl | rfl | rfl
  all_goals simp only [integerRange] at h
  case inl | inr.inl =>
    obtain ⟨hrange, h⟩ := require_bind_ok.mp h
    cases h
    simp [CanonicalScalar]
    omega
  case inr.inr.inl | inr.inr.inr.inl =>
    obtain ⟨-, h⟩ := require_bind_ok.mp h
    cases h
    simp [CanonicalScalar, hdecimal, hlength]
  · cases h
    simp [CanonicalScalar, hdecimal, hlength]

theorem decodeScalar_ok {input : List Char} {namespaces : List (String × String)}
    (h : decodeScalar type input namespaces = .ok value) : CanonicalScalar type value := by
  unfold decodeScalar at h
  cases type with
  | QName =>
    obtain ⟨name, hname, h⟩ := except_bind_ok h
    cases h
    exact resolveQName_ok hname
  | boolean =>
    simp only [reduceCtorEq, if_false] at h
    split at h
    · cases h
      trivial
    · split at h
      · cases h
        trivial
      · cases h
  | int32 | uint32 | int64 | uint64 | integer => exact decodeInteger_ok h (by simp)
  | string | normalizedString | token | anyURI =>
    cases h
    trivial
  | decimal | hexBinary =>
    obtain ⟨hvalid, rfl⟩ := lexical_ok h
    simpa [CanonicalScalar] using hvalid
  | _ =>
    obtain ⟨-, rfl⟩ := lexical_ok h
    trivial

mutual

theorem decodeSimple_ok (host : Host) : ∀ {type : SimpleType} {input : List Char} {namespaces : List (String × String)}
    {value : SimpleValue}, Distinct type → decodeSimple host type input namespaces = .ok value → Canonical type value := by
  intro type input namespaces value hd h
  match type with
  | .scalar type => exact decodeScalar_ok h
  | .list item =>
    simp only [decodeSimple] at h
    split at h
    · cases h
      exact nofun
    · obtain ⟨values, hvalues, h⟩ := except_bind_ok h
      cases h
      intro value hv
      obtain ⟨text, -, htext⟩ := except_mem_mapM hvalues hv
      exact decodeSimple_ok host hd htext
  | .restriction base facets =>
    simp only [decodeSimple] at h
    obtain ⟨-, h⟩ := require_bind_ok.mp h
    obtain ⟨decoded, hdecoded, h⟩ := except_bind_ok h
    have hvalue : value = decoded := by
      split at h
      · obtain ⟨_, -, h⟩ := except_bind_ok h
        cases h
        rfl
      · obtain ⟨_, -, h⟩ := except_bind_ok h
        obtain ⟨-, h⟩ := require_bind_ok.mp h
        obtain ⟨_, -, h⟩ := except_bind_ok h
        cases h
        rfl
    have hbase : Canonical base decoded := decodeSimple_ok host hd hdecoded
    exact hvalue ▸ hbase
  | .union members =>
    obtain ⟨name, decoded, rfl, -, hmember⟩ := decodeMembers_ok host hd.1 hd.2 h
    exact hmember

theorem decodeMembers_ok (host : Host) : ∀ {members : List (String × SimpleType)} {input : List Char}
    {namespaces : List (String × String)} {value : SimpleValue}, (members.map (·.1)).Nodup → DistinctMembers members →
    decodeMembers host members input namespaces = .ok value →
    ∃ name decoded, value = .member name decoded ∧ name ∈ members.map (·.1) ∧ CanonicalMember members name decoded := by
  intro members input namespaces value hn hd h
  match members with
  | [] => cases h
  | (name, type) :: members =>
    simp only [decodeMembers] at h
    split at h
    · rename_i decoded hdecoded
      cases h
      refine ⟨name, decoded, rfl, List.mem_cons_self, ?_⟩
      rw [CanonicalMember, if_pos rfl]
      exact decodeSimple_ok host hd.1 hdecoded
    · split at h
      · obtain ⟨hfresh, hn⟩ := List.nodup_cons.mp hn
        obtain ⟨name', decoded, rfl, hm, hmember⟩ := decodeMembers_ok host hn hd.2 h
        refine ⟨name', decoded, rfl, List.mem_cons_of_mem _ hm, ?_⟩
        rw [CanonicalMember, if_neg (fun he => hfresh (by rw [he]; exact hm))]
        exact hmember
      · cases h

end

-- Keys

/-- A key is that of the value; there is none where the value has no
comparison or is too long. -/
def KeyOf (key : Except OnvifError String) (value : Option XsdValue) (excess : Bool) : Prop :=
  match key with
  | .ok key => excess = false ∧ ∃ x, value = some x ∧ key = x.key
  | .error e => e.code = .invalidValue ∧ excess = true ∨ e.code = .unsupportedCapability ∧ value = none

theorem keyOf_numeric (ht : type.isNumeric) (hd : isDecimal value.text) :
    KeyOf (scalarKey type value) (some (.decimal (decimalOf value.text))) (decide (4096 < value.text.length)) := by
  unfold scalarKey
  rw [if_pos ht]
  by_cases hl : value.text.length ≤ 4096
  · obtain ⟨integer, scale, hparts, hvalue⟩ := decimalParts_ok hd hl
    rw [hparts, hvalue]
    refine ⟨by simpa using hl, _, rfl, ?_⟩
    have hscale : (if (Decimal.lower integer scale).1 = 0 then (0 : Nat) else (Decimal.lower integer scale).2) =
        (Decimal.lower integer scale).2 := by
      split
      · rename_i hzero
        rcases Decimal.lower_lowest integer scale with hs | hs
        · exact hs.symm
        · exact absurd (hzero ▸ dvd_zero 10) hs
      · rfl
    simp only [XsdValue.key, Decimal.ofScaled]
    rw [← hscale]
    split <;> rfl
  · have hreject : decimalParts value.text = .error ⟨.invalidValue, "Unsupported or excessive decimal facet comparison", .notSent⟩ := by
      unfold decimalParts
      rw [require, if_neg (fun hb => hl hb.1)]
      rfl
    rw [hreject]
    exact .inl ⟨rfl, by simpa using hl⟩

theorem keyOf_number (ht : type.isNumeric) (n : Int) :
    KeyOf (scalarKey type (.number n)) (some (.decimal (.ofScaled n 0))) (decide (4096 < (intChars n).length)) := by
  obtain ⟨hd, hv⟩ := decimal_intChars n
  rw [← hv]
  exact keyOf_numeric ht hd

theorem keyOf_text {text : String} (ht : type.isNumeric) (hd : isDecimal text.toList) :
    KeyOf (scalarKey type (.string text)) (some (.decimal (decimalOf text.toList))) (decide (4096 < text.toList.length)) :=
  keyOf_numeric ht hd

theorem keyOf_scalarKey (h : CanonicalScalar type value) :
    KeyOf (scalarKey type value) (xsdScalar type value) (type.isNumeric && decide (4096 < value.text.length)) := by
  cases type with
  | int32 | uint32 =>
    cases value with
    | number n => exact keyOf_number rfl n
    | _ => exact h.elim
  | int64 | uint64 | integer =>
    cases value with
    | string text => exact keyOf_text rfl h.1
    | _ => exact h.elim
  | decimal =>
    cases value with
    | string text => exact keyOf_text rfl h
    | _ => exact h.elim
  | QName =>
    cases value with
    | qname name =>
      have hkey : scalarKey .QName (.qname name) = .ok (XsdValue.QName name).key :=
        require_bind_ok.mpr ⟨h, rfl⟩
      rw [hkey]
      exact ⟨rfl, _, rfl, rfl⟩
    | _ => exact h.elim
  | boolean =>
    cases value with
    | boolean value => exact ⟨rfl, _, rfl, rfl⟩
    | _ => exact h.elim
  | hexBinary =>
    cases value with
    | string text => exact ⟨rfl, _, rfl, by rw [XsdValue.key, toHex_fromHex h]; rfl⟩
    | _ => exact h.elim
  | base64Binary =>
    cases value with
    | string text => exact ⟨rfl, _, rfl, rfl⟩
    | _ => exact h.elim
  | float | double | duration | temporal =>
    cases value with
    | string text => exact .inr ⟨rfl, rfl⟩
    | _ => exact h.elim
  | _ =>
    cases value with
    | string text =>
      show KeyOf (.ok (labelled "string:" (Json.chars (.string (String.ofList text.toList) : Json Int)))) _ _
      rw [String.ofList_toList]
      exact ⟨rfl, _, rfl, rfl⟩
    | _ => exact h.elim

def KeysOf (keys : Except OnvifError (List String)) (items : Option (List XsdValue)) (excess : Bool) : Prop :=
  match keys with
  | .ok keys => excess = false ∧ ∃ xs, items = some xs ∧ keys = itemKeys xs
  | .error e => e.code = .invalidValue ∧ excess = true ∨ e.code = .unsupportedCapability ∧ items = none

theorem keysOf_items {key : SimpleValue → Except OnvifError String} {value : SimpleValue → Option XsdValue}
    {excess : SimpleValue → Bool} {values : List SimpleValue}
    (h : ∀ v ∈ values, KeyOf (key v) (value v) (excess v)) :
    KeysOf (values.mapM key) (values.mapM value) (values.any excess) := by
  induction values with
  | nil => exact ⟨rfl, [], rfl, rfl⟩
  | cons v values ih =>
    have hv := h v List.mem_cons_self
    have hrest := ih fun v hv => h v (List.mem_cons_of_mem _ hv)
    rw [List.mapM_cons, List.mapM_cons, List.any_cons]
    cases hk : key v with
    | error e =>
      rw [hk] at hv
      rcases hv with ⟨hcode, hexcess⟩ | ⟨hcode, hnone⟩
      · exact .inl ⟨hcode, by rw [hexcess, Bool.true_or]⟩
      · exact .inr ⟨hcode, by rw [hnone]; rfl⟩
    | ok k =>
      rw [hk] at hv
      obtain ⟨hexcess, x, hx, rfl⟩ := hv
      rw [hexcess, hx, Bool.false_or]
      cases hks : values.mapM key with
      | error e =>
        rw [hks] at hrest
        rcases hrest with ⟨hcode, hmore⟩ | ⟨hcode, hnone⟩
        · exact .inl ⟨hcode, hmore⟩
        · exact .inr ⟨hcode, by rw [hnone]; rfl⟩
      | ok ks =>
        rw [hks] at hrest
        obtain ⟨hmore, xs, hxs, rfl⟩ := hrest
        exact ⟨hmore, x :: xs, by rw [hxs]; rfl, rfl⟩

mutual

theorem keyOf_identityValueKey : ∀ {type : SimpleType} {value : SimpleValue}, Canonical type value →
    KeyOf (identityValueKey type value) (xsdValue type value) (excessive type value) := by
  intro type value h
  match type, value with
  | .restriction base _, value =>
    simp only [identityValueKey, xsdValue, excessive]
    exact keyOf_identityValueKey (by simpa only [Canonical] using h)
  | .union members, .member name value =>
    simp only [identityValueKey, xsdValue, excessive]
    exact keyOf_memberKey (by simpa only [Canonical] using h)
  | .list item, .list values =>
    have hitems : ∀ value ∈ values, Canonical item value := by simpa only [Canonical] using h
    have hagree := keysOf_items fun value hv => keyOf_identityValueKey (hitems value hv)
    simp only [identityValueKey, xsdValue, excessive]
    cases hkeys : values.mapM (identityValueKey item) with
    | error e =>
      rw [hkeys] at hagree
      rcases hagree with ⟨hcode, hexcess⟩ | ⟨hcode, hnone⟩
      · exact .inl ⟨hcode, hexcess⟩
      · exact .inr ⟨hcode, by rw [hnone]; rfl⟩
    | ok keys =>
      rw [hkeys] at hagree
      obtain ⟨hexcess, xs, hxs, rfl⟩ := hagree
      exact ⟨hexcess, .list xs, by rw [hxs]; rfl, rfl⟩
  | .scalar type, value =>
    simp only [identityValueKey, xsdValue, excessive]
    exact keyOf_scalarKey (by simpa only [Canonical] using h)
  | .union _, .boolean _ | .union _, .number _ | .union _, .string _ | .union _, .qname _ | .union _, .list _
  | .list _, .boolean _ | .list _, .number _ | .list _, .string _ | .list _, .qname _ | .list _, .member .. =>
    simp only [Canonical] at h

theorem keyOf_memberKey : ∀ {members : List (String × SimpleType)} {name : String} {value : SimpleValue},
    CanonicalMember members name value →
    KeyOf (memberKey members name value) (xsdMember members name value) (excessiveMember members name value) := by
  intro members name value h
  match members with
  | [] => simp only [CanonicalMember] at h
  | (name', type) :: members =>
    simp only [memberKey, xsdMember, excessiveMember, CanonicalMember] at h ⊢
    by_cases hname : name' = name
    · simp only [hname, if_true] at h ⊢
      exact keyOf_identityValueKey h
    · simp only [hname, if_false] at h ⊢
      exact keyOf_memberKey h

end

end WotAv.Xml
