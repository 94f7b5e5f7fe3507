import WotAv.Lib.Numerals
import WotAv.Lib.RegExpWords
import WotAv.Xml.SimpleValues

/-!
# Schemas of simple types (`src/catalog/schemas.ts`)

`boundedDigits` and `scalarSchema`. The patterns of the 64-bit integers accept
what `decodeScalar` accepts once its blanks are collapsed.
-/

namespace WotAv.Catalog

open WotAv.Lib WotAv.Lib.RegExp WotAv.Binding WotAv.Xml
open Nat (toDigits ofDigitChars)

-- `boundedDigits`

def interval (lower digit : ℕ) : List Char :=
  if lower = digit - 1 then toDigits 10 lower else '[' :: toDigits 10 lower ++ '-' :: toDigits 10 (digit - 1) ++ [']']

def anyDigits (suffix : ℕ) : List Char := if suffix = 0 then [] else "[0-9]\x7b".toList ++ toDigits 10 suffix ++ ['}']

def boundedTerm (max : List Char) (index : ℕ) : Option (List Char) :=
  let digit := (max[index]?).elim 0 digitOf
  let lower := if index = 0 then 1 else 0
  if digit ≤ lower then none
  else some (max.take index ++ interval lower digit ++ anyDigits (max.length - index - 1))

def boundedTerms (max : List Char) : List (List Char) :=
  ['0'] :: (if 1 < max.length then ["[1-9][0-9]\x7b0,".toList ++ toDigits 10 (max.length - 2) ++ ['}']] else []) ++
    (List.range max.length).filterMap (boundedTerm max) ++ [max]

def boundedDigits (max : List Char) : List Char := "(?:".toList ++ ['|'].intercalate (boundedTerms max) ++ [')']

-- `scalarSchema`

abbrev Keywords := List (String × Json Int)

def textSchema (keywords : Keywords) : Keywords := ("type", .string "string") :: keywords

def nativeConstraints (constraint : String) : String × Json Int :=
  ("onvif:nativeConstraints", .array [.string constraint])

def integerSchema (minimum maximum : Int) : Keywords :=
  [("type", .string "integer"), ("minimum", .number minimum), ("maximum", .number maximum)]

def qnameSchema : Keywords :=
  [("type", .string "object"),
    ("properties", .object [("namespace", .object [("type", .string "string")]),
      ("localName", .object [("type", .string "string"), ("minLength", .number 1), ("pattern", .string "^[^\\s:]+$")])]),
    ("required", .array [.string "namespace", .string "localName"]),
    ("additionalProperties", .bool false),
    nativeConstraints "localName must be an XML NCName; the canonical codec validates Unicode XML name characters."]

def nameSchema (type : ScalarName) : Keywords :=
  textSchema [("minLength", .number 1),
    nativeConstraints ("Unicode XML " ++ type.text ++ " validation is performed by the canonical codec.")]

def int64Pattern : List Char :=
  "^(?:\\+?0*".toList ++ boundedDigits "9223372036854775807".toList ++ "|-0*".toList ++
    boundedDigits "9223372036854775808".toList ++ ")$".toList

def uint64Pattern : List Char :=
  "^(?:\\+?0*".toList ++ boundedDigits "18446744073709551615".toList ++ "|-0+)$".toList

def scalarSchema : ScalarName → Keywords
  | .boolean => [("type", .string "boolean")]
  | .int32 => integerSchema (-2147483648) 2147483647
  | .uint32 => integerSchema 0 4294967295
  | .int64 => textSchema [("maxLength", .number 4096), ("pattern", .string (String.ofList int64Pattern))]
  | .uint64 => textSchema [("maxLength", .number 4096), ("pattern", .string (String.ofList uint64Pattern))]
  | .integer => textSchema [("pattern", .string "^[+-]?[0-9]+$"), ("maxLength", .number 4096)]
  | .decimal => textSchema [("pattern", .string "^[+-]?(?:[0-9]+(?:\\.[0-9]*)?|\\.[0-9]+)$")]
  | .float | .double => textSchema
    [("pattern", .string "^(?:-?INF|NaN|[+-]?(?:[0-9]+(?:\\.[0-9]*)?|\\.[0-9]+)(?:[eE][+-]?[0-9]+)?)$")]
  | .QName => qnameSchema ++ [("onvif:canonicalType", .string "XMLQName")]
  | .hexBinary => textSchema [("pattern", .string "^(?:[0-9a-fA-F]\x7b2\x7d)*$"), ("contentEncoding", .string "base16")]
  | .base64Binary => textSchema
    [("pattern", .string ("^(?:[A-Za-z0-9+/]\x7b4\x7d)*" ++
        "(?:[A-Za-z0-9+/]\x7b2\x7d==|[A-Za-z0-9+/]\x7b3\x7d=)?$")),
      ("contentEncoding", .string "base64"), nativeConstraints "Canonical base64 padding bits are checked by the codec."]
  | .temporal .dateTime => textSchema
    [("pattern", .string ("^-?[0-9]\x7b4,\x7d-[0-9]\x7b2\x7d-[0-9]\x7b2\x7dT[0-9]\x7b2\x7d:[0-9]\x7b2\x7d" ++
        ":[0-9]\x7b2\x7d(?:\\.[0-9]+)?(?:Z|[+-][0-9]\x7b2\x7d:[0-9]\x7b2\x7d)?$")),
      nativeConstraints ("XSD 1.0 calendar/year/timezone rules; timezone absence and sub-millisecond precision are " ++
        "preserved.")]
  | .temporal type => textSchema [("minLength", .number 1), nativeConstraints
    ("XSD " ++ type.text ++ " lexical/calendar rules are checked by the codec, not an RFC 3339 format coercion.")]
  | .duration => textSchema [("pattern", .string ("^-?P(?=[0-9]|T[0-9])(?:[0-9]+Y)?(?:[0-9]+M)?(?:[0-9]+D)?" ++
      "(?:T(?=[0-9])(?:[0-9]+H)?(?:[0-9]+M)?(?:[0-9]+(?:\\.[0-9]+)?S)?)?$"))]
  | .normalizedString => textSchema [("pattern", .string "^[^\\t\\r\\n]*$")]
  | .token => textSchema [("pattern", .string "^(?:[^ \\t\\r\\n]+(?: [^ \\t\\r\\n]+)*)?$")]
  | .language => textSchema [("pattern", .string "^[A-Za-z]\x7b1,8\x7d(?:-[A-Za-z0-9]\x7b1,8\x7d)*$")]
  | .ID => textSchema
    [("minLength", .number 1), nativeConstraints "XML NCName and document-wide ID uniqueness are checked by the codec."]
  | .Name => nameSchema .Name
  | .NCName => nameSchema .NCName
  | .NMTOKEN => nameSchema .NMTOKEN
  | .string | .anyURI => textSchema []

/-- A text under the keywords that `scalarSchema` uses of JSON Schema for texts. -/
structure Admits (schema : Keywords) (text : List Char) : Prop where
  type : Json.get "type" schema = some (.string "string")
  minLength : ∀ n, Json.get "minLength" schema = some (.number n) → n ≤ text.length
  maxLength : ∀ n, Json.get "maxLength" schema = some (.number n) → text.length ≤ n
  pattern : ∀ p, Json.get "pattern" schema = some (.string p) → Accepts p.toList text

-- The words of `boundedDigits`

def digit : Language Char := letters fun c => c.isDigit = true

def between (lower upper : ℕ) : Language Char := letters fun c => c.isDigit = true ∧ lower ≤ digitOf c ∧ digitOf c < upper

/-- The words of `boundedTerm`: those that first differ from the bound there, and are smaller. -/
def termWords (max : List Char) (index : ℕ) : Language Char :=
  exactly (max.take index) *
    (between (if index = 0 then 1 else 0) ((max[index]?).elim 0 digitOf) * digit ^ (max.length - index - 1))

theorem not_syntax_of_isDigit {c : Char} (hc : c.isDigit = true) : c ∉ syntaxCharacters := by
  intro hmem
  have hnone : ∀ d ∈ syntaxCharacters, d.isDigit = false := by decide
  rw [hnone c hmem] at hc
  contradiction

theorem range_text {a b : ℕ} (hab : a ≤ b) (hb : b < 10) :
    AtomText ('[' :: a.digitChar :: '-' :: b.digitChar :: [']']) (between a (b + 1)) := by
  have hplain : ∀ n < 10, n.digitChar ≠ '\\' ∧ n.digitChar ≠ ']' ∧ n.digitChar ≠ '-' ∧ n.digitChar ≠ '^' := by decide
  obtain ⟨h₁, h₂, h₃, -⟩ := hplain b hb
  have ha := digitChar_toNat a (by omega)
  have hb := digitChar_toNat b hb
  have hwords : between a (b + 1) = letters fun c => a.digitChar.toNat ≤ c.toNat ∧ c.toNat ≤ b.digitChar.toNat := by
    refine letters_congr fun c => ?_
    rw [isDigit_iff_toNat, digitOf_eq, ha, hb]
    omega
  rw [hwords]
  exact AtomText.range (hplain a (by omega)) ⟨h₁, h₂, h₃⟩ (by omega)

theorem interval_text {lower digit : ℕ} (h : lower < digit) (hdigit : digit < 10) :
    TermText (interval lower digit) (between lower digit) := by
  obtain ⟨n, rfl⟩ : ∃ n, digit = n + 1 := ⟨digit - 1, by omega⟩
  rw [interval, Nat.add_sub_cancel]
  split
  · subst lower
    have hchar := digitChar_toNat n (by omega)
    have hdigit : n.digitChar.isDigit = true := isDigit_iff_toNat.mpr (by omega)
    have hwords : between n (n + 1) = letters (· = n.digitChar) := by
      refine letters_congr fun c => ?_
      rw [isDigit_iff_toNat, digitOf_eq, ← Char.toNat_inj, hchar]
      omega
    rw [Nat.toDigits_of_lt_base (by omega), hwords]
    exact (AtomText.character (not_syntax_of_isDigit hdigit)).term
  · rw [Nat.toDigits_of_lt_base (by omega), Nat.toDigits_of_lt_base (by omega)]
    exact (range_text (by omega) (by omega)).term

theorem digit_text : AtomText "[0-9]".toList digit := by
  have hwords : digit = between 0 10 := letters_congr fun c => by simpa using fun hc => digitOf_lt hc
  rw [hwords]
  exact range_text (a := 0) (b := 9) (by decide) (by decide)

theorem repeats_exactly (L : Language Char) (n : ℕ) : repeats L n (some n) = L ^ n := by
  ext w
  constructor
  · rintro ⟨k, hn, hk, hw⟩
    rwa [Nat.le_antisymm (hk n rfl) hn] at hw
  · exact fun hw => ⟨n, le_rfl, fun m hm => (Option.some.inj hm).le, hw⟩

theorem anyDigits_text (n : ℕ) : AlternativeText (anyDigits n) (digit ^ n) := by
  rw [anyDigits]
  split
  · subst n
    exact .nil
  · rw [← repeats_exactly]
    exact (digit_text.quantified (bounds_exactly n) fun b hb => (Option.some.inj hb).le).alternative

theorem boundedTerm_text {max term : List Char} {index : ℕ} (hmax : Digits max) (hindex : index < max.length)
    (h : boundedTerm max index = some term) : AlternativeText term (termWords max index) := by
  obtain ⟨d, hd⟩ : ∃ d, max[index]? = some d := ⟨_, List.getElem?_eq_getElem hindex⟩
  have hten : digitOf d < 10 := digitOf_lt (hmax d (List.mem_of_getElem? hd))
  simp only [boundedTerm, hd, Option.elim_some] at h
  rw [termWords, hd, Option.elim_some]
  generalize (if index = 0 then 1 else 0) = lower at h ⊢
  split at h
  · cases h
  obtain rfl := Option.some.inj h
  rw [List.append_assoc]
  refine AlternativeText.characters (.cons (interval_text (by omega) hten) (anyDigits_text _)) fun c hc => ?_
  exact not_syntax_of_isDigit (hmax c (List.mem_of_mem_take hc))

def termsWithWords (max : List Char) : List (List Char × Language Char) :=
  (['0'], exactly ['0']) ::
    (if 1 < max.length then
      [("[1-9][0-9]\x7b0,".toList ++ toDigits 10 (max.length - 2) ++ ['}'],
        between 1 10 * repeats digit 0 (some (max.length - 2)))]
    else []) ++
    (List.range max.length).filterMap (fun index => (boundedTerm max index).map (·, termWords max index)) ++
    [(max, exactly max)]

theorem termsWithWords_fst (max : List Char) : (termsWithWords max).map Prod.fst = boundedTerms max := by
  have hfilter : ∀ indices : List ℕ,
      (indices.filterMap fun index => (boundedTerm max index).map (·, termWords max index)).map Prod.fst =
        indices.filterMap (boundedTerm max) := fun indices => by
    simp [List.map_filterMap, Function.comp_def]
  unfold termsWithWords boundedTerms
  rw [List.map_append, List.map_append, hfilter]
  split <;> rfl

theorem word_text {word : List Char} (hword : Digits word) : AlternativeText word (exactly word) := by
  simpa using AlternativeText.nil.characters fun c hc => not_syntax_of_isDigit (hword c hc)

theorem shorter_text (n : ℕ) :
    AlternativeText ("[1-9][0-9]\x7b0,".toList ++ toDigits 10 n ++ ['}']) (between 1 10 * repeats digit 0 (some n)) := by
  have hrest := (digit_text.quantified (bounds_between 0 n) (by simp)).alternative
  have h := AlternativeText.cons (range_text (a := 1) (b := 9) (by decide) (by decide)).term hrest
  exact h

theorem boundedDigits_text {max : List Char} (hmax : Digits max) :
    AtomText (boundedDigits max) (anyOf Prod.snd (termsWithWords max)) := by
  have hne : termsWithWords max ≠ [] := List.append_ne_nil_of_right_ne_nil _ (List.cons_ne_nil _ _)
  rw [boundedDigits, ← termsWithWords_fst]
  refine AtomText.group (DisjunctionText.join hne fun term hterm => ?_)
  simp only [termsWithWords, List.mem_append, List.mem_cons, List.mem_filterMap, List.mem_range,
    Option.map_eq_some_iff, List.not_mem_nil, or_false] at hterm
  rcases hterm with ((rfl | hterm) | ⟨index, hindex, text, htext, rfl⟩) | rfl
  · exact word_text (by simp [Digits])
  · split at hterm
    · obtain rfl := List.mem_singleton.mp hterm
      exact shorter_text _
    · cases hterm
  · exact boundedTerm_text hmax hindex htext
  · exact word_text hmax

variable {w : List Char}

theorem mem_digit_pow {n : ℕ} : w ∈ digit ^ n ↔ w.length = n ∧ Digits w := mem_letters_pow

theorem mem_shorter {n : ℕ} : w ∈ between 1 10 * repeats digit 0 (some n) ↔
    ∃ c rest, w = c :: rest ∧ c.isDigit = true ∧ 1 ≤ digitOf c ∧ Digits rest ∧ rest.length ≤ n := by
  constructor
  · rintro ⟨_, ⟨c, ⟨hc, hone, -⟩, rfl⟩, rest, ⟨k, -, hk, hrest⟩, rfl⟩
    obtain ⟨rfl, hdigits⟩ := mem_digit_pow.mp hrest
    exact ⟨c, rest, rfl, hc, hone, hdigits, hk n rfl⟩
  · rintro ⟨c, rest, rfl, hc, hone, hdigits, hlength⟩
    exact ⟨[c], ⟨c, ⟨hc, hone, digitOf_lt hc⟩, rfl⟩, rest,
      ⟨rest.length, Nat.zero_le _, fun m hm => (Option.some.inj hm) ▸ hlength, mem_digit_pow.mpr ⟨rfl, hdigits⟩⟩, rfl⟩

variable {max w : List Char}

theorem mem_termWords {index : ℕ} {d : Char} (hd : max[index]? = some d) :
    w ∈ termWords max index ↔ ∃ c rest, w = max.take index ++ c :: rest ∧ c.isDigit = true ∧
      (if index = 0 then 1 else 0) ≤ digitOf c ∧ digitOf c < digitOf d ∧ Digits rest ∧
      rest.length = max.length - index - 1 := by
  rw [termWords, hd, Option.elim_some]
  constructor
  · rintro ⟨_, rfl, _, ⟨_, ⟨c, ⟨hc, hlower, hless⟩, rfl⟩, rest, hrest, rfl⟩, rfl⟩
    obtain ⟨hlength, hdigits⟩ := mem_digit_pow.mp hrest
    exact ⟨c, rest, rfl, hc, hlower, hless, hdigits, hlength⟩
  · rintro ⟨c, rest, rfl, hc, hlower, hless, hdigits, hlength⟩
    exact ⟨_, rfl, _, ⟨[c], ⟨c, ⟨hc, hlower, hless⟩, rfl⟩, rest, mem_digit_pow.mpr ⟨hlength, hdigits⟩, rfl⟩, rfl⟩

theorem mem_words : w ∈ anyOf Prod.snd (termsWithWords max) ↔
    w = ['0'] ∨ (1 < max.length ∧ w ∈ between 1 10 * repeats digit 0 (some (max.length - 2))) ∨
      (∃ index d, max[index]? = some d ∧ w ∈ termWords max index) ∨ w = max := by
  simp only [mem_anyOf, termsWithWords, List.mem_append, List.mem_cons, List.mem_filterMap, List.mem_range,
    Option.map_eq_some_iff, List.not_mem_nil, or_false]
  constructor
  · rintro ⟨p, ((rfl | hp) | ⟨index, hindex, _, -, rfl⟩) | rfl, hw⟩
    · exact .inl hw
    · split at hp
      · obtain rfl := List.mem_singleton.mp hp
        exact .inr (.inl ⟨‹_›, hw⟩)
      · cases hp
    · exact .inr (.inr (.inl ⟨index, _, List.getElem?_eq_getElem hindex, hw⟩))
    · exact .inr (.inr (.inr hw))
  · rintro (rfl | ⟨hlength, hw⟩ | ⟨index, d, hd, hw⟩ | rfl)
    · exact ⟨_, .inl (.inl (.inl rfl)), rfl⟩
    · exact ⟨_, .inl (.inl (.inr (by rw [if_pos hlength]; exact List.mem_cons_self))), hw⟩
    · obtain ⟨c, -, -, -, hlower, hless, -⟩ := (mem_termWords hd).mp hw
      obtain ⟨hindex, -⟩ := List.getElem?_eq_some_iff.mp hd
      have hterm : ∃ term, boundedTerm max index = some term := by
        simp only [boundedTerm, hd, Option.elim_some]
        rw [if_neg (by omega)]
        exact ⟨_, rfl⟩
      obtain ⟨term, hterm⟩ := hterm
      exact ⟨_, .inl (.inr ⟨index, hindex, term, hterm, rfl⟩), hw⟩
    · exact ⟨_, .inr rfl, rfl⟩

theorem canonical_term {index : ℕ} {d : Char} (hmax : Canonical max) (hd : max[index]? = some d)
    (hw : w ∈ termWords max index) : Canonical w ∧ ofDigitChars 10 w 0 < ofDigitChars 10 max 0 := by
  obtain ⟨c, rest, rfl, hc, hlower, hless, hrest, hlength⟩ := (mem_termWords hd).mp hw
  obtain ⟨hindex, -⟩ := List.getElem?_eq_some_iff.mp hd
  have hdigits : Digits (max.take index ++ c :: rest) := by
    refine digits_append.mpr ⟨fun e he => hmax.digits e (List.mem_of_mem_take he), digits_cons.mpr ⟨hc, hrest⟩⟩
  refine ⟨⟨hdigits, by simp, fun hhead => ?_⟩, ?_⟩
  · cases index with
    | zero =>
      obtain rfl : c = '0' := by simpa using hhead
      exact absurd hlower (by decide)
    | succ index =>
      obtain ⟨e, es, rfl⟩ := List.exists_cons_of_ne_nil hmax.ne_nil
      have hzero := hmax.head (by simpa using hhead)
      simp [hzero] at hindex
  · refine (ofDigitChars_lt_iff hdigits hmax.digits ?_).mpr ⟨index, d, c, rest, hd, rfl, hless⟩
    simp only [List.length_append, List.length_take, List.length_cons]
    omega

theorem mem_words_iff (hmax : Canonical max) : w ∈ anyOf Prod.snd (termsWithWords max) ↔
    Canonical w ∧ ofDigitChars 10 w 0 ≤ ofDigitChars 10 max 0 := by
  rw [mem_words]
  constructor
  · rintro (rfl | ⟨hlong, hw⟩ | ⟨index, d, hd, hw⟩ | rfl)
    · exact ⟨⟨by simp [Digits], by simp, fun _ => rfl⟩, Nat.zero_le _⟩
    · obtain ⟨c, rest, rfl, hc, hone, hrest, hlength⟩ := mem_shorter.mp hw
      have hdigits : Digits (c :: rest) := digits_cons.mpr ⟨hc, hrest⟩
      refine ⟨⟨hdigits, by simp, fun hhead => ?_⟩, ?_⟩
      · obtain rfl : c = '0' := Option.some.inj hhead
        exact absurd hone (by decide)
      · have hpow : 10 ^ (c :: rest).length ≤ 10 ^ (max.length - 1) :=
          Nat.pow_le_pow_right (by decide) (by simp only [List.length_cons]; omega)
        exact (ofDigitChars_lt hdigits).le.trans (hpow.trans (pow_le_of_canonical hmax hlong))
    · exact (canonical_term hmax hd hw).imp_right Nat.le_of_lt
    · exact ⟨hmax, le_rfl⟩
  · rintro ⟨hw, hle⟩
    by_cases hzero : w.head? = some '0'
    · exact .inl (hw.head hzero)
    obtain ⟨c, rest, rfl⟩ := List.exists_cons_of_ne_nil hw.ne_nil
    obtain ⟨hc, hrest⟩ := digits_cons.mp hw.digits
    have hone : 1 ≤ digitOf c := by
      by_contra hlow
      exact hzero (congrArg some ((digitOf_inj hc (by decide)).mp (show digitOf c = digitOf '0' by
        rw [digitOf_eq '0']
        exact Nat.lt_one_iff.mp (not_le.mp hlow))))
    rcases Nat.lt_trichotomy (c :: rest).length max.length with hshort | hsame | hlong
    · rw [List.length_cons] at hshort
      have hpos : 0 < rest.length + 1 := Nat.succ_pos _
      exact .inr (.inl ⟨by omega, mem_shorter.mpr ⟨c, rest, rfl, hc, hone, hrest, by omega⟩⟩)
    · rcases hle.eq_or_lt with heq | hless
      · refine .inr (.inr (.inr ?_))
        rw [← toDigits_ofDigitChars hw, heq, toDigits_ofDigitChars hmax]
      · obtain ⟨index, d, e, tail, hd, htake, hed⟩ := (ofDigitChars_lt_iff hw.digits hmax.digits hsame).mp hless
        have htail := hw.digits
        rw [htake, digits_append, digits_cons] at htail
        have hlength := congrArg List.length htake
        obtain ⟨hindex, -⟩ := List.getElem?_eq_some_iff.mp hd
        simp only [List.length_append, List.length_take, List.length_cons] at hlength hsame
        refine .inr (.inr (.inl ⟨index, d, hd, (mem_termWords hd).mpr
          ⟨e, tail, htake, htail.2.1, ?_, hed, htail.2.2, by omega⟩⟩))
        split
        · subst index
          obtain rfl : c = e := by simpa using (List.cons.inj htake).1
          exact hone
        · exact Nat.zero_le _
    · have hpow : 10 ^ max.length ≤ 10 ^ ((c :: rest).length - 1) := Nat.pow_le_pow_right (by decide) (by omega)
      have hpos := List.length_pos_iff.mpr hmax.ne_nil
      have := pow_le_of_canonical hw (by omega)
      have := ofDigitChars_lt hmax.digits
      omega

theorem boundedDigits_accepts (n : ℕ) (text : List Char) :
    Accepts ('^' :: boundedDigits (toDigits 10 n) ++ ['$']) text ↔ ∃ m ≤ n, text = toDigits 10 m := by
  have hcanonical := canonical_toDigits n
  rw [accepts_anchored (boundedDigits_text hcanonical.digits), mem_words_iff hcanonical, Nat.ofDigitChars_ten_toDigits,
    canonical_le_iff]

-- The words of the 64-bit patterns

def paddedWords (max : List Char) : Language Char :=
  repeats (letters (· = '0')) 0 none * anyOf Prod.snd (termsWithWords max)

def UpTo (bound : ℕ) (text : List Char) : Prop := text ≠ [] ∧ Digits text ∧ ofDigitChars 10 text 0 ≤ bound

theorem mem_zeros {min : ℕ} :
    w ∈ repeats (letters (· = '0')) min none ↔ ∃ k, min ≤ k ∧ w = List.replicate k '0' := by
  constructor
  · rintro ⟨k, hmin, -, hw⟩
    exact ⟨k, hmin, List.eq_replicate_iff.mpr (mem_letters_pow.mp hw)⟩
  · rintro ⟨k, hmin, rfl⟩
    exact ⟨k, hmin, by simp, mem_letters_pow.mpr (List.eq_replicate_iff.mp rfl)⟩

theorem digits_zeros (k : ℕ) : Digits (List.replicate k '0') := by
  intro c hc
  rw [List.eq_of_mem_replicate hc]
  rfl

theorem mem_paddedWords (hmax : Canonical max) :
    w ∈ paddedWords max ↔ UpTo (ofDigitChars 10 max 0) w := by
  constructor
  · rintro ⟨_, hzeros, v, hv, rfl⟩
    obtain ⟨k, -, rfl⟩ := mem_zeros.mp hzeros
    obtain ⟨hcanonical, hle⟩ := (mem_words_iff hmax).mp hv
    refine ⟨by simp [hcanonical.ne_nil], digits_append.mpr ⟨digits_zeros k, hcanonical.digits⟩, ?_⟩
    rwa [ofDigitChars_zeros_append]
  · rintro ⟨hne, hdigits, hle⟩
    obtain ⟨k, v, rfl, hcanonical⟩ := zeros_canonical hdigits hne
    rw [ofDigitChars_zeros_append] at hle
    exact ⟨_, mem_zeros.mpr ⟨k, Nat.zero_le k, rfl⟩, v, (mem_words_iff hmax).mpr ⟨hcanonical, hle⟩, rfl⟩

theorem mem_optional {d : Char} : w ∈ repeats (letters (· = d)) 0 (some 1) ↔ w = [] ∨ w = [d] := by
  constructor
  · rintro ⟨k, -, hk, hw⟩
    obtain ⟨hlength, hall⟩ := mem_letters_pow.mp hw
    have := hk 1 rfl
    match w, hlength with
    | [], _ => exact .inl rfl
    | [c], _ => exact .inr (by rw [hall c List.mem_cons_self])
    | _ :: _ :: _, hlength =>
      simp only [List.length_cons] at hlength
      omega
  · rintro (rfl | rfl)
    · exact ⟨0, le_rfl, by simp, rfl⟩
    · exact ⟨1, Nat.zero_le 1, fun m hm => (Option.some.inj hm).le, mem_letters_pow.mpr (by simp)⟩

theorem padded_text {max : List Char} (hmax : Digits max) :
    AlternativeText ('0' :: '*' :: boundedDigits max) (paddedWords max) := by
  have hzeros := (AtomText.character (not_syntax_of_isDigit (c := '0') rfl)).quantified bounds_star (by simp)
  have h := AlternativeText.cons hzeros (boundedDigits_text hmax).term.alternative
  exact h

theorem plus_text {max : List Char} (hmax : Digits max) :
    AlternativeText ('\\' :: '+' :: '?' :: '0' :: '*' :: boundedDigits max)
      (repeats (letters (· = '+')) 0 (some 1) * paddedWords max) := by
  have hsign := (AtomText.escape (c := '+') (by decide)).quantified bounds_question (by simp)
  have h := AlternativeText.cons hsign (padded_text hmax)
  exact h

theorem mem_plus (hmax : Canonical max) :
    w ∈ repeats (letters (· = '+')) 0 (some 1) * paddedWords max ↔
      ∃ v, (w = v ∨ w = '+' :: v) ∧ UpTo (ofDigitChars 10 max 0) v := by
  constructor
  · rintro ⟨_, hsign, v, hv, rfl⟩
    refine ⟨v, ?_, (mem_paddedWords hmax).mp hv⟩
    rcases mem_optional.mp hsign with rfl | rfl
    · exact .inl rfl
    · exact .inr rfl
  · rintro ⟨v, rfl | rfl, hv⟩
    · exact ⟨[], mem_optional.mpr (.inl rfl), w, (mem_paddedWords hmax).mpr hv, rfl⟩
    · exact ⟨['+'], mem_optional.mpr (.inr rfl), v, (mem_paddedWords hmax).mpr hv, rfl⟩

theorem canonical_of_value {text : List Char} {n : ℕ} (h : toDigits 10 n = text) :
    Canonical text ∧ ofDigitChars 10 text 0 = n :=
  h ▸ ⟨canonical_toDigits n, Nat.ofDigitChars_ten_toDigits⟩

theorem int64_max : toDigits 10 9223372036854775807 = "9223372036854775807".toList := by decide +kernel

theorem int64_min : toDigits 10 9223372036854775808 = "9223372036854775808".toList := by decide +kernel

theorem uint64_max : toDigits 10 18446744073709551615 = "18446744073709551615".toList := by decide +kernel

theorem int64Pattern_accepts (text : List Char) : Accepts int64Pattern text ↔
    (∃ v, (text = v ∨ text = '+' :: v) ∧ UpTo 9223372036854775807 v) ∨
      ∃ v, text = '-' :: v ∧ UpTo 9223372036854775808 v := by
  obtain ⟨hmax, hmaxValue⟩ := canonical_of_value int64_max
  obtain ⟨hmin, hminValue⟩ := canonical_of_value int64_min
  have hminus := AlternativeText.cons (AtomText.character (c := '-') (by decide)).term (padded_text hmin.digits)
  have hgroup := AtomText.group (DisjunctionText.more (plus_text hmax.digits) (DisjunctionText.one hminus))
  have hpattern := accepts_anchored hgroup text
  have htext : int64Pattern = '^' :: ('(' :: '?' :: ':' :: ('\\' :: '+' :: '?' :: '0' :: '*' ::
      boundedDigits "9223372036854775807".toList ++ '|' :: (['-'] ++ '0' :: '*' ::
      boundedDigits "9223372036854775808".toList)) ++ [')']) ++ ['$'] := by
    have hopen : "^(?:\\+?0*".toList = ['^', '(', '?', ':', '\\', '+', '?', '0', '*'] := rfl
    have hmiddle : "|-0*".toList = ['|', '-', '0', '*'] := rfl
    have hclose : ")$".toList = [')', '$'] := rfl
    unfold int64Pattern
    generalize boundedDigits "9223372036854775807".toList = max
    generalize boundedDigits "9223372036854775808".toList = min
    simp [hopen, hmiddle, hclose]
  rw [htext, hpattern, Language.mem_add, mem_plus hmax, hmaxValue]
  refine or_congr Iff.rfl ⟨?_, ?_⟩
  · rintro ⟨_, ⟨_, rfl, rfl⟩, v, hv, rfl⟩
    exact ⟨v, rfl, hminValue ▸ (mem_paddedWords hmin).mp hv⟩
  · rintro ⟨v, rfl, hv⟩
    exact ⟨['-'], ⟨_, rfl, rfl⟩, v, (mem_paddedWords hmin).mpr (hminValue.symm ▸ hv), rfl⟩

theorem uint64Pattern_accepts (text : List Char) : Accepts uint64Pattern text ↔
    (∃ v, (text = v ∨ text = '+' :: v) ∧ UpTo 18446744073709551615 v) ∨ ∃ v, text = '-' :: v ∧ UpTo 0 v := by
  obtain ⟨hmax, hmaxValue⟩ := canonical_of_value uint64_max
  have hzeros := (AtomText.character (not_syntax_of_isDigit (c := '0') rfl)).quantified bounds_plus (by simp)
  have hminus := AlternativeText.cons (AtomText.character (c := '-') (by decide)).term hzeros.alternative
  have hgroup := AtomText.group (DisjunctionText.more (plus_text hmax.digits) (DisjunctionText.one hminus))
  have hpattern := accepts_anchored hgroup text
  have htext : uint64Pattern = '^' :: ('(' :: '?' :: ':' :: ('\\' :: '+' :: '?' :: '0' :: '*' ::
      boundedDigits "18446744073709551615".toList ++ '|' :: (['-'] ++ (['0'] ++ ['+']))) ++ [')']) ++ ['$'] := by
    have hopen : "^(?:\\+?0*".toList = ['^', '(', '?', ':', '\\', '+', '?', '0', '*'] := rfl
    have hclose : "|-0+)$".toList = ['|', '-', '0', '+', ')', '$'] := rfl
    unfold uint64Pattern
    generalize boundedDigits "18446744073709551615".toList = max
    simp [hopen, hclose]
  rw [htext, hpattern, Language.mem_add, mem_plus hmax, hmaxValue]
  refine or_congr Iff.rfl ⟨?_, ?_⟩
  · rintro ⟨_, ⟨_, rfl, rfl⟩, v, hv, rfl⟩
    obtain ⟨k, hk, rfl⟩ := mem_zeros.mp hv
    refine ⟨_, rfl, by simp; omega, digits_zeros k, ?_⟩
    simp
  · rintro ⟨v, rfl, hne, hdigits, hzero⟩
    obtain ⟨k, w, rfl, hcanonical⟩ := zeros_canonical hdigits hne
    rw [ofDigitChars_zeros_append] at hzero
    have hw := toDigits_ofDigitChars hcanonical
    rw [Nat.le_zero.mp hzero, Nat.toDigits_zero] at hw
    refine ⟨['-'], ⟨_, rfl, rfl⟩, _, mem_zeros.mpr ⟨k + 1, by omega, ?_⟩, rfl⟩
    rw [← hw, List.replicate_succ']
    rfl

theorem upTo_iff {bound : ℕ} {text : List Char} : UpTo bound text ↔
    (text ≠ [] && text.all Char.isDigit) = true ∧ ofDigitChars 10 text 0 ≤ bound := by
  simp [UpTo, Digits, and_assoc]

theorem not_upTo_sign {bound : ℕ} {c : Char} {text : List Char} (hc : c.isDigit = false) : ¬ UpTo bound (c :: text) := by
  rintro ⟨-, hdigits, -⟩
  rw [(digits_cons.mp hdigits).1] at hc
  contradiction

/-- What `decodeInteger` asks of a text, said of its sign and its digits. -/
theorem integer_between {low high : ℕ} (text : List Char) :
    (isInteger text = true ∧ -(low : Int) ≤ toBigInt text ∧ toBigInt text ≤ high) ↔
      (∃ v, (text = v ∨ text = '+' :: v) ∧ UpTo high v) ∨ ∃ v, text = '-' :: v ∧ UpTo low v := by
  by_cases hminus : ∃ v, text = '-' :: v
  · obtain ⟨v, rfl⟩ := hminus
    have hleft : ¬ ∃ u, ('-' :: v = u ∨ '-' :: v = '+' :: u) ∧ UpTo high u := by
      rintro ⟨u, rfl | h, hu⟩
      · exact not_upTo_sign rfl hu
      · simp at h
    rw [or_iff_right hleft]
    constructor
    · rintro ⟨hinteger, hlow, -⟩
      exact ⟨v, rfl, upTo_iff.mpr ⟨hinteger, by simp only [toBigInt] at hlow; omega⟩⟩
    · rintro ⟨u, h, hu⟩
      obtain rfl := (List.cons.inj h).2
      obtain ⟨hinteger, hle⟩ := upTo_iff.mp hu
      refine ⟨hinteger, ?_, ?_⟩ <;> simp only [toBigInt] <;> omega
  have hright : ¬ ∃ v, text = '-' :: v ∧ UpTo low v := fun ⟨v, h, _⟩ => hminus ⟨v, h⟩
  rw [or_iff_left hright]
  by_cases hplus : ∃ v, text = '+' :: v
  · obtain ⟨v, rfl⟩ := hplus
    constructor
    · rintro ⟨hinteger, -, hhigh⟩
      exact ⟨v, .inr rfl, upTo_iff.mpr ⟨hinteger, by simp only [toBigInt] at hhigh; omega⟩⟩
    · rintro ⟨u, rfl | h, hu⟩
      · exact absurd hu (not_upTo_sign rfl)
      · obtain rfl := (List.cons.inj h).2
        obtain ⟨hinteger, hle⟩ := upTo_iff.mp hu
        refine ⟨hinteger, ?_, ?_⟩ <;> simp only [toBigInt] <;> omega
  · have hunsigned : unsigned text = text := by
      unfold unsigned
      split
      · exact absurd ⟨_, rfl⟩ hplus
      · exact absurd ⟨_, rfl⟩ hminus
      · rfl
    have hvalue : toBigInt text = (ofDigitChars 10 text 0 : ℕ) := by
      unfold toBigInt
      split
      · exact absurd ⟨_, rfl⟩ hminus
      · exact absurd ⟨_, rfl⟩ hplus
      · rfl
    rw [isInteger, hunsigned, hvalue]
    constructor
    · rintro ⟨hinteger, -, hhigh⟩
      exact ⟨text, .inl rfl, upTo_iff.mpr ⟨hinteger, by omega⟩⟩
    · rintro ⟨u, rfl | h, hu⟩
      · obtain ⟨hinteger, hle⟩ := upTo_iff.mp hu
        exact ⟨hinteger, by omega, by omega⟩
      · exact absurd ⟨u, h⟩ hplus

-- The schemas and the decoder

theorem decodeInteger_ok {type : ScalarName} {low high : Int} (hrange : integerRange type = some (low, high))
    (text : List Char) : (∃ value, decodeInteger type text = .ok value) ↔
      (isInteger text = true ∧ low ≤ toBigInt text ∧ toBigInt text ≤ high) ∧ text.length ≤ 4096 := by
  simp only [decodeInteger, hrange]
  constructor
  · rintro ⟨value, h⟩
    obtain ⟨_, hinteger, h⟩ := except_bind_ok h
    obtain ⟨_, hlength, h⟩ := except_bind_ok h
    obtain ⟨_, hbetween, -⟩ := except_bind_ok h
    exact ⟨⟨require_ok.mp hinteger, require_ok.mp hbetween⟩, require_ok.mp hlength⟩
  · rintro ⟨⟨hinteger, hbetween⟩, hlength⟩
    simp [require, hinteger, hbetween, hlength, bind, Except.bind, pure, Except.pure]

theorem admits_pattern {pattern : List Char} (text : List Char) :
    Admits (textSchema [("maxLength", .number 4096), ("pattern", .string (String.ofList pattern))]) text ↔
      Accepts pattern text ∧ text.length ≤ 4096 := by
  constructor
  · rintro ⟨-, -, hlength, hpattern⟩
    exact ⟨by simpa using hpattern (String.ofList pattern) (by simp [textSchema, Json.get]),
      by simpa using hlength 4096 (by simp [textSchema, Json.get])⟩
  · rintro ⟨hpattern, hlength⟩
    exact ⟨by simp [textSchema, Json.get], by simp [textSchema, Json.get],
      by simpa [textSchema, Json.get] using hlength, by simpa [textSchema, Json.get] using hpattern⟩

/-- The lexical strings, blanks collapsed, that the decoder takes for a 64-bit
integer are those of its schema. -/
theorem int64_decodes (input : List Char) (namespaces : List (String × String)) :
    (∃ value, decodeScalar .int64 input namespaces = .ok value) ↔ Admits (scalarSchema .int64) (collapsed input) := by
  rw [scalarSchema, admits_pattern, int64Pattern_accepts, ← integer_between]
  exact decodeInteger_ok (show integerRange .int64 = some (_, _) from rfl) _

theorem uint64_decodes (input : List Char) (namespaces : List (String × String)) :
    (∃ value, decodeScalar .uint64 input namespaces = .ok value) ↔ Admits (scalarSchema .uint64) (collapsed input) := by
  rw [scalarSchema, admits_pattern, uint64Pattern_accepts, ← integer_between]
  exact decodeInteger_ok (show integerRange .uint64 = some (_, _) from rfl) _

end WotAv.Catalog
