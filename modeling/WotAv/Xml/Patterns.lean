import WotAv.Binding.Digest
import WotAv.Binding.Soap
import WotAv.Lib.Json
import WotAv.Lib.XsdRegex

/-!
# The pattern facets (`src/xml/xsd-patterns.ts`)

Four patterns are supported, each by a recogniser of its own. A text is the
list of its characters.
-/

namespace WotAv.Xml

open WotAv.Lib WotAv.Lib.Xsd WotAv.Binding
open Computability

-- Recognisers

namespace Patterns

def oid : String := "[0-9]+(.[0-9]+)*"

def passphrase : String := "[ -~]\x7b8,63\x7d"

def concreteTopic : String := "(([\\i-[:]][\\c-[:]]*:)?[\\i-[:]][\\c-[:]]*)(/([\\i-[:]][\\c-[:]]*:)?[\\i-[:]][\\c-[:]]*)*"

def fullTopic : String :=
  "([\\i-[:]][\\c-[:]]*:)?(//)?([\\i-[:]][\\c-[:]]*|\\*)((/|//)(([\\i-[:]][\\c-[:]]*:)?[\\i-[:]][\\c-[:]]*|\\*|[.]))*" ++
  "(\\|([\\i-[:]][\\c-[:]]*:)?(//)?([\\i-[:]][\\c-[:]]*|\\*)((/|//)(([\\i-[:]][\\c-[:]]*:)?[\\i-[:]][\\c-[:]]*|\\*|[.]))*)*"

def known : List String := [oid, passphrase, concreteTopic, fullTopic]

end Patterns

def assertSupportedXsdPattern (pattern : String) : Except OnvifError Unit :=
  require (pattern ∈ Patterns.known) .unsupportedCapability
    ("Unqualified XSD pattern: " ++ String.ofList (Json.stringChars pattern))

def lexicalQName (value : List Char) : Bool :=
  let parts := value.splitOn ':'
  parts.length ≤ 2 && parts.all isNCName

/-- `/^[ -~]{8,63}$/u` -/
def isPassphrase (value : List Char) : Bool :=
  8 ≤ value.length && value.length ≤ 63 && value.all fun c => ' ' ≤ c && c ≤ '~'

def isConcreteTopic (value : List Char) : Bool := (value.splitOn '/').all lexicalQName

def topicName : List Char → Option (List Char)
  | [] => none
  | c :: cs => if xmlNameStart c then some (cs.dropWhile xmlNameChar) else none

def topicPrefix (cs : List Char) : List Char :=
  match topicName cs with
  | some (':' :: rest) => rest
  | _ => cs

def topicHead : List Char → Option (List Char)
  | '*' :: rest => some rest
  | cs => topicName cs

def skipSlashes : List Char → List Char
  | '/' :: '/' :: rest => rest
  | cs => cs

def skipSlash : List Char → List Char
  | '/' :: rest => rest
  | cs => cs

def topicStep : List Char → Option (List Char)
  | '*' :: rest | '.' :: rest => some rest
  | cs => topicName (topicPrefix cs)

theorem topicName_length (h : topicName cs = some rest) : rest.length < cs.length := by
  cases cs with
  | nil => simp [topicName] at h
  | cons c cs =>
    obtain ⟨-, rfl⟩ : xmlNameStart c ∧ cs.dropWhile xmlNameChar = rest := by simpa [topicName] using h
    exact Nat.lt_succ_of_le (List.IsSuffix.length_le (List.dropWhile_suffix _))

theorem topicPrefix_length (cs : List Char) : (topicPrefix cs).length ≤ cs.length := by
  unfold topicPrefix
  split
  · rename_i rest h
    have := topicName_length h
    simp only [List.length_cons] at this
    omega
  · exact Nat.le_refl _

theorem topicStep_length (h : topicStep cs = some rest) : rest.length ≤ cs.length := by
  unfold topicStep at h
  split at h
  · simp [← Option.some.inj h]
  · simp [← Option.some.inj h]
  · exact Nat.le_trans (Nat.le_of_lt (topicName_length h)) (topicPrefix_length cs)

theorem skipSlash_length (cs : List Char) : (skipSlash cs).length ≤ cs.length := by
  unfold skipSlash
  split <;> simp

def topicSteps : List Char → Bool
  | [] => true
  | c :: cs =>
    if c = '/' then
      match _h : topicStep (skipSlash cs) with
      | some rest => topicSteps rest
      | none => false
    else false
termination_by cs => cs.length
decreasing_by
  exact Nat.lt_succ_of_le (Nat.le_trans (topicStep_length _h) (skipSlash_length cs))

def fullTopicPath (value : List Char) : Bool :=
  match topicHead (skipSlashes (topicPrefix value)) with
  | some rest => topicSteps rest
  | none => false

def isFullTopic (value : List Char) : Bool := (value.splitOn '|').all fullTopicPath

/-- The loop of the recogniser of object identifiers, with its two flags. -/
def oidLoop (digit separator : Bool) : List Char → Bool
  | [] => digit
  | c :: cs =>
    if c = '\r' ∨ c = '\n' then false
    else
      let numeric := '0' ≤ c && c ≤ '9'
      if !digit && !separator && !numeric then false
      else if separator && !numeric then false
      else oidLoop numeric (!numeric) cs

/-- What `matchesXsdPattern` does after its checks. -/
def recognise (pattern : String) (value : List Char) : Bool :=
  if pattern = Patterns.passphrase then isPassphrase value
  else if pattern = Patterns.concreteTopic then isConcreteTopic value
  else if pattern = Patterns.fullTopic then isFullTopic value
  else oidLoop false false value

def matchesXsdPattern (pattern : String) (value : List Char) : Except OnvifError Bool := do
  assertSupportedXsdPattern pattern
  require (utf16Length (String.ofList value) ≤ 65536) .xmlLimit "XSD pattern lexical bound exceeded"
  pure (recognise pattern value)

-- The patterns as expressions

/-- `[\i-[:]][\c-[:]]*` -/
def nameRegex : Regex := .seq (.without .initial (.char ':')) (.star (.without .name (.char ':')))

/-- `(name:)?` -/
def prefixRegex : Regex := .opt (.group (.seq nameRegex (.char ':')))

def digitRegex : Regex := .plus (.cls (.range '0' '9'))

def oidRegex : Regex := .seq digitRegex (.star (.group (.seq .dot digitRegex)))

def passphraseRegex : Regex := .times (.cls (.range ' ' '~')) 8 63

def concreteTopicRegex : Regex :=
  .seq (.group (.seq prefixRegex nameRegex)) (.star (.group (.seq (.char '/') (.seq prefixRegex nameRegex))))

/-- `((/|//)((name:)?name|\*|[.]))*` -/
def topicStepsRegex : Regex :=
  .star (.group (.seq (.group (.alt (.char '/') (.seq (.char '/') (.char '/'))))
    (.group (.alt (.seq prefixRegex nameRegex) (.alt (.escaped '*') (.cls (.char '.')))))))

/-- `(name:)?(//)?(name|\*)` and the steps. -/
def topicPathRegex : Regex :=
  .seq prefixRegex (.seq (.opt (.group (.seq (.char '/') (.char '/'))))
    (.seq (.group (.alt nameRegex (.escaped '*'))) topicStepsRegex))

def fullTopicRegex : Regex := .seq topicPathRegex (.star (.group (.seq (.escaped '|') topicPathRegex)))

def regexOf (pattern : String) : Regex :=
  if pattern = Patterns.passphrase then passphraseRegex
  else if pattern = Patterns.concreteTopic then concreteTopicRegex
  else if pattern = Patterns.fullTopic then fullTopicRegex
  else oidRegex

theorem regexOf_text (h : pattern ∈ Patterns.known) : (regexOf pattern).text = pattern.toList := by
  simp only [Patterns.known, List.mem_cons, List.not_mem_nil, or_false] at h
  rcases h with rfl | rfl | rfl | rfl <;> decide +kernel

-- Names

theorem xmlNameChar_of_start (h : xmlNameStart c) : xmlNameChar c := by
  simp [xmlNameChar, h]

theorem eq_char_iff (c d : Char) : c = d ↔ c.toNat = d.toNat :=
  ⟨fun h => by rw [h], fun h => Char.ext (UInt32.toNat_inj.mp h)⟩

theorem nameStart_eq (c : Char) : nameStart c = xmlNameStart c := by
  rw [Bool.eq_iff_iff]
  simp only [nameStart, xmlNameStart, List.any_cons, List.any_nil, Bool.or_eq_true, Bool.and_eq_true, decide_eq_true_eq,
    isAlpha_iff, eq_char_iff c '_']
  have h : '_'.toNat = 95 := rfl
  simp only [h, Bool.false_eq_true, or_false]
  constructor <;> intro hc <;> omega
theorem namePart_eq (c : Char) : namePart c = xmlNameChar c := by
  rw [Bool.eq_iff_iff]
  simp only [namePart, xmlNameChar, nameStart_eq, List.any_cons, List.any_nil, Bool.or_eq_true, Bool.and_eq_true,
    decide_eq_true_eq, isDigit_iff, eq_char_iff c '-', eq_char_iff c '.']
  have h : '-'.toNat = 45 := rfl
  have h' : '.'.toNat = 46 := rfl
  simp only [h, h', Bool.false_eq_true, or_false]
  by_cases hstart : xmlNameStart c = true
  · simp [hstart]
  · simp only [hstart, false_or, Bool.false_eq_true]
    constructor <;> intro hc <;> omega

theorem initial_has (c : Char) : (Class.initial.has c && !(Class.char ':').has c) = xmlNameStart c := by
  by_cases hc : c = ':'
  · subst hc
    decide
  · simp [Class.has, hc, nameStart_eq]

theorem name_has (c : Char) : (Class.name.has c && !(Class.char ':').has c) = xmlNameChar c := by
  by_cases hc : c = ':'
  · subst hc
    decide
  · simp [Class.has, hc, namePart_eq]

variable {s : List Char}

theorem mem_name : s ∈ nameRegex.language ↔ isNCName s := by
  simp only [nameRegex, Regex.language, initial_has, name_has, Language.mem_mul]
  constructor
  · rintro ⟨w, ⟨c, hc, rfl⟩, t, ht, rfl⟩
    have hall := mem_one_star.mp ht
    simpa [isNCName, hc] using hall
  · intro h
    cases s with
    | nil => simp [isNCName] at h
    | cons c cs =>
      obtain ⟨hc, hcs⟩ := Bool.and_eq_true_iff.mp h
      exact ⟨[c], ⟨c, hc, rfl⟩, cs, mem_one_star.mpr (by simpa using hcs), rfl⟩

theorem part_of_name (h : isNCName s) : ∀ c ∈ s, xmlNameChar c := by
  cases s with
  | nil => simp
  | cons c cs =>
    obtain ⟨hc, hcs⟩ := Bool.and_eq_true_iff.mp h
    simpa [xmlNameChar_of_start hc] using hcs

theorem ne_of_part (h : xmlNameChar c = true) (hd : xmlNameChar d = false) : c ≠ d := by
  rintro rfl
  simp [h] at hd

theorem mem_prefix : s ∈ prefixRegex.language ↔ s = [] ∨ ∃ n, isNCName n ∧ s = n ++ [':'] := by
  simp only [prefixRegex, Regex.language, Language.mem_add, Language.mem_one, Language.mem_mul, mem_name]
  rw [or_comm]
  refine or_congr_right ⟨?_, ?_⟩
  · rintro ⟨n, hn, _, rfl, rfl⟩
    exact ⟨n, hn, rfl⟩
  · rintro ⟨n, hn, rfl⟩
    exact ⟨n, hn, [':'], rfl, rfl⟩

theorem mem_qname : s ∈ (Regex.seq prefixRegex nameRegex).language ↔
    isNCName s ∨ ∃ p n, isNCName p ∧ isNCName n ∧ s = p ++ ':' :: n := by
  simp only [Regex.language, Language.mem_mul, mem_prefix, mem_name]
  constructor
  · rintro ⟨p, rfl | ⟨p, hp, rfl⟩, n, hn, rfl⟩
    · exact .inl hn
    · exact .inr ⟨p, n, hp, hn, by simp⟩
  · rintro (h | ⟨p, n, hp, hn, rfl⟩)
    · exact ⟨[], .inl rfl, s, h, rfl⟩
    · exact ⟨p ++ [':'], .inr ⟨p, hp, rfl⟩, n, hn, by simp⟩

theorem not_mem_name (h : isNCName s) (hd : xmlNameChar d = false) : d ∉ s :=
  fun hmem => ne_of_part (part_of_name h d hmem) hd rfl

theorem lexicalQName_iff : lexicalQName s ↔ s ∈ (Regex.seq prefixRegex nameRegex).language := by
  have hcolon : xmlNameChar ':' = false := by decide
  rw [mem_qname]
  constructor
  · intro h
    obtain ⟨hlen, hall⟩ := Bool.and_eq_true_iff.mp h
    have hs : List.intercalate [':'] (s.splitOn ':') = s := List.intercalate_splitOn ':'
    rcases hq : s.splitOn ':' with - | ⟨p, - | ⟨n, - | ⟨x, ws⟩⟩⟩
    · exact absurd hq (List.splitOnP_ne_nil _ _)
    · rw [hq] at hs hall
      rw [← hs]
      exact .inl (by simpa [List.intercalate] using hall)
    · rw [hq] at hs hall
      have hboth : isNCName p ∧ isNCName n := by simpa using hall
      exact .inr ⟨p, n, hboth.1, hboth.2, by simpa [List.intercalate] using hs.symm⟩
    · simp [hq] at hlen
  · intro h
    have hsplit : ∀ ws : List (List Char), ws ≠ [] → (∀ w ∈ ws, isNCName w) → ws.length ≤ 2 →
        lexicalQName ([':'].intercalate ws) := by
      intro ws hne hws hlen
      simp only [lexicalQName, List.splitOn_intercalate ':' (fun w hw => not_mem_name (hws w hw) hcolon) hne]
      simpa [hlen] using hws
    rcases h with h | ⟨p, n, hp, hn, rfl⟩
    · simpa [List.intercalate] using hsplit [s] (by simp) (by simpa using h) (by simp)
    · simpa [List.intercalate] using hsplit [p, n] (by simp) (by simpa using ⟨hp, hn⟩) (by simp)

theorem isConcreteTopic_iff : isConcreteTopic s ↔ s ∈ concreteTopicRegex.language := by
  have hslash : ∀ w ∈ (Regex.seq prefixRegex nameRegex).language, '/' ∉ w := fun w hw hmem =>
    absurd (Regex.mem_has _ w hw '/' hmem) (by decide)
  have hsep := mem_separated hslash s
  rw [isConcreteTopic, List.all_eq_true]
  exact (forall₂_congr fun w _ => lexicalQName_iff).trans hsep.symm

theorem isPassphrase_iff : isPassphrase s ↔ s ∈ passphraseRegex.language := by
  simp only [isPassphrase, Bool.and_eq_true, decide_eq_true_eq, List.all_eq_true]
  constructor
  · rintro ⟨⟨h₁, h₂⟩, h₃⟩
    exact ⟨s.length, h₁, h₂, mem_one_pow.mpr ⟨rfl, fun c hc => by simpa [Class.has] using h₃ c hc⟩⟩
  · rintro ⟨n, h₁, h₂, hs⟩
    obtain ⟨rfl, hall⟩ := mem_one_pow.mp hs
    exact ⟨⟨h₁, h₂⟩, fun c hc => by simpa [Class.has] using hall c hc⟩

-- Object identifiers

/-- The words that may follow a digit. -/
def oidRest : Language Char := (Regex.star (.cls (.range '0' '9'))).language * (Regex.star (.seq .dot digitRegex)).language

theorem star_mul_star_eq (d any : Language Char) : d∗ * (any * (d * d∗))∗ =
    1 + any * (d * (d∗ * (any * (d * d∗))∗)) + d * (d∗ * (any * (d * d∗))∗) := by
  calc d∗ * (any * (d * d∗))∗
      = (1 + d * d∗) * (any * (d * d∗))∗ := by rw [Language.one_add_self_mul_kstar_eq_kstar]
    _ = (any * (d * d∗))∗ + d * (d∗ * (any * (d * d∗))∗) := by rw [add_mul, one_mul, mul_assoc]
    _ = _ := by
      have h := (Language.one_add_self_mul_kstar_eq_kstar (any * (d * d∗))).symm
      rw [mul_assoc, mul_assoc] at h
      rw [← h]

theorem oidRest_eq : oidRest = 1 + Xsd.one (fun c => c ≠ '\n' && c ≠ '\r') *
    (Xsd.one (Class.range '0' '9').has * oidRest) + Xsd.one (Class.range '0' '9').has * oidRest :=
  star_mul_star_eq _ _

theorem nil_mem_oidRest : [] ∈ oidRest := by
  rw [oidRest_eq]
  exact .inl (.inl rfl)

theorem cons_mem_oidRest {c : Char} : c :: s ∈ oidRest ↔
    (c ≠ '\n' ∧ c ≠ '\r') ∧ s ∈ Xsd.one (Class.range '0' '9').has * oidRest ∨
      (Class.range '0' '9').has c ∧ s ∈ oidRest := by
  conv_lhs => rw [oidRest_eq]
  simp only [Language.mem_add, Language.mem_one, cons_mem_one_mul]
  simp

theorem digit_mul_le (h : s ∈ Xsd.one (Class.range '0' '9').has * oidRest) : s ∈ oidRest := by
  rw [oidRest_eq]
  exact .inr h

theorem oidLoop_iff (s : List Char) :
    (oidLoop true false s ↔ s ∈ oidRest) ∧ (oidLoop false true s ↔ s ∈ Xsd.one (Class.range '0' '9').has * oidRest) ∧
      (oidLoop false false s ↔ s ∈ Xsd.one (Class.range '0' '9').has * oidRest) := by
  induction s with
  | nil => simp [oidLoop, nil_mem_oidRest, nil_not_mem_one_mul]
  | cons c s ih =>
    obtain ⟨ih₁, ih₂, -⟩ := ih
    rw [cons_mem_oidRest, cons_mem_one_mul]
    by_cases hline : c = '\r' ∨ c = '\n'
    · have hdigit : (Class.range '0' '9').has c = false := by rcases hline with rfl | rfl <;> decide
      simp only [oidLoop, hline, if_true, hdigit]
      rcases hline with rfl | rfl <;> simp
    · have hc : c ≠ '\n' ∧ c ≠ '\r' := ⟨fun h => hline (.inr h), fun h => hline (.inl h)⟩
      cases hdigit : (Class.range '0' '9').has c with
      | true =>
        have hnum : ('0' ≤ c && c ≤ '9') = true := hdigit
        have hle : s ∈ Xsd.one (Class.range '0' '9').has * oidRest ∨ s ∈ oidRest ↔ s ∈ oidRest := or_iff_right_of_imp digit_mul_le
        simp [oidLoop, hnum, ih₁, hc, hle]
      | false =>
        have hnum : ('0' ≤ c && c ≤ '9') = false := hdigit
        simp [oidLoop, hnum, ih₂, hc]

theorem oid_iff : oidLoop false false s ↔ s ∈ oidRegex.language := by
  rw [(oidLoop_iff s).2.2, oidRest, ← mul_assoc]
  rfl

-- Topic paths

/-- Nothing, or a character that no name has. -/
def Ended (rest : List Char) : Prop := ∀ c ∈ rest.head?, xmlNameChar c = false

theorem ended_cons {c : Char} {cs : List Char} (h : xmlNameChar c = false) : Ended (c :: cs) := by
  simpa [Ended] using h

theorem topicName_iff : topicName s = some rest ↔ ∃ n, isNCName n ∧ s = n ++ rest ∧ Ended rest := by
  constructor
  · intro h
    cases s with
    | nil => simp [topicName] at h
    | cons c cs =>
      obtain ⟨hc, rfl⟩ : xmlNameStart c ∧ cs.dropWhile xmlNameChar = rest := by simpa [topicName] using h
      refine ⟨c :: cs.takeWhile xmlNameChar, ?_, by simp [List.takeWhile_append_dropWhile], fun d hd => ?_⟩
      · simp only [isNCName, hc, Bool.true_and, List.all_eq_true]
        exact fun x hx => List.mem_takeWhile_imp hx
      · have hhead := List.head?_dropWhile_not xmlNameChar cs
        rw [Option.mem_def.mp hd] at hhead
        exact hhead
  · rintro ⟨n, hn, rfl, hend⟩
    cases n with
    | nil => simp [isNCName] at hn
    | cons c cs =>
      obtain ⟨hc, hcs⟩ := Bool.and_eq_true_iff.mp hn
      have hrest : rest.dropWhile xmlNameChar = rest := by
        cases rest with
        | nil => rfl
        | cons d ds => simp [hend d rfl]
      simp [topicName, hc, List.dropWhile_append_of_pos (by simpa using hcs), hrest]

theorem topicPrefix_name (hn : isNCName n) : topicPrefix (n ++ ':' :: rest) = rest := by
  have hend : Ended (':' :: rest) := ended_cons (by decide)
  have h := topicName_iff.mpr ⟨n, hn, rfl, hend⟩
  simp [topicPrefix, h]

theorem topicPrefix_none (h : ∀ rest, topicName s ≠ some (':' :: rest)) : topicPrefix s = s := by
  unfold topicPrefix
  split
  · rename_i rest hs
    exact absurd hs (h rest)
  · rfl

theorem topicPrefix_start (h : s.head?.all fun c => !xmlNameStart c) : topicPrefix s = s := by
  refine topicPrefix_none fun rest hs => ?_
  cases s with
  | nil => simp [topicName] at hs
  | cons c cs => simp_all [topicName]

theorem topicPrefix_mem (s : List Char) : ∃ p ∈ prefixRegex.language, s = p ++ topicPrefix s := by
  by_cases h : ∃ rest, topicName s = some (':' :: rest)
  · obtain ⟨rest, h⟩ := h
    obtain ⟨n, hn, rfl, -⟩ := topicName_iff.mp h
    exact ⟨n ++ [':'], mem_prefix.mpr (.inr ⟨n, hn, rfl⟩), by rw [topicPrefix_name hn]; simp⟩
  · rw [topicPrefix_none fun rest hs => h ⟨rest, hs⟩]
    exact ⟨[], mem_prefix.mpr (.inl rfl), rfl⟩

/-- A name, or one of the wildcards, after the slashes. -/
def atomRegex : Regex := .alt (.seq prefixRegex nameRegex) (.alt (.escaped '*') (.cls (.char '.')))

theorem mem_atom : s ∈ atomRegex.language ↔
    s ∈ (Regex.seq prefixRegex nameRegex).language ∨ s = ['*'] ∨ s = ['.'] := by
  have hdot : s ∈ (Regex.cls (.char '.')).language ↔ s = ['.'] := by
    simp [Regex.language, Class.has, mem_one]
  rw [← hdot]
  exact Iff.rfl

theorem topicStep_mem (h : topicStep s = some rest) : ∃ a ∈ atomRegex.language, s = a ++ rest := by
  unfold topicStep at h
  split at h
  · exact ⟨['*'], mem_atom.mpr (.inr (.inl rfl)), by simp [Option.some.inj h]⟩
  · exact ⟨['.'], mem_atom.mpr (.inr (.inr rfl)), by simp [Option.some.inj h]⟩
  · obtain ⟨p, hp, hs⟩ := topicPrefix_mem s
    obtain ⟨n, hn, hr, -⟩ := topicName_iff.mp h
    refine ⟨p ++ n, mem_atom.mpr (.inl (Language.mem_mul.mpr ⟨p, hp, n, mem_name.mpr hn, rfl⟩)), ?_⟩
    rw [hs, hr]
    simp

theorem topicName_prefix (hp : p ∈ prefixRegex.language) (hn : isNCName n) (hend : Ended rest)
    (hcolon : rest.head? ≠ some ':') : topicName (topicPrefix (p ++ (n ++ rest))) = some rest := by
  have hname : topicName (n ++ rest) = some rest := topicName_iff.mpr ⟨n, hn, rfl, hend⟩
  rcases mem_prefix.mp hp with rfl | ⟨m, hm, rfl⟩
  · rw [List.nil_append, topicPrefix_none fun r hr => ?_, hname]
    rw [hname] at hr
    exact hcolon (by rw [Option.some.inj hr]; rfl)
  · rw [List.append_assoc, List.singleton_append, topicPrefix_name hm, hname]

theorem atom_head (ha : a ∈ atomRegex.language) : ∃ c cs, a = c :: cs ∧ c ≠ '/' ∧
    ((c = '*' ∨ c = '.') ∧ cs = [] ∨ xmlNameStart c ∧ a ∈ (Regex.seq prefixRegex nameRegex).language) := by
  have hstart {c : Char} (hc : xmlNameStart c) : c ≠ '/' := by
    rintro rfl
    exact absurd hc (by decide)
  rcases mem_atom.mp ha with ha | rfl | rfl
  · rcases mem_qname.mp ha with hn | ⟨p, n, hp, -, rfl⟩
    · cases a with
      | nil => simp [isNCName] at hn
      | cons c cs =>
        have hc := (Bool.and_eq_true_iff.mp hn).1
        exact ⟨c, cs, rfl, hstart hc, .inr ⟨hc, ha⟩⟩
    · cases p with
      | nil => simp [isNCName] at hp
      | cons c cs =>
        have hc := (Bool.and_eq_true_iff.mp hp).1
        exact ⟨c, _, rfl, hstart hc, .inr ⟨hc, ha⟩⟩
  · exact ⟨'*', [], rfl, by decide, .inl ⟨.inl rfl, rfl⟩⟩
  · exact ⟨'.', [], rfl, by decide, .inl ⟨.inr rfl, rfl⟩⟩

theorem topicStep_atom (ha : a ∈ atomRegex.language) (hend : Ended rest) (hcolon : rest.head? ≠ some ':') :
    topicStep (a ++ rest) = some rest := by
  obtain ⟨c, cs, rfl, -, ⟨hc, rfl⟩ | ⟨hc, ha⟩⟩ := atom_head ha
  · rcases hc with rfl | rfl <;> rfl
  · obtain ⟨p, hp, n, hn, hpn⟩ := Language.mem_mul.mp ha
    have hfound := topicName_prefix hp (mem_name.mp hn) hend hcolon
    rw [← List.append_assoc, hpn] at hfound
    unfold topicStep
    split
    · rename_i heq
      rw [(List.cons.inj heq).1] at hc
      exact absurd hc (by decide)
    · rename_i heq
      rw [(List.cons.inj heq).1] at hc
      exact absurd hc (by decide)
    · exact hfound

theorem skipSlash_atom (ha : a ∈ atomRegex.language) (rest : List Char) : skipSlash (a ++ rest) = a ++ rest := by
  obtain ⟨c, cs, rfl, hc, -⟩ := atom_head ha
  unfold skipSlash
  split
  · rename_i heq
    exact absurd (List.cons.inj heq).1 hc
  · rfl

/-- One step of a path, its slashes included. -/
def stepRegex : Regex :=
  .seq (.group (.alt (.char '/') (.seq (.char '/') (.char '/')))) (.group atomRegex)

theorem mem_step {w : List Char} : w ∈ stepRegex.language ↔
    ∃ a ∈ atomRegex.language, w = '/' :: a ∨ w = '/' :: '/' :: a := by
  have hslashes (s : List Char) : s ∈ (Regex.alt (.char '/') (.seq (.char '/') (.char '/'))).language ↔
      s = ['/'] ∨ s = ['/', '/'] := by
    constructor
    · rintro (rfl | ⟨_, rfl, _, rfl, rfl⟩)
      · exact .inl rfl
      · exact .inr rfl
    · rintro (rfl | rfl)
      · exact .inl rfl
      · exact .inr ⟨['/'], rfl, ['/'], rfl, rfl⟩
  constructor
  · rintro ⟨sl, hsl, a, ha, rfl⟩
    rcases (hslashes sl).mp hsl with rfl | rfl
    · exact ⟨a, ha, .inl rfl⟩
    · exact ⟨a, ha, .inr rfl⟩
  · rintro ⟨a, ha, rfl | rfl⟩
    · exact ⟨['/'], (hslashes _).mpr (.inl rfl), a, ha, rfl⟩
    · exact ⟨['/', '/'], (hslashes _).mpr (.inr rfl), a, ha, rfl⟩

theorem topicSteps_slash (cs : List Char) :
    topicSteps ('/' :: cs) = (topicStep (skipSlash cs)).any topicSteps := by
  rw [topicSteps, if_pos rfl]
  split <;> rename_i h <;> simp [h]

theorem steps_head {ws : List (List Char)} (hws : ∀ w ∈ ws, w ∈ stepRegex.language) : Ended ws.flatten ∧ ws.flatten.head? ≠ some ':' := by
  cases ws with
  | nil => exact ⟨by simp [Ended], by simp⟩
  | cons v ws =>
    obtain ⟨a, -, rfl | rfl⟩ := mem_step.mp (hws v List.mem_cons_self)
    · exact ⟨ended_cons (by decide), by simp⟩
    · exact ⟨ended_cons (by decide), by simp⟩

theorem topicSteps_iff : topicSteps s ↔ s ∈ topicStepsRegex.language := by
  have hlang : topicStepsRegex.language = stepRegex.language∗ := rfl
  rw [hlang, Language.mem_kstar]
  constructor
  · intro h
    fun_induction topicSteps s with
    | case1 => exact ⟨[], rfl, by simp⟩
    | case2 cs rest hstep ih =>
      obtain ⟨ws, hrest, hws⟩ := ih h
      obtain ⟨a, ha, hskip⟩ := topicStep_mem hstep
      have hword : ∃ w ∈ stepRegex.language, '/' :: cs = w ++ rest := by
        unfold skipSlash at hskip
        split at hskip
        · exact ⟨'/' :: '/' :: a, mem_step.mpr ⟨a, ha, .inr rfl⟩, by simp [hskip]⟩
        · exact ⟨'/' :: a, mem_step.mpr ⟨a, ha, .inl rfl⟩, by simp [hskip]⟩
      obtain ⟨w, hw, hcs⟩ := hword
      exact ⟨w :: ws, by rw [hcs, hrest]; rfl, by simpa using ⟨hw, hws⟩⟩
    | case3 => simp at h
    | case4 => simp at h
  · rintro ⟨ws, rfl, hws⟩
    induction ws with
    | nil => simp [topicSteps]
    | cons w ws ih =>
      have hrest := ih fun y hy => hws y (List.mem_cons_of_mem _ hy)
      have hhead := steps_head fun y hy => hws y (List.mem_cons_of_mem _ hy)
      obtain ⟨a, ha, rfl | rfl⟩ := mem_step.mp (hws w List.mem_cons_self)
      · have hstep := topicStep_atom ha hhead.1 hhead.2
        simp [topicSteps_slash, skipSlash_atom ha, hstep, hrest]
      · have hstep := topicStep_atom ha hhead.1 hhead.2
        simp [topicSteps_slash, skipSlash, hstep, hrest]

theorem skipSlashes_mem (s : List Char) : ∃ sl, (sl = [] ∨ sl = ['/', '/']) ∧ s = sl ++ skipSlashes s := by
  unfold skipSlashes
  split
  · exact ⟨['/', '/'], .inr rfl, rfl⟩
  · exact ⟨[], .inl rfl, rfl⟩

theorem mem_slashes : s ∈ (Regex.opt (.group (.seq (.char '/') (.char '/')))).language ↔
    s = [] ∨ s = ['/', '/'] := by
  constructor
  · rintro (⟨_, rfl, _, rfl, rfl⟩ | h)
    · exact .inr rfl
    · exact .inl h
  · rintro (rfl | rfl)
    · exact .inr rfl
    · exact .inl ⟨['/'], rfl, ['/'], rfl, rfl⟩

theorem mem_head : s ∈ (Regex.group (.alt nameRegex (.escaped '*'))).language ↔
    isNCName s ∨ s = ['*'] := by
  rw [← mem_name]
  exact Iff.rfl

theorem topicHead_mem (h : topicHead s = some rest) : ∃ a, (isNCName a ∨ a = ['*']) ∧ s = a ++ rest := by
  unfold topicHead at h
  split at h
  · exact ⟨['*'], .inr rfl, by simp [Option.some.inj h]⟩
  · obtain ⟨n, hn, hs, -⟩ := topicName_iff.mp h
    exact ⟨n, .inl hn, hs⟩

theorem topicHead_name (hn : isNCName n) (hend : Ended rest) : topicHead (n ++ rest) = some rest := by
  have hname := topicName_iff.mpr ⟨n, hn, rfl, hend⟩
  unfold topicHead
  split
  · rename_i heq
    cases n with
    | nil => simp [isNCName] at hn
    | cons c cs =>
      have hc := (Bool.and_eq_true_iff.mp hn).1
      rw [(List.cons.inj heq).1] at hc
      exact absurd hc (by decide)
  · exact hname

theorem topicHead_head (ha : isNCName a ∨ a = ['*']) (hend : Ended rest) : topicHead (a ++ rest) = some rest := by
  rcases ha with ha | rfl
  · exact topicHead_name ha hend
  · rfl

theorem head_start (rest : List Char) (ha : isNCName a ∨ a = ['*']) : skipSlashes (a ++ rest) = a ++ rest ∧
    (Ended rest → rest.head? ≠ some ':' → topicPrefix (a ++ rest) = a ++ rest) := by
  rcases ha with ha | rfl
  · refine ⟨?_, fun hend hcolon => topicPrefix_none fun r hr => ?_⟩
    · obtain ⟨c, cs, rfl, hc, -⟩ := atom_head (mem_atom.mpr (.inl (mem_qname.mpr (.inl ha))))
      unfold skipSlashes
      split
      · rename_i heq
        exact absurd (List.cons.inj heq).1 hc
      · rfl
    · rw [topicName_iff.mpr ⟨a, ha, rfl, hend⟩] at hr
      exact hcolon (by rw [Option.some.inj hr]; rfl)
  · exact ⟨rfl, fun _ _ => topicPrefix_start (by simp [xmlNameStart])⟩

theorem fullTopicPath_iff : fullTopicPath s ↔ s ∈ topicPathRegex.language := by
  have hlang : topicPathRegex.language = prefixRegex.language * ((Regex.opt (.group (.seq (.char '/') (.char '/')))).language *
      ((Regex.group (.alt nameRegex (.escaped '*'))).language * topicStepsRegex.language)) := rfl
  rw [hlang]
  constructor
  · intro h
    unfold fullTopicPath at h
    split at h
    · rename_i rest hhead
      obtain ⟨p, hp, hs⟩ := topicPrefix_mem s
      obtain ⟨sl, hsl, hq⟩ := skipSlashes_mem (topicPrefix s)
      obtain ⟨a, ha, hr⟩ := topicHead_mem hhead
      rw [hs, hq, hr]
      exact ⟨p, hp, _, ⟨sl, mem_slashes.mpr hsl, _, ⟨a, mem_head.mpr ha, rest, topicSteps_iff.mp h, rfl⟩, rfl⟩, rfl⟩
    · simp at h
  · rintro ⟨p, hp, _, ⟨sl, hsl, _, ⟨a, ha, rest, hrest, rfl⟩, rfl⟩, rfl⟩
    obtain ⟨ws, rfl, hws⟩ := Language.mem_kstar.mp hrest
    obtain ⟨hend, hcolon⟩ := steps_head hws
    have hhead := topicHead_head (mem_head.mp ha) hend
    have hstart := head_start ws.flatten (mem_head.mp ha)
    have hskip : skipSlashes (sl ++ (a ++ ws.flatten)) = a ++ ws.flatten := by
      rcases mem_slashes.mp hsl with rfl | rfl
      · exact hstart.1
      · rfl
    have hprefix : topicPrefix (p ++ (sl ++ (a ++ ws.flatten))) = sl ++ (a ++ ws.flatten) := by
      rcases mem_prefix.mp hp with rfl | ⟨n, hn, rfl⟩
      · rcases mem_slashes.mp hsl with rfl | rfl
        · exact hstart.2 hend hcolon
        · exact topicPrefix_start (by simp [xmlNameStart])
      · simp [topicPrefix_name hn]
    simp [fullTopicPath, hprefix, hskip, hhead, topicSteps_iff.mpr hrest]

theorem isFullTopic_iff : isFullTopic s ↔ s ∈ fullTopicRegex.language := by
  have hbar : ∀ w ∈ topicPathRegex.language, '|' ∉ w := fun w hw hmem =>
    absurd (Regex.mem_has _ w hw '|' hmem) (by decide)
  rw [isFullTopic, List.all_eq_true]
  exact (forall₂_congr fun w _ => fullTopicPath_iff).trans (mem_separated hbar s).symm

-- The supported patterns

theorem recognise_iff (value : List Char) :
    recognise pattern value ↔ value ∈ (regexOf pattern).language := by
  unfold recognise regexOf
  split
  · exact isPassphrase_iff
  · split
    · exact isConcreteTopic_iff
    · split
      · exact isFullTopic_iff
      · exact oid_iff

end WotAv.Xml
