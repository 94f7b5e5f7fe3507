import Mathlib.Data.List.Basic
import WotAv.Lib.Matching

/-!
# Regular expressions in Unicode mode

The pattern grammar of ECMAScript with the `u` flag, for assertions `^` and
`$`, atoms, classes, groups and quantifiers, and its meaning: patterns are
compiled to matchers over a list of code points, by backtracking. Grammar
relations are on the text before and after what they derive. `Alternative` is
left-recursive there and right-recursive here.
-/

namespace WotAv.Lib.RegExp

-- Syntax trees

/-- `\d`, `\D`, `\w` and `\W`. -/
inductive ClassEscape
  | digit
  | notDigit
  | word
  | notWord
  deriving DecidableEq, Repr

inductive ClassAtom
  | char (codePoint : ℕ)
  | escape (e : ClassEscape)
  deriving DecidableEq, Repr

inductive ClassItem
  | atom (a : ClassAtom)
  | range (first last : ℕ)
  deriving DecidableEq, Repr

inductive CharacterSet
  | char (codePoint : ℕ)
  | dot
  | escape (e : ClassEscape)
  | cls (negated : Bool) (items : List ClassItem)
  deriving DecidableEq, Repr

structure Quantifier where
  min : ℕ
  max : Option ℕ
  greedy : Bool
  ordered : ∀ b, max = some b → min ≤ b

mutual

inductive Disjunction
  | one (a : Alternative)
  | more (a : Alternative) (d : Disjunction)

inductive Alternative
  | empty
  | term (t : Term) (a : Alternative)

inductive Term
  | lineStart
  | lineEnd
  | atom (a : Atom)
  | quantified (a : Atom) (q : Quantifier)

inductive Atom
  | set (s : CharacterSet)
  | group (capturing : Bool) (d : Disjunction)

end

-- Characters

def syntaxCharacters : List Char :=
  ['^', '$', '\\', '.', '*', '+', '?', '(', ')', '[', ']', '{', '}', '|']

def isHexDigit (c : Char) : Bool := c.isDigit || ('a' ≤ c && c ≤ 'f') || ('A' ≤ c && c ≤ 'F')

def hexDigit (c : Char) : ℕ :=
  if c.isDigit then c.toNat - '0'.toNat
  else if 'a' ≤ c then c.toNat - 'a'.toNat + 10
  else c.toNat - 'A'.toNat + 10

def hexValue (digits : List Char) : ℕ := digits.foldl (fun a c => 16 * a + hexDigit c) 0

def hex4 (s : List Char) : Option (ℕ × List Char) :=
  match s with
  | a :: b :: c :: d :: r => if [a, b, c, d].all isHexDigit then some (hexValue [a, b, c, d], r) else none
  | _ => none

def isLead (v : ℕ) : Prop := 0xD800 ≤ v ∧ v ≤ 0xDBFF

def isTrail (v : ℕ) : Prop := 0xDC00 ≤ v ∧ v ≤ 0xDFFF

instance : DecidablePred isLead := fun _ => inferInstanceAs (Decidable (_ ∧ _))

instance : DecidablePred isTrail := fun _ => inferInstanceAs (Decidable (_ ∧ _))

def pairCodePoint (lead trail : ℕ) : ℕ := 0x10000 + (lead - 0xD800) * 1024 + (trail - 0xDC00)

def trailEscape (s : List Char) : Option (ℕ × List Char) :=
  match s with
  | '\\' :: 'u' :: r => (hex4 r).filter fun p => isTrail p.1
  | _ => none

-- Grammar

/-- `CharacterEscape`, after the backslash, and the code point it denotes. A
lead surrogate belongs to the trail surrogate that follows it. -/
inductive CharacterEscape : List Char → ℕ → List Char → Prop
  | control {c v r} : (c, v) ∈ [('f', 12), ('n', 10), ('r', 13), ('t', 9), ('v', 11)] →
      CharacterEscape (c :: r) v r
  | identity {c r} : c ∈ syntaxCharacters ∨ c = '/' → CharacterEscape (c :: r) c.toNat r
  | pair {s lead r trail r'} : hex4 s = some (lead, r) → isLead lead → trailEscape r = some (trail, r') →
      CharacterEscape ('u' :: s) (pairCodePoint lead trail) r'
  | unit {s v r} : hex4 s = some (v, r) → ¬ (isLead v ∧ (trailEscape r).isSome) → CharacterEscape ('u' :: s) v r
  | codePoint {s r} : s.takeWhile isHexDigit ≠ [] → hexValue (s.takeWhile isHexDigit) ≤ 0x10FFFF →
      s.dropWhile isHexDigit = '}' :: r → CharacterEscape ('u' :: '{' :: s) (hexValue (s.takeWhile isHexDigit)) r

def classEscape (c : Char) : Option ClassEscape :=
  match c with
  | 'd' => some .digit
  | 'D' => some .notDigit
  | 'w' => some .word
  | 'W' => some .notWord
  | _ => none

inductive ClassAtomNoDash : List Char → ClassAtom → List Char → Prop
  | char {c r} : c ≠ '\\' → c ≠ ']' → c ≠ '-' → ClassAtomNoDash (c :: r) (.char c.toNat) r
  | escape {s v r} : CharacterEscape s v r → ClassAtomNoDash ('\\' :: s) (.char v) r
  | dash {r} : ClassAtomNoDash ('\\' :: '-' :: r) (.char '-'.toNat) r
  | set {c e r} : classEscape c = some e → ClassAtomNoDash ('\\' :: c :: r) (.escape e) r

/-- The atom a class or the rest of a class begins with; only there, or last,
may it be a dash. -/
inductive LeadingAtom : Bool → List Char → ClassAtom → List Char → Prop
  | dash {r} : LeadingAtom true ('-' :: r) (.char '-'.toNat) r
  | noDash {b s a r} : ClassAtomNoDash s a r → LeadingAtom b s a r

/-- `NonemptyClassRanges`, or with `false` `NonemptyClassRangesNoDash`. -/
inductive ClassRanges : Bool → List Char → List ClassItem → List Char → Prop
  | last {b s a r} : LeadingAtom true s a r → ClassRanges b s [.atom a] r
  | atom {b s a r items r'} : LeadingAtom b s a r → ClassRanges false r items r' →
      ClassRanges b s (.atom a :: items) r'
  | lastRange {b s lo r hi r'} : LeadingAtom b s (.char lo) ('-' :: r) → LeadingAtom true r (.char hi) r' → lo ≤ hi →
      ClassRanges b s [.range lo hi] r'
  | range {b s lo r hi r' items r''} : LeadingAtom b s (.char lo) ('-' :: r) → LeadingAtom true r (.char hi) r' →
      lo ≤ hi → ClassRanges true r' items r'' → ClassRanges b s (.range lo hi :: items) r''

inductive ClassContents : List Char → List ClassItem → List Char → Prop
  | empty {s} : ClassContents s [] s
  | ranges {s items r} : ClassRanges true s items r → ClassContents s items r

/-- `QuantifierPrefix`: its bounds and the text after it. -/
inductive Bounds : List Char → ℕ → Option ℕ → List Char → Prop
  | star {r} : Bounds ('*' :: r) 0 none r
  | plus {r} : Bounds ('+' :: r) 1 none r
  | question {r} : Bounds ('?' :: r) 0 (some 1) r
  | exactly {s r} : s.takeWhile Char.isDigit ≠ [] → s.dropWhile Char.isDigit = '}' :: r →
      Bounds ('{' :: s) (Nat.ofDigitChars 10 (s.takeWhile Char.isDigit) 0)
        (some (Nat.ofDigitChars 10 (s.takeWhile Char.isDigit) 0)) r
  | atLeast {s r} : s.takeWhile Char.isDigit ≠ [] → s.dropWhile Char.isDigit = ',' :: '}' :: r →
      Bounds ('{' :: s) (Nat.ofDigitChars 10 (s.takeWhile Char.isDigit) 0) none r
  | between {s t r} : s.takeWhile Char.isDigit ≠ [] → s.dropWhile Char.isDigit = ',' :: t →
      t.takeWhile Char.isDigit ≠ [] → t.dropWhile Char.isDigit = '}' :: r →
      Bounds ('{' :: s) (Nat.ofDigitChars 10 (s.takeWhile Char.isDigit) 0)
        (some (Nat.ofDigitChars 10 (t.takeWhile Char.isDigit) 0)) r

inductive Quantifier.Derives : List Char → Quantifier → List Char → Prop
  | greedy {s min max h r} : Bounds s min max r → Quantifier.Derives s ⟨min, max, true, h⟩ r
  | lazy {s min max h r} : Bounds s min max ('?' :: r) → Quantifier.Derives s ⟨min, max, false, h⟩ r

mutual

inductive Disjunction.Derives : List Char → Disjunction → List Char → Prop
  | one {s a r} : Alternative.Derives s a r → Disjunction.Derives s (.one a) r
  | more {s a r d r'} : Alternative.Derives s a ('|' :: r) → Disjunction.Derives r d r' →
      Disjunction.Derives s (.more a d) r'

inductive Alternative.Derives : List Char → Alternative → List Char → Prop
  | empty {s} : Alternative.Derives s .empty s
  | term {s t r a r'} : Term.Derives s t r → Alternative.Derives r a r' → Alternative.Derives s (.term t a) r'

inductive Term.Derives : List Char → Term → List Char → Prop
  | lineStart {r} : Term.Derives ('^' :: r) .lineStart r
  | lineEnd {r} : Term.Derives ('$' :: r) .lineEnd r
  | atom {s a r} : Atom.Derives s a r → Term.Derives s (.atom a) r
  | quantified {s a r q r'} : Atom.Derives s a r → Quantifier.Derives r q r' →
      Term.Derives s (.quantified a q) r'

inductive Atom.Derives : List Char → Atom → List Char → Prop
  | character {c r} : c ∉ syntaxCharacters → Atom.Derives (c :: r) (.set (.char c.toNat)) r
  | dot {r} : Atom.Derives ('.' :: r) (.set .dot) r
  | escape {s v r} : CharacterEscape s v r → Atom.Derives ('\\' :: s) (.set (.char v)) r
  | classEscape {c e r} : classEscape c = some e → Atom.Derives ('\\' :: c :: r) (.set (.escape e)) r
  | cls {s items r} : s.head? ≠ some '^' → ClassContents s items (']' :: r) →
      Atom.Derives ('[' :: s) (.set (.cls false items)) r
  | negatedClass {s items r} : ClassContents s items (']' :: r) →
      Atom.Derives ('[' :: '^' :: s) (.set (.cls true items)) r
  | capturing {s d r} : Disjunction.Derives s d (')' :: r) → Atom.Derives ('(' :: s) (.group true d) r
  | nonCapturing {s d r} : Disjunction.Derives s d (')' :: r) →
      Atom.Derives ('(' :: '?' :: ':' :: s) (.group false d) r

end

/-- `text` is a pattern, with syntax tree `d`. -/
def Pattern (text : List Char) (d : Disjunction) : Prop := Disjunction.Derives text d []

-- The grammar is unambiguous

@[simp] theorem hex4_brace (s : List Char) : hex4 ('{' :: s) = none := by
  simp only [hex4]
  split
  · rename_i h
    cases h
    simp [isHexDigit]
  · rfl

variable {s r r' : List Char}

theorem CharacterEscape.unique {v v' : ℕ} (h : CharacterEscape s v r)
    (h' : CharacterEscape s v' r') : v = v' ∧ r = r' := by
  cases h with
  | control hc =>
    simp only [List.mem_cons, Prod.mk.injEq, List.not_mem_nil, or_false] at hc
    rcases hc with ⟨rfl, rfl⟩ | ⟨rfl, rfl⟩ | ⟨rfl, rfl⟩ | ⟨rfl, rfl⟩ | ⟨rfl, rfl⟩ <;>
      cases h' <;> simp_all [syntaxCharacters]
  | identity hc =>
    cases h' with
    | control hc' =>
      simp only [List.mem_cons, Prod.mk.injEq, List.not_mem_nil, or_false] at hc'
      rcases hc' with ⟨rfl, rfl⟩ | ⟨rfl, rfl⟩ | ⟨rfl, rfl⟩ | ⟨rfl, rfl⟩ | ⟨rfl, rfl⟩ <;>
        simp [syntaxCharacters] at hc
    | identity => exact ⟨rfl, rfl⟩
    | _ => simp [syntaxCharacters] at hc
  | pair h4 hl ht => cases h' <;> simp_all [syntaxCharacters]
  | unit h4 hn => cases h' <;> simp_all [syntaxCharacters]
  | codePoint hne hle hd => cases h' <;> simp_all [syntaxCharacters]

variable {s r : List Char}

theorem CharacterEscape.head {c : Char} {v : ℕ} (h : CharacterEscape (c :: s) v r) :
    c ≠ '-' ∧ classEscape c = none := by
  cases h with
  | control hc =>
    simp only [List.mem_cons, Prod.mk.injEq, List.not_mem_nil, or_false] at hc
    rcases hc with ⟨rfl, rfl⟩ | ⟨rfl, rfl⟩ | ⟨rfl, rfl⟩ | ⟨rfl, rfl⟩ | ⟨rfl, rfl⟩ <;> decide
  | identity hc =>
    simp only [syntaxCharacters, List.mem_cons, List.not_mem_nil, or_false] at hc
    rcases hc with (rfl | rfl | rfl | rfl | rfl | rfl | rfl | rfl | rfl | rfl | rfl | rfl | rfl | rfl) | rfl <;>
      decide
  | _ => decide

theorem ClassAtomNoDash.unique {a a' : ClassAtom} (h : ClassAtomNoDash s a r)
    (h' : ClassAtomNoDash s a' r') : a = a' ∧ r = r' := by
  cases h with
  | char h₁ h₂ h₃ =>
    cases h' with
    | char => exact ⟨rfl, rfl⟩
    | _ => exact absurd rfl h₁
  | escape h =>
    cases h' with
    | char h₁ => exact absurd rfl h₁
    | escape h' =>
      obtain ⟨rfl, rfl⟩ := h.unique h'
      exact ⟨rfl, rfl⟩
    | dash => exact absurd rfl h.head.1
    | set he => exact absurd h.head.2 (by simp [he])
  | dash =>
    cases h' with
    | char h₁ => exact absurd rfl h₁
    | escape h' => exact absurd rfl h'.head.1
    | dash => exact ⟨rfl, rfl⟩
    | set he => cases he
  | set he =>
    cases h' with
    | char h₁ => exact absurd rfl h₁
    | escape h' => exact absurd h'.head.2 (by simp [he])
    | dash => cases he
    | set he' =>
      obtain rfl := Option.some.inj (he.symm.trans he')
      exact ⟨rfl, rfl⟩

theorem ClassAtomNoDash.head {a : ClassAtom} (h : ClassAtomNoDash s a r) :
    s.head? ≠ some '-' ∧ s.head? ≠ some ']' ∧ s ≠ [] := by
  cases h with
  | char h₁ h₂ h₃ => simp [h₂, h₃]
  | _ => simp

theorem LeadingAtom.head {b : Bool} {a : ClassAtom} (h : LeadingAtom b s a r) :
    s.head? ≠ some ']' ∧ s ≠ [] := by
  cases h with
  | dash => simp
  | noDash h => exact h.head.2

theorem LeadingAtom.unique {b b' : Bool} {a a' : ClassAtom} (h : LeadingAtom b s a r)
    (h' : LeadingAtom b' s a' r') : a = a' ∧ r = r' := by
  cases h with
  | dash =>
    cases h' with
    | dash => exact ⟨rfl, rfl⟩
    | noDash h' => exact absurd rfl h'.head.1
  | noDash h =>
    cases h' with
    | dash => exact absurd rfl h.head.1
    | noDash h' => exact h.unique h'

theorem ClassRanges.head {b : Bool} {items : List ClassItem} (h : ClassRanges b s items r) :
    s.head? ≠ some ']' ∧ s ≠ [] := by
  cases h with
  | last h => exact h.head
  | atom h => exact h.head
  | lastRange h => exact h.head
  | range h => exact h.head

theorem ClassRanges.dash {items : List ClassItem} (h : ClassRanges false ('-' :: s) items r) :
    r = s := by
  cases h with
  | last h =>
    cases h with
    | dash => rfl
    | noDash h => exact absurd rfl h.head.1
  | atom h => cases h with | noDash h => exact absurd rfl h.head.1
  | lastRange h => cases h with | noDash h => exact absurd rfl h.head.1
  | range h => cases h with | noDash h => exact absurd rfl h.head.1

theorem ClassRanges.unique {b : Bool} {s t t' : List Char} {items items' : List ClassItem}
    (h : ClassRanges b s items (']' :: t)) (h' : ClassRanges b s items' (']' :: t')) :
    items = items' ∧ t = t' := by
  generalize hr : ']' :: t = r at h
  induction h generalizing items' t with
  | last h =>
    subst hr
    cases h' with
    | last h₁ =>
      obtain ⟨rfl, hr⟩ := h.unique h₁
      simp_all
    | atom h₁ h₂ =>
      obtain ⟨rfl, rfl⟩ := h.unique h₁
      exact absurd rfl h₂.head.1
    | lastRange h₁ =>
      obtain ⟨_, hr⟩ := h.unique h₁
      cases hr
    | range h₁ =>
      obtain ⟨_, hr⟩ := h.unique h₁
      cases hr
  | atom h hs ih =>
    subst hr
    cases h' with
    | last h₁ =>
      obtain ⟨rfl, rfl⟩ := h.unique h₁
      exact absurd rfl hs.head.1
    | atom h₁ h₂ =>
      obtain ⟨rfl, rfl⟩ := h.unique h₁
      obtain ⟨rfl, rfl⟩ := ih h₂ rfl
      exact ⟨rfl, rfl⟩
    | lastRange h₁ h₂ =>
      obtain ⟨_, rfl⟩ := h.unique h₁
      exact absurd rfl (hs.dash ▸ h₂.head.1)
    | range h₁ h₂ =>
      obtain ⟨_, rfl⟩ := h.unique h₁
      exact absurd rfl (hs.dash ▸ h₂.head.1)
  | lastRange h hh hle =>
    subst hr
    cases h' with
    | last h₁ =>
      obtain ⟨_, hr⟩ := h.unique h₁
      cases hr
    | atom h₁ h₂ =>
      obtain ⟨_, rfl⟩ := h.unique h₁
      exact absurd rfl (h₂.dash ▸ hh.head.1)
    | lastRange h₁ hh₁ =>
      obtain ⟨ha, hr⟩ := h.unique h₁
      obtain rfl := (List.cons.inj hr).2
      obtain ⟨hb, hr'⟩ := hh.unique hh₁
      simp_all
    | range h₁ hh₁ _ h₂ =>
      obtain ⟨ha, hr⟩ := h.unique h₁
      obtain rfl := (List.cons.inj hr).2
      obtain ⟨hb, rfl⟩ := hh.unique hh₁
      exact absurd rfl h₂.head.1
  | range h hh hle hs ih =>
    subst hr
    cases h' with
    | last h₁ =>
      obtain ⟨_, hr⟩ := h.unique h₁
      cases hr
    | atom h₁ h₂ =>
      obtain ⟨_, rfl⟩ := h.unique h₁
      exact absurd rfl (h₂.dash ▸ hh.head.1)
    | lastRange h₁ hh₁ =>
      obtain ⟨ha, hr⟩ := h.unique h₁
      obtain rfl := (List.cons.inj hr).2
      obtain ⟨hb, rfl⟩ := hh.unique hh₁
      exact absurd rfl hs.head.1
    | range h₁ hh₁ _ h₂ =>
      obtain ⟨ha, hr⟩ := h.unique h₁
      obtain rfl := (List.cons.inj hr).2
      obtain ⟨hb, rfl⟩ := hh.unique hh₁
      obtain ⟨rfl, rfl⟩ := ih h₂ rfl
      simp_all

theorem ClassContents.unique {s t t' : List Char} {items items' : List ClassItem}
    (h : ClassContents s items (']' :: t)) (h' : ClassContents s items' (']' :: t')) : items = items' ∧ t = t' := by
  cases h with
  | empty =>
    cases h' with
    | empty => exact ⟨rfl, rfl⟩
    | ranges h' => exact absurd rfl h'.head.1
  | ranges h =>
    cases h' with
    | empty => exact absurd rfl h.head.1
    | ranges h' => exact h.unique h'

def quantifierCharacters : List Char := ['*', '+', '?', '{']

theorem Bounds.head {min : ℕ} {max : Option ℕ} (h : Bounds s min max r) :
    ∃ c s', s = c :: s' ∧ c ∈ quantifierCharacters := by
  cases h <;> exact ⟨_, _, rfl, by decide⟩

theorem Bounds.unique {min min' : ℕ} {max max' : Option ℕ} (h : Bounds s min max r)
    (h' : Bounds s min' max' r') : min = min' ∧ max = max' ∧ r = r' := by
  cases h <;> cases h' <;> simp_all
  subst_vars
  simp_all

theorem Quantifier.Derives.head {q : Quantifier} (h : q.Derives s r) :
    ∃ c s', s = c :: s' ∧ c ∈ quantifierCharacters := by
  cases h with
  | greedy h => exact h.head
  | lazy h => exact h.head

def Unquantified (r : List Char) : Prop := ∀ c ∈ r.head?, c ∉ quantifierCharacters

theorem Quantifier.Derives.unique {q q' : Quantifier} (h : q.Derives s r)
    (h' : q'.Derives s r') (hr : Unquantified r) (hn : Unquantified r') : q = q' ∧ r = r' := by
  have hq : '?' ∈ quantifierCharacters := by decide
  cases h with
  | greedy h =>
    cases h' with
    | greedy h' =>
      obtain ⟨rfl, rfl, rfl⟩ := h.unique h'
      exact ⟨rfl, rfl⟩
    | lazy h' =>
      obtain ⟨-, -, rfl⟩ := h.unique h'
      exact absurd hq (hr '?' rfl)
  | lazy h =>
    cases h' with
    | greedy h' =>
      obtain ⟨-, -, rfl⟩ := h.unique h'
      exact absurd hq (hn '?' rfl)
    | lazy h' =>
      obtain ⟨rfl, rfl, hr⟩ := h.unique h'
      exact ⟨rfl, (List.cons.inj hr).2⟩

def Closing (r : List Char) : Prop := ∀ c ∈ r.head?, c = ')' ∨ c = '|'

theorem Atom.Derives.head {a : Atom} (h : a.Derives s r) :
    ∃ c s', s = c :: s' ∧ c ≠ ')' ∧ c ≠ '|' ∧ c ≠ '^' ∧ c ≠ '$' ∧ c ∉ quantifierCharacters := by
  cases h with
  | character hc =>
    refine ⟨_, _, rfl, ?_⟩
    simp only [syntaxCharacters, List.mem_cons, List.not_mem_nil, or_false, not_or] at hc
    simp [quantifierCharacters, hc]
  | _ => exact ⟨_, _, rfl, by decide⟩

theorem Term.Derives.head {t : Term} (h : t.Derives s r) :
    ∃ c s', s = c :: s' ∧ c ≠ ')' ∧ c ≠ '|' ∧ c ∉ quantifierCharacters := by
  cases h with
  | lineStart => exact ⟨_, _, rfl, by decide⟩
  | lineEnd => exact ⟨_, _, rfl, by decide⟩
  | atom h =>
    obtain ⟨c, s', hs, h₁, h₂, -, -, h₃⟩ := h.head
    exact ⟨c, s', hs, h₁, h₂, h₃⟩
  | quantified h =>
    obtain ⟨c, s', hs, h₁, h₂, -, -, h₃⟩ := h.head
    exact ⟨c, s', hs, h₁, h₂, h₃⟩

theorem Term.Derives.not_closing {t : Term} (h : t.Derives s r) : ¬ Closing s := by
  obtain ⟨c, s', rfl, h₁, h₂, -⟩ := h.head
  intro hc
  rcases hc c rfl with h | h
  · exact h₁ h
  · exact h₂ h

theorem Closing.unquantified {r : List Char} (h : Closing r) : Unquantified r := by
  intro c hc
  rcases h c hc with rfl | rfl <;> decide

theorem Alternative.Derives.unquantified {a : Alternative} (h : a.Derives s r) (hr : Closing r) :
    Unquantified s := by
  cases h with
  | empty => exact hr.unquantified
  | term h =>
    obtain ⟨c, s', rfl, -, -, hc⟩ := h.head
    rintro _ ⟨⟩
    exact hc

theorem Disjunction.Derives.not_question {d : Disjunction} (h : d.Derives ('?' :: s) r)
    (hr : Closing r) : False := by
  have hq : '?' ∈ quantifierCharacters := by decide
  cases h with
  | one h => exact h.unquantified hr '?' rfl hq
  | more h => exact h.unquantified (by simp [Closing]) '?' rfl hq

mutual

theorem Disjunction.unique : ∀ {d d' : Disjunction} {s r r' : List Char}, d.Derives s r → d'.Derives s r' →
    Closing r → Closing r' → r.head? ≠ some '|' → r'.head? ≠ some '|' → d = d' ∧ r = r'
  | .one a, d', s, r, r', .one h, h', hr, hr', hb, hb' => by
    cases h' with
    | one h' =>
      obtain ⟨rfl, rfl⟩ := Alternative.unique h h' hr hr'
      exact ⟨rfl, rfl⟩
    | more h' _ =>
      obtain ⟨-, rfl⟩ := Alternative.unique h h' hr (by simp [Closing])
      exact absurd rfl hb
  | .more a d, d', s, r, r', .more h hd, h', hr, hr', hb, hb' => by
    cases h' with
    | one h' =>
      obtain ⟨-, rfl⟩ := Alternative.unique h h' (by simp [Closing]) hr'
      exact absurd rfl hb'
    | more h' hd' =>
      obtain ⟨rfl, hs⟩ := Alternative.unique h h' (by simp [Closing]) (by simp [Closing])
      obtain rfl := (List.cons.inj hs).2
      obtain ⟨rfl, rfl⟩ := Disjunction.unique hd hd' hr hr' hb hb'
      exact ⟨rfl, rfl⟩

theorem Alternative.unique : ∀ {a a' : Alternative} {s r r' : List Char}, a.Derives s r → a'.Derives s r' →
    Closing r → Closing r' → a = a' ∧ r = r'
  | .empty, a', s, _, r', .empty, h', hr, hr' => by
    cases h' with
    | empty => exact ⟨rfl, rfl⟩
    | term h' => exact absurd hr h'.not_closing
  | .term t a, a', s, r, r', .term h ha, h', hr, hr' => by
    cases h' with
    | empty => exact absurd hr' h.not_closing
    | term h' ha' =>
      obtain ⟨rfl, rfl⟩ := Term.unique h h' (ha.unquantified hr) (ha'.unquantified hr')
      obtain ⟨rfl, rfl⟩ := Alternative.unique ha ha' hr hr'
      exact ⟨rfl, rfl⟩

theorem Term.unique : ∀ {t t' : Term} {s r r' : List Char}, t.Derives s r → t'.Derives s r' →
    Unquantified r → Unquantified r' → t = t' ∧ r = r'
  | .lineStart, t', _, r, r', .lineStart, h', hr, hr' => by
    cases h' with
    | lineStart => exact ⟨rfl, rfl⟩
    | atom h' => simpa using h'.head
    | quantified h' => simpa using h'.head
  | .lineEnd, t', _, r, r', .lineEnd, h', hr, hr' => by
    cases h' with
    | lineEnd => exact ⟨rfl, rfl⟩
    | atom h' => simpa using h'.head
    | quantified h' => simpa using h'.head
  | .atom a, t', s, r, r', .atom h, h', hr, hr' => by
    cases h' with
    | lineStart => simpa using h.head
    | lineEnd => simpa using h.head
    | atom h' =>
      obtain ⟨rfl, rfl⟩ := Atom.unique h h'
      exact ⟨rfl, rfl⟩
    | quantified h' hq' =>
      obtain ⟨-, rfl⟩ := Atom.unique h h'
      obtain ⟨c, _, rfl, hc⟩ := hq'.head
      exact absurd hc (hr c rfl)
  | .quantified a q, t', s, r, r', .quantified h hq, h', hr, hr' => by
    cases h' with
    | lineStart => simpa using h.head
    | lineEnd => simpa using h.head
    | atom h' =>
      obtain ⟨-, rfl⟩ := Atom.unique h h'
      obtain ⟨c, _, rfl, hc⟩ := hq.head
      exact absurd hc (hr' c rfl)
    | quantified h' hq' =>
      obtain ⟨rfl, rfl⟩ := Atom.unique h h'
      obtain ⟨rfl, rfl⟩ := hq.unique hq' hr hr'
      exact ⟨rfl, rfl⟩

theorem Atom.unique : ∀ {a a' : Atom} {s r r' : List Char}, a.Derives s r → a'.Derives s r' → a = a' ∧ r = r'
  | .set _, a', _, r, r', .character hc, h' => by
    cases h' with
    | character => exact ⟨rfl, rfl⟩
    | _ => exact absurd (by decide) hc
  | .set _, a', _, r, r', .dot, h' => by
    cases h' with
    | character hc => exact absurd (by decide) hc
    | dot => exact ⟨rfl, rfl⟩
  | .set _, a', _, r, r', .escape h, h' => by
    cases h' with
    | character hc => exact absurd (by decide) hc
    | escape h' =>
      obtain ⟨rfl, rfl⟩ := h.unique h'
      exact ⟨rfl, rfl⟩
    | classEscape he => exact absurd h.head.2 (by simp [he])
  | .set _, a', _, r, r', .classEscape he, h' => by
    cases h' with
    | character hc => exact absurd (by decide) hc
    | escape h' => exact absurd h'.head.2 (by simp [he])
    | classEscape he' =>
      obtain rfl := Option.some.inj (he.symm.trans he')
      exact ⟨rfl, rfl⟩
  | .set _, a', _, r, r', .cls hn h, h' => by
    cases h' with
    | character hc => exact absurd (by decide) hc
    | cls _ h' =>
      obtain ⟨rfl, rfl⟩ := h.unique h'
      exact ⟨rfl, rfl⟩
    | negatedClass => exact absurd rfl hn
  | .set _, a', _, r, r', .negatedClass h, h' => by
    cases h' with
    | character hc => exact absurd (by decide) hc
    | cls hn => exact absurd rfl hn
    | negatedClass h' =>
      obtain ⟨rfl, rfl⟩ := h.unique h'
      exact ⟨rfl, rfl⟩
  | .group _ d, a', _, r, r', .capturing h, h' => by
    cases h' with
    | character hc => exact absurd (by decide) hc
    | capturing h' =>
      obtain ⟨rfl, hr⟩ := Disjunction.unique h h' (by simp [Closing]) (by simp [Closing]) (by simp) (by simp)
      exact ⟨rfl, (List.cons.inj hr).2⟩
    | nonCapturing => exact absurd h (Disjunction.Derives.not_question · (by simp [Closing]))
  | .group _ d, a', _, r, r', .nonCapturing h, h' => by
    cases h' with
    | character hc => exact absurd (by decide) hc
    | capturing h' => exact absurd h' (Disjunction.Derives.not_question · (by simp [Closing]))
    | nonCapturing h' =>
      obtain ⟨rfl, hr⟩ := Disjunction.unique h h' (by simp [Closing]) (by simp [Closing]) (by simp) (by simp)
      exact ⟨rfl, (List.cons.inj hr).2⟩

end

theorem Pattern.unique {text : List Char} {d d' : Disjunction} (h : Pattern text d) (h' : Pattern text d') : d = d' :=
  (Disjunction.unique h h' (by simp [Closing]) (by simp [Closing]) (by simp) (by simp)).1

-- Meaning

def isDigit (cp : ℕ) : Bool := 48 ≤ cp && cp ≤ 57

def isWord (cp : ℕ) : Bool :=
  isDigit cp || (65 ≤ cp && cp ≤ 90) || (97 ≤ cp && cp ≤ 122) || cp == 95

def isLineTerminator (cp : ℕ) : Bool := cp == 0x0A || cp == 0x0D || cp == 0x2028 || cp == 0x2029

def ClassEscape.has : ClassEscape → ℕ → Bool
  | .digit, cp => isDigit cp
  | .notDigit, cp => !isDigit cp
  | .word, cp => isWord cp
  | .notWord, cp => !isWord cp

def ClassItem.has : ClassItem → ℕ → Bool
  | .atom (.char c), cp => cp == c
  | .atom (.escape e), cp => e.has cp
  | .range first last, cp => first ≤ cp && cp ≤ last

def CharacterSet.has : CharacterSet → ℕ → Bool
  | .char c, cp => cp == c
  | .dot, cp => !isLineTerminator cp
  | .escape e, cp => e.has cp
  | .cls negated items, cp => (items.any fun i => i.has cp) != negated

section
variable (input : List ℕ)

mutual

def Disjunction.matcher : Disjunction → Matcher input.length
  | .one a => a.matcher
  | .more a d => Matcher.orElse a.matcher d.matcher

def Alternative.matcher : Alternative → Matcher input.length
  | .empty => Matcher.skip
  | .term t a => Matcher.seq t.matcher a.matcher

def Term.matcher : Term → Matcher input.length
  | .lineStart => Matcher.assertion fun x => x == 0
  | .lineEnd => Matcher.assertion fun x => x == input.length
  | .atom a => a.matcher
  | .quantified a q => Matcher.rep a.matcher q.min q.max q.greedy

def Atom.matcher : Atom → Matcher input.length
  | .set s => Matcher.character input s.has
  | .group _ d => d.matcher

end

def Disjunction.test (d : Disjunction) : Bool :=
  (List.finRange (input.length + 1)).any fun x => d.matcher input x (Nat.le_of_lt_succ x.isLt) fun _ _ _ => true

-- The relation a pattern decides

mutual

def Disjunction.Ends : Disjunction → ℕ → ℕ → Prop
  | .one a => a.Ends
  | .more a d => fun x y => a.Ends x y ∨ d.Ends x y

def Alternative.Ends : Alternative → ℕ → ℕ → Prop
  | .empty => Eq
  | .term t a => fun x z => ∃ y, t.Ends x y ∧ a.Ends y z

def Term.Ends : Term → ℕ → ℕ → Prop
  | .lineStart => fun x y => (x == 0) = true ∧ x = y
  | .lineEnd => fun x y => (x == input.length) = true ∧ x = y
  | .atom a => a.Ends
  | .quantified a q => Repeated a.Ends q.min q.max

def Atom.Ends : Atom → ℕ → ℕ → Prop
  | .set s => fun x y => (∃ ch, input[x]? = some ch ∧ s.has ch = true) ∧ y = x + 1
  | .group _ d => d.Ends

end

mutual

theorem Disjunction.decides : ∀ d : Disjunction, (d.matcher input).Decides (d.Ends input)
  | .one a => a.decides
  | .more a d => a.decides.orElse d.decides

theorem Alternative.decides : ∀ a : Alternative, (a.matcher input).Decides (a.Ends input)
  | .empty => Matcher.skip_decides
  | .term t a => t.decides.seq a.decides

theorem Term.decides : ∀ t : Term, (t.matcher input).Decides (t.Ends input)
  | .lineStart => Matcher.assertion_decides _
  | .lineEnd => Matcher.assertion_decides _
  | .atom a => a.decides
  | .quantified a q => a.decides.rep q.greedy q.ordered

theorem Atom.decides : ∀ a : Atom, (a.matcher input).Decides (a.Ends input)
  | .set s => Matcher.character_decides input s.has
  | .group _ d => d.decides

end

theorem Disjunction.test_iff (d : Disjunction) :
    d.test input = true ↔ ∃ x ≤ input.length, ∃ y, d.Ends input x y := by
  simp only [Disjunction.test, List.any_eq_true, (d.decides input).iff]
  constructor
  · rintro ⟨x, -, y, -, -, h, -⟩
    exact ⟨x, Nat.le_of_lt_succ x.isLt, y, h⟩
  · rintro ⟨x, hx, y, h⟩
    obtain ⟨hxy, hy⟩ := (d.decides input).forward x y hx h
    exact ⟨⟨x, Nat.lt_succ_of_le hx⟩, List.mem_finRange _, y, hxy, hy, h, trivial⟩

end

end WotAv.Lib.RegExp
