import Mathlib.Computability.Language
import WotAv.Lib.RegExp

/-!
# Patterns and their languages

The text of a part of a pattern, with the words that the part matches wherever
it stands. A pattern between `^` and `$` accepts the words of its language
(`accepts_anchored`).
-/

namespace WotAv.Lib.RegExp

open scoped Computability

def codePoints (text : List Char) : List ℕ := text.map Char.toNat

def Accepts (pattern text : List Char) : Prop := ∃ d, Pattern pattern d ∧ d.test (codePoints text) = true

-- Words

/-- The relation leads to the ends of the words that the text goes on with. -/
def Spells (L : Language Char) (ends : List ℕ → ℕ → ℕ → Prop) : Prop :=
  ∀ text x y, ends (codePoints text) x y ↔ ∃ w ∈ L, w <+: text.drop x ∧ y = x + w.length

def letters (p : Char → Prop) : Language Char := {w | ∃ c, p c ∧ w = [c]}

def exactly (word : List Char) : Language Char := {w | w = word}

def anyOf {ι : Type} (wordsOf : ι → Language Char) (terms : List ι) : Language Char := {w | ∃ i ∈ terms, w ∈ wordsOf i}

def repeats (L : Language Char) (min : ℕ) (max : Option ℕ) : Language Char :=
  {w | ∃ k, min ≤ k ∧ (∀ m, max = some m → k ≤ m) ∧ w ∈ L ^ k}

theorem mem_letters {p : Char → Prop} {w : List Char} : w ∈ letters p ↔ ∃ c, p c ∧ w = [c] := Iff.rfl

theorem letters_congr {p q : Char → Prop} (h : ∀ c, p c ↔ q c) : letters p = letters q := by
  rw [funext fun c => propext (h c)]

theorem mem_exactly {w word : List Char} : w ∈ exactly word ↔ w = word := Iff.rfl

theorem mem_anyOf {ι : Type} {wordsOf : ι → Language Char} {terms : List ι} {w : List Char} :
    w ∈ anyOf wordsOf terms ↔ ∃ i ∈ terms, w ∈ wordsOf i := Iff.rfl

theorem mem_letters_pow {p : Char → Prop} {w : List Char} {k : ℕ} :
    w ∈ letters p ^ k ↔ w.length = k ∧ ∀ c ∈ w, p c := by
  induction k generalizing w with
  | zero =>
    rw [pow_zero, Language.mem_one, List.length_eq_zero_iff]
    constructor
    · rintro rfl
      simp
    · exact And.left
  | succ k ih =>
    rw [pow_succ', Language.mem_mul]
    constructor
    · rintro ⟨_, ⟨c, hc, rfl⟩, v, hv, rfl⟩
      obtain ⟨hlength, hall⟩ := ih.mp hv
      simp [hlength, hc]
      exact hall
    · rintro ⟨hlength, hall⟩
      cases w with
      | nil => simp at hlength
      | cons c v =>
        refine ⟨[c], ⟨c, hall c List.mem_cons_self, rfl⟩, v, ih.mpr ⟨by simpa using hlength, ?_⟩, rfl⟩
        exact fun d hd => hall d (List.mem_cons_of_mem c hd)

variable {L M : Language Char} {r s : List ℕ → ℕ → ℕ → Prop}

theorem Spells.one : Spells 1 fun _ => Eq := by
  intro text x y
  constructor
  · rintro rfl
    exact ⟨[], rfl, List.nil_prefix, rfl⟩
  · rintro ⟨w, rfl, -, rfl⟩
    rfl

theorem prefix_drop_append {u v : List Char} {text : List Char} {x : ℕ} :
    u ++ v <+: text.drop x ↔ u <+: text.drop x ∧ v <+: text.drop (x + u.length) := by
  rw [← List.drop_drop]
  constructor
  · rintro ⟨t, ht⟩
    rw [← ht]
    simp
  · rintro ⟨⟨t, ht⟩, hv⟩
    rw [← ht] at hv ⊢
    simpa using hv

theorem Spells.mul (h : Spells L r) (h' : Spells M s) :
    Spells (L * M) fun input x z => ∃ y, r input x y ∧ s input y z := by
  intro text x z
  constructor
  · rintro ⟨y, hr, hs⟩
    obtain ⟨u, hu, hux, rfl⟩ := (h text x y).mp hr
    obtain ⟨v, hv, hvy, rfl⟩ := (h' text _ z).mp hs
    exact ⟨u ++ v, Language.append_mem_mul hu hv, prefix_drop_append.mpr ⟨hux, hvy⟩, by simp [Nat.add_assoc]⟩
  · rintro ⟨w, hw, hwx, rfl⟩
    obtain ⟨u, hu, v, hv, rfl⟩ := Language.mem_mul.mp hw
    obtain ⟨hux, hvy⟩ := prefix_drop_append.mp hwx
    refine ⟨x + u.length, (h text x _).mpr ⟨u, hu, hux, rfl⟩, (h' text _ _).mpr ⟨v, hv, hvy, ?_⟩⟩
    simp [Nat.add_assoc]

theorem Spells.add (h : Spells L r) (h' : Spells M s) : Spells (L + M) fun input x y => r input x y ∨ s input x y := by
  intro text x y
  simp only [h text x y, h' text x y, Language.mem_add, or_and_right, exists_or]

theorem Spells.times (h : Spells L r) : ∀ k, Spells (L ^ k) fun input => Times (r input) k
  | 0 => Spells.one
  | k + 1 => by
    rw [pow_succ']
    exact h.mul (h.times k)

theorem Spells.repeated (h : Spells L r) (min : ℕ) (max : Option ℕ) :
    Spells (repeats L min max) fun input => Repeated (r input) min max := by
  intro text x y
  constructor
  · rintro ⟨k, hmin, hmax, ht⟩
    obtain ⟨w, hw, hwx, hy⟩ := (h.times k text x y).mp ht
    exact ⟨w, ⟨k, hmin, hmax, hw⟩, hwx, hy⟩
  · rintro ⟨w, ⟨k, hmin, hmax, hw⟩, hwx, hy⟩
    exact ⟨k, hmin, hmax, (h.times k text x y).mpr ⟨w, hw, hwx, hy⟩⟩

theorem Spells.set (set : CharacterSet) :
    Spells (letters fun c => set.has c.toNat = true) fun input => (Atom.set set).Ends input := by
  intro text x y
  simp only [Atom.Ends, codePoints, List.getElem?_map, Option.map_eq_some_iff]
  constructor
  · rintro ⟨⟨_, ⟨c, hc, rfl⟩, hhas⟩, rfl⟩
    obtain ⟨hx, rfl⟩ := List.getElem?_eq_some_iff.mp hc
    refine ⟨_, ⟨_, hhas, rfl⟩, ?_, rfl⟩
    rw [List.drop_eq_getElem_cons hx]
    exact List.cons_prefix_cons.mpr ⟨rfl, List.nil_prefix⟩
  · rintro ⟨_, ⟨c, hhas, rfl⟩, ⟨t, ht⟩, rfl⟩
    refine ⟨⟨_, ⟨c, ?_, rfl⟩, hhas⟩, rfl⟩
    have hget : (text.drop x)[0]? = some c := by simp [← ht]
    simpa using hget

-- Texts of patterns

def AtomText (text : List Char) (L : Language Char) : Prop :=
  ∃ a : Atom, (∀ rest, a.Derives (text ++ rest) rest) ∧ Spells L fun input => a.Ends input

def TermText (text : List Char) (L : Language Char) : Prop :=
  ∃ t : Term, (∀ rest, t.Derives (text ++ rest) rest) ∧ Spells L fun input => t.Ends input

def AlternativeText (text : List Char) (L : Language Char) : Prop :=
  ∃ a : Alternative, (∀ rest, a.Derives (text ++ rest) rest) ∧ Spells L fun input => a.Ends input

def DisjunctionText (text : List Char) (L : Language Char) : Prop :=
  ∃ d : Disjunction, (∀ rest, d.Derives (text ++ rest) rest) ∧ Spells L fun input => d.Ends input

variable {text text' : List Char}

theorem AtomText.character {c : Char} (hc : c ∉ syntaxCharacters) : AtomText [c] (letters (· = c)) := by
  refine ⟨.set (.char c.toNat), fun rest => .character hc, ?_⟩
  convert Spells.set (.char c.toNat) using 4 with d
  simp [CharacterSet.has, Char.toNat_inj]

theorem AtomText.escape {c : Char} (hc : c ∈ syntaxCharacters) : AtomText ['\\', c] (letters (· = c)) := by
  refine ⟨.set (.char c.toNat), fun rest => .escape (.identity (.inl hc)), ?_⟩
  convert Spells.set (.char c.toNat) using 4 with d
  simp [CharacterSet.has, Char.toNat_inj]

theorem AtomText.range {first last : Char} (hfirst : first ≠ '\\' ∧ first ≠ ']' ∧ first ≠ '-' ∧ first ≠ '^')
    (hlast : last ≠ '\\' ∧ last ≠ ']' ∧ last ≠ '-') (h : first.toNat ≤ last.toNat) :
    AtomText ['[', first, '-', last, ']'] (letters fun c => first.toNat ≤ c.toNat ∧ c.toNat ≤ last.toNat) := by
  refine ⟨.set (.cls false [.range first.toNat last.toNat]), fun rest => ?_, ?_⟩
  · refine .cls (by simp [hfirst]) (.ranges (.lastRange (.noDash (.char hfirst.1 hfirst.2.1 hfirst.2.2.1)) ?_ h))
    exact .noDash (.char hlast.1 hlast.2.1 hlast.2.2)
  · convert Spells.set (.cls false [.range first.toNat last.toNat]) using 4 with d
    simp [CharacterSet.has, ClassItem.has]

theorem AtomText.group (h : DisjunctionText text L) : AtomText ('(' :: '?' :: ':' :: text ++ [')']) L := by
  obtain ⟨d, hderives, hspells⟩ := h
  refine ⟨.group false d, fun rest => ?_, hspells⟩
  simpa using Atom.Derives.nonCapturing (hderives (')' :: rest))

theorem AtomText.term (h : AtomText text L) : TermText text L := by
  obtain ⟨a, hderives, hspells⟩ := h
  exact ⟨.atom a, fun rest => .atom (hderives rest), hspells⟩

theorem AtomText.quantified {suffix : List Char} {min : ℕ} {max : Option ℕ} (h : AtomText text L)
    (hbounds : ∀ rest, Bounds (suffix ++ rest) min max rest) (hordered : ∀ b, max = some b → min ≤ b) :
    TermText (text ++ suffix) (repeats L min max) := by
  obtain ⟨a, hderives, hspells⟩ := h
  refine ⟨.quantified a ⟨min, max, true, hordered⟩, fun rest => ?_, hspells.repeated min max⟩
  rw [List.append_assoc]
  exact .quantified (hderives _) (.greedy (hbounds rest))

theorem bounds_star (rest : List Char) : Bounds (['*'] ++ rest) 0 none rest := .star

theorem bounds_plus (rest : List Char) : Bounds (['+'] ++ rest) 1 none rest := .plus

theorem bounds_question (rest : List Char) : Bounds (['?'] ++ rest) 0 (some 1) rest := .question

theorem takeWhile_digits (n : ℕ) {c : Char} (hc : c.isDigit = false) (rest : List Char) :
    (Nat.toDigits 10 n ++ c :: rest).takeWhile Char.isDigit = Nat.toDigits 10 n ∧
      (Nat.toDigits 10 n ++ c :: rest).dropWhile Char.isDigit = c :: rest := by
  have hdigits : ∀ d ∈ Nat.toDigits 10 n, d.isDigit = true :=
    fun d hd => Nat.isDigit_of_mem_toDigits (by decide) (by decide) hd
  rw [List.takeWhile_append_of_pos hdigits, List.dropWhile_append_of_pos hdigits]
  simp [hc]

theorem bounds_exactly (n : ℕ) (rest : List Char) :
    Bounds ('{' :: Nat.toDigits 10 n ++ ['}'] ++ rest) n (some n) rest := by
  obtain ⟨htake, hdrop⟩ := takeWhile_digits n (c := '}') (by decide) rest
  have h := Bounds.exactly (s := Nat.toDigits 10 n ++ '}' :: rest) (by rw [htake]; exact Nat.toDigits_ne_nil) hdrop
  rw [htake, Nat.ofDigitChars_ten_toDigits] at h
  simpa using h

theorem bounds_between (m n : ℕ) (rest : List Char) :
    Bounds ('{' :: Nat.toDigits 10 m ++ ',' :: Nat.toDigits 10 n ++ ['}'] ++ rest) m (some n) rest := by
  obtain ⟨htake, hdrop⟩ := takeWhile_digits m (c := ',') (by decide) (Nat.toDigits 10 n ++ '}' :: rest)
  obtain ⟨htake', hdrop'⟩ := takeWhile_digits n (c := '}') (by decide) rest
  have h := Bounds.between (by rw [htake]; exact Nat.toDigits_ne_nil) hdrop
    (by rw [htake']; exact Nat.toDigits_ne_nil) hdrop'
  rw [htake, htake', Nat.ofDigitChars_ten_toDigits, Nat.ofDigitChars_ten_toDigits] at h
  simpa using h

theorem AlternativeText.nil : AlternativeText [] 1 := ⟨.empty, fun _ => .empty, Spells.one⟩

theorem AlternativeText.cons (h : TermText text L) (h' : AlternativeText text' M) :
    AlternativeText (text ++ text') (L * M) := by
  obtain ⟨t, ht, hspells⟩ := h
  obtain ⟨a, ha, hspells'⟩ := h'
  refine ⟨.term t a, fun rest => ?_, hspells.mul hspells'⟩
  rw [List.append_assoc]
  exact .term (ht _) (ha rest)

theorem TermText.alternative (h : TermText text L) : AlternativeText text L := by
  simpa using AlternativeText.cons h .nil

theorem AlternativeText.characters (h : AlternativeText text L) :
    ∀ {word : List Char}, (∀ c ∈ word, c ∉ syntaxCharacters) → AlternativeText (word ++ text) (exactly word * L)
  | [], _ => by
    rw [show exactly [] = 1 from rfl, one_mul]
    exact h
  | c :: word, hword => by
    have hcons := AlternativeText.cons (AtomText.character (hword c List.mem_cons_self)).term
      (h.characters fun d hd => hword d (List.mem_cons_of_mem c hd))
    have hwords : letters (· = c) * exactly word = exactly (c :: word) := by
      ext w
      simp [Language.mem_mul, mem_letters, mem_exactly, eq_comm]
    rwa [← mul_assoc, hwords] at hcons

theorem DisjunctionText.one (h : AlternativeText text L) : DisjunctionText text L := by
  obtain ⟨a, hderives, hspells⟩ := h
  exact ⟨.one a, fun rest => .one (hderives rest), hspells⟩

theorem DisjunctionText.more (h : AlternativeText text L) (h' : DisjunctionText text' M) :
    DisjunctionText (text ++ '|' :: text') (L + M) := by
  obtain ⟨a, ha, hspells⟩ := h
  obtain ⟨d, hd, hspells'⟩ := h'
  refine ⟨.more a d, fun rest => .more (r := text' ++ rest) ?_ (hd rest), hspells.add hspells'⟩
  simpa using ha ('|' :: (text' ++ rest))

theorem DisjunctionText.join {ι : Type} {textOf : ι → List Char} {wordsOf : ι → Language Char} :
    ∀ {terms : List ι}, terms ≠ [] → (∀ i ∈ terms, AlternativeText (textOf i) (wordsOf i)) →
      DisjunctionText (['|'].intercalate (terms.map textOf)) (anyOf wordsOf terms)
  | [], hne, _ => absurd rfl hne
  | [i], _, h => by
    have hwords : anyOf wordsOf [i] = wordsOf i := by
      ext w
      simp [mem_anyOf]
    rw [hwords]
    simpa using DisjunctionText.one (h i List.mem_cons_self)
  | i :: j :: terms, _, h => by
    have hwords : anyOf wordsOf (i :: j :: terms) = wordsOf i + anyOf wordsOf (j :: terms) := by
      ext w
      rw [Language.mem_add, mem_anyOf, mem_anyOf, List.exists_mem_cons_iff]
    have hrest : DisjunctionText _ (anyOf wordsOf (j :: terms)) :=
      DisjunctionText.join (by simp) fun k hk => h k (List.mem_cons_of_mem i hk)
    rw [hwords]
    simpa [List.intercalate] using DisjunctionText.more (h i List.mem_cons_self) hrest

-- Whole patterns

theorem accepts_anchored (h : AtomText text L) (word : List Char) : Accepts ('^' :: text ++ ['$']) word ↔ word ∈ L := by
  obtain ⟨a, hderives, hspells⟩ := h
  let d : Disjunction := .one (.term .lineStart (.term (.atom a) (.term .lineEnd .empty)))
  have hpattern : Pattern ('^' :: text ++ ['$']) d :=
    .one (.term .lineStart (.term (.atom (hderives ['$'])) (.term .lineEnd .empty)))
  have htest : d.test (codePoints word) = true ↔ word ∈ L := by
    rw [Disjunction.test_iff]
    constructor
    · rintro ⟨x, -, y, _, ⟨hx, rfl⟩, z, hends, _, ⟨hz, rfl⟩, -⟩
      obtain ⟨w, hw, hprefix, rfl⟩ := (hspells word _ _).mp hends
      obtain rfl : x = 0 := by simpa using hx
      have hlength : w.length = word.length := by simpa [codePoints] using hz
      rw [List.drop_zero] at hprefix
      rwa [← hprefix.eq_of_length hlength]
    · intro hw
      refine ⟨0, Nat.zero_le _, word.length, 0, ⟨by simp, rfl⟩, word.length, ?_, word.length, ⟨?_, rfl⟩, rfl⟩
      · exact (hspells word _ _).mpr ⟨word, hw, by simp, by simp⟩
      · simp [codePoints]
  constructor
  · rintro ⟨d', hd', ht⟩
    rw [hpattern.unique hd'] at htest
    exact htest.mp ht
  · exact fun hw => ⟨d, hpattern, htest.mpr hw⟩

end WotAv.Lib.RegExp
