import Mathlib.Logic.Encodable.Basic
import Mathlib.Logic.Equiv.List
import WotAv.Contract.PortableRegexSyntax

/-!
# Portable regular expressions are ECMAScript's

An accepted pattern is a pattern of ECMAScript, with one syntax tree, and a
search answers as `RegExp.prototype.test` does, whatever `tick` counts; unless
a lead surrogate in braces stands before a trail surrogate escape. Parsing
and searching end.
-/

namespace WotAv.Contract

open WotAv.Lib

-- Parsing ends

def Ends {α : Type} (x : Except Failure α) : Prop := Throws (· ≠ .exhausted) x

@[simp] theorem ends_invalid {α : Type} (message : String) : Ends (invalid message : Except Failure α) := by
  simp [Ends, invalid]

@[simp] theorem ends_unsupported {α : Type} (message : String) : Ends (unsupported message : Except Failure α) := by
  simp [Ends, unsupported]

@[simp] theorem ends_resourceLimit {α : Type} (message limit : String) (measured : Option ℕ) :
    Ends (resourceLimit message limit measured : Except Failure α) := by
  simp [Ends, resourceLimit]

@[simp] theorem ends_ok {α : Type} (a : α) : Ends (.ok a : Except Failure α) := Throws.ok a

@[simp] theorem ends_pure {α : Type} (a : α) : Ends (pure a : Except Failure α) := Throws.ok a

theorem unicodeDigits_ends (text : List Char) : Ends (unicodeDigits text) := by
  simp only [unicodeDigits]
  split
  · split
    · simp
    · split <;> simp
  · split <;> simp

theorem unicodeEscape_ends (text : List Char) : Ends (unicodeEscape text) := by
  refine Throws.bind (unicodeDigits_ends text) fun _ _ => ?_
  dsimp only
  split
  · exact ends_invalid _
  · exact ends_ok _

theorem escape_ends (inClass : Bool) (text : List Char) : Ends (escape inClass text) := by
  simp only [escape]
  split
  · exact ends_invalid _
  · split
    · exact ends_invalid _
    split
    · exact ends_ok _
    split
    · exact ends_ok _
    split
    · exact ends_ok _
    split
    · exact unicodeEscape_ends _
    · split <;> simp

theorem classAtom_ends (text : List Char) : Ends (classAtom text) := by
  simp only [classAtom]
  split
  · exact ends_invalid _
  · split
    · exact escape_ends _ _
    · exact ends_ok _

theorem classRange_ends (left : Predicate) (text : List Char) : Ends (classRange left text) := by
  simp only [classRange]
  split
  · split
    · exact ends_ok _
    · refine Throws.bind (classAtom_ends _) fun _ _ => ?_
      split
      · split
        · exact ends_invalid _
        · exact ends_ok _
      · exact ends_invalid _
  · exact ends_ok _

theorem classItems_ends (fuel : ℕ) {text : List Char} (h : text.length < fuel) : Ends (classItems fuel text) := by
  induction fuel generalizing text with
  | zero => cases h
  | succ fuel ih =>
    simp only [classItems]
    split
    · exact ends_ok _
    · refine Throws.bind (classAtom_ends _) fun a ha => Throws.bind (classRange_ends _ _) fun b hb => ?_
      have h₁ := (classAtom_suffix ha).2
      have h₂ := (classRange_suffix hb).length_le
      exact Throws.bind (ih (by omega)) fun _ _ => ends_pure _

theorem characterClass_ends {fuel : ℕ} {text : List Char} (h : text.length < fuel) :
    Ends (characterClass fuel text) := by
  simp only [characterClass]
  refine Throws.bind (classItems_ends fuel ?_) fun _ _ => ?_
  · have : text.tail.length ≤ text.length := by simp
    split <;> omega
  · split
    · exact ends_pure _
    · exact ends_invalid _

theorem bounds_ends (quantifier : Char) (text : List Char) : Ends (bounds quantifier text) := by
  simp only [bounds]
  split
  · split
    · exact ends_invalid _
    · split
      · exact ends_resourceLimit _ _ _
      · split <;> simp
  · split
    · exact ends_ok _
    · split <;> exact ends_ok _

theorem quantified_ends (maxRepeat : ℕ) (child : Node) (text : List Char) : Ends (quantified maxRepeat child text) := by
  simp only [quantified]
  split
  · exact ends_ok _
  · split
    · split
      · exact ends_invalid _
      · refine Throws.bind (bounds_ends _ _) fun _ _ => ?_
        split
        · exact ends_resourceLimit _ _ _
        · exact ends_ok _
    · exact ends_ok _

section
variable {maxRepeat : ℕ}

mutual

theorem atom_ends : ∀ (fuel : ℕ) {text : List Char}, text ≠ [] → 4 * text.length ≤ fuel →
    Ends (atom maxRepeat fuel text)
  | _, [], hne, _ => absurd rfl hne
  | 0, char :: rest, _, h => absurd h (by simp)
  | fuel + 1, char :: rest, _, h => by
    have hlen : 4 * rest.length + 3 ≤ fuel := by
      simp only [List.length_cons] at h
      omega
    simp only [atom]
    split
    · split
      · split
        · exact group_ends fuel (by have := List.length_drop (i := 2) (l := rest); omega)
        · exact ends_unsupported _
      · exact group_ends fuel hlen
    split
    · exact characterClass_ends (by omega)
    split
    · exact Throws.bind (escape_ends _ _) fun _ _ => ends_pure _
    split
    · exact ends_ok _
    split
    · exact ends_ok _
    split
    · exact ends_ok _
    split <;> simp

theorem group_ends : ∀ (fuel : ℕ) {text : List Char}, 4 * text.length + 3 ≤ fuel → Ends (group maxRepeat fuel text)
  | 0, text, h => absurd h (by simp)
  | fuel + 1, text, h => by
    simp only [group]
    refine Throws.bind (alternative_ends fuel (by omega)) fun _ _ => ?_
    split
    · exact ends_pure _
    · exact ends_invalid _

theorem sequence_ends : ∀ (fuel : ℕ) {text : List Char}, 4 * text.length + 1 ≤ fuel →
    Ends (sequence maxRepeat fuel text)
  | 0, text, h => absurd h (by simp)
  | fuel + 1, text, h => by
    simp only [sequence]
    split
    · exact ends_ok _
    · rename_i hopen
      refine Throws.bind (atom_ends fuel (fun hnil => hopen (.inl hnil)) (by omega)) fun a ha => ?_
      refine Throws.bind (quantified_ends _ _ _) fun b hb => ?_
      obtain ⟨⟨_, _, htext, hs⟩, -⟩ := atom_ok fuel ha
      have h₁ := hs.length_le
      have h₂ := (quantified_ok hb).1.length_le
      rw [htext, List.length_cons] at h
      exact Throws.bind (sequence_ends fuel (by omega)) fun _ _ => ends_pure _

theorem alternative_ends : ∀ (fuel : ℕ) {text : List Char}, 4 * text.length + 2 ≤ fuel →
    Ends (alternative maxRepeat fuel text)
  | 0, text, h => absurd h (by simp)
  | fuel + 1, text, h => by
    simp only [alternative]
    refine Throws.bind (sequence_ends fuel (by omega)) fun a ha => ?_
    have hs := (sequence_ok fuel ha).1.length_le
    split
    · rename_i hbar
      rw [hbar, List.length_cons] at hs
      exact Throws.bind (alternative_ends fuel (by omega)) fun _ _ => ends_pure _
    · exact ends_pure _

end

theorem compilePattern_ends (text : String) (maxLength : ℕ) : Ends (compilePattern maxRepeat text maxLength) := by
  simp only [compilePattern]
  split
  · exact ends_resourceLimit _ _ _
  · refine Throws.bind (alternative_ends _ (by simp [parserFuel])) fun _ _ => ?_
    split
    · exact ends_pure _
    · exact ends_invalid _

end

-- Accepted patterns

theorem compilePattern_ok {text : String} {maxRepeat maxLength : ℕ} {p : Pattern}
    (h : compilePattern maxRepeat text maxLength = .ok p) (hsafe : hasBracedPair text.toList = false) :
    ∃ d, RegExp.Pattern text.toList d ∧ Denotes (fun input => d.Ends input) p.tree := by
  simp only [compilePattern] at h
  split at h
  · cases h
  · obtain ⟨⟨items, rest⟩, ha, h⟩ := except_bind_ok h
    obtain ⟨-, hne, -, hok⟩ := alternative_ok _ ha
    simp only at h
    split at h
    · rename_i hrest
      subst hrest
      obtain rfl := Except.ok.inj h
      obtain ⟨d, hd, hm⟩ := hok hsafe
      exact ⟨d, hd, fun value x y => by rw [altNode_ends hne]; exact hm value x y⟩
    · cases h

/-- The text is a pattern, which has one tree, and searches answer as `test`
does: whatever counts the steps and however the nodes are told apart, the
answer is that of the tree, and there is an answer where nothing is raised. -/
def IsEcmaScript (text : String) (p : Pattern) : Prop :=
  ∃ d, RegExp.Pattern text.toList d ∧ (∀ d', RegExp.Pattern text.toList d' → d' = d) ∧
    ∀ (ε σ : Type) (value : List Char) (tick : Throwing ε σ Unit) (identity : List ℕ → ℕ) (rounds : ℕ) (budget : σ),
      Identifies p.tree identity → value.length + 1 < rounds →
        (∀ found left, p.search value tick identity rounds budget = (.ok found, left) →
          found = d.test (value.map Char.toNat)) ∧
        ((∀ b, ∃ b', tick b = (.ok (), b')) →
          ∃ found left, p.search value tick identity rounds budget = (.ok found, left))

theorem compilePattern_isEcmaScript {text : String} {maxRepeat maxLength : ℕ} {p : Pattern}
    (h : compilePattern maxRepeat text maxLength = .ok p) (hsafe : hasBracedPair text.toList = false) :
    IsEcmaScript text p := by
  obtain ⟨d, hd, hm⟩ := compilePattern_ok h hsafe
  refine ⟨d, hd, fun d' hd' => RegExp.Pattern.unique hd' hd, ?_⟩
  intro ε σ value tick identity rounds budget hid hr
  have hspec := search_spec tick hid hr budget
  cases hs : p.search value tick identity rounds budget with
  | mk outcome left =>
    rw [hs] at hspec
    cases outcome with
    | ok found =>
      refine ⟨?_, fun _ => ⟨found, left, rfl⟩⟩
      rintro _ _ ⟨⟩
      rw [Bool.eq_iff_iff, RegExp.Disjunction.test_iff, List.length_map]
      simpa only [hm value] using hspec
    | error stop =>
      refine ⟨nofun, fun htick => ?_⟩
      obtain ⟨e, b, b', -, he⟩ := hspec
      obtain ⟨b'', hb⟩ := htick b
      rw [hb] at he
      cases he

theorem encode_identifies (root : Node) : Identifies root Encodable.encode := fun p q _ _ h => by
  rw [Encodable.encode_injective h]

def unlimited : Throwing Empty Unit Unit := pure ()

theorem compilePattern_isEcmaScript_nested :
    ∃ p, compilePattern 256 "^(?:[^a-c]|(b*)*)+?$" 1024 = .ok p ∧ IsEcmaScript "^(?:[^a-c]|(b*)*)+?$" p := by
  have hsome : (compilePattern 256 "^(?:[^a-c]|(b*)*)+?$" 1024).toOption.isSome = true := by decide +kernel
  cases h : compilePattern 256 "^(?:[^a-c]|(b*)*)+?$" 1024 with
  | error e => simp [h, Except.toOption] at hsome
  | ok p => exact ⟨p, rfl, compilePattern_isEcmaScript h (by decide +kernel)⟩

def bracedPairTree : RegExp.Disjunction :=
  .one (.term (.atom (.set (.char 0xD83D))) (.term (.atom (.set (.char 0xDE00))) .empty))

theorem bracedPair_pattern : RegExp.Pattern "\\u\x7bD83D\x7d\\uDE00".toList bracedPairTree := by
  have hbrace : RegExp.CharacterEscape "u\x7bD83D\x7d\\uDE00".toList 0xD83D "\\uDE00".toList :=
    .codePoint (s := "D83D\x7d\\uDE00".toList) (by decide) (by decide) (by decide)
  have htrail : RegExp.CharacterEscape "uDE00".toList 0xDE00 [] :=
    .unit (s := "DE00".toList) (by decide) (by decide)
  exact .one (.term (.atom (.escape hbrace)) (.term (.atom (.escape htrail)) .empty))

/-- A lead surrogate in braces is joined with the trail surrogate escape after
it, where ECMAScript has two code points that no string has. -/
theorem bracedPair_not_ecmaScript : ¬ ∀ (text : String) (p : Pattern),
    compilePattern 256 text 1024 = .ok p → IsEcmaScript text p := by
  intro h
  obtain ⟨d, -, hunique, hsearch⟩ := h "\\u\x7bD83D\x7d\\uDE00" ⟨.seq [.char (.literal '😀')]⟩ rfl
  obtain rfl := hunique bracedPairTree bracedPair_pattern
  have hid : Identifies (Pattern.mk (.seq [.char (.literal '😀')])).tree Encodable.encode := encode_identifies _
  obtain ⟨hsound, hends⟩ := hsearch Empty Unit ['😀'] unlimited Encodable.encode 3 () hid (by decide)
  obtain ⟨found, left, hfound⟩ := hends fun _ => ⟨(), rfl⟩
  have hfalse : found = false := (hsound found left hfound).trans (by decide)
  have hspec := search_spec unlimited hid (show ['😀'].length + 1 < 3 by decide) ()
  rw [hfound] at hspec
  have htrue : found = true := hspec.mpr ⟨0, Nat.zero_le _, 1, 1, ⟨⟨'😀', rfl, rfl⟩, rfl⟩, rfl⟩
  rw [hfalse] at htrue
  cases htrue

end WotAv.Contract
