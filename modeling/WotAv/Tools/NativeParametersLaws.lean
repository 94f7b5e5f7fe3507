import Mathlib.Tactic.FieldSimp
import WotAv.Lib.Separators
import WotAv.Lib.Throwing
import WotAv.Tools.NativeParameters

/-!
# Expansion of native addresses: RFC 6570

A template is accepted iff its expressions are those of the RFC's grammar,
whatever stands between them. Its expansion is the RFC's, but for the encoded
triplets in a value that reserved expansion is to copy: `quote` encodes their
percent signs again, so that the text is two characters longer for each.
-/

namespace WotAv.Tools

open WotAv.Lib
open UriTemplate

-- Matches

variable {c : Char}

theorem notBrace_eq_false : notBrace c = false ↔ c = '{' ∨ c = '}' := by
  simp [notBrace]
  tauto

variable {text : List Char}

theorem nextMatch_none (h : ∀ c ∈ text, notBrace c) : nextMatch text = none := by
  induction text with
  | nil => rfl
  | cons c text ih =>
    have hc : c ≠ '{' := fun e => by simpa [e, notBrace] using h c (by simp)
    simp [nextMatch, hc, ih fun d hd => h d (by simp [hd])]

theorem takeWhile_closed {inner : List Char} (h : ∀ c ∈ inner, notBrace c) (rest : List Char) :
    (inner ++ '}' :: rest).takeWhile notBrace = inner ∧ (inner ++ '}' :: rest).dropWhile notBrace = '}' :: rest := by
  constructor
  · rw [List.takeWhile_append_of_pos h]
    simp [notBrace]
  · rw [List.dropWhile_append_of_pos h]
    simp [notBrace]

theorem nextMatch_first {literal inner rest : List Char} (hl : ∀ c ∈ literal, notBrace c) (hi : ∀ c ∈ inner, notBrace c) :
    nextMatch (literal ++ '{' :: (inner ++ '}' :: rest)) = some (literal, inner, rest) := by
  induction literal with
  | nil =>
    obtain ⟨ht, hd⟩ := takeWhile_closed hi rest
    simp [nextMatch, ht, hd]
  | cons c literal ih =>
    have hc : c ≠ '{' := fun e => by simpa [e, notBrace] using hl c (by simp)
    simp [nextMatch, hc, ih fun d hd => hl d (by simp [hd])]

theorem nextMatch_some {text literal inner rest : List Char} (h : nextMatch text = some (literal, inner, rest)) :
    text = literal ++ '{' :: (inner ++ '}' :: rest) ∧ ∀ c ∈ inner, notBrace c := by
  induction text generalizing literal with
  | nil => simp [nextMatch] at h
  | cons c text ih =>
    unfold nextMatch at h
    split at h
    · rename_i hm
      simp only [Option.some.injEq, Prod.mk.injEq] at h
      obtain ⟨rfl, rfl, rfl⟩ := h
      obtain ⟨rest, hrest⟩ : ∃ rest, text.dropWhile notBrace = '}' :: rest := by
        cases hd : text.dropWhile notBrace with
        | nil => simp [hd] at hm
        | cons d rest => exact ⟨rest, by simp [hd] at hm; rw [hm.2]⟩
      refine ⟨?_, fun d hd => List.mem_takeWhile_imp hd⟩
      rw [hm.1, hrest, List.tail_cons, List.nil_append, ← hrest, List.takeWhile_append_dropWhile]
    · cases hn : nextMatch text with
      | none => simp [hn] at h
      | some found =>
        obtain ⟨before, group, after⟩ := found
        simp only [hn, Option.map_some, Option.some.injEq, Prod.mk.injEq] at h
        obtain ⟨rfl, rfl, rfl⟩ := h
        obtain ⟨ht, hi⟩ := ih hn
        exact ⟨by rw [List.cons_append, ← ht], hi⟩

-- Variables

theorem variableRest_word (h : isWord c) (rest : List Char) : variableRest (c :: rest) = variableRest rest := by
  rw [variableRest.eq_def]
  split
  · rename_i heq
    exact absurd h (by rw [(List.cons.inj heq).1]; decide)
  · rename_i heq
    exact absurd h (by rw [(List.cons.inj heq).1]; decide)
  · rename_i heq
    obtain ⟨rfl, rfl⟩ := List.cons.inj heq
    simp [h]
  · contradiction

theorem variableRest_varchar {v : List Char} (hv : IsVarchar v) (rest : List Char) :
    variableRest (v ++ rest) = variableRest rest := by
  cases hv with
  | word h => exact variableRest_word h rest
  | triplet ha hb => simp [variableRest, ha, hb]

theorem varchar_head {v : List Char} (hv : IsVarchar v) : ∃ c cs, v = c :: cs ∧ (isWord c ∨ c = '%') := by
  cases hv with
  | word h => exact ⟨_, _, rfl, .inl h⟩
  | triplet => exact ⟨_, _, rfl, .inr rfl⟩

theorem dot_not_word : ¬(isWord '.' ∨ '.' = '%') := by decide

theorem variableRest_iff (text : List Char) : variableRest text ↔ Varchars text := by
  constructor
  · intro h
    fun_induction variableRest text with
    | case1 a b rest ih =>
      simp only [Bool.and_eq_true] at h
      exact .next (.triplet h.1.1 h.1.2) (ih h.2)
    | case2 c rest ih =>
      simp only [Bool.and_eq_true, Bool.or_eq_true, decide_eq_true_eq] at h
      -- the lookahead leaves no second point
      generalize htext : c :: rest = text at ih h
      cases ih h.2 with
      | nil => contradiction
      | next hv hrest => exact .dot hv hrest
      | dot hv hrest =>
        obtain ⟨rfl, -⟩ := List.cons.inj htext
        exact absurd h.1 dot_not_word
    | case3 c rest _ _ ih =>
      simp only [Bool.and_eq_true] at h
      exact .next (v := [c]) (.word h.1) (ih h.2)
    | case4 => exact .nil
  · intro h
    induction h with
    | nil => rfl
    | next hv hrest ih => rw [variableRest_varchar hv, ih]
    | dot hv hrest ih =>
      obtain ⟨c, cs, rfl, hc⟩ := varchar_head hv
      have hrest : variableRest (c :: cs ++ _) := (variableRest_varchar hv _).trans ih
      simpa [variableRest, hc] using hrest

theorem variableMatch_iff (name : List Char) : variableMatch name ↔ IsVarname name := by
  constructor
  · intro h
    fun_cases variableMatch name with
    | case1 a b rest =>
      simp only [variableMatch, Bool.and_eq_true] at h
      exact ⟨_, rest, .triplet h.1.1 h.1.2, (variableRest_iff rest).mp h.2, rfl⟩
    | case2 c rest hne =>
      rw [variableMatch] at h
      · simp only [Bool.and_eq_true] at h
        exact ⟨[c], rest, .word h.1, (variableRest_iff rest).mp h.2, rfl⟩
      · exact hne
    | case3 => simp [variableMatch] at h
  · rintro ⟨v, rest, hv, hrest, rfl⟩
    have hrest := (variableRest_iff rest).mpr hrest
    cases hv with
    | triplet ha hb => simp [variableMatch, ha, hb, hrest]
    | word h =>
      rw [List.cons_append, List.nil_append, variableMatch.eq_def]
      split
      · rename_i heq
        exact absurd h (by rw [(List.cons.inj heq).1]; decide)
      · rename_i heq
        obtain ⟨rfl, rfl⟩ := List.cons.inj heq
        rw [h, hrest]
        rfl
      · contradiction

def isNameChar (c : Char) : Bool := isWord c || c = '%' || c = '.'

theorem hexdig_word (h : isHexdig c) : isWord c := by
  simp only [isHexdig, Bool.or_eq_true, Bool.and_eq_true, decide_eq_true_eq] at h
  refine Bool.or_eq_true_iff.mpr (.inl ((isAlphanum_iff c).mpr ?_))
  rcases h with (h | h) | h
  · exact .inr ((isDigit_iff c).mp h)
  · exact .inl (.inr ⟨h.1, Char.le_trans h.2 (by decide : 'f' ≤ 'z')⟩)
  · exact .inl (.inl ⟨h.1, Char.le_trans h.2 (by decide : 'F' ≤ 'Z')⟩)

theorem varchar_chars {v : List Char} (hv : IsVarchar v) : ∀ c ∈ v, isNameChar c := by
  cases hv with
  | word h => simp [isNameChar, h]
  | triplet ha hb => simp [isNameChar, hexdig_word ha, hexdig_word hb]

theorem varchars_chars (h : Varchars text) : ∀ c ∈ text, isNameChar c := by
  induction h with
  | nil => simp
  | next hv hrest ih =>
    intro c hc
    rcases List.mem_append.mp hc with hc | hc
    · exact varchar_chars hv c hc
    · exact ih c hc
  | dot hv hrest ih =>
    intro c hc
    rcases List.mem_cons.mp hc with rfl | hc
    · rfl
    rcases List.mem_append.mp hc with hc | hc
    · exact varchar_chars hv c hc
    · exact ih c hc

theorem name_chars {name : List Char} (h : IsVarname name) : ∀ c ∈ name, isNameChar c := by
  obtain ⟨v, rest, hv, hrest, rfl⟩ := h
  intro c hc
  rcases List.mem_append.mp hc with hc | hc
  · exact varchar_chars hv c hc
  · exact varchars_chars hrest c hc

theorem name_head {name : List Char} (h : IsVarname name) : ∃ c cs, name = c :: cs ∧ operatorOf c = none := by
  obtain ⟨v, rest, hv, -, rfl⟩ := h
  obtain ⟨c, cs, rfl, hc⟩ := varchar_head hv
  refine ⟨c, cs ++ rest, rfl, ?_⟩
  have others : ∀ d, isWord d = false → d ≠ '%' → c ≠ d := by
    rintro d hw hp rfl
    rcases hc with hc | hc
    · rw [hw] at hc
      contradiction
    · exact hp hc
  unfold operatorOf
  split <;> first | rfl | exact absurd rfl (others _ (by decide) (by decide))

theorem lengthMatch_iff (digits : List Char) : lengthMatch digits ↔ IsMaxLength digits := by
  cases digits with
  | nil => simp [lengthMatch, IsMaxLength]
  | cons d ds =>
    have head : ('1' ≤ d ∧ d ≤ '9') ↔ d.isDigit ∧ d ≠ '0' := by
      simp only [Char.isDigit, Bool.and_eq_true, decide_eq_true_eq, ge_iff_le, ne_eq, Char.le_def, UInt32.le_iff_toNat_le]
      rw [← Char.toNat_inj]
      change (49 ≤ d.toNat ∧ d.toNat ≤ 57) ↔ (48 ≤ d.toNat ∧ d.toNat ≤ 57) ∧ ¬d.toNat = 48
      omega
    simp only [lengthMatch, Bool.and_eq_true, decide_eq_true_eq, List.all_eq_true, head]
    constructor
    · rintro ⟨⟨⟨hd, h0⟩, hlen⟩, hds⟩
      exact ⟨d, ds, rfl, hd, h0, hlen, hds⟩
    · rintro ⟨d, ds, heq, hd, h0, hlen, hds⟩
      obtain ⟨rfl, rfl⟩ := List.cons.inj heq
      exact ⟨⟨⟨hd, h0⟩, hlen⟩, hds⟩

/-- What the generator yields for a variable. -/
def entryOf (s : VarSpec) : List Char × Option ℕ :=
  (s.name, match s.modifier with
    | .length digits => some (Nat.ofDigitChars 10 digits 0)
    | _ => none)

theorem modifier_head (m : Modifier) : ∀ c ∈ m.text.head?, c = '*' ∨ c = ':' := by
  cases m <;> simp [Modifier.text]

theorem varspecMatch_text {s : VarSpec} (h : s.WellFormed) : varspecMatch s.text = some (entryOf s) := by
  obtain ⟨name, modifier⟩ := s
  obtain ⟨hname, hmod⟩ := h
  have hplain : ∀ c ∈ name, (c != '*' && c != ':') = true := by
    intro c hc
    have := name_chars hname c hc
    simp only [Bool.and_eq_true, bne_iff_ne]
    constructor <;> rintro rfl <;> revert this <;> decide
  have stop : ∀ t : List Char, (∀ c ∈ t.head?, c = '*' ∨ c = ':') →
      t.takeWhile (fun c => c != '*' && c != ':') = [] ∧ t.dropWhile (fun c => c != '*' && c != ':') = t := by
    intro t ht
    cases t with
    | nil => exact ⟨rfl, rfl⟩
    | cons c t =>
      rcases ht c rfl with rfl | rfl <;> exact ⟨rfl, rfl⟩
  obtain ⟨htake, hdrop⟩ := stop modifier.text (modifier_head modifier)
  unfold varspecMatch VarSpec.text
  have hmatch : variableMatch name = true := (variableMatch_iff name).mpr hname
  rw [List.takeWhile_append_of_pos hplain, List.dropWhile_append_of_pos hplain, htake, hdrop, List.append_nil]
  simp only [hmatch, if_true]
  cases modifier with
  | whole => rfl
  | explode => rfl
  | length digits => simp [Modifier.text, (lengthMatch_iff digits).mpr hmod, entryOf]

theorem varspecMatch_some {item : List Char} {entry : List Char × Option ℕ} (h : varspecMatch item = some entry) :
    ∃ s : VarSpec, s.WellFormed ∧ s.text = item ∧ entryOf s = entry := by
  have hsplit := List.takeWhile_append_dropWhile (p := fun c => c != '*' && c != ':') (l := item)
  unfold varspecMatch at h
  simp only at h
  split at h
  · rename_i hname
    have hname := (variableMatch_iff _).mp hname
    split at h
    · rename_i hrest
      cases h
      exact ⟨⟨_, .whole⟩, ⟨hname, trivial⟩, by rw [hrest] at hsplit; exact hsplit, rfl⟩
    · rename_i hrest
      cases h
      exact ⟨⟨_, .explode⟩, ⟨hname, trivial⟩, by rw [hrest] at hsplit; exact hsplit, rfl⟩
    · rename_i digits hrest
      split at h
      · rename_i hdigits
        cases h
        exact ⟨⟨_, .length digits⟩, ⟨hname, (lengthMatch_iff digits).mp hdigits⟩, by rw [hrest] at hsplit; exact hsplit, rfl⟩
      · contradiction
    · contradiction
  · contradiction

-- Expressions

theorem spec_chars {s : VarSpec} (h : s.WellFormed) : ∀ c ∈ s.text, c ≠ ',' ∧ c ≠ '\n' ∧ notBrace c := by
  have outside : ∀ c, isNameChar c ∨ c.isDigit ∨ c = '*' ∨ c = ':' → c ≠ ',' ∧ c ≠ '\n' ∧ notBrace c := by
    intro c hc
    refine ⟨?_, ?_, ?_⟩
    · rintro rfl
      revert hc
      decide
    · rintro rfl
      revert hc
      decide
    · by_contra hb
      rcases notBrace_eq_false.mp (by simpa using hb) with rfl | rfl <;> revert hc <;> decide
  intro c hc
  apply outside
  rcases List.mem_append.mp hc with hc | hc
  · exact .inl (name_chars h.1 c hc)
  · have hmod := h.2
    revert hc hmod
    cases s.modifier with
    | whole => simp [Modifier.text]
    | explode => exact fun hc _ => .inr (.inr (.inl (List.mem_singleton.mp hc)))
    | length digits =>
      rintro hc ⟨d, ds, rfl, hd, -, -, hds⟩
      rcases List.mem_cons.mp hc with rfl | hc
      · exact .inr (.inr (.inr rfl))
      rcases List.mem_cons.mp hc with rfl | hc
      · exact .inr (.inl hd)
      · exact .inr (.inl (hds c hc))

variable {operator : Operator}

theorem operatorOf_text (h : operatorOf c = some operator) : operator.text = [c] := by
  unfold operatorOf at h
  split at h <;> first | (cases h; rfl) | contradiction

theorem operator_cases (operator : Operator) :
    operator = .simple ∨ ∃ c, operator.text = [c] ∧ operatorOf c = some operator ∧ c ≠ '\n' ∧ notBrace c := by
  cases operator with
  | simple => exact .inl rfl
  | _ => exact .inr ⟨_, rfl, rfl, by decide, by decide⟩

def specsText (specs : List VarSpec) : List Char := [','].intercalate (specs.map VarSpec.text)

variable {e : Expression}

theorem specsText_chars (h : e.WellFormed) : ∀ c ∈ specsText e.specs, c ≠ '\n' ∧ notBrace c := by
  intro c hc
  rcases Lib.mem_intercalate hc with hc | ⟨part, hp, hc⟩
  · obtain rfl := List.mem_singleton.mp hc
    exact ⟨by decide, by decide⟩
  · obtain ⟨s, hs, rfl⟩ := List.mem_map.mp hp
    exact (spec_chars (h.2 s hs) c hc).2

theorem specsText_head (h : e.WellFormed) :
    ∃ c cs, specsText e.specs = c :: cs ∧ operatorOf c = none := by
  obtain ⟨hne, hs⟩ := h
  obtain ⟨s, rest, hspecs⟩ := List.exists_cons_of_ne_nil hne
  obtain ⟨c, cs, hname, hc⟩ := name_head (hs s (by simp [hspecs])).1
  have htext : s.text = c :: (cs ++ s.modifier.text) := by simp [VarSpec.text, hname]
  unfold specsText
  rw [hspecs, List.map_cons]
  cases rest with
  | nil => exact ⟨c, _, by rw [List.map_nil, List.intercalate_singleton, htext], hc⟩
  | cons s' rest => exact ⟨c, _, by rw [List.map_cons, List.intercalate_cons_cons, htext]; rfl, hc⟩

theorem inner_chars (h : e.WellFormed) : ∀ c ∈ e.inner, c ≠ '\n' ∧ notBrace c := by
  intro c hc
  rcases List.mem_append.mp hc with hc | hc
  · rcases operator_cases e.operator with ho | ⟨d, htext, -, hd⟩
    · simp [ho, Operator.text] at hc
    · rw [htext, List.mem_singleton] at hc
      exact hc ▸ hd
  · exact specsText_chars h c hc

theorem expressionMatch_inner (h : e.WellFormed) :
    expressionMatch e.inner = some (e.operator, specsText e.specs) := by
  have hnl : '\n' ∉ e.inner := fun hm => (inner_chars h _ hm).1 rfl
  obtain ⟨c, cs, hspecs, hc⟩ := specsText_head h
  have hinner : e.inner = e.operator.text ++ specsText e.specs := rfl
  unfold expressionMatch
  rw [if_neg hnl, hinner, hspecs]
  rcases operator_cases e.operator with ho | ⟨d, htext, hd, -⟩
  · rw [ho]
    cases cs with
    | nil => rfl
    | cons c' cs => simp [Operator.text, hc]
  · simp [htext, hd]

theorem expressionMatch_some {inner items : List Char}
    (h : expressionMatch inner = some (operator, items)) : inner = operator.text ++ items := by
  unfold expressionMatch at h
  split at h
  · contradiction
  split at h
  · contradiction
  · cases h
    rfl
  · split at h
    · rename_i hop
      cases h
      rw [operatorOf_text hop]
      rfl
    · cases h
      rfl

theorem varspec_ok {item : List Char} {entry : List Char × Option ℕ} :
    varspec item = .ok entry ↔ varspecMatch item = some entry := by
  unfold varspec
  cases varspecMatch item <;> simp [unsupportedAccess]

theorem mapM_varspec {specs : List VarSpec} (h : ∀ s ∈ specs, s.WellFormed) :
    (specs.map VarSpec.text).mapM varspec = .ok (specs.map entryOf) := by
  induction specs with
  | nil => rfl
  | cons s specs ih =>
    have hs : varspec s.text = .ok (entryOf s) := varspec_ok.mpr (varspecMatch_text (h s (by simp)))
    rw [List.map_cons, List.mapM_cons, hs, ih fun t ht => h t (by simp [ht])]
    rfl

theorem mapM_varspec_ok {items : List (List Char)} {entries : List (List Char × Option ℕ)}
    (h : items.mapM varspec = .ok entries) :
    ∃ specs : List VarSpec, (∀ s ∈ specs, s.WellFormed) ∧ specs.map VarSpec.text = items ∧ specs.map entryOf = entries := by
  induction items generalizing entries with
  | nil =>
    cases h
    exact ⟨[], by simp, rfl, rfl⟩
  | cons item items ih =>
    rw [List.mapM_cons] at h
    obtain ⟨entry, hentry, h⟩ := except_bind_ok h
    obtain ⟨others, hothers, h⟩ := except_bind_ok h
    cases h
    obtain ⟨s, hs, htext, he⟩ := varspecMatch_some (varspec_ok.mp hentry)
    obtain ⟨specs, hspecs, htexts, hes⟩ := ih hothers
    refine ⟨s :: specs, ?_, by rw [List.map_cons, htext, htexts], by rw [List.map_cons, he, hes]⟩
    intro t ht
    rcases List.mem_cons.mp ht with rfl | ht
    · exact hs
    · exact hspecs t ht

def matchOf (literal : List Char) (e : Expression) : Match := ⟨literal, e.operator, e.specs.map entryOf⟩

theorem nextExpression_text {literal rest : List Char} (hl : ∀ c ∈ literal, notBrace c)
    (h : e.WellFormed) : nextExpression (literal ++ e.text ++ rest) = .ok (some (matchOf literal e, rest)) := by
  have hbreak : literal ++ e.text ++ rest = literal ++ '{' :: (e.inner ++ '}' :: rest) := by simp [Expression.text]
  have hsplit : (specsText e.specs).splitOn ',' = e.specs.map VarSpec.text := by
    apply List.splitOn_intercalate
    · intro item hitem hc
      obtain ⟨s, hs, rfl⟩ := List.mem_map.mp hitem
      exact (spec_chars (h.2 s hs) _ hc).1 rfl
    · simpa using h.1
  unfold nextExpression
  rw [hbreak, nextMatch_first hl fun c hc => (inner_chars h c hc).2]
  simp only [List.all_eq_true.mpr hl, if_true, expressionMatch_inner h, hsplit, mapM_varspec h.2]
  rfl

theorem nextExpression_none : nextExpression text = .ok none ↔ ∀ c ∈ text, notBrace c := by
  constructor
  · intro h
    unfold nextExpression at h
    split at h
    · split at h
      · rename_i hall
        exact List.all_eq_true.mp hall
      · simp [unsupportedAccess] at h
    · split at h
      · split at h
        · simp [unsupportedAccess] at h
        · obtain ⟨_, _, h⟩ := except_bind_ok h
          cases h
      · simp [unsupportedAccess] at h
  · intro h
    unfold nextExpression
    rw [nextMatch_none h]
    simp [List.all_eq_true.mpr h]

theorem nextExpression_some {text rest : List Char} {found : Match} (h : nextExpression text = .ok (some (found, rest))) :
    ∃ (literal : List Char) (e : Expression), (∀ c ∈ literal, notBrace c) ∧ e.WellFormed ∧
      text = literal ++ e.text ++ rest ∧ found = matchOf literal e := by
  unfold nextExpression at h
  split at h
  · split at h <;> simp [unsupportedAccess] at h
  · rename_i literal inner after hmatch
    split at h
    · rename_i hl
      split at h
      · simp [unsupportedAccess] at h
      · rename_i operator items hexpr
        obtain ⟨entries, hentries, h⟩ := except_bind_ok h
        cases h
        obtain ⟨specs, hspecs, htexts, rfl⟩ := mapM_varspec_ok hentries
        have hitems : items = specsText specs := by
          rw [specsText, htexts, List.intercalate_splitOn]
        have hne : specs ≠ [] := by
          rintro rfl
          exact List.splitOn_ne_nil _ _ htexts.symm
        refine ⟨literal, ⟨operator, specs⟩, List.all_eq_true.mp hl, ⟨hne, hspecs⟩, ?_, rfl⟩
        rw [(nextMatch_some hmatch).1, expressionMatch_some hexpr, hitems]
        simp [Expression.text, Expression.inner, specsText]
    · simp [unsupportedAccess] at h

-- Templates

/-- The RFC's expressions, with anything but braces between them. -/
def Bracketed (t : Template) : Prop :=
  (∀ p ∈ t.pieces, p.2.WellFormed) ∧ ∀ run ∈ t.runs, ∀ c ∈ run, notBrace c

def matchesOf (t : Template) : List Match := t.pieces.map fun p => matchOf p.1 p.2

theorem Bracketed.cons {literal tail : List Char} {pieces : List (List Char × Expression)} :
    Bracketed ⟨(literal, e) :: pieces, tail⟩ ↔
      (∀ c ∈ literal, notBrace c) ∧ e.WellFormed ∧ Bracketed ⟨pieces, tail⟩ := by
  simp only [Bracketed, Template.runs, List.mem_cons, forall_eq_or_imp, List.map_cons, List.cons_append]
  tauto

theorem text_cons (literal tail : List Char) (e : Expression) (pieces : List (List Char × Expression)) :
    Template.text ⟨(literal, e) :: pieces, tail⟩ = literal ++ e.text ++ Template.text ⟨pieces, tail⟩ := by
  simp [Template.text]

theorem expression_length (e : Expression) : 0 < e.text.length := by simp [Expression.text]

variable {t : Template}

theorem expressionsLoop_text (h : Bracketed t) {fuel : ℕ} (hfuel : t.text.length < fuel) :
    expressionsLoop fuel t.text = .ok (matchesOf t, t.tail) := by
  obtain ⟨pieces, tail⟩ := t
  induction pieces generalizing fuel with
  | nil =>
    obtain ⟨fuel, rfl⟩ := Nat.exists_eq_add_of_lt hfuel
    have hnone : nextExpression tail = .ok none := nextExpression_none.mpr (h.2 tail (by simp [Template.runs]))
    rw [Template.text, List.flatMap_nil, List.nil_append, expressionsLoop, hnone]
    rfl
  | cons p pieces ih =>
    obtain ⟨literal, e⟩ := p
    obtain ⟨hl, he, hrest⟩ := Bracketed.cons.mp h
    have hlen := expression_length e
    rw [text_cons] at hfuel ⊢
    simp only [List.length_append] at hfuel
    obtain ⟨fuel, rfl⟩ : ∃ k, fuel = k + 1 := ⟨fuel - 1, by omega⟩
    rw [expressionsLoop, nextExpression_text hl he]
    change (expressionsLoop fuel _ >>= _) = _
    rw [ih hrest (by omega)]
    rfl

theorem expressionsLoop_ok {fuel : ℕ} {text tail : List Char} {founds : List Match} (hfuel : text.length < fuel)
    (h : expressionsLoop fuel text = .ok (founds, tail)) :
    ∃ t : Template, Bracketed t ∧ t.text = text ∧ matchesOf t = founds ∧ t.tail = tail := by
  induction fuel generalizing text founds with
  | zero => omega
  | succ fuel ih =>
    obtain ⟨next, hnext, h⟩ := except_bind_ok h
    cases next with
    | none =>
      cases h
      refine ⟨⟨[], tail⟩, ⟨by simp, ?_⟩, by simp [Template.text], rfl, rfl⟩
      simpa [Template.runs] using nextExpression_none.mp hnext
    | some step =>
      obtain ⟨found, rest⟩ := step
      obtain ⟨⟨others, end'⟩, hothers, h⟩ := except_bind_ok h
      cases h
      obtain ⟨literal, e, hl, he, rfl, rfl⟩ := nextExpression_some hnext
      have hlen := expression_length e
      simp only [List.length_append] at hfuel
      obtain ⟨⟨pieces, tail⟩, ht, rfl, rfl, rfl⟩ := ih (by omega) hothers
      exact ⟨⟨(literal, e) :: pieces, tail⟩, Bracketed.cons.mpr ⟨hl, he, ht⟩, text_cons literal tail e pieces, rfl, rfl⟩

theorem template_expressions_ok {template tail : List Char} {founds : List Match} :
    template_expressions template = .ok (founds, tail) ↔
      ∃ t : Template, Bracketed t ∧ t.text = template ∧ matchesOf t = founds ∧ t.tail = tail := by
  constructor
  · exact expressionsLoop_ok (Nat.lt_succ_self _)
  · rintro ⟨t, ht, rfl, rfl, rfl⟩
    exact expressionsLoop_text ht (Nat.lt_succ_self _)

-- Percent-encoding

def isSafe (safe : List Char) (c : Char) : Bool := c.isAlphanum || "_.-~".toList.contains c || safe.contains c

theorem isSafe_ascii {safe : List Char} (hsafe : ∀ c ∈ safe, c.toNat < 128) (h : isSafe safe c) :
    c.toNat < 128 := by
  simp only [isSafe, Bool.or_eq_true, List.contains_iff_mem] at h
  rcases h with (h | h) | h
  · rw [isAlphanum_iff] at h
    omega
  · revert c
    decide
  · exact hsafe c h

theorem utf8EncodeChar_one (h : c.toNat < 128) : String.utf8EncodeChar c = [UInt8.ofNat c.toNat] := by
  have hle : c.val.toNat ≤ 0x7f := Nat.le_of_lt_succ h
  unfold String.utf8EncodeChar
  simp only [hle, if_true]
  rfl

theorem quote_char (safe : List Char) (hsafe : ∀ c ∈ safe, c.toNat < 128) (c : Char) :
    (String.utf8EncodeChar c).flatMap (quoteByte safe) = if isSafe safe c then [c] else pctEncoded c := by
  by_cases hc : c.toNat < 128
  · have hback : Char.ofNat (UInt8.ofNat c.toNat).toNat = c := by
      rw [UInt8.toNat_ofNat', Nat.mod_eq_of_lt (by omega), Char.ofNat_toNat]
    rw [pctEncoded, utf8EncodeChar_one hc, List.flatMap_singleton, List.flatMap_singleton, quoteByte, hback]
    rfl
  · have hout : isSafe safe c = false := by
      by_contra h
      exact hc (isSafe_ascii hsafe (by simpa using h))
    rw [hout, pctEncoded, if_neg (by simp)]
    apply List.flatMap_congr
    intro b hb
    have hb128 : ¬b.toNat < 128 := fun h => hc (utf8EncodeChar_ascii hb h ▸ h)
    have hkept : isSafe safe (Char.ofNat b.toNat) = false := by
      by_contra h
      have := isSafe_ascii hsafe (by simpa using h)
      have hlt := b.toNat_lt
      rw [Char.ofNat, dif_pos (Or.inl (by omega))] at this
      exact hb128 this
    change (if isSafe safe (Char.ofNat b.toNat) then _ else _) = _
    rw [hkept, if_neg (by simp)]

theorem quote_cons (safe : List Char) (hsafe : ∀ c ∈ safe, c.toNat < 128) (c : Char) (rest : List Char) :
    quote (c :: rest) safe = (if isSafe safe c then [c] else pctEncoded c) ++ quote rest safe := by
  rw [quote, List.flatMap_cons, List.flatMap_append, quote_char safe hsafe]
  rfl

theorem isSafe_nil (c : Char) : isSafe [] c = isUnreserved c := by
  have hmarks : "_.-~".toList.contains c = (c == '_' || (c == '.' || (c == '-' || (c == '~' || false)))) := rfl
  rw [Bool.eq_iff_iff, isSafe, isUnreserved, hmarks]
  simp only [List.contains_nil, Bool.or_false, Bool.or_eq_true, beq_iff_eq, decide_eq_true_eq]
  tauto

theorem isSafe_reserved (c : Char) : isSafe RESERVED c = (isUnreserved c || isReserved c) := by
  rw [← isSafe_nil, isSafe, isSafe, List.contains_nil, Bool.or_false]
  rfl

theorem reserved_ascii : ∀ c ∈ RESERVED, c.toNat < 128 := by decide

theorem quote_simple (text : List Char) : quote text [] = UriTemplate.encode text := by
  induction text with
  | nil => rfl
  | cons c text ih =>
    rw [quote_cons [] (by simp), ih, isSafe_nil]
    rfl

theorem hexdig_safe (h : isHexdig c) : isSafe RESERVED c := by
  have hword := hexdig_word h
  simp only [isWord, Bool.or_eq_true, decide_eq_true_eq] at hword
  rcases hword with hc | rfl
  · simp [isSafe, hc]
  · decide

theorem percent_encoded : (if isSafe RESERVED '%' then ['%'] else pctEncoded '%') = ['%', '2', '5'] := by decide

theorem length_quote_reserved (text : List Char) :
    (quote text RESERVED).length = (encodeReserved text).length + 2 * tripletCount text := by
  fun_induction tripletCount text with
  | case1 a b rest h ih =>
    have hx := Bool.and_eq_true_iff.mp h
    rw [quote_cons _ reserved_ascii, percent_encoded, quote_cons _ reserved_ascii, hexdig_safe hx.1,
      quote_cons _ reserved_ascii, hexdig_safe hx.2, encodeReserved, if_pos h]
    simp only [if_true, List.length_append, List.length_cons, List.length_nil, ih]
    omega
  | case2 a b rest h ih =>
    rw [quote_cons _ reserved_ascii, encodeReserved, if_neg h, List.length_append, List.length_append, ih]
    rw [show (if isSafe RESERVED '%' then ['%'] else pctEncoded '%') = pctEncoded '%' from by decide]
    omega
  | case3 c rest hne ih =>
    rw [quote_cons _ reserved_ascii, encodeReserved, isSafe_reserved, List.length_append, List.length_append, ih]
    · omega
    · exact hne
  | case4 => rfl

theorem quote_reserved (h : tripletCount text = 0) : quote text RESERVED = encodeReserved text := by
  fun_induction tripletCount text with
  | case1 a b rest hx ih => simp at h
  | case2 a b rest hx ih =>
    rw [quote_cons _ reserved_ascii, encodeReserved, if_neg hx, ih h]
    rfl
  | case3 c rest hne ih =>
    rw [quote_cons _ reserved_ascii, encodeReserved, isSafe_reserved, ih h]
    exact hne
  | case4 => rfl

-- Expansion

theorem row_rule (operator : Operator) :
    (OPERATORS operator).lead = operator.rule.first ∧ (OPERATORS operator).separator = operator.rule.sep ∧
      (OPERATORS operator).named = operator.rule.named ∧ (OPERATORS operator).reserved = operator.rule.allow := by
  cases operator <;> exact ⟨rfl, rfl, rfl, rfl⟩

theorem entry_part (s : VarSpec) (value : List Char) : truncated (entryOf s).2 value = s.modifier.part value := by
  obtain ⟨name, modifier⟩ := s
  cases modifier <;> rfl

def triplets (rule : Rule) (s : VarSpec) (value : List Char) : ℕ :=
  if rule.allow then tripletCount (s.modifier.part value) else 0

theorem encodeEntry_reserved (h : operator.rule.allow) (s : VarSpec) (value : List Char) :
    encodeEntry operator s.name (entryOf s).2 value = quote (s.modifier.part value) RESERVED ∧
      s.encoded operator.rule value = encodeReserved (s.modifier.part value) := by
  unfold encodeEntry VarSpec.encoded
  simp only [entry_part]
  cases operator <;> first | exact ⟨rfl, rfl⟩ | cases h

theorem encodeEntry_simple (h : operator.rule.allow = false) (s : VarSpec) (value : List Char) :
    encodeEntry operator s.name (entryOf s).2 value = s.encoded operator.rule value := by
  have hempty : (UriTemplate.encode (s.modifier.part value) = []) ↔ (s.modifier.part value).isEmpty = true := by
    rw [List.isEmpty_iff]
    exact ⟨encode_eq_nil, fun h => by rw [h]; rfl⟩
  unfold encodeEntry VarSpec.encoded
  simp only [entry_part, row_rule operator, h, Bool.false_eq_true, if_false, quote_simple]
  cases operator with
  | reserved => cases h
  | fragment => cases h
  | query =>
    simp only [Operator.rule, if_true, reduceCtorEq, false_and, if_false]
    split
    · rename_i hp
      rw [hempty.mpr hp]
    · rfl
  | continuation =>
    simp only [Operator.rule, if_true, reduceCtorEq, false_and, if_false]
    split
    · rename_i hp
      rw [hempty.mpr hp]
    · rfl
  | parameter => simp only [Operator.rule, if_true, true_and, hempty]
  | _ => rfl

theorem encodeEntry_length (operator : Operator) (s : VarSpec) (value : List Char) :
    (encodeEntry operator s.name (entryOf s).2 value).length =
      (s.encoded operator.rule value).length + 2 * triplets operator.rule s value := by
  cases h : operator.rule.allow with
  | false => rw [encodeEntry_simple h, triplets, h]; rfl
  | true =>
    obtain ⟨hcode, hrfc⟩ := encodeEntry_reserved h s value
    rw [hcode, hrfc, length_quote_reserved, triplets, h, if_pos rfl]

theorem encodeEntry_eq {s : VarSpec} {value : List Char}
    (h : triplets operator.rule s value = 0) :
    encodeEntry operator s.name (entryOf s).2 value = s.encoded operator.rule value := by
  cases ha : operator.rule.allow with
  | false => exact encodeEntry_simple ha s value
  | true =>
    obtain ⟨hcode, hrfc⟩ := encodeEntry_reserved ha s value
    rw [triplets, ha, if_pos rfl] at h
    rw [hcode, hrfc, quote_reserved h]

def codeParts (texts : List Char → Option (List Char)) (operator : Operator) (specs : List VarSpec) : List (List Char) :=
  specs.filterMap fun s => (texts s.name).map (encodeEntry operator s.name (entryOf s).2)

def rfcParts (texts : List Char → Option (List Char)) (operator : Operator) (specs : List VarSpec) : List (List Char) :=
  specs.filterMap (VarSpec.expand operator.rule texts)

def tripletsIn (texts : List Char → Option (List Char)) (operator : Operator) (specs : List VarSpec) : ℕ :=
  (specs.map fun s => ((texts s.name).map (triplets operator.rule s)).getD 0).sum

theorem parts_lengths (texts : List Char → Option (List Char)) (operator : Operator) (specs : List VarSpec) :
    (codeParts texts operator specs).length = (rfcParts texts operator specs).length ∧
      ((codeParts texts operator specs).map List.length).sum =
        ((rfcParts texts operator specs).map List.length).sum + 2 * tripletsIn texts operator specs := by
  induction specs with
  | nil => exact ⟨rfl, rfl⟩
  | cons s specs ih =>
    cases hv : texts s.name with
    | none => simpa [codeParts, rfcParts, tripletsIn, VarSpec.expand, hv] using ih
    | some value =>
      have hlen := encodeEntry_length operator s value
      simp only [codeParts, rfcParts, tripletsIn] at ih
      simp only [codeParts, rfcParts, tripletsIn, List.filterMap_cons, VarSpec.expand, hv, Option.map_some,
        List.length_cons, List.map_cons, List.sum_cons, Option.getD_some]
      omega

variable {texts : List Char → Option (List Char)}

theorem parts_eq {specs : List VarSpec}
    (h : tripletsIn texts operator specs = 0) : codeParts texts operator specs = rfcParts texts operator specs := by
  apply List.filterMap_congr
  intro s hs
  unfold VarSpec.expand
  cases hv : texts s.name with
  | none => rfl
  | some value =>
    have hzero := List.sum_eq_zero_iff_forall_eq_nat.mp h _ (List.mem_map_of_mem hs)
    rw [hv] at hzero
    exact congrArg some (encodeEntry_eq hzero)

theorem joined_rfc (texts : List Char → Option (List Char)) (e : Expression) :
    e.expand texts = joined e.operator (rfcParts texts e.operator e.specs) := by
  obtain ⟨hlead, hsep, -⟩ := row_rule e.operator
  rw [joined, hlead, hsep]
  rfl

theorem joined_length (operator : Operator) {as bs : List (List Char)} {k : ℕ} (hlen : as.length = bs.length)
    (hsum : (as.map List.length).sum = (bs.map List.length).sum + k) :
    (joined operator as).length = (joined operator bs).length + k := by
  have hempty : as.isEmpty = bs.isEmpty := by
    rw [Bool.eq_iff_iff, List.isEmpty_iff_length_eq_zero, List.isEmpty_iff_length_eq_zero, hlen]
  unfold joined
  rw [hempty]
  split
  · rename_i hb
    have hbs := List.isEmpty_iff.mp hb
    have has := List.isEmpty_iff.mp (hempty.trans hb)
    subst hbs has
    simpa using hsum
  · rw [List.length_append, List.length_append, Lib.length_intercalate, Lib.length_intercalate, hsum, hlen]
    omega

def codeExpression (texts : List Char → Option (List Char)) (e : Expression) : List Char :=
  joined e.operator (codeParts texts e.operator e.specs)

def codeExpand (texts : List Char → Option (List Char)) (t : Template) : List Char :=
  t.pieces.flatMap (fun p => p.1 ++ codeExpression texts p.2) ++ t.tail

def tripletsOf (texts : List Char → Option (List Char)) (t : Template) : ℕ :=
  (t.pieces.map fun p => tripletsIn texts p.2.operator p.2.specs).sum

theorem codeExpand_length (h : ∀ run ∈ t.runs, isCopied run) :
    (codeExpand texts t).length = (t.expand texts).length + 2 * tripletsOf texts t := by
  obtain ⟨pieces, tail⟩ := t
  induction pieces with
  | nil =>
    have htail := encodeReserved_copied (h tail (by simp [Template.runs]))
    simp [codeExpand, Template.expand, tripletsOf, htail]
  | cons p pieces ih =>
    have hp := encodeReserved_copied (h p.1 (by simp [Template.runs]))
    have ih := ih fun run hrun => h run (by simpa [Template.runs] using Or.inr (by simpa [Template.runs] using hrun))
    obtain ⟨hlen, hsum⟩ := parts_lengths texts p.2.operator p.2.specs
    have hjoined := joined_length p.2.operator hlen hsum
    simp only [codeExpand, Template.expand, tripletsOf, List.length_append] at ih
    simp only [codeExpand, Template.expand, tripletsOf, List.flatMap_cons, List.length_append, List.map_cons,
      List.sum_cons, codeExpression, joined_rfc, hp, hjoined] at ih ⊢
    omega

theorem codeExpand_eq (h : ∀ run ∈ t.runs, isCopied run)
    (hzero : tripletsOf texts t = 0) : codeExpand texts t = t.expand texts := by
  have htail := encodeReserved_copied (h t.tail (by simp [Template.runs]))
  unfold codeExpand Template.expand
  rw [htail]
  congr 1
  apply List.flatMap_congr
  intro p hp
  have hrun := encodeReserved_copied (h p.1 (by simp only [Template.runs, List.mem_append]; exact .inl (List.mem_map_of_mem hp)))
  rw [hrun, joined_rfc, codeExpression, parts_eq (List.sum_eq_zero_iff_forall_eq_nat.mp hzero _ (List.mem_map_of_mem hp))]

/-- `values` gives the variables of an expression these texts. -/
def Supplies (values : List Char → Value) (texts : List Char → Option (List Char)) (e : Expression) : Prop :=
  ∀ s ∈ e.specs, scalar_text (values s.name) = .ok (texts s.name)

variable {values : List Char → Value}

theorem expandMatch_ok
    (h : Supplies values texts e) (literal : List Char) :
    expandMatch values (matchOf literal e) = .ok (codeExpression texts e) := by
  have hparts : ∀ specs : List VarSpec, (∀ s ∈ specs, scalar_text (values s.name) = .ok (texts s.name)) →
      (specs.map entryOf).mapM (expandEntry values e.operator) =
        .ok (specs.map fun s => (texts s.name).map (encodeEntry e.operator s.name (entryOf s).2)) := by
    intro specs hspecs
    induction specs with
    | nil => rfl
    | cons s specs ih =>
      have hs : expandEntry values e.operator (entryOf s) =
          .ok ((texts s.name).map (encodeEntry e.operator s.name (entryOf s).2)) := by
        unfold expandEntry
        rw [show (entryOf s).1 = s.name from rfl, hspecs s (by simp)]
        rfl
      rw [List.map_cons, List.mapM_cons, hs, ih fun t ht => hspecs t (by simp [ht])]
      rfl
  unfold expandMatch
  rw [show (matchOf literal e).entries = e.specs.map entryOf from rfl,
    show (matchOf literal e).operator = e.operator from rfl, hparts e.specs h, codeExpression, codeParts]
  change Except.ok (joined e.operator (List.filterMap id (e.specs.map _))) = _
  rw [List.filterMap_map]
  rfl

theorem expandLoop_text
    (ht : Bracketed t) (h : ∀ p ∈ t.pieces, Supplies values texts p.2) {fuel : ℕ} (hfuel : t.text.length < fuel) :
    expandLoop values fuel t.text = .ok (codeExpand texts t) := by
  obtain ⟨pieces, tail⟩ := t
  induction pieces generalizing fuel with
  | nil =>
    obtain ⟨fuel, rfl⟩ := Nat.exists_eq_add_of_lt hfuel
    have hnone : nextExpression tail = .ok none := nextExpression_none.mpr (ht.2 tail (by simp [Template.runs]))
    rw [Template.text, List.flatMap_nil, List.nil_append, expandLoop, hnone]
    rfl
  | cons p pieces ih =>
    obtain ⟨literal, e⟩ := p
    obtain ⟨hl, he, hrest⟩ := Bracketed.cons.mp ht
    have hlen := expression_length e
    rw [text_cons] at hfuel ⊢
    simp only [List.length_append] at hfuel
    obtain ⟨fuel, rfl⟩ : ∃ k, fuel = k + 1 := ⟨fuel - 1, by omega⟩
    rw [expandLoop, nextExpression_text hl he]
    change (expandMatch values (matchOf literal e) >>= _) = _
    rw [expandMatch_ok (h (literal, e) (by simp))]
    change (expandLoop values fuel _ >>= _) = _
    rw [ih hrest (fun p hp => h p (by simp [hp])) (by omega)]
    simp [codeExpand, matchOf, Bind.bind, Except.bind]

/-- No reserved or fragment expression expands a value with an encoded triplet. -/
def Untripled (texts : List Char → Option (List Char)) (t : Template) : Prop :=
  ∀ p ∈ t.pieces, p.2.operator.rule.allow → ∀ s ∈ p.2.specs, ∀ value, texts s.name = some value →
    ¬HasTriplet (s.modifier.part value)

theorem untripled_iff (texts : List Char → Option (List Char)) (t : Template) :
    Untripled texts t ↔ tripletsOf texts t = 0 := by
  simp only [tripletsOf, tripletsIn, List.sum_eq_zero_iff_forall_eq_nat, List.mem_map, forall_exists_index, and_imp,
    forall_apply_eq_imp_iff₂, Untripled]
  refine forall₂_congr fun p _ => ?_
  constructor
  · intro h s hs
    cases hv : texts s.name with
    | none => rfl
    | some value =>
      rw [Option.map_some, Option.getD_some, triplets]
      split
      · rename_i ha
        exact (tripletCount_eq_zero _).mpr (h ha s hs value hv)
      · rfl
  · intro h ha s hs value hv
    have hzero := h s hs
    rw [hv, Option.map_some, Option.getD_some, triplets, if_pos ha] at hzero
    exact (tripletCount_eq_zero _).mp hzero

theorem expand_exact
    (ht : Bracketed t) (hcopied : ∀ run ∈ t.runs, isCopied run) (h : ∀ p ∈ t.pieces, Supplies values texts p.2)
    (hlength : t.text.length ≤ 16384) (hfits : (t.expand texts).length ≤ 65536) :
    expand_template t.text values = .ok (t.expand texts) ↔ Untripled texts t := by
  have hcode : expand_template t.text values =
      if 65536 < (codeExpand texts t).length then
        overLength "Expanded native target budget exceeded" "expanded-uri-length"
          (some (.count (codeExpand texts t).length))
      else .ok (codeExpand texts t) := by
    unfold expand_template
    rw [if_neg (by omega), expandLoop_text ht h (Nat.lt_succ_self _)]
    rfl
  rw [untripled_iff, hcode]
  constructor
  · intro heq
    split at heq
    · simp [overLength] at heq
    · have hlen : (codeExpand texts t).length = _ := codeExpand_length hcopied
      rw [Except.ok.inj heq] at hlen
      omega
  · intro hzero
    rw [codeExpand_eq hcopied hzero, if_neg (by omega)]

theorem unit_brace {ok : Char → Bool} (hok : ∀ c, ok c → notBrace c) (h : isUnits ok text) :
    ∀ c ∈ text, notBrace c := by
  have hex : ∀ c, isHexdig c → notBrace c := by
    intro c hc
    by_contra hb
    rcases notBrace_eq_false.mp (by simpa using hb) with rfl | rfl <;> revert hc <;> decide
  fun_induction isUnits ok text with
  | case1 a b rest ih =>
    simp only [Bool.and_eq_true] at h
    intro c hc
    simp only [List.mem_cons] at hc
    rcases hc with rfl | rfl | rfl | hc
    · rfl
    · exact hex _ h.1.1
    · exact hex _ h.1.2
    · exact ih h.2 c hc
  | case2 c rest hne ih =>
    simp only [Bool.and_eq_true] at h
    intro d hd
    rcases List.mem_cons.mp hd with rfl | hd
    · exact hok _ h.1
    · exact ih h.2 d hd
  | case3 => simp

theorem literal_brace (c : Char) (h : isLiteral c) : notBrace c := by
  by_contra hb
  rcases notBrace_eq_false.mp (by simpa using hb) with rfl | rfl <;> revert h <;> decide

theorem bracketed_of_wellFormed (h : t.WellFormed) : Bracketed t :=
  ⟨h.1, fun run hrun => unit_brace literal_brace (h.2 run hrun)⟩

/-- What stands outside of the expressions does not depend on how a template is
read. -/
theorem runs_unique {t t' : Template} (h : Bracketed t) (h' : Bracketed t') (htext : t.text = t'.text) :
    t.runs = t'.runs := by
  have hread := template_expressions_ok.mpr ⟨t, h, htext, rfl, rfl⟩
  rw [template_expressions_ok.mpr ⟨t', h', rfl, rfl, rfl⟩] at hread
  simp only [Except.ok.injEq, Prod.mk.injEq] at hread
  have hliterals : ∀ u : Template, u.pieces.map (·.1) = (matchesOf u).map Match.literal := by
    intro u
    simp [matchesOf, matchOf]
  unfold Template.runs
  rw [hliterals, hliterals, hread.1, hread.2]

-- Texts of values

/-- The exact value without exponent, insignificant zeros or negative zero. -/
def IsPlain (d : Decimal) (text : List Char) : Prop :=
  ∃ whole fraction : List Char,
    text = (if d.coefficient = 0 then [] else d.signChars) ++ whole ++
      (if fraction.isEmpty then [] else '.' :: fraction) ∧
    (∀ c ∈ whole ++ fraction, c.isDigit) ∧
    (whole = ['0'] ∨ ∃ c cs, whole = c :: cs ∧ c ≠ '0') ∧
    fraction.getLast? ≠ some '0' ∧
    (Nat.ofDigitChars 10 (whole ++ fraction) 0 : ℚ) / 10 ^ fraction.length = d.coefficient * 10 ^ d.exponent

inductive Lexical : Value → Option (List Char) → Prop
  | null : Lexical .null none
  | string (text : String) : Lexical (.string text) (some text.toList)
  | bool (value : Bool) : Lexical (.bool value) (some (if value then "true".toList else "false".toList))
  | integer (n : ℤ) : Lexical (.number (.integer n)) (some (intChars n))
  | decimal {d : Decimal} {text : List Char} (h : IsPlain d text) : Lexical (.number (.decimal d)) (some text)

theorem stripZeros_split (text : List Char) : ∃ k, text = stripZeros text ++ List.replicate k '0' := by
  induction text using List.reverseRecOn with
  | nil => exact ⟨0, rfl⟩
  | append_singleton text c ih =>
    by_cases hc : c = '0'
    · obtain ⟨k, hk⟩ := ih
      refine ⟨k + 1, ?_⟩
      rw [stripZeros, List.rdropWhile_concat_pos _ _ _ (by simpa using hc), List.replicate_succ', ← List.append_assoc,
        ← stripZeros, ← hk, hc]
    · exact ⟨0, by rw [stripZeros, List.rdropWhile_concat_neg _ _ _ (by simpa using hc)]; simp⟩

theorem stripZeros_last (text : List Char) : (stripZeros text).getLast? ≠ some '0' := by
  by_cases h : stripZeros text = []
  · simp [h]
  · rw [List.getLast?_eq_some_getLast h]
    intro heq
    exact List.rdropWhile_last_not (fun c => decide (c = '0')) text h (decide_eq_true (Option.some.inj heq))

theorem places_value {d : Decimal} (hd : d.coefficient ≠ 0) :
    (∀ c ∈ d.places.1 ++ d.places.2, c.isDigit) ∧ (d.places.1 = ['0'] ∨ ∃ c cs, d.places.1 = c :: cs ∧ c ≠ '0') ∧
      (Nat.ofDigitChars 10 (d.places.1 ++ d.places.2) 0 : ℚ) / 10 ^ d.places.2.length =
        d.coefficient * 10 ^ d.exponent := by
  have hdigits : ∀ c ∈ d.digits, c.isDigit := toDigits_isDigit d.coefficient
  have hzeros : ∀ n : ℕ, ∀ c ∈ List.replicate n '0', c.isDigit := fun n c hc => by
    rw [List.eq_of_mem_replicate hc]
    decide
  have hvalue : Nat.ofDigitChars 10 d.digits 0 = d.coefficient := Nat.ofDigitChars_ten_toDigits
  obtain ⟨e, es, hhead, he⟩ := toDigits_head (Nat.pos_of_ne_zero hd)
  change d.digits = e :: es at hhead
  have hneg : ¬0 ≤ d.exponent → d.exponent = -(d.exponent.natAbs : ℤ) := by omega
  unfold Decimal.places
  split
  · rename_i hexp
    refine ⟨?_, .inr ⟨e, _, by rw [hhead]; rfl, he⟩, ?_⟩
    · intro c hc
      rw [List.append_nil] at hc
      rcases List.mem_append.mp hc with hc | hc
      · exact hdigits c hc
      · exact hzeros _ c hc
    · obtain ⟨n, hn⟩ := Int.eq_ofNat_of_zero_le hexp
      rw [List.append_nil, Nat.ofDigitChars_append, hvalue, Nat.ofDigitChars_replicate_zero, hn]
      simp [mul_comm]
  · rename_i hexp
    simp only
    split
    · rename_i hlt
      refine ⟨?_, .inl rfl, ?_⟩
      · intro c hc
        rcases List.mem_append.mp hc with hc | hc
        · exact hzeros 1 c hc
        rcases List.mem_append.mp hc with hc | hc
        · exact hzeros _ c hc
        · exact hdigits c hc
      · have hlen : (List.replicate (d.exponent.natAbs - d.digits.length) '0' ++ d.digits).length = d.exponent.natAbs := by
          simp only [List.length_append, List.length_replicate]
          omega
        rw [hlen, show ['0'] = List.replicate 1 '0' from rfl, FiniteNumber.ofDigitChars_zeros,
          FiniteNumber.ofDigitChars_zeros, hvalue, hneg hexp, zpow_neg, zpow_natCast, Int.natAbs_neg, Int.natAbs_natCast]
        rfl
    · rename_i hge
      have hsplit := List.take_append_drop (d.digits.length - d.exponent.natAbs) d.digits
      have hlen : (d.digits.drop (d.digits.length - d.exponent.natAbs)).length = d.exponent.natAbs := by
        rw [List.length_drop]
        omega
      have hfraction : (d.coefficient : ℚ) / 10 ^ d.exponent.natAbs = d.coefficient * 10 ^ d.exponent := by
        rw [hneg hexp, zpow_neg, zpow_natCast, Int.natAbs_neg, Int.natAbs_natCast]
        rfl
      split
      · rename_i hempty
        rw [List.isEmpty_iff] at hempty
        rw [hempty, List.nil_append] at hsplit
        refine ⟨?_, .inl rfl, ?_⟩
        · intro c hc
          rcases List.mem_append.mp hc with hc | hc
          · exact hzeros 1 c hc
          · exact hdigits c (List.mem_of_mem_drop hc)
        · rw [hlen, hsplit, show ['0'] = List.replicate 1 '0' from rfl, FiniteNumber.ofDigitChars_zeros, hvalue, hfraction]
      · rename_i hempty
        refine ⟨?_, .inr ?_, ?_⟩
        · intro c hc
          rw [hsplit] at hc
          exact hdigits c hc
        · rw [hhead] at hempty ⊢
          generalize (e :: es).length - d.exponent.natAbs = k at hempty
          cases k with
          | zero => simp at hempty
          | succ k => exact ⟨e, es.take k, rfl, he⟩
        · rw [hlen, hsplit, hvalue, hfraction]

theorem decimal_text_plain (d : Decimal) : IsPlain d (decimal_text d) := by
  unfold decimal_text
  split
  · rename_i hz
    exact ⟨['0'], [], by simp [hz], by simp, .inl rfl, by simp, by simp [hz, Nat.ofDigitChars_cons]⟩
  · rename_i hd
    obtain ⟨hdigits, hwhole, hvalue⟩ := places_value hd
    obtain ⟨k, hk⟩ := stripZeros_split d.places.2
    refine ⟨d.places.1, stripZeros d.places.2, by rw [if_neg hd], ?_, hwhole, stripZeros_last _, ?_⟩
    · intro c hc
      apply hdigits c
      rw [hk]
      simp only [List.mem_append] at hc ⊢
      tauto
    · have hgrown : ∀ text : List Char,
          Nat.ofDigitChars 10 (text ++ List.replicate k '0') 0 = 10 ^ k * Nat.ofDigitChars 10 text 0 := fun text => by
        rw [Nat.ofDigitChars_append, Nat.ofDigitChars_replicate_zero]
      rw [hk, ← List.append_assoc, hgrown, List.length_append, List.length_replicate, pow_add] at hvalue
      rw [← hvalue]
      push_cast
      field_simp

/-- Scalars within the numeric budget. -/
def IsScalar : Value → Prop
  | .array _ => False
  | .object _ => False
  | .number value => numeric_limit value = .ok ()
  | _ => True

theorem scalar_text_lexical {value : Value} (h : IsScalar value) :
    ∃ text, scalar_text value = .ok text ∧ Lexical value text := by
  have hnest : nesting 0 = .ok () := rfl
  cases value with
  | null => exact ⟨none, by simp [scalar_text, check_json_domain, hnest, Bind.bind, Except.bind], .null⟩
  | bool b => exact ⟨_, by simp only [scalar_text, check_json_domain, hnest]; rfl, .bool b⟩
  | string s => exact ⟨_, by simp only [scalar_text, check_json_domain, hnest]; rfl, .string s⟩
  | number n =>
    change numeric_limit n = .ok () at h
    cases n with
    | integer n => exact ⟨_, by simp only [scalar_text, check_json_domain, hnest, h]; rfl, .integer n⟩
    | decimal d => exact ⟨_, by simp only [scalar_text, check_json_domain, hnest, h]; rfl, .decimal (decimal_text_plain d)⟩
  | array items => exact absurd h id
  | object members => exact absurd h id

theorem percent_of_triplet (h : HasTriplet text) : '%' ∈ text := by
  obtain ⟨before, a, b, after, rfl, -, -⟩ := h
  simp

theorem mem_part {m : Modifier} {value : List Char} (h : c ∈ m.part value) : c ∈ value := by
  cases m with
  | length digits => exact List.mem_of_mem_take h
  | _ => exact h

theorem string_of_percent {value : Value} (h : Lexical value (some text)) (hp : '%' ∈ text) :
    ∃ s : String, value = .string s ∧ text = s.toList := by
  have hdigits : ∀ n : ℕ, '%' ∉ Nat.toDigits 10 n := fun n hm => absurd (toDigits_isDigit n _ hm) (by decide)
  cases h with
  | string s => exact ⟨s, rfl, rfl⟩
  | bool b => cases b <;> exact absurd hp (by decide)
  | integer n =>
    unfold intChars at hp
    split at hp
    · rcases List.mem_cons.mp hp with hp | hp
      · exact absurd hp (by decide)
      · exact absurd hp (hdigits _)
    · exact absurd hp (hdigits _)
  | @decimal d text h =>
    obtain ⟨whole, fraction, rfl, hchars, -⟩ := h
    have hsign : '%' ∉ (if d.coefficient = 0 then [] else d.signChars) := by
      unfold Decimal.signChars
      split
      · simp
      · split <;> decide
    have hpoint : '%' ∈ (if fraction.isEmpty then [] else '.' :: fraction) → '%' ∈ fraction := by
      split
      · simp
      · simp
    simp only [List.mem_append] at hp
    rcases hp with (hp | hp) | hp
    · exact absurd hp hsign
    · exact absurd (hchars _ (List.mem_append_left _ hp)) (by decide)
    · exact absurd (hchars _ (List.mem_append_right _ (hpoint hp))) (by decide)

-- RFC 6570

/-- A reading of a template that is copied outside of its expressions, with
the texts of its variables, within the length bounds. -/
structure Reads (template : List Char) (values : List Char → Value) (t : Template)
    (texts : List Char → Option (List Char)) : Prop where
  bracketed : Bracketed t
  text : t.text = template
  copied : ∀ run ∈ t.runs, isCopied run
  scalars : ∀ p ∈ t.pieces, ∀ s ∈ p.2.specs, IsScalar (values s.name)
  supplied : ∀ p ∈ t.pieces, Supplies values texts p.2
  length : template.length ≤ 16384
  fits : (t.expand texts).length ≤ 65536

/-- What RFC 6570 asks for: its templates are accepted and no others, and the
expansion is the RFC's. -/
structure FollowsRfc (template : List Char) (values : List Char → Value) : Prop where
  grammar : (∃ found, template_expressions template = .ok found) ↔ ∃ t : Template, t.WellFormed ∧ t.text = template
  lexical : ∀ name, IsScalar (values name) → ∃ text, scalar_text (values name) = .ok text ∧ Lexical (values name) text
  expansion : ∀ (t : Template) (texts : List Char → Option (List Char)), Reads template values t texts →
    expand_template template values = .ok (t.expand texts)

/-- A reserved or fragment expression is given no string with an encoded
triplet in the part that it expands. -/
def StringsUntripled (values : List Char → Value) (t : Template) : Prop :=
  ∀ p ∈ t.pieces, p.2.operator = .reserved ∨ p.2.operator = .fragment → ∀ s ∈ p.2.specs, ∀ text : String,
    values s.name = .string text → ¬HasTriplet (s.modifier.part text.toList)

theorem allow_iff (operator : Operator) : operator.rule.allow ↔ operator = .reserved ∨ operator = .fragment := by
  cases operator <;> simp [Operator.rule]

theorem untripled_strings {template : List Char} (h : Reads template values t texts) :
    Untripled texts t ↔ StringsUntripled values t := by
  constructor
  · intro hu p hp ha s hs text hv
    refine hu p hp ((allow_iff _).mpr ha) s hs _ ?_
    have hsupplied := h.supplied p hp s hs
    rw [hv] at hsupplied
    exact (Except.ok.inj hsupplied).symm
  · intro hu p hp ha s hs value hv ht
    obtain ⟨text, htext, hlex⟩ := scalar_text_lexical (h.scalars p hp s hs)
    rw [h.supplied p hp s hs] at htext
    obtain rfl := Except.ok.inj htext
    rw [hv] at hlex
    obtain ⟨str, hstr, rfl⟩ := string_of_percent hlex (mem_part (percent_of_triplet ht))
    exact hu p hp ((allow_iff _).mp ha) s hs str hstr ht

theorem expand_reads {template : List Char} (h : Reads template values t texts) :
    expand_template template values = .ok (t.expand texts) ↔ StringsUntripled values t := by
  rw [← untripled_strings h, ← h.text]
  exact expand_exact h.bracketed h.copied h.supplied (h.text ▸ h.length) h.fits

theorem expansion_follows (template : List Char) (values : List Char → Value) :
    FollowsRfc template values ↔
      (∀ t : Template, Bracketed t → t.text = template → ∀ run ∈ t.runs, isLiterals run) ∧
      ∀ (t : Template) (texts : List Char → Option (List Char)), Reads template values t texts →
        StringsUntripled values t := by
  constructor
  · rintro ⟨hgrammar, -, hexpansion⟩
    refine ⟨?_, fun t texts h => (expand_reads h).mp (hexpansion t texts h)⟩
    rintro t ht rfl
    obtain ⟨t', ht', htext⟩ := hgrammar.mp ⟨_, template_expressions_ok.mpr ⟨t, ht, rfl, rfl, rfl⟩⟩
    rw [runs_unique ht (bracketed_of_wellFormed ht') htext.symm]
    exact ht'.2
  · rintro ⟨hliterals, huntripled⟩
    refine ⟨⟨?_, ?_⟩, fun name => scalar_text_lexical, fun t texts h => (expand_reads h).mpr (huntripled t texts h)⟩
    · rintro ⟨⟨founds, tail⟩, hfound⟩
      obtain ⟨t, ht, htext, -, -⟩ := template_expressions_ok.mp hfound
      exact ⟨t, ⟨ht.1, hliterals t ht htext⟩, htext⟩
    · rintro ⟨t, ht, htext⟩
      exact ⟨_, template_expressions_ok.mpr ⟨t, bracketed_of_wellFormed ht, htext, rfl, rfl⟩⟩

/-- `{+p}` with `%20`, and a template of one blank. -/
theorem expansion_diverges :
    ¬FollowsRfc "{+p}".toList (fun _ => .string "%20") ∧ ¬FollowsRfc " ".toList fun _ => .null := by
  constructor
  · intro h
    let e : Expression := ⟨.reserved, [⟨['p'], .whole⟩]⟩
    have he : e.WellFormed := by
      refine ⟨List.cons_ne_nil _ _, fun s hs => ?_⟩
      rw [List.mem_singleton.mp hs]
      exact ⟨⟨['p'], [], .word (by decide), .nil, rfl⟩, trivial⟩
    have hreads : Reads "{+p}".toList (fun _ => .string "%20") ⟨[([], e)], []⟩ fun _ => some "%20".toList :=
      ⟨⟨fun p hp => List.mem_singleton.mp hp ▸ he, by decide⟩, rfl, by decide, fun _ _ _ _ => trivial,
        fun _ _ _ _ => rfl, by decide, by decide⟩
    exact (expand_reads hreads).mp (h.expansion _ _ hreads) ([], e) (by simp) (.inl rfl) ⟨['p'], .whole⟩
      (List.mem_singleton.mpr rfl) "%20" rfl ⟨[], '2', '0', [], rfl, rfl, rfl⟩
  · intro h
    have hblank : Bracketed ⟨[], [' ']⟩ := ⟨by simp, by decide⟩
    obtain ⟨t, ht, htext⟩ := h.grammar.mp ⟨_, template_expressions_ok.mpr ⟨_, hblank, rfl, rfl, rfl⟩⟩
    have hruns := runs_unique (bracketed_of_wellFormed ht) hblank htext
    exact absurd (ht.2 [' '] (by rw [hruns]; exact List.mem_singleton.mpr rfl)) (by decide)

end WotAv.Tools
