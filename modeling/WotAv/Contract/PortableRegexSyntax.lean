import WotAv.Contract.PortableRegexSearch
import WotAv.Lib.Utf8

/-!
# What the parser accepts

Every piece of text that the parser takes is derived by the ECMAScript grammar,
and the parsed piece stands for the same relation; only a lead surrogate in
braces before a trail surrogate escape is read in another way.
-/

namespace WotAv.Contract

open WotAv.Lib
open WotAv.Lib.RegExp

-- Lead surrogates in braces

/-- The text begins with a lead surrogate in braces and a trail surrogate
escape. -/
def bracedPairAt (text : List Char) : Bool :=
  match text with
  | '\\' :: 'u' :: '{' :: text =>
    match text.dropWhile isHexDigit with
    | '}' :: rest => decide (isLead (hexValue (text.takeWhile isHexDigit))) && (trailEscape rest).isSome
    | _ => false
  | _ => false

def hasBracedPair (text : List Char) : Bool := text.tails.any bracedPairAt

theorem no_bracedPair {text s : List Char} (h : hasBracedPair text = false) (hs : s <:+ text) :
    bracedPairAt s = false := by
  simp only [hasBracedPair, List.any_eq_false, List.mem_tails] at h
  simpa using h s hs

theorem hasBracedPair_suffix {text s : List Char} (h : hasBracedPair text = false) (hs : s <:+ text) :
    hasBracedPair s = false := by
  simp only [hasBracedPair, List.any_eq_false, List.mem_tails] at h ⊢
  exact fun t ht => h t (ht.trans hs)

variable {text : List Char}

theorem hasBracedPair_tail {c : Char} (h : hasBracedPair (c :: text) = false) :
    hasBracedPair text = false := hasBracedPair_suffix h (List.suffix_cons c text)

-- Predicates

theorem le_iff_toNat {a b : Char} : a ≤ b ↔ a.toNat ≤ b.toNat := Iff.rfl

theorem eq_iff_toNat {a b : Char} : a = b ↔ a.toNat = b.toNat := Char.toNat_inj.symm

@[simp] theorem accepts_literal (a c : Char) : accepts (.literal a) c = (c.toNat == a.toNat) := by
  rw [Bool.eq_iff_iff]
  simp [accepts, eq_iff_toNat]

@[simp] theorem accepts_range (a b c : Char) :
    accepts (.range a b) c = (decide (a.toNat ≤ c.toNat) && decide (c.toNat ≤ b.toNat)) := by
  simp [accepts, le_iff_toNat]

@[simp] theorem accepts_digit (c : Char) : accepts .digit c = isDigit c.toNat := by
  simp [accepts, le_iff_toNat, isDigit]

@[simp] theorem accepts_dot (c : Char) : accepts .dot c = !isLineTerminator c.toNat := by
  rw [Bool.eq_iff_iff]
  simp [accepts, isLineTerminator, eq_iff_toNat, and_assoc]

def wordCharacters : List Char := "_0123456789abcdefghijklmnopqrstuvwxyzABCDEFGHIJKLMNOPQRSTUVWXYZ".toList

@[simp] theorem accepts_word (c : Char) : accepts .word c = isWord c.toNat := by
  have hlist : ∀ c ∈ wordCharacters, isWord c.toNat = true := by decide
  have hall : ∀ n < 128, isWord n = true → Char.ofNat n ∈ wordCharacters := by decide
  rw [Bool.eq_iff_iff]
  simp only [accepts, List.contains_iff_mem]
  constructor
  · exact hlist c
  · intro h
    have hlt : c.toNat < 128 := by
      simp [isWord, isDigit] at h
      omega
    have := hall c.toNat hlt h
    rwa [Char.ofNat_toNat] at this

@[simp] theorem accepts_not (p : Predicate) (c : Char) : accepts (.not p) c = !accepts p c := by simp [accepts]

-- Escapes

theorem hexMatch_iff {low high : ℕ} {digits : List Char} :
    hexMatch low high digits = true ↔ low ≤ digits.length ∧ digits.length ≤ high ∧ ∀ c ∈ digits, isHexDigit c = true := by
  simp [hexMatch, and_assoc]

theorem hex4_of_match (h : hexMatch 4 4 (text.take 4) = true) :
    hex4 text = some (hexValue (text.take 4), text.drop 4) := by
  obtain ⟨hlen, -, hall⟩ := hexMatch_iff.mp h
  match text, hlen, hall with
  | a :: b :: c :: d :: rest, _, hall =>
    have hall' : [a, b, c, d].all isHexDigit = true := List.all_eq_true.mpr hall
    simp [hex4, hall']

variable {text rest : List Char}

theorem match_of_hex4 {v : ℕ} (h : hex4 text = some (v, rest)) :
    hexMatch 4 4 (text.take 4) = true ∧ v = hexValue (text.take 4) ∧ rest = text.drop 4 := by
  simp only [hex4] at h
  split at h
  · split at h
    · rename_i hall
      obtain ⟨rfl, rfl⟩ := Prod.mk.inj (Option.some.inj h)
      exact ⟨hexMatch_iff.mpr ⟨le_rfl, le_rfl, List.all_eq_true.mp hall⟩, rfl, rfl⟩
    · cases h
  · cases h

theorem hex4_none (h : hex4 text = none) : hexMatch 4 4 (text.take 4) = false := by
  by_contra hm
  rw [hex4_of_match (by simpa using hm)] at h
  cases h

theorem trailEscape_none (h : text.take 2 ≠ ['\\', 'u']) : trailEscape text = none := by
  simp only [trailEscape]
  split
  · exact absurd rfl h
  · rfl

theorem pairCodePoint_eq {lead trail : ℕ} (h : isTrail trail) :
    0x10000 + (lead - 0xD800) * 1024 + trail - 0xDC00 = pairCodePoint lead trail := Nat.add_sub_assoc h.1 _

theorem joinTrail_eq (scalar : ℕ) (text : List Char) :
    joinTrail scalar text = match (if isLead scalar then trailEscape text else none) with
      | some (trail, rest) => (pairCodePoint scalar trail, rest)
      | none => (scalar, text) := by
  by_cases hlead : isLead scalar
  · by_cases htake : text.take 2 = ['\\', 'u']
    · have htext : text = '\\' :: 'u' :: text.drop 2 := by
        conv_lhs => rw [← List.take_append_drop 2 text, htake]
        rfl
      have hescape : trailEscape text = (hex4 (text.drop 2)).filter fun p => isTrail p.1 := by
        conv_lhs => rw [htext]
        rfl
      obtain ⟨hlow, hhigh⟩ := hlead
      simp only [joinTrail, hlow, hhigh, htake, hescape, isLead]
      cases h4 : hex4 (text.drop 2) with
      | none => simp [hex4_none h4]
      | some p =>
        obtain ⟨hm, hv, hr⟩ := match_of_hex4 (show hex4 (text.drop 2) = some (p.1, p.2) from h4)
        by_cases ht : isTrail p.1
        · have hdrop : text.drop 6 = p.2 := by rw [hr, List.drop_drop]
          simp only [Option.filter, ht, hm, ← hv, ht.1, ht.2, hdrop, pairCodePoint_eq ht, and_self, if_true, decide_true]
        · have ht' : ¬ (0xDC00 ≤ p.1 ∧ p.1 ≤ 0xDFFF) := ht
          simp [Option.filter, ht, hm, ← hv, ht']
    · simp [joinTrail, htake, hlead, trailEscape_none htake]
  · have hlead' : ¬ (0xD800 ≤ scalar ∧ scalar ≤ 0xDBFF) := hlead
    rw [if_neg hlead, joinTrail, if_neg fun h => hlead' ⟨h.1, h.2.1⟩]

theorem brace_not_hex : isHexDigit '}' = false := by decide

theorem unicodeDigits_ok {text digits rest : List Char} (h : unicodeDigits text = .ok (digits, rest)) :
    (∃ s, text = '{' :: s ∧ digits = s.takeWhile isHexDigit ∧ digits ≠ [] ∧ s.dropWhile isHexDigit = '}' :: rest) ∨
      hex4 text = some (hexValue digits, rest) := by
  simp only [unicodeDigits] at h
  split at h
  · rename_i s
    split at h
    · cases h
    · rename_i c after hdrop
      split at h
      · rename_i hm
        obtain ⟨rfl, rfl⟩ := Prod.mk.inj (Except.ok.inj h)
        obtain ⟨hlen, -, hall⟩ := hexMatch_iff.mp hm
        have hc : c = '}' := by
          have := List.head_dropWhile_not (p := fun x : Char => decide (x ≠ '}')) (l := s) (hdrop ▸ List.cons_ne_nil _ _)
          simpa only [hdrop, List.head_cons, decide_eq_false_iff_not, not_not] using this
        subst hc
        have hs : s = s.takeWhile (fun x => decide (x ≠ '}')) ++ '}' :: after := by
          rw [← hdrop, List.takeWhile_append_dropWhile]
        refine .inl ⟨s, rfl, ?_, ?_, ?_⟩
        · conv_rhs => rw [hs]
          rw [List.takeWhile_append_of_pos hall]
          simp [brace_not_hex]
        · intro hnil
          rw [hnil] at hlen
          cases hlen
        · conv_lhs => rw [hs]
          rw [List.dropWhile_append_of_pos hall]
          simp [brace_not_hex]
      · cases h
  · split at h
    · rename_i hm
      obtain ⟨rfl, rfl⟩ := Prod.mk.inj (Except.ok.inj h)
      exact .inr (hex4_of_match hm)
    · cases h

theorem suffix_of_hex4 {v : ℕ} (h : hex4 text = some (v, rest)) : rest <:+ text := by
  obtain ⟨-, -, rfl⟩ := match_of_hex4 h
  exact List.drop_suffix 4 text

theorem suffix_of_trailEscape {v : ℕ} (h : trailEscape text = some (v, rest)) :
    rest <:+ text := by
  simp only [trailEscape] at h
  split at h
  · obtain ⟨h4, -⟩ := Option.filter_eq_some_iff.mp h
    exact (suffix_of_hex4 h4).trans ((List.suffix_cons ..).trans (List.suffix_cons ..))
  · cases h

theorem toNat_ofNat {n : ℕ} (h : ¬ (n > 0x10FFFF ∨ 0xD800 ≤ n ∧ n ≤ 0xDFFF)) : (Char.ofNat n).toNat = n := by
  have hv : n.isValidChar := by
    simp only [Nat.isValidChar]
    omega
  rw [Char.ofNat, dif_pos hv]
  rfl

variable {p : Predicate}

theorem unicodeEscape_ok (h : unicodeEscape text = .ok (p, rest)) :
    rest <:+ text ∧ (bracedPairAt ('\\' :: 'u' :: text) = false →
      ∃ c, p = .literal c ∧ CharacterEscape ('u' :: text) c.toNat rest) := by
  obtain ⟨⟨digits, after⟩, hd, h⟩ := except_bind_ok h
  simp only at h
  split at h
  · cases h
  · rename_i hscalar
    obtain ⟨rfl, rfl⟩ := Prod.mk.inj (Except.ok.inj h)
    have hsuffix : after <:+ text := by
      rcases unicodeDigits_ok hd with ⟨s, rfl, -, -, hdrop⟩ | h4
      · exact ((List.suffix_cons ..).trans (hdrop ▸ List.dropWhile_suffix _)).trans (List.suffix_cons ..)
      · exact suffix_of_hex4 h4
    rw [joinTrail_eq] at hscalar ⊢
    by_cases hpair : isLead (hexValue digits) ∧ (trailEscape after).isSome
    · obtain ⟨hlead, hsome⟩ := hpair
      obtain ⟨⟨trail, rest⟩, ht⟩ := Option.isSome_iff_exists.mp hsome
      simp only [hlead, ht, if_true] at hscalar ⊢
      refine ⟨(suffix_of_trailEscape ht).trans hsuffix, fun hsafe => ?_⟩
      rcases unicodeDigits_ok hd with ⟨s, rfl, rfl, -, hdrop⟩ | h4
      · simp [bracedPairAt, hdrop, hlead, ht] at hsafe
      · refine ⟨_, rfl, ?_⟩
        rw [toNat_ofNat hscalar]
        exact .pair h4 hlead ht
    · have hnone : (if isLead (hexValue digits) then trailEscape after else none) = none := by
        by_cases hl : isLead (hexValue digits)
        · simpa [hl] using fun ht => hpair ⟨hl, ht⟩
        · simp [hl]
      simp only [hnone] at hscalar ⊢
      refine ⟨hsuffix, fun _ => ⟨_, rfl, ?_⟩⟩
      rw [toNat_ofNat hscalar]
      rcases unicodeDigits_ok hd with ⟨s, rfl, rfl, hne, hdrop⟩ | h4
      · exact .codePoint hne (by omega) hdrop
      · exact .unit h4 hpair

/-- The predicate holds of the characters whose code points `has` holds of. -/
def Means (has : ℕ → Bool) (p : Predicate) : Prop := ∀ c, has (Char.toNat c) = accepts p c

theorem controlEscape_ok {char c : Char} {rest : List Char} (h : controlEscape char = some c) :
    CharacterEscape (char :: rest) c.toNat rest := by
  simp only [controlEscape] at h
  split at h <;> cases h <;> exact .control (by decide)

theorem predicateEscape_ok {char : Char} (h : predicateEscape char = some p) :
    ∃ e, classEscape char = some e ∧ Means e.has p ∧ ∀ c, p ≠ .literal c := by
  simp only [predicateEscape] at h
  split at h <;> cases h <;> refine ⟨_, rfl, fun c => ?_, nofun⟩ <;> simp [ClassEscape.has]

theorem escapable_ok {char : Char} {rest : List Char} (h : char ∈ escapable) (hd : char ≠ '-') :
    CharacterEscape (char :: rest) char.toNat rest := by
  have hall : ∀ c ∈ escapable, c ≠ '-' → c ∈ syntaxCharacters ∨ c = '/' := by decide
  exact .identity (hall char h hd)

variable {s r : List Char}

theorem escape_ok {inClass : Bool} (h : escape inClass s = .ok (p, r)) :
    ∃ char rest, s = char :: rest ∧ r <:+ rest ∧ (bracedPairAt ('\\' :: s) = false →
      (∃ c, p = .literal c ∧ CharacterEscape s c.toNat r) ∨
        (∃ e, rest = r ∧ classEscape char = some e ∧ Means e.has p ∧ ∀ c, p ≠ .literal c) ∨
        (inClass = true ∧ s = '-' :: r ∧ p = .literal '-')) := by
  simp only [escape] at h
  split at h
  · cases h
  · rename_i char rest
    refine ⟨char, rest, rfl, ?_⟩
    split at h
    · cases h
    rename_i hhyphen
    split at h
    · rename_i hescapable
      obtain ⟨rfl, rfl⟩ := Prod.mk.inj (Except.ok.inj h)
      refine ⟨List.suffix_refl _, fun _ => ?_⟩
      by_cases hd : char = '-'
      · subst hd
        exact .inr (.inr ⟨by simpa using hhyphen, rfl, rfl⟩)
      · exact .inl ⟨char, rfl, escapable_ok hescapable hd⟩
    split at h
    · rename_i c hc
      obtain ⟨rfl, rfl⟩ := Prod.mk.inj (Except.ok.inj h)
      exact ⟨List.suffix_refl _, fun _ => .inl ⟨c, rfl, controlEscape_ok hc⟩⟩
    split at h
    · rename_i q hq
      obtain ⟨rfl, rfl⟩ := Prod.mk.inj (Except.ok.inj h)
      obtain ⟨e, he, hm, hn⟩ := predicateEscape_ok hq
      exact ⟨List.suffix_refl _, fun _ => .inr (.inl ⟨e, rfl, he, hm, hn⟩)⟩
    split at h
    · rename_i hu
      subst hu
      obtain ⟨hs, hu⟩ := unicodeEscape_ok h
      exact ⟨hs, fun hsafe => .inl (hu hsafe)⟩
    · split at h <;> cases h

-- Classes

theorem classAtom_ok (h : classAtom s = .ok (p, r)) :
    ∃ char rest, s = char :: rest ∧ r <:+ rest ∧ (hasBracedPair s = false → char ≠ ']' →
      ∃ a, (∀ b, (b = true ∨ char ≠ '-') → LeadingAtom b s a r) ∧ Means (ClassItem.atom a).has p ∧
        ∀ c, p = .literal c → a = .char c.toNat) := by
  simp only [classAtom] at h
  split at h
  · cases h
  · rename_i char rest
    refine ⟨char, rest, rfl, ?_⟩
    split at h
    · rename_i hslash
      subst hslash
      obtain ⟨char', rest', rfl, hr, he⟩ := escape_ok h
      refine ⟨hr.trans (List.suffix_cons _ _), fun hsafe _ => ?_⟩
      rcases he (no_bracedPair hsafe (List.suffix_refl _)) with ⟨c, rfl, hc⟩ | ⟨e, rfl, he, hm, hn⟩ | ⟨-, hs, rfl⟩
      · refine ⟨.char c.toNat, fun b _ => .noDash (.escape hc), fun x => ?_, fun c' hc' => ?_⟩
        · simp [ClassItem.has]
        · rw [Predicate.literal.inj hc']
      · refine ⟨.escape e, fun b _ => .noDash (.set he), hm, fun c hc => absurd hc (hn c)⟩
      · obtain ⟨rfl, rfl⟩ := List.cons.inj hs
        refine ⟨.char '-'.toNat, fun b _ => .noDash .dash, fun x => ?_, fun c' hc' => ?_⟩
        · simp [ClassItem.has]
        · rw [Predicate.literal.inj hc']
    · rename_i hslash
      obtain ⟨rfl, rfl⟩ := Prod.mk.inj (Except.ok.inj h)
      refine ⟨List.suffix_refl _, fun _ hclose => ⟨.char char.toNat, fun b hb => ?_, fun x => ?_, fun c' hc' => ?_⟩⟩
      · by_cases hd : char = '-'
        · subst hd
          obtain rfl := hb.resolve_right (· rfl)
          exact .dash
        · exact .noDash (.char hslash hclose hd)
      · simp [ClassItem.has]
      · rw [Predicate.literal.inj hc']

theorem classRange_ok {left p : Predicate} (h : classRange left s = .ok (p, r)) :
    (p = left ∧ r = s ∧ (s.head? = some '-' → s = ['-'] ∨ ∃ t, s = '-' :: ']' :: t)) ∨
      ∃ char rest lo hi, s = '-' :: char :: rest ∧ char ≠ ']' ∧ left = .literal lo ∧
        classAtom (char :: rest) = .ok (.literal hi, r) ∧ lo ≤ hi ∧ p = .range lo hi := by
  simp only [classRange] at h
  split at h
  · rename_i next rest
    split at h
    · rename_i hnext
      obtain ⟨rfl, rfl⟩ := Prod.mk.inj (Except.ok.inj h)
      exact .inl ⟨rfl, rfl, fun _ => .inr ⟨rest, by rw [hnext]⟩⟩
    · rename_i hnext
      obtain ⟨⟨right, after⟩, ha, h⟩ := except_bind_ok h
      simp only at h
      split at h
      · rename_i lo hi _
        split at h
        · cases h
        · rename_i hle
          obtain ⟨rfl, rfl⟩ := Prod.mk.inj (Except.ok.inj h)
          exact .inr ⟨next, rest, lo, hi, rfl, hnext, rfl, ha, Char.not_lt.mp hle, rfl⟩
      · cases h
  · rename_i hno
    obtain ⟨rfl, rfl⟩ := Prod.mk.inj (Except.ok.inj h)
    refine .inl ⟨rfl, rfl, fun hd => ?_⟩
    obtain ⟨t, rfl⟩ := List.head?_eq_some_iff.mp hd
    cases t with
    | nil => exact .inl rfl
    | cons next rest => exact absurd rfl (hno next rest)

theorem classAtom_suffix (h : classAtom s = .ok (p, r)) :
    r <:+ s ∧ r.length < s.length := by
  obtain ⟨char, rest, rfl, hr, -⟩ := classAtom_ok h
  exact ⟨hr.trans (List.suffix_cons _ _), Nat.lt_succ_of_le hr.length_le⟩

theorem classRange_suffix {left p : Predicate} (h : classRange left s = .ok (p, r)) : r <:+ s := by
  rcases classRange_ok h with ⟨-, rfl, -⟩ | ⟨char, rest, lo, hi, rfl, -, -, ha, -⟩
  · exact List.suffix_refl _
  · exact (classAtom_suffix ha).1.trans (List.suffix_cons _ _)

def MeansAll (items : List ClassItem) (ps : List Predicate) : Prop :=
  ∀ c : Char, (items.any fun i => i.has c.toNat) = acceptsAny ps c

theorem MeansAll.cons {i : ClassItem} {items : List ClassItem} {ps : List Predicate}
    (h : Means i.has p) (hs : MeansAll items ps) : MeansAll (i :: items) (p :: ps) := by
  intro c
  rw [List.any_cons, acceptsAny, h c, hs c]

theorem classItems_ok : ∀ (fuel : ℕ) {s r : List Char} {ps : List Predicate}, classItems fuel s = .ok (ps, r) →
    r <:+ s ∧ ∀ t, r = ']' :: t → hasBracedPair s = false → ∀ b,
      (b = false → s.head? = some '-' → s = ['-'] ∨ ∃ t, s = '-' :: ']' :: t) →
        (ps = [] ∧ s = r) ∨ ∃ items, ClassRanges b s items r ∧ MeansAll items ps
  | 0, s, r, ps, h => nomatch h
  | fuel + 1, s, r, ps, h => by
    simp only [classItems] at h
    split at h
    · obtain ⟨rfl, rfl⟩ := Prod.mk.inj (Except.ok.inj h)
      exact ⟨List.suffix_refl _, fun t _ _ b _ => .inl ⟨rfl, rfl⟩⟩
    rename_i hopen
    obtain ⟨⟨left, r₁⟩, hleft, h⟩ := except_bind_ok h
    obtain ⟨⟨p, r₂⟩, hrange, h⟩ := except_bind_ok h
    obtain ⟨⟨others, r₃⟩, hothers, h⟩ := except_bind_ok h
    obtain ⟨rfl, rfl⟩ := Prod.mk.inj (Except.ok.inj h)
    obtain ⟨hsuffix, ih⟩ := classItems_ok fuel hothers
    have hs₁ := (classAtom_suffix hleft).1
    have hs₂ := (classRange_suffix hrange).trans hs₁
    refine ⟨hsuffix.trans hs₂, fun t ht hsafe b hb => .inr ?_⟩
    subst ht
    obtain ⟨char, rest, rfl, -, hatom⟩ := classAtom_ok hleft
    obtain ⟨a, hlead, hmeans, hlit⟩ := hatom hsafe fun hclose => hopen (by simp [hclose])
    have ih := ih t rfl (hasBracedPair_suffix hsafe hs₂)
    rcases classRange_ok hrange with ⟨rfl, rfl, hdash⟩ | ⟨char', rest', lo, hi, rfl, hclose, rfl, hright, hle, rfl⟩
    · rcases ih false fun _ => hdash with ⟨rfl, rfl⟩ | ⟨items, hitems, hm⟩
      · exact ⟨_, .last (hlead true (.inl rfl)), MeansAll.cons hmeans fun _ => rfl⟩
      · refine ⟨_, .atom (hlead b ?_) hitems, MeansAll.cons hmeans hm⟩
        cases b with
        | true => exact .inl rfl
        | false =>
          -- A dash here would be the last item.
          refine .inr fun hd => ?_
          subst hd
          obtain ⟨-, rfl⟩ := Prod.mk.inj (Except.ok.inj hleft)
          rcases hb rfl rfl with hs | ⟨t', hs⟩
          · obtain ⟨-, rfl⟩ := List.cons.inj hs
            cases List.suffix_nil.mp hsuffix
          · obtain ⟨-, rfl⟩ := List.cons.inj hs
            exact absurd rfl hitems.head.1
    · have hsafe' := hasBracedPair_suffix hsafe hs₁
      obtain ⟨_, _, hs', -, hatom'⟩ := classAtom_ok hright
      obtain ⟨rfl, rfl⟩ := List.cons.inj hs'
      obtain ⟨a', hlead', -, hlit'⟩ := hatom' (hasBracedPair_tail hsafe') hclose
      obtain rfl := hlit lo rfl
      obtain rfl := hlit' hi rfl
      have hmeans' : Means (ClassItem.range lo.toNat hi.toNat).has (.range lo hi) := fun c => by
        simp [ClassItem.has]
      have hb' : b = true ∨ char ≠ '-' := by
        cases b with
        | true => exact .inl rfl
        | false =>
          refine .inr fun hd => ?_
          subst hd
          obtain ⟨-, rfl⟩ := Prod.mk.inj (Except.ok.inj hleft)
          rcases hb rfl rfl with hs | ⟨t', hs⟩ <;> cases hs
      rcases ih true nofun with ⟨rfl, rfl⟩ | ⟨items, hitems, hm⟩
      · exact ⟨_, .lastRange (hlead b hb') (hlead' true (.inl rfl)) hle, MeansAll.cons hmeans' fun _ => rfl⟩
      · exact ⟨_, .range (hlead b hb') (hlead' true (.inl rfl)) hle hitems, MeansAll.cons hmeans' hm⟩

def Denotes (ends : List ℕ → ℕ → ℕ → Prop) (node : Node) : Prop :=
  ∀ value x y, ends (value.map Char.toNat) x y ↔ node.Ends value x y

theorem denotes_set {has : ℕ → Bool} (h : Means has p) :
    Denotes (fun input x y => (∃ ch, input[x]? = some ch ∧ has ch = true) ∧ y = x + 1) (.char p) := by
  intro value x y
  simp only [Node.Ends, List.getElem?_map, Option.map_eq_some_iff]
  constructor
  · rintro ⟨⟨ch, ⟨c, hc, rfl⟩, hp⟩, rfl⟩
    exact ⟨⟨c, hc, h c ▸ hp⟩, rfl⟩
  · rintro ⟨⟨c, hc, hp⟩, rfl⟩
    exact ⟨⟨_, ⟨c, hc, rfl⟩, (h c).symm ▸ hp⟩, rfl⟩

theorem characterClass_ok {fuel : ℕ} {node : Node} (h : characterClass fuel s = .ok (node, r)) :
    r <:+ s ∧ (hasBracedPair s = false →
      ∃ set, Atom.Derives ('[' :: s) (.set set) r ∧ Denotes (fun input => Atom.Ends input (.set set)) node) ∧
        node.isAnchor = false := by
  obtain ⟨⟨ps, r₁⟩, hitems, h⟩ := except_bind_ok h
  obtain ⟨hsuffix, hok⟩ := classItems_ok fuel hitems
  simp only at h
  split at h
  · rename_i rest
    obtain ⟨rfl, rfl⟩ := Prod.mk.inj (Except.ok.inj h)
    have hstart : (if s.head? = some '^' then s.tail else s) <:+ s := by
      split
      · exact List.tail_suffix s
      · exact List.suffix_refl s
    refine ⟨((List.suffix_cons _ _).trans hsuffix).trans hstart, fun hsafe => ?_, rfl⟩
    obtain ⟨items, hcontents, hm⟩ : ∃ items,
        ClassContents (if s.head? = some '^' then s.tail else s) items (']' :: rest) ∧
          MeansAll items ps := by
      rcases hok rest rfl (hasBracedPair_suffix hsafe hstart) true nofun with ⟨rfl, hs⟩ | ⟨items, hr, hm⟩
      · exact ⟨[], hs ▸ .empty, fun _ => rfl⟩
      · exact ⟨items, .ranges hr, hm⟩
    by_cases hn : s.head? = some '^'
    · obtain ⟨t, rfl⟩ := List.head?_eq_some_iff.mp hn
      refine ⟨.cls true items, .negatedClass (by simpa using hcontents), denotes_set fun c => ?_⟩
      simp [CharacterSet.has, hm c, accepts]
    · refine ⟨.cls false items, .cls hn (by simpa [hn] using hcontents), ?_⟩
      simp only [hn, if_false]
      exact denotes_set fun c => by simp [CharacterSet.has, hm c, accepts]
  · cases h

-- Quantifiers

theorem boundsMatch_ok {text lower rest : List Char} {upper : Option (List Char)}
    (h : boundsMatch text = some (lower, upper, rest)) :
    lower = text.takeWhile Char.isDigit ∧ lower ≠ [] ∧ rest <:+ text ∧
      ((upper = none ∧ text.dropWhile Char.isDigit = '}' :: rest) ∨
        ∃ text', text.dropWhile Char.isDigit = ',' :: text' ∧ upper = some (text'.takeWhile Char.isDigit) ∧
          text'.dropWhile Char.isDigit = '}' :: rest) := by
  simp only [boundsMatch] at h
  split at h
  · cases h
  rename_i hne
  split at h
  · rename_i r hd
    simp only [Option.some.injEq, Prod.mk.injEq] at h
    obtain ⟨rfl, rfl, rfl⟩ := h
    exact ⟨rfl, hne, (List.suffix_cons _ _).trans (hd ▸ List.dropWhile_suffix _), .inl ⟨rfl, hd⟩⟩
  · rename_i text' hd
    split at h
    · rename_i r hd'
      simp only [Option.some.injEq, Prod.mk.injEq] at h
      obtain ⟨rfl, rfl, rfl⟩ := h
      have hs : r <:+ text' := (List.suffix_cons _ _).trans (hd' ▸ List.dropWhile_suffix _)
      have hs' : text' <:+ text := (List.suffix_cons _ _).trans (hd ▸ List.dropWhile_suffix _)
      exact ⟨rfl, hne, hs.trans hs', .inr ⟨text', hd, rfl, hd'⟩⟩
    · cases h
  · cases h

theorem bounds_ok {quantifier : Char} {minimum : ℕ} {maximum : Option ℕ}
    (hq : quantifier ∈ ['*', '+', '?', '{']) (h : bounds quantifier text = .ok (minimum, maximum, rest)) :
    rest <:+ text ∧ Bounds (quantifier :: text) minimum maximum rest ∧ ∀ b, maximum = some b → minimum ≤ b := by
  simp only [bounds] at h
  split at h
  · rename_i hbrace
    subst hbrace
    split at h
    · cases h
    rename_i lower upper rest' hm
    split at h
    · cases h
    split at h
    · cases h
    rename_i hordered
    simp only [Except.ok.injEq, Prod.mk.injEq] at h
    obtain ⟨rfl, rfl, rfl⟩ := h
    obtain ⟨rfl, hne, hs, hform⟩ := boundsMatch_ok hm
    refine ⟨hs, ?_, fun b hb => ?_⟩
    · rcases hform with ⟨rfl, hd⟩ | ⟨text', hd, rfl, hd'⟩
      · exact .exactly hne hd
      · cases ht : text'.takeWhile Char.isDigit with
        | nil =>
          have hclose : text' = '}' :: rest' := by
            rw [← List.takeWhile_append_dropWhile (p := Char.isDigit) (l := text'), ht, hd', List.nil_append]
          exact .atLeast hne (hclose ▸ hd)
        | cons c cs =>
          have hb := Bounds.between hne hd (ht ▸ List.cons_ne_nil c cs) hd'
          rwa [ht] at hb
    · rw [hb] at hordered
      simpa using hordered
  rename_i hbrace
  split at h
  · rename_i hstar
    subst hstar
    simp only [Except.ok.injEq, Prod.mk.injEq] at h
    obtain ⟨rfl, rfl, rfl⟩ := h
    exact ⟨List.suffix_refl _, .star, nofun⟩
  rename_i hstar
  split at h
  · rename_i hplus
    subst hplus
    simp only [Except.ok.injEq, Prod.mk.injEq] at h
    obtain ⟨rfl, rfl, rfl⟩ := h
    exact ⟨List.suffix_refl _, .plus, nofun⟩
  · rename_i hplus
    obtain rfl : quantifier = '?' := by simpa [hbrace, hstar, hplus] using hq
    simp only [Except.ok.injEq, Prod.mk.injEq] at h
    obtain ⟨rfl, rfl, rfl⟩ := h
    exact ⟨List.suffix_refl _, .question, fun b _ => Nat.zero_le b⟩

theorem quantified_ok {maxRepeat : ℕ} {child node : Node}
    (h : quantified maxRepeat child s = .ok (node, r)) :
    r <:+ s ∧ (node = child ∧ r = s ∨ child.isAnchor = false ∧
      ∃ q : Quantifier, q.Derives s r ∧ node = .repetition child q.min q.max) := by
  simp only [quantified] at h
  split at h
  · obtain ⟨rfl, rfl⟩ := Prod.mk.inj (Except.ok.inj h)
    exact ⟨List.suffix_refl _, .inl ⟨rfl, rfl⟩⟩
  rename_i quantifier rest
  split at h
  · rename_i hq
    split at h
    · cases h
    rename_i hanchor
    obtain ⟨⟨minimum, maximum, after⟩, hb, h⟩ := except_bind_ok h
    simp only at h
    split at h
    · cases h
    obtain ⟨rfl, rfl⟩ := Prod.mk.inj (Except.ok.inj h)
    obtain ⟨hs, hbounds, hordered⟩ := bounds_ok hq hb
    have hs' := hs.trans (List.suffix_cons quantifier rest)
    split
    · rename_i hlazy
      obtain ⟨t, rfl⟩ := List.head?_eq_some_iff.mp hlazy
      exact ⟨(List.suffix_cons _ _).trans hs', .inr ⟨by simpa using hanchor, ⟨_, _, _, hordered⟩, .lazy hbounds, rfl⟩⟩
    · exact ⟨hs', .inr ⟨by simpa using hanchor, ⟨_, _, _, hordered⟩, .greedy hbounds, rfl⟩⟩
  · obtain ⟨rfl, rfl⟩ := Prod.mk.inj (Except.ok.inj h)
    exact ⟨List.suffix_refl _, .inl ⟨rfl, rfl⟩⟩

-- Atoms, sequences and alternatives

theorem seqNode_ends (items : List Node) : Node.Ends value (seqNode items) = SeqEnds value items := by
  cases items <;> simp [seqNode, Node.Ends, SeqEnds]

theorem altNode_ends {items : List Node} (h : items ≠ []) : Node.Ends value (altNode items) = AltEnds value items := by
  match items, h with
  | [item], _ => simp [altNode, AltEnds]
  | _ :: _ :: _, _ => simp [altNode, Node.Ends]

@[simp] theorem seqNode_isAnchor (items : List Node) : (seqNode items).isAnchor = false := by
  cases items <;> rfl

def AtomOk (s r : List Char) (node : Node) : Prop :=
  node = .startAnchor ∧ s = '^' :: r ∨ node = .endAnchor ∧ s = '$' :: r ∨
    node.isAnchor = false ∧ ∃ a : Atom, a.Derives s r ∧ Denotes (fun input => a.Ends input) node

def SequenceOk (s r : List Char) (items : List Node) : Prop :=
  ∃ a : Alternative, a.Derives s r ∧
    ∀ value x y, a.Ends (value.map Char.toNat) x y ↔ SeqEnds value items x y

def AlternativeOk (s r : List Char) (items : List Node) : Prop :=
  ∃ d : Disjunction, d.Derives s r ∧
    ∀ value x y, d.Ends (value.map Char.toNat) x y ↔ AltEnds value items x y

theorem term_ok {s r₁ r : List Char} {child node : Node} (ha : AtomOk s r₁ child)
    (hq : node = child ∧ r = r₁ ∨ child.isAnchor = false ∧
      ∃ q : Quantifier, q.Derives r₁ r ∧ node = .repetition child q.min q.max) :
    ∃ t : Term, t.Derives s r ∧ Denotes (fun input => t.Ends input) node := by
  rcases hq with ⟨rfl, rfl⟩ | ⟨hanchor, q, hq, rfl⟩
  · rcases ha with ⟨rfl, rfl⟩ | ⟨rfl, rfl⟩ | ⟨-, a, hd, hm⟩
    · exact ⟨.lineStart, .lineStart, fun value x y => by simp [Term.Ends, Node.Ends]⟩
    · exact ⟨.lineEnd, .lineEnd, fun value x y => by simp [Term.Ends, Node.Ends]⟩
    · exact ⟨.atom a, .atom hd, hm⟩
  · rcases ha with ⟨rfl, -⟩ | ⟨rfl, -⟩ | ⟨-, a, hd, hm⟩
    · cases hanchor
    · cases hanchor
    · refine ⟨.quantified a q, .quantified hd hq, fun value x y => ?_⟩
      have hends : a.Ends (value.map Char.toNat) = child.Ends value :=
        funext fun x => funext fun y => propext (hm value x y)
      have hmax : q.max.map (max q.min) = q.max := by
        cases hb : q.max with
        | none => rfl
        | some b => simp [q.ordered b hb]
      simp [Term.Ends, Node.Ends, hends, hmax]

section
variable {maxRepeat : ℕ}

mutual

theorem atom_ok : ∀ (fuel : ℕ) {s r : List Char} {node : Node}, atom maxRepeat fuel s = .ok (node, r) →
    (∃ char rest, s = char :: rest ∧ r <:+ rest) ∧ (hasBracedPair s = false →
      s.head? ≠ some '|' → s.head? ≠ some ')' → AtomOk s r node)
  | 0, s, r, node, h => by simp [atom] at h
  | fuel + 1, [], r, node, h => by simp [atom] at h
  | fuel + 1, char :: rest, r, node, h => by
    simp only [atom] at h
    split at h
    · rename_i hopen
      subst hopen
      split at h
      · split at h
        · rename_i hcolon
          have hrest : rest = '?' :: ':' :: rest.drop 2 := by
            conv_lhs => rw [← List.take_append_drop 2 rest, hcolon]
            rfl
          obtain ⟨hs, hok⟩ := group_ok fuel h
          have hdrop := List.drop_suffix 2 rest
          refine ⟨⟨_, _, rfl, hs.trans hdrop⟩, fun hsafe _ _ => ?_⟩
          obtain ⟨hanchor, d, hd, hm⟩ := hok (hasBracedPair_suffix (hasBracedPair_tail hsafe) hdrop)
          refine .inr (.inr ⟨hanchor, .group false d, ?_, hm⟩)
          rw [hrest]
          exact .nonCapturing hd
        · cases h
      · obtain ⟨hs, hok⟩ := group_ok fuel h
        refine ⟨⟨_, _, rfl, hs⟩, fun hsafe _ _ => ?_⟩
        obtain ⟨hanchor, d, hd, hm⟩ := hok (hasBracedPair_tail hsafe)
        exact .inr (.inr ⟨hanchor, .group true d, .capturing hd, hm⟩)
    split at h
    · rename_i hopen
      subst hopen
      obtain ⟨hs, hok, hanchor⟩ := characterClass_ok h
      refine ⟨⟨_, _, rfl, hs⟩, fun hsafe _ _ => ?_⟩
      obtain ⟨set, hd, hm⟩ := hok (hasBracedPair_tail hsafe)
      exact .inr (.inr ⟨hanchor, .set set, hd, hm⟩)
    split at h
    · rename_i hslash
      subst hslash
      obtain ⟨⟨p, r₁⟩, he, h⟩ := except_bind_ok h
      obtain ⟨rfl, rfl⟩ := Prod.mk.inj (Except.ok.inj h)
      obtain ⟨c, rest', rfl, hs, hok⟩ := escape_ok he
      refine ⟨⟨_, _, rfl, hs.trans (List.suffix_cons _ _)⟩, fun hsafe _ _ => .inr (.inr ⟨rfl, ?_⟩)⟩
      rcases hok (no_bracedPair hsafe (List.suffix_refl _)) with ⟨x, rfl, hx⟩ | ⟨e, rfl, hc, hm, -⟩ | ⟨hin, -⟩
      · exact ⟨.set (.char x.toNat), .escape hx, denotes_set fun c => by simp [CharacterSet.has]⟩
      · exact ⟨.set (.escape e), .classEscape hc, denotes_set hm⟩
      · cases hin
    rename_i hno
    split at h
    · rename_i hdot
      subst hdot
      obtain ⟨rfl, rfl⟩ := Prod.mk.inj (Except.ok.inj h)
      exact ⟨⟨_, _, rfl, List.suffix_refl _⟩, fun _ _ _ => .inr (.inr ⟨rfl, .set .dot, .dot,
        denotes_set fun c => by simp [CharacterSet.has]⟩)⟩
    split at h
    · rename_i hstart
      subst hstart
      obtain ⟨rfl, rfl⟩ := Prod.mk.inj (Except.ok.inj h)
      exact ⟨⟨_, _, rfl, List.suffix_refl _⟩, fun _ _ _ => .inl ⟨rfl, rfl⟩⟩
    split at h
    · rename_i hend
      subst hend
      obtain ⟨rfl, rfl⟩ := Prod.mk.inj (Except.ok.inj h)
      exact ⟨⟨_, _, rfl, List.suffix_refl _⟩, fun _ _ _ => .inr (.inl ⟨rfl, rfl⟩)⟩
    split at h
    · cases h
    · rename_i hsyntax
      obtain ⟨rfl, rfl⟩ := Prod.mk.inj (Except.ok.inj h)
      refine ⟨⟨_, _, rfl, List.suffix_refl _⟩, fun _ hbar hclose => .inr (.inr ⟨rfl, .set (.char char.toNat),
        .character ?_, denotes_set fun c => by simp [CharacterSet.has]⟩)⟩
      simp_all [syntaxCharacters]

theorem group_ok : ∀ (fuel : ℕ) {s r : List Char} {node : Node}, group maxRepeat fuel s = .ok (node, r) →
    r <:+ s ∧ (hasBracedPair s = false → node.isAnchor = false ∧
      ∃ d : Disjunction, d.Derives s (')' :: r) ∧ Denotes (fun input => d.Ends input) node)
  | 0, s, r, node, h => by simp [group] at h
  | fuel + 1, s, r, node, h => by
    simp only [group] at h
    obtain ⟨⟨items, r₁⟩, ha, h⟩ := except_bind_ok h
    obtain ⟨hs, hne, hanchor, hok⟩ := alternative_ok fuel ha
    simp only at h
    split at h
    · obtain ⟨rfl, rfl⟩ := Prod.mk.inj (Except.ok.inj h)
      refine ⟨(List.suffix_cons _ _).trans hs, fun hsafe => ⟨hanchor, ?_⟩⟩
      obtain ⟨d, hd, hm⟩ := hok hsafe
      exact ⟨d, hd, fun value x y => by rw [altNode_ends hne]; exact hm value x y⟩
    · cases h

theorem sequence_ok : ∀ (fuel : ℕ) {s r : List Char} {items : List Node},
    sequence maxRepeat fuel s = .ok (items, r) → r <:+ s ∧ (hasBracedPair s = false → SequenceOk s r items)
  | 0, s, r, items, h => by simp [sequence] at h
  | fuel + 1, s, r, items, h => by
    simp only [sequence] at h
    split at h
    · obtain ⟨rfl, rfl⟩ := Prod.mk.inj (Except.ok.inj h)
      exact ⟨List.suffix_refl _, fun _ => ⟨.empty, .empty, fun value x y => by simp [Alternative.Ends, SeqEnds]⟩⟩
    rename_i hopen
    obtain ⟨⟨child, r₁⟩, hatom, h⟩ := except_bind_ok h
    obtain ⟨⟨node, r₂⟩, hquantified, h⟩ := except_bind_ok h
    obtain ⟨⟨others, r₃⟩, hothers, h⟩ := except_bind_ok h
    obtain ⟨rfl, rfl⟩ := Prod.mk.inj (Except.ok.inj h)
    obtain ⟨⟨c, rest, rfl, hs⟩, hatom⟩ := atom_ok fuel hatom
    obtain ⟨hs₂, hterm⟩ := quantified_ok hquantified
    obtain ⟨hs₃, hrest⟩ := sequence_ok fuel hothers
    have hsuffix := (hs₂.trans hs).trans (List.suffix_cons c rest)
    refine ⟨hs₃.trans hsuffix, fun hsafe => ?_⟩
    obtain ⟨t, hd, hm⟩ := term_ok (hatom hsafe (hopen <| .inr <| .inl ·) (hopen <| .inr <| .inr ·)) hterm
    obtain ⟨a, ha, hma⟩ := hrest (hasBracedPair_suffix hsafe hsuffix)
    exact ⟨.term t a, .term hd ha, fun value x y => by simp only [Alternative.Ends, SeqEnds, hm value, hma]⟩

theorem alternative_ok : ∀ (fuel : ℕ) {s r : List Char} {items : List Node},
    alternative maxRepeat fuel s = .ok (items, r) →
      r <:+ s ∧ items ≠ [] ∧ (altNode items).isAnchor = false ∧ (hasBracedPair s = false → AlternativeOk s r items)
  | 0, s, r, items, h => by simp [alternative] at h
  | fuel + 1, s, r, items, h => by
    simp only [alternative] at h
    obtain ⟨⟨first, r₁⟩, hfirst, h⟩ := except_bind_ok h
    obtain ⟨hs₁, hsequence⟩ := sequence_ok fuel hfirst
    simp only at h
    split at h
    · obtain ⟨⟨others, r₂⟩, hothers, h⟩ := except_bind_ok h
      obtain ⟨rfl, rfl⟩ := Prod.mk.inj (Except.ok.inj h)
      obtain ⟨hs₂, hne, -, hrest⟩ := alternative_ok fuel hothers
      have hsuffix := (List.suffix_cons _ _).trans hs₁
      refine ⟨hs₂.trans hsuffix, List.cons_ne_nil _ _, ?_, fun hsafe => ?_⟩
      · cases others with
        | nil => exact absurd rfl hne
        | cons => rfl
      · obtain ⟨a, ha, hma⟩ := hsequence hsafe
        obtain ⟨d, hd, hmd⟩ := hrest (hasBracedPair_suffix hsafe hsuffix)
        exact ⟨.more a d, .more ha hd, fun value x y => by simp only [Disjunction.Ends, AltEnds, seqNode_ends, hma, hmd]⟩
    · obtain ⟨rfl, rfl⟩ := Prod.mk.inj (Except.ok.inj h)
      refine ⟨hs₁, List.cons_ne_nil _ _, by simp [altNode], fun hsafe => ?_⟩
      obtain ⟨a, ha, hma⟩ := hsequence hsafe
      exact ⟨.one a, .one ha, fun value x y => by simp only [Disjunction.Ends, AltEnds, seqNode_ends, hma, or_false]⟩

end

end

end WotAv.Contract
