import Mathlib.Tactic.IntervalCases
import WotAv.Lib.Throwing
import WotAv.Tools.JsonTokens

/-!
# Reading what was written

The text that `json_bytes` writes for a value has the value's tokens, and these
are read as the value, but for a decimal whose exponent is zero: it is written
without a point, and read as an integer.
-/

namespace WotAv.Tools

open WotAv.Lib
open Json (isSpace readChar hexDigit codeUnit)

-- Numerals

/-- Digits as the whole part of a numeral has them. -/
def IsWhole (digits : List Char) : Prop :=
  digits ≠ [] ∧ (∀ c ∈ digits, c.isDigit) ∧ (1 < digits.length → digits.head? ≠ some '0')

def pointed (fraction : List Char) : List Char := if fraction = [] then [] else '.' :: fraction

def exponentChars (e : ℤ) : List Char :=
  if e = 0 then [] else 'E' :: (if e < 0 then '-' else '+') :: Nat.toDigits 10 e.natAbs

theorem someDigits_append {digits rest : List Char} (hne : digits ≠ []) (hd : ∀ c ∈ digits, c.isDigit)
    (hr : ∀ c ∈ rest.head?, c.isDigit = false) : someDigits (digits ++ rest) = some (digits, rest) := by
  have hstop : rest.takeWhile Char.isDigit = [] ∧ rest.dropWhile Char.isDigit = rest := by
    cases rest with
    | nil => exact ⟨rfl, rfl⟩
    | cons c rest => simp [hr c rfl]
  unfold someDigits
  rw [List.takeWhile_append_of_pos hd, List.dropWhile_append_of_pos hd, hstop.1, hstop.2, List.append_nil, if_neg hne]

theorem readExponent_exponentChars (e : ℤ) : readExponent? (exponentChars e) = some (e, []) := by
  have hdigits : ∀ n : ℕ, someDigits (Nat.toDigits 10 n) = some (Nat.toDigits 10 n, []) := fun n => by
    have hall : someDigits (Nat.toDigits 10 n ++ []) = some (Nat.toDigits 10 n, []) :=
      someDigits_append Nat.toDigits_ne_nil (toDigits_isDigit n) (by simp)
    rwa [List.append_nil] at hall
  unfold exponentChars
  split
  · rename_i h
    rw [h]
    rfl
  · split
    · simp only [readExponent?, readSigned, hdigits, Option.map_some, Nat.ofDigitChars_ten_toDigits]
      congr 2
      omega
    · simp only [readExponent?, readSigned, hdigits, Option.map_some, Nat.ofDigitChars_ten_toDigits]
      congr 2
      omega

theorem exponentChars_head (e : ℤ) : ∀ c ∈ (exponentChars e).head?, c.isDigit = false ∧ c ≠ '.' := by
  unfold exponentChars
  split <;> simp

theorem pointed_head (fraction : List Char) (e : ℤ) :
    ∀ c ∈ (pointed fraction ++ exponentChars e).head?, c.isDigit = false := by
  intro c hc
  unfold pointed at hc
  split at hc
  · exact (exponentChars_head e c hc).1
  · cases hc
    rfl

theorem readFraction_pointed {fraction : List Char} (hf : ∀ c ∈ fraction, c.isDigit) (e : ℤ) :
    readFraction (pointed fraction ++ exponentChars e) = some (fraction, exponentChars e) := by
  unfold pointed
  split
  · rename_i h
    rw [List.nil_append, h]
    have hhead := exponentChars_head e
    revert hhead
    cases exponentChars e with
    | nil => exact fun _ => rfl
    | cons c cs =>
      intro hhead
      rw [readFraction]
      rintro cs' heq
      exact (hhead c rfl).2 (List.cons.inj heq).1
  · rename_i h
    exact someDigits_append h hf fun c hc => (exponentChars_head e c hc).1

theorem unsignedNumeral_parts {whole fraction : List Char} (hw : IsWhole whole) (hf : ∀ c ∈ fraction, c.isDigit) (e : ℤ)
    (negative : Bool) : unsignedNumeral negative (whole ++ (pointed fraction ++ exponentChars e)) =
      some ⟨negative, whole, fraction, e⟩ := by
  have hlead : ¬(1 < whole.length ∧ whole.head? = some '0') := fun h => hw.2.2 h.1 h.2
  unfold unsignedNumeral
  simp only [someDigits_append hw.1 hw.2.1 (pointed_head fraction e), Option.bind_eq_bind, Option.bind_some, hlead,
    if_false, readFraction_pointed hf e, readExponent_exponentChars, if_true]

theorem numeral_parts {whole fraction : List Char} (hw : IsWhole whole) (hf : ∀ c ∈ fraction, c.isDigit) (e : ℤ)
    (negative : Bool) : numeral ((if negative then ['-'] else []) ++ (whole ++ (pointed fraction ++ exponentChars e))) =
      some ⟨negative, whole, fraction, e⟩ := by
  cases negative with
  | true => exact unsignedNumeral_parts hw hf e true
  | false =>
    rw [if_neg (by simp), List.nil_append]
    obtain ⟨c, cs, hc⟩ := List.exists_cons_of_ne_nil hw.1
    have hdigit := hw.2.1 c (by simp [hc])
    rw [← unsignedNumeral_parts hw hf e false, numeral]
    rintro rest heq
    rw [hc] at heq
    rw [(List.cons.inj heq).1] at hdigit
    contradiction

theorem whole_digits (n : ℕ) : IsWhole (Nat.toDigits 10 n) := by
  refine ⟨Nat.toDigits_ne_nil, toDigits_isDigit n, fun hlen hzero => ?_⟩
  rcases Nat.eq_zero_or_pos n with rfl | hn
  · simp at hlen
  · obtain ⟨d, ds, hd, hne⟩ := toDigits_head hn
    simp [hd] at hzero
    exact hne hzero

theorem whole_take {digits : List Char} (h : IsWhole digits) {k : ℕ} (hk : 0 < k) : IsWhole (digits.take k) := by
  obtain ⟨hne, hd, hz⟩ := h
  obtain ⟨c, cs, rfl⟩ := List.exists_cons_of_ne_nil hne
  obtain ⟨k, rfl⟩ : ∃ n, k = n + 1 := ⟨k - 1, by omega⟩
  refine ⟨by simp, fun d hm => hd d (List.mem_of_mem_take hm), fun hlen => ?_⟩
  rw [List.length_take] at hlen
  exact hz (by omega)

-- Decimals

theorem digits_pos (d : Decimal) : 0 < d.digits.length := List.length_pos_iff.mpr Nat.toDigits_ne_nil

theorem str_parts (d : Decimal) : ∃ (whole fraction : List Char) (e : ℤ), IsWhole whole ∧ (∀ c ∈ fraction, c.isDigit) ∧
    d.str = (if d.negative then ['-'] else []) ++ (whole ++ (pointed fraction ++ exponentChars e)) ∧
    Nat.ofDigitChars 10 (whole ++ fraction) 0 = d.coefficient ∧ e - fraction.length = d.exponent ∧
    (d.exponent = 0 ↔ fraction = [] ∧ e = 0) ∧ whole.length + fraction.length ≤ d.digits.length + 6 ∧
    e.natAbs ≤ d.exponent.natAbs + d.digits.length := by
  have hpos := digits_pos d
  have hwhole : IsWhole d.digits := whole_digits d.coefficient
  have hvalue : Nat.ofDigitChars 10 d.digits 0 = d.coefficient := Nat.ofDigitChars_ten_toDigits
  have hexp : ∀ left dot : ℤ, (if left = dot then []
      else 'E' :: (if left < dot then '-' else '+') :: Nat.toDigits 10 (left - dot).natAbs) = exponentChars (left - dot) := by
    intro left dot
    have hsign : (if left < dot then '-' else '+') = (if left - dot < 0 then '-' else '+') := by
      simp only [sub_neg]
    unfold exponentChars
    rw [hsign]
    simp only [sub_eq_zero]
  have hpoint : ∀ cs : List Char, cs ≠ [] → '.' :: cs = pointed cs := fun cs hcs => (if_neg hcs).symm
  have hsigns : d.signChars = if d.negative then ['-'] else [] := rfl
  unfold Decimal.str
  by_cases hplain : d.exponent ≤ 0 ∧ -6 < d.exponent + d.digits.length
  · simp only [if_pos hplain, if_true]
    by_cases hlow : d.exponent + d.digits.length ≤ 0
    · simp only [if_pos hlow]
      refine ⟨['0'], List.replicate (d.exponent + d.digits.length).natAbs '0' ++ d.digits, 0, ⟨by simp, by simp, by simp⟩,
        ?_, ?_, ?_, ?_, ?_, ?_, by simp⟩
      · intro c hc
        rcases List.mem_append.mp hc with hc | hc
        · rw [List.eq_of_mem_replicate hc]
          rfl
        · exact hwhole.2.1 c hc
      · rw [hpoint _ (by simp [hwhole.1]), hsigns]
        simp [exponentChars]
      · rw [show ['0'] = List.replicate 1 '0' from rfl, FiniteNumber.ofDigitChars_zeros,
          FiniteNumber.ofDigitChars_zeros, hvalue]
      · simp only [List.length_append, List.length_replicate]
        omega
      · simp only [List.append_eq_nil_iff, hwhole.1, and_false, false_and, iff_false]
        omega
      · simp only [List.length_append, List.length_replicate, List.length_cons, List.length_nil]
        omega
    · simp only [if_neg hlow]
      by_cases hzero : (d.digits.length : ℤ) ≤ d.exponent + d.digits.length
      · have he : d.exponent = 0 := by omega
        simp only [if_pos hzero]
        refine ⟨d.digits, [], 0, hwhole, by simp, ?_, by simpa using hvalue, by simp [he], by simp [he], by simp, by simp⟩
        simp [he, pointed, exponentChars, hsigns]
      · simp only [if_neg hzero]
        have hdot : 0 < (d.exponent + d.digits.length).toNat := by omega
        have hlen : (d.digits.drop (d.exponent + d.digits.length).toNat).length = d.exponent.natAbs := by
          rw [List.length_drop]
          omega
        have hne : d.digits.drop (d.exponent + d.digits.length).toNat ≠ [] := by
          rw [← List.length_pos_iff, hlen]
          omega
        refine ⟨d.digits.take (d.exponent + d.digits.length).toNat, d.digits.drop (d.exponent + d.digits.length).toNat, 0,
          whole_take hwhole hdot, fun c hc => hwhole.2.1 c (List.mem_of_mem_drop hc), ?_, ?_, ?_, ?_, ?_, by simp⟩
        · rw [hpoint _ hne, hsigns]
          simp [exponentChars]
        · rw [List.take_append_drop, hvalue]
        · rw [hlen]
          omega
        · simp only [hne, false_and, iff_false]
          omega
        · rw [hlen, List.length_take]
          omega
  · simp only [if_neg hplain, show ¬(1 : ℤ) ≤ 0 by decide, if_false, hexp]
    have he : d.exponent ≠ 0 := by omega
    have hleft : d.exponent + d.digits.length - 1 ≠ 0 := by omega
    by_cases hone : (d.digits.length : ℤ) ≤ 1
    · simp only [if_pos hone]
      refine ⟨d.digits, [], d.exponent + d.digits.length - 1, hwhole, by simp, ?_, by simpa using hvalue, ?_, ?_, by simp, ?_⟩
      · simp [pointed, hsigns]
        omega
      · simp only [List.length_nil]
        omega
      · simp [he, hleft]
      · omega
    · simp only [if_neg hone]
      have hlen : (d.digits.drop (1 : ℤ).toNat).length = d.digits.length - 1 := by
        rw [List.length_drop]
        rfl
      have hne : d.digits.drop (1 : ℤ).toNat ≠ [] := by
        rw [← List.length_pos_iff, hlen]
        omega
      refine ⟨d.digits.take (1 : ℤ).toNat, d.digits.drop (1 : ℤ).toNat, d.exponent + d.digits.length - 1,
        whole_take hwhole (by decide), fun c hc => hwhole.2.1 c (List.mem_of_mem_drop hc), ?_, ?_, ?_, ?_, ?_, ?_⟩
      · rw [hpoint _ hne, hsigns]
        simp
      · rw [List.take_append_drop, hvalue]
      · rw [hlen]
        omega
      · simp [he, hleft]
      · rw [hlen, List.length_take]
        omega
      · omega

-- Numbers

/-- The number that a written number is read as. -/
def Number.reread : Number → Number
  | .integer n => .integer n
  | .decimal d => if d.exponent = 0 then .integer (if d.negative then -(d.coefficient : ℤ) else d.coefficient) else .decimal d

theorem isFractional_append (a b : List Char) : isFractional (a ++ b) = (isFractional a || isFractional b) := List.any_append

theorem isFractional_digits {digits : List Char} (h : ∀ c ∈ digits, c.isDigit) : isFractional digits = false := by
  simp only [isFractional, List.any_eq_false, Bool.or_eq_true, decide_eq_true_eq]
  intro c hc
  have hd := h c hc
  rintro ((rfl | rfl) | rfl) <;> revert hd <;> decide

theorem isFractional_parts {whole : List Char} (hw : IsWhole whole) (fraction : List Char) (e : ℤ) (negative : Bool) :
    isFractional ((if negative then ['-'] else []) ++ (whole ++ (pointed fraction ++ exponentChars e))) =
      !decide (fraction = [] ∧ e = 0) := by
  have hsign : isFractional (if negative then ['-'] else []) = false := by cases negative <;> rfl
  rw [isFractional_append, isFractional_append, isFractional_append, hsign, isFractional_digits hw.2.1]
  unfold pointed exponentChars
  by_cases hf : fraction = [] <;> by_cases he : e = 0 <;> simp [hf, he, isFractional]

theorem budget_ok {digits exponent : ℕ} (h : withinBudget digits exponent = .ok ()) :
    digits ≤ MAX_DIGITS ∧ exponent ≤ MAX_EXPONENT := by
  unfold withinBudget at h
  split at h
  · cases h
  · rename_i hn
    omega

theorem ten_le_bits (k : ℕ) : 10 ^ k ≤ 2 ^ (k * 4) := by
  rw [mul_comm, pow_mul]
  exact Nat.pow_le_pow_left (by decide) k

theorem integer_budget {n : ℤ} (h : (Nat.toDigits 10 n.natAbs).length ≤ MAX_DIGITS) : numeric_limit (.integer n) = .ok () := by
  have hbits : bit_length n ≤ MAX_DIGITS * 4 := by
    unfold bit_length
    split
    · exact Nat.zero_le _
    · rename_i hn
      have hlt : n.natAbs < 10 ^ MAX_DIGITS := (Nat.length_toDigits_le_iff (by decide) (by decide)).mp h
      exact (Nat.log2_lt (Int.natAbs_ne_zero.mpr hn)).mpr (Nat.lt_of_lt_of_le hlt (ten_le_bits MAX_DIGITS))
  rw [numeric_limit, if_neg (by omega), withinBudget, if_neg (by simp only [not_or, not_lt]; exact ⟨h, Nat.zero_le _⟩)]

theorem exponentChars_length (e : ℤ) (h : e.natAbs < 10 ^ 4) : (exponentChars e).length ≤ 6 := by
  unfold exponentChars
  split
  · exact Nat.zero_le _
  · have := (Nat.length_toDigits_le_iff (by decide) (by decide : 0 < 4)).mpr h
    simp only [List.length_cons]
    omega

theorem number_chars {n : Number} (h : numeric_limit n = .ok ()) :
    ∃ parts, numeral n.chars = some parts ∧ number n.chars parts = .ok n.reread := by
  cases n with
  | integer n =>
    have hdigits : (Nat.toDigits 10 n.natAbs).length ≤ MAX_DIGITS := by
      rw [numeric_limit] at h
      split at h
      · cases h
      · exact (budget_ok h).1
    have htext : intChars n = (if decide (n < 0) then ['-'] else []) ++
        (Nat.toDigits 10 n.natAbs ++ (pointed [] ++ exponentChars 0)) := by
      unfold intChars
      by_cases hn : n < 0 <;> simp [hn, pointed, exponentChars]
    have hparts := numeral_parts (whole_digits n.natAbs) (show ∀ c ∈ ([] : List Char), c.isDigit by simp) 0 (decide (n < 0))
    have hwhole := isFractional_parts (whole_digits n.natAbs) [] 0 (decide (n < 0))
    rw [← htext] at hparts hwhole
    refine ⟨_, hparts, ?_⟩
    have hlen : ¬MAX_DIGITS + 16 < (intChars n).length := by
      unfold intChars
      split
      · rw [List.length_cons]
        omega
      · omega
    have hvalue : Numeral.integer ⟨decide (n < 0), Nat.toDigits 10 n.natAbs, [], 0⟩ = n := by
      unfold Numeral.integer
      rw [Nat.ofDigitChars_ten_toDigits]
      by_cases hn : n < 0 <;> simp only [hn, decide_true, decide_false, if_true, if_false, Bool.false_eq_true] <;> omega
    unfold number
    simp only [Number.chars, if_neg hlen, hwhole, hvalue, true_and, decide_true, Bool.not_true, Bool.false_eq_true,
      if_false, integer_budget hdigits]
    rfl
  | decimal d =>
    obtain ⟨hdigits, hexponent⟩ := budget_ok h
    obtain ⟨whole, fraction, e, hw, hf, hstr, hvalue, hexp, hzero, hlen, he⟩ := str_parts d
    have hparts := numeral_parts hw hf e d.negative
    have hkind := isFractional_parts hw fraction e d.negative
    rw [← hstr] at hparts hkind
    refine ⟨_, hparts, ?_⟩
    have hshort : ¬MAX_DIGITS + 16 < d.str.length := by
      have htail := exponentChars_length e (by unfold MAX_DIGITS MAX_EXPONENT at *; omega)
      have hpoint : (pointed fraction).length ≤ fraction.length + 1 := by
        unfold pointed
        split <;> simp
      have hsign : (if d.negative then ['-'] else []).length ≤ 1 := by split <;> simp
      rw [hstr]
      simp only [List.length_append]
      unfold MAX_DIGITS at *
      omega
    unfold number
    simp only [Number.chars, if_neg hshort, hkind, ← hzero, Number.reread]
    by_cases hz : d.exponent = 0
    · obtain ⟨rfl, rfl⟩ := hzero.mp hz
      rw [List.append_nil] at hvalue
      have hint : Numeral.integer ⟨d.negative, whole, [], 0⟩ =
          (if d.negative then -(d.coefficient : ℤ) else (d.coefficient : ℤ)) := by
        rw [Numeral.integer, hvalue]
      have hbudget : numeric_limit (.integer (if d.negative then -(d.coefficient : ℤ) else (d.coefficient : ℤ))) = .ok () := by
        apply integer_budget
        have habs : (if d.negative then -(d.coefficient : ℤ) else (d.coefficient : ℤ)).natAbs = d.coefficient := by
          split <;> simp
        rw [habs]
        exact hdigits
      simp only [hz, decide_true, Bool.not_true, Bool.false_eq_true, if_false, if_true, hint, hbudget]
      rfl
    · have hdec : Numeral.decimal ⟨d.negative, whole, fraction, e⟩ = d := by
        rw [Numeral.decimal, hvalue, hexp]
      simp only [hz, decide_false, Bool.not_false, if_true, if_false, hdec, h]
      rfl

theorem number_text (n : Number) : n.chars ≠ [] ∧ ∀ c ∈ n.chars, isWordText c := by
  have hdigit : ∀ c : Char, c.isDigit → isWordText c := fun c hc => by simp [isWordText, Char.isAlphanum, hc]
  cases n with
  | integer n =>
    change intChars n ≠ [] ∧ ∀ c ∈ intChars n, isWordText c
    have hdigits := toDigits_isDigit n.natAbs
    unfold intChars
    split
    · refine ⟨by simp, fun c hc => ?_⟩
      rcases List.mem_cons.mp hc with rfl | hc
      · rfl
      · exact hdigit c (hdigits c hc)
    · exact ⟨Nat.toDigits_ne_nil, fun c hc => hdigit c (hdigits c hc)⟩
  | decimal d =>
    change d.str ≠ [] ∧ ∀ c ∈ d.str, isWordText c
    obtain ⟨whole, fraction, e, hw, hf, hstr, -⟩ := str_parts d
    rw [hstr]
    refine ⟨by simp [hw.1], fun c hc => ?_⟩
    simp only [List.mem_append] at hc
    rcases hc with hc | hc | hc | hc
    · split at hc
      · rw [List.mem_singleton.mp hc]
        rfl
      · cases hc
    · exact hdigit c (hw.2.1 c hc)
    · unfold pointed at hc
      split at hc
      · cases hc
      · rcases List.mem_cons.mp hc with rfl | hc
        · rfl
        · exact hdigit c (hf c hc)
    · unfold exponentChars at hc
      split at hc
      · cases hc
      · simp only [List.mem_cons] at hc
        rcases hc with rfl | rfl | hc
        · rfl
        · split <;> rfl
        · exact hdigit c (toDigits_isDigit _ c hc)

-- Strings

theorem hexDigit_digitChar : ∀ n < 16, hexDigit (Nat.digitChar n) = some n := by decide

theorem codeUnit_hex4 {n : ℕ} (h : n < 65536) (rest : List Char) : codeUnit (hex4 n ++ rest) = some (n, rest) := by
  have h1 := hexDigit_digitChar (n / 4096) (by omega)
  have h2 := hexDigit_digitChar (n / 256 % 16) (by omega)
  have h3 := hexDigit_digitChar (n / 16 % 16) (by omega)
  have h4 := hexDigit_digitChar (n % 16) (by omega)
  simp only [hex4, List.cons_append, List.nil_append, codeUnit, h1, h2, h3, h4, Option.bind_eq_bind, Option.bind_some]
  congr 2
  omega

theorem scalar_value (c : Char) : c.toNat < 0xd800 ∨ (0xdfff < c.toNat ∧ c.toNat < 0x110000) := c.valid

theorem readChar_pair {high low : ℕ} (hh : 0xd800 ≤ high) (hh' : high < 0xdc00) (hl : 0xdc00 ≤ low) (hl' : low ≤ 0xdfff)
    (rest : List Char) : readChar ('\\' :: 'u' :: (hex4 high ++ '\\' :: 'u' :: (hex4 low ++ rest))) =
      some (Char.ofNat (0x10000 + (high - 0xd800) * 0x400 + (low - 0xdc00)), rest) := by
  have hhigh := codeUnit_hex4 (n := high) (by omega) ('\\' :: 'u' :: (hex4 low ++ rest))
  have hlow := codeUnit_hex4 (n := low) (by omega) rest
  rw [readChar]
  simp only [hhigh, Option.bind_eq_bind, Option.bind_some, hlow]
  rw [if_neg (by omega), if_pos (by omega)]

theorem readChar_dumps (c : Char) (rest : List Char) : readChar (dumpsChar c ++ rest) = some (c, rest) := by
  have named : ∀ n, c.toNat = n → c = Char.ofNat n := fun n hn => by rw [← hn, Char.ofNat_toNat]
  have hscalar := scalar_value c
  unfold dumpsChar
  split
  · rename_i h
    rcases h with rfl | rfl <;> rfl
  rename_i hq
  simp only [not_or] at hq
  split
  · rename_i h; simp [readChar, named 8 h]
  split
  · rename_i h; simp [readChar, named 9 h]
  split
  · rename_i h; simp [readChar, named 10 h]
  split
  · rename_i h; simp [readChar, named 12 h]
  split
  · rename_i h; simp [readChar, named 13 h]
  split
  · rename_i h
    simp only [List.cons_append, List.nil_append]
    unfold readChar
    split <;> simp_all
  split
  · rename_i h
    have hunit := codeUnit_hex4 h rest
    simp only [List.cons_append]
    rw [readChar]
    simp only [hunit, Option.bind_eq_bind, Option.bind_some, if_pos (show c.toNat < 0xd800 ∨ 0xdfff < c.toNat by omega),
      Char.ofNat_toNat]
  · rename_i h
    have hback : 0x10000 + (0xd800 + (c.toNat - 0x10000) / 0x400 - 0xd800) * 0x400 +
        (0xdc00 + (c.toNat - 0x10000) % 0x400 - 0xdc00) = c.toNat := by omega
    simp only [List.cons_append, List.append_assoc]
    rw [readChar_pair (by omega) (by omega) (by omega) (by omega), hback, Char.ofNat_toNat]

def dumped (text : List Char) : List Char := text.flatMap dumpsChar

theorem scanString_plain {chars : List Char} (h : ∀ c ∈ chars, c ≠ '"' ∧ c ≠ '\\') (rest : List Char) :
    scanString (chars ++ rest) = (scanString rest).map fun r => (chars ++ r.1, r.2) := by
  induction chars with
  | nil => simp
  | cons c chars ih =>
    have hc := h c (by simp)
    rw [List.cons_append, scanString, ih fun d hd => h d (by simp [hd]), Option.map_map]
    · rfl
    · exact hc.1
    · exact fun _ _ hb _ => hc.2 hb

theorem hex4_plain {n : ℕ} (h : n < 65536) : ∀ c ∈ hex4 n, c ≠ '"' ∧ c ≠ '\\' ∧ c ≠ '\n' := by
  have hdigit : ∀ k < 16, Nat.digitChar k ≠ '"' ∧ Nat.digitChar k ≠ '\\' ∧ Nat.digitChar k ≠ '\n' := by decide
  intro c hc
  simp only [hex4, List.mem_cons, List.not_mem_nil, or_false] at hc
  rcases hc with rfl | rfl | rfl | rfl <;> exact hdigit _ (by omega)

theorem scanString_escape {n : ℕ} (h : n < 65536) (rest : List Char) :
    scanString ('\\' :: 'u' :: (hex4 n ++ rest)) = (scanString rest).map fun r => ('\\' :: 'u' :: (hex4 n ++ r.1), r.2) := by
  have hp := scanString_plain (fun c hc => ⟨(hex4_plain h c hc).1, (hex4_plain h c hc).2.1⟩) rest
  rw [scanString, hp, Option.map_map]
  rfl

theorem scanString_dumpsChar (c : Char) (rest : List Char) :
    scanString (dumpsChar c ++ rest) = (scanString rest).map fun r => (dumpsChar c ++ r.1, r.2) := by
  have hscalar := scalar_value c
  unfold dumpsChar
  split
  · rfl
  rename_i hq
  simp only [not_or] at hq
  split
  · rfl
  split
  · rfl
  split
  · rfl
  split
  · rfl
  split
  · rfl
  split
  · exact scanString_plain (by simpa using hq) rest
  split
  · rename_i h
    exact scanString_escape h rest
  · have hlow := scanString_escape (n := 0xdc00 + (c.toNat - 0x10000) % 0x400) (by omega) rest
    simp only [List.cons_append, List.append_assoc]
    rw [scanString_escape (by omega), hlow, Option.map_map]
    rfl

theorem dumpsChar_line (c : Char) : '\n' ∉ dumpsChar c := by
  have hscalar := scalar_value c
  have hex : ∀ n < 65536, '\n' ∉ hex4 n := fun n hn hm => (hex4_plain hn _ hm).2.2 rfl
  unfold dumpsChar
  split
  · rename_i h
    rcases h with rfl | rfl <;> decide
  split
  · decide
  split
  · decide
  split
  · decide
  split
  · decide
  split
  · decide
  split
  · rename_i h
    rw [List.mem_singleton]
    rintro rfl
    revert h
    decide
  split
  · rename_i h
    simp [hex _ h]
  · have h1 := hex (0xd800 + (c.toNat - 0x10000) / 0x400) (by omega)
    have h2 := hex (0xdc00 + (c.toNat - 0x10000) % 0x400) (by omega)
    simp [h1, h2]

theorem dumped_content (text : List Char) : IsContent (dumped text) := by
  refine ⟨fun h => ?_, fun rest => ?_⟩
  · obtain ⟨c, -, hc⟩ := List.mem_flatMap.mp h
    exact dumpsChar_line c hc
  · induction text with
    | nil => rfl
    | cons c text ih =>
      rw [dumped, List.flatMap_cons, List.append_assoc, scanString_dumpsChar]
      change Option.map _ (scanString (dumped text ++ '"' :: rest)) = _
      rw [ih]
      rfl

theorem dumpsChar_length (c : Char) : 0 < (dumpsChar c).length := by
  refine List.length_pos_iff.mpr fun h => ?_
  have hread := readChar_dumps c []
  rw [h] at hread
  cases hread

theorem decodeLoop_dumped (text : List Char) {fuel : ℕ} (h : text.length ≤ fuel) :
    decodeLoop fuel (dumped text) = some text := by
  induction text generalizing fuel with
  | nil => cases fuel <;> rfl
  | cons c text ih =>
    rw [List.length_cons] at h
    obtain ⟨fuel, rfl⟩ : ∃ k, fuel = k + 1 := ⟨fuel - 1, by omega⟩
    have hne : dumped (c :: text) ≠ [] := by
      have := dumpsChar_length c
      rw [dumped, List.flatMap_cons, ← List.length_pos_iff, List.length_append]
      omega
    have hread : readChar (dumped (c :: text)) = some (c, dumped text) := by
      rw [dumped, List.flatMap_cons]
      exact readChar_dumps c _
    rw [decodeLoop, hread]
    · simp [ih (show text.length ≤ fuel by omega)]
    · exact hne

theorem decodeString_dumped (text : String) : decodeString (dumped text.toList) = .ok text := by
  have hlen : text.toList.length ≤ (dumped text.toList).length := by
    generalize text.toList = cs
    induction cs with
    | nil => exact Nat.zero_le _
    | cons c cs ih =>
      have := dumpsChar_length c
      simp only [dumped, List.flatMap_cons, List.length_append, List.length_cons] at ih ⊢
      omega
  rw [decodeString, decodeLoop_dumped _ hlen]
  simp

-- Values

mutual
/-- The tokens of a value, as `json_bytes` writes it. -/
def tokensOf : Value → List Token
  | .object members => .punct '{' :: memberTokens members
  | .array items => .punct '[' :: itemTokens items
  | .number value => [.word value.chars]
  | .string text => [.string (dumped text.toList)]
  | .bool true => [.word "true".toList]
  | .bool false => [.word "false".toList]
  | .null => [.word "null".toList]
def itemTokens : List Value → List Token
  | [] => [.punct ']']
  | item :: items => tokensOf item ++ ((if items.isEmpty then [] else [.punct ',']) ++ itemTokens items)
def memberTokens : List (String × Value) → List Token
  | [] => [.punct '}']
  | (key, value) :: members =>
    .string (dumped key.toList) :: .punct ':' ::
      (tokensOf value ++ ((if members.isEmpty then [] else [.punct ',']) ++ memberTokens members))
end

theorem indent_spaces (depth : ℕ) : ∀ c ∈ indent depth, isSpace c := by
  intro c hc
  rw [List.eq_of_mem_replicate hc]
  rfl

theorem lex_indent (depth : ℕ) (rest : List Char) : lex ('\n' :: (indent depth ++ rest)) = lex rest := by
  rw [lex_space rfl, lex_spaces (indent_spaces depth)]

theorem lex_dumps (text : String) (rest : List Char) :
    lex (dumps text ++ rest) = .string (dumped text.toList) :: lex rest := by
  have htext : dumps text ++ rest = '"' :: (dumped text.toList ++ '"' :: rest) := by simp [dumps, dumped]
  rw [htext]
  exact lex_string ((dumped_content text.toList).2 rest)

theorem lex_literal {text : List Char} (hne : text ≠ []) (h : ∀ c ∈ text, isWordText c) {rest : List Char}
    (hr : EndsWord rest) : lex (text ++ rest) = .word text :: lex rest :=
  lex_word hne (fun c hc => wordText_word (h c hc)) hr

def separator (depth : ℕ) : List Char := ',' :: '\n' :: indent depth

theorem lex_separator (depth : ℕ) (rest : List Char) : lex (separator depth ++ rest) = .punct ',' :: lex rest := by
  rw [separator, List.cons_append, lex_punct rfl]
  exact congrArg _ (lex_indent depth rest)

theorem separator_ends (depth : ℕ) (rest : List Char) : EndsWord (separator depth ++ rest) := punct_ends rfl _

mutual
theorem lex_encode : ∀ (value : Value) (depth : ℕ) {rest : List Char}, EndsWord rest →
    lex (encode depth value ++ rest) = tokensOf value ++ lex rest
  | .object [], depth, rest, _ => by
    rw [encode, tokensOf, memberTokens]
    exact (lex_punct rfl ('}' :: rest)).trans (by rw [lex_punct rfl]; rfl)
  | .object (member :: members), depth, rest, _ => by
    rw [encode, tokensOf, joinChildren]
    · simp only [List.cons_append, List.append_assoc, List.nil_append]
      rw [lex_punct rfl, lex_indent, ← separator, lex_encodeMembers _ (depth + 1) (by simp) (lex_indent depth _) (space_ends rfl _)]
    · exact List.cons_ne_nil _ _
  | .array [], depth, rest, _ => by
    rw [encode, tokensOf, itemTokens]
    exact (lex_punct rfl (']' :: rest)).trans (by rw [lex_punct rfl]; rfl)
  | .array (item :: items), depth, rest, _ => by
    rw [encode, tokensOf, joinChildren]
    · simp only [List.cons_append, List.append_assoc, List.nil_append]
      rw [lex_punct rfl, lex_indent, ← separator, lex_encodeItems _ (depth + 1) (by simp) (lex_indent depth _) (space_ends rfl _)]
    · exact List.cons_ne_nil _ _
  | .number value, depth, rest, hr => by
    rw [encode, tokensOf]
    exact lex_literal (number_text value).1 (number_text value).2 hr
  | .string text, depth, rest, _ => by
    rw [encode, tokensOf]
    exact lex_dumps text rest
  | .bool true, depth, rest, hr => by
    rw [encode, tokensOf]
    exact lex_literal (by decide) (by decide) hr
  | .bool false, depth, rest, hr => by
    rw [encode, tokensOf]
    exact lex_literal (by decide) (by decide) hr
  | .null, depth, rest, hr => by
    rw [encode, tokensOf]
    exact lex_literal (by decide) (by decide) hr
theorem lex_encodeItems : ∀ (items : List Value) (depth : ℕ) {close rest : List Char}, items ≠ [] →
    lex close = lex (']' :: rest) → EndsWord close →
    lex ((separator depth).intercalate (encodeItems depth items) ++ close) = itemTokens items ++ lex rest
  | [], _, _, _, hne, _, _ => absurd rfl hne
  | [item], depth, close, rest, _, hclose, hends => by
    rw [encodeItems, encodeItems, List.intercalate_singleton, lex_encode item depth hends, hclose, lex_punct rfl]
    simp [itemTokens]
  | item :: next :: items, depth, close, rest, _, hclose, hends => by
    have hrest := lex_encodeItems (next :: items) depth (by simp) hclose hends
    have hstep : itemTokens (item :: next :: items) = tokensOf item ++ .punct ',' :: itemTokens (next :: items) := rfl
    rw [encodeItems] at hrest
    rw [encodeItems, encodeItems, List.intercalate_cons_cons, List.append_assoc, List.append_assoc,
      lex_encode item depth (separator_ends depth _), lex_separator, hrest, hstep]
    simp
theorem lex_encodeMembers : ∀ (members : List (String × Value)) (depth : ℕ) {close rest : List Char}, members ≠ [] →
    lex close = lex ('}' :: rest) → EndsWord close →
    lex ((separator depth).intercalate (encodeMembers depth members) ++ close) = memberTokens members ++ lex rest
  | [], _, _, _, hne, _, _ => absurd rfl hne
  | [(key, value)], depth, close, rest, _, hclose, hends => by
    rw [encodeMembers, encodeMembers, List.intercalate_singleton, List.append_assoc, lex_dumps]
    simp only [List.cons_append]
    rw [lex_punct rfl, lex_space rfl, lex_encode value depth hends, hclose, lex_punct rfl]
    simp [memberTokens]
  | (key, value) :: next :: members, depth, close, rest, _, hclose, hends => by
    have hrest := lex_encodeMembers (next :: members) depth (by simp) hclose hends
    obtain ⟨key', value'⟩ := next
    have hstep : memberTokens ((key, value) :: (key', value') :: members) = .string (dumped key.toList) :: .punct ':' ::
        (tokensOf value ++ .punct ',' :: memberTokens ((key', value') :: members)) := rfl
    rw [encodeMembers] at hrest
    rw [encodeMembers, encodeMembers, List.intercalate_cons_cons, List.append_assoc, List.append_assoc, List.append_assoc,
      lex_dumps]
    simp only [List.cons_append]
    rw [lex_punct rfl, lex_space rfl, lex_encode value depth (separator_ends depth _), lex_separator, hrest, hstep]
    simp
end

mutual
/-- The numbers of a value are within the budget. -/
def Budgeted : Value → Prop
  | .object members => BudgetedMembers members
  | .array items => BudgetedItems items
  | .number value => numeric_limit value = .ok ()
  | _ => True
def BudgetedItems : List Value → Prop
  | [] => True
  | item :: items => Budgeted item ∧ BudgetedItems items
def BudgetedMembers : List (String × Value) → Prop
  | [] => True
  | (_, value) :: members => Budgeted value ∧ BudgetedMembers members
end

theorem pairsLoop_distinct {values result : List (String × Value)} (h : (result.map (·.1) ++ values.map (·.1)).Nodup) :
    pairsLoop result values = .ok (result ++ values) := by
  induction values generalizing result with
  | nil => simp [pairsLoop]
  | cons member values ih =>
    obtain ⟨key, value⟩ := member
    have hkey : key ∉ result.map (·.1) := fun hm => List.disjoint_of_nodup_append h hm (by simp)
    rw [pairsLoop, if_neg hkey, ih (by simpa using h)]
    simp

theorem number_word {n : Number} (h : numeric_limit n = .ok ()) : scalar n.chars = .ok (.number n.reread) := by
  obtain ⟨parts, hparts, hnumber⟩ := number_chars h
  have hliteral : ∀ text : List Char, numeral text = none → n.chars ≠ text := by
    rintro text ht heq
    rw [← heq, hparts] at ht
    cases ht
  unfold scalar
  rw [if_neg (hliteral _ (by decide)), if_neg (hliteral _ (by decide)), if_neg (hliteral _ (by decide))]
  simp only [hparts, hnumber]
  rfl

theorem tokensOf_head (value : Value) : ∃ token tokens, tokensOf value = token :: tokens ∧ token ≠ .punct ']' := by
  cases value with
  | bool b => cases b <;> exact ⟨_, _, rfl, by simp⟩
  | _ => exact ⟨_, _, by rw [tokensOf], by simp⟩

mutual
theorem parse_tokens : ∀ (value : Value) (fuel : ℕ) (rest : List Token), value.Distinct → Budgeted value →
    2 * (tokensOf value).length ≤ fuel →
    parseValue fuel (tokensOf value ++ rest) = .ok (value.map Number.reread, rest)
  | .object [], fuel, rest, _, _, hf => by
    obtain ⟨fuel, rfl⟩ : ∃ k, fuel = k + 1 := ⟨fuel - 1, by simp [tokensOf] at hf; omega⟩
    simp [tokensOf, memberTokens, parseValue, Json.map, Json.mapMembers]
  | .object ((key, value) :: members), fuel, rest, hd, hb, hf => by
    rw [tokensOf, List.length_cons] at hf
    obtain ⟨fuel, rfl⟩ : ∃ k, fuel = k + 1 := ⟨fuel - 1, by omega⟩
    have hmembers := parse_memberTokens ((key, value) :: members) fuel rest (by simp) hd.2 hb (by omega)
    have hkeys : ∀ ms : List (String × Value), (Json.mapMembers Number.reread ms).map (·.1) = ms.map (·.1) := by
      intro ms
      induction ms with
      | nil => rfl
      | cons m ms ih => simp [Json.mapMembers, ih]
    have hpairs : pairs (Json.mapMembers Number.reread ((key, value) :: members)) =
        .ok (Json.mapMembers Number.reread ((key, value) :: members)) :=
      pairsLoop_distinct (by rw [hkeys]; exact hd.1)
    rw [tokensOf, List.cons_append, parseValue]
    · simp only [hmembers, Bind.bind, Except.bind, hpairs, Json.map]
    · intro tokens heq
      rw [memberTokens] at heq
      exact absurd (List.cons.inj heq).1 (by simp)
  | .array [], fuel, rest, _, _, hf => by
    obtain ⟨fuel, rfl⟩ : ∃ k, fuel = k + 1 := ⟨fuel - 1, by simp [tokensOf] at hf; omega⟩
    simp [tokensOf, itemTokens, parseValue, Json.map, Json.mapItems]
  | .array (item :: items), fuel, rest, hd, hb, hf => by
    rw [tokensOf, List.length_cons] at hf
    obtain ⟨fuel, rfl⟩ : ∃ k, fuel = k + 1 := ⟨fuel - 1, by omega⟩
    have hitems := parse_itemTokens (item :: items) fuel rest (by simp) hd hb (by omega)
    obtain ⟨token, tokens, htoken, hne⟩ := tokensOf_head item
    rw [tokensOf, List.cons_append, parseValue]
    · simp only [hitems, Bind.bind, Except.bind, Json.map]
    · intro tokens' heq
      rw [itemTokens, htoken] at heq
      exact hne (List.cons.inj heq).1
  | .number value, fuel, rest, _, hb, hf => by
    obtain ⟨fuel, rfl⟩ : ∃ k, fuel = k + 1 := ⟨fuel - 1, by simp [tokensOf] at hf; omega⟩
    simp only [tokensOf, List.cons_append, List.nil_append, parseValue, number_word hb, Bind.bind, Except.bind, Json.map]
  | .string text, fuel, rest, _, _, hf => by
    obtain ⟨fuel, rfl⟩ : ∃ k, fuel = k + 1 := ⟨fuel - 1, by simp [tokensOf] at hf; omega⟩
    simp only [tokensOf, List.cons_append, List.nil_append, parseValue, decodeString_dumped, Bind.bind, Except.bind,
      Json.map]
  | .bool true, fuel, rest, _, _, hf => by
    obtain ⟨fuel, rfl⟩ : ∃ k, fuel = k + 1 := ⟨fuel - 1, by simp [tokensOf] at hf; omega⟩
    rfl
  | .bool false, fuel, rest, _, _, hf => by
    obtain ⟨fuel, rfl⟩ : ∃ k, fuel = k + 1 := ⟨fuel - 1, by simp [tokensOf] at hf; omega⟩
    rfl
  | .null, fuel, rest, _, _, hf => by
    obtain ⟨fuel, rfl⟩ : ∃ k, fuel = k + 1 := ⟨fuel - 1, by simp [tokensOf] at hf; omega⟩
    rfl
theorem parse_itemTokens : ∀ (items : List Value) (fuel : ℕ) (rest : List Token), items ≠ [] → Json.DistinctItems items →
    BudgetedItems items → 2 * (itemTokens items).length ≤ fuel →
    parseItems fuel (itemTokens items ++ rest) = .ok (Json.mapItems Number.reread items, rest)
  | [], _, _, hne, _, _, _ => absurd rfl hne
  | [item], fuel, rest, _, hd, hb, hf => by
    simp only [itemTokens, List.isEmpty_nil, if_true, List.length_append, List.length_cons, List.length_nil] at hf
    obtain ⟨fuel, rfl⟩ : ∃ k, fuel = k + 1 := ⟨fuel - 1, by omega⟩
    have hitem := parse_tokens item fuel (.punct ']' :: rest) hd.1 hb.1 (by omega)
    simp only [itemTokens, List.isEmpty_nil, if_true, List.nil_append, List.append_assoc, List.cons_append, parseItems,
      hitem, Bind.bind, Except.bind, Json.mapItems]
  | item :: next :: items, fuel, rest, _, hd, hb, hf => by
    rw [itemTokens] at hf
    simp only [List.isEmpty_cons, Bool.false_eq_true, if_false, List.length_append, List.length_cons, List.length_nil] at hf
    obtain ⟨fuel, rfl⟩ : ∃ k, fuel = k + 1 := ⟨fuel - 1, by omega⟩
    have hitem := parse_tokens item fuel (.punct ',' :: (itemTokens (next :: items) ++ rest)) hd.1 hb.1 (by omega)
    have hrest := parse_itemTokens (next :: items) fuel rest (by simp) hd.2 hb.2 (by omega)
    rw [itemTokens]
    simp only [List.isEmpty_cons, Bool.false_eq_true, if_false, List.nil_append, List.append_assoc, List.cons_append,
      parseItems, hitem, Bind.bind, Except.bind, hrest]
    rfl
theorem parse_memberTokens : ∀ (members : List (String × Value)) (fuel : ℕ) (rest : List Token), members ≠ [] →
    Json.DistinctMembers members → BudgetedMembers members → 2 * (memberTokens members).length ≤ fuel →
    parseMembers fuel (memberTokens members ++ rest) = .ok (Json.mapMembers Number.reread members, rest)
  | [], _, _, hne, _, _, _ => absurd rfl hne
  | [(key, value)], fuel, rest, _, hd, hb, hf => by
    simp only [memberTokens, List.isEmpty_nil, if_true, List.length_append, List.length_cons, List.length_nil] at hf
    obtain ⟨fuel, rfl⟩ : ∃ k, fuel = k + 1 := ⟨fuel - 1, by omega⟩
    have hvalue := parse_tokens value fuel (.punct '}' :: rest) hd.1 hb.1 (by omega)
    simp only [memberTokens, List.isEmpty_nil, if_true, List.nil_append, List.append_assoc, List.cons_append, parseMembers,
      decodeString_dumped, hvalue, Bind.bind, Except.bind, Json.mapMembers]
  | (key, value) :: next :: members, fuel, rest, _, hd, hb, hf => by
    rw [memberTokens] at hf
    simp only [List.isEmpty_cons, Bool.false_eq_true, if_false, List.length_append, List.length_cons, List.length_nil] at hf
    obtain ⟨fuel, rfl⟩ : ∃ k, fuel = k + 1 := ⟨fuel - 1, by omega⟩
    have hvalue := parse_tokens value fuel (.punct ',' :: (memberTokens (next :: members) ++ rest)) hd.1 hb.1 (by omega)
    have hrest := parse_memberTokens (next :: members) fuel rest (by simp) hd.2 hb.2 (by omega)
    rw [memberTokens]
    simp only [List.isEmpty_cons, Bool.false_eq_true, if_false, List.nil_append, List.append_assoc, List.cons_append,
      parseMembers, decodeString_dumped, hvalue, Bind.bind, Except.bind, hrest]
    rfl
end

theorem loads_encode {value : Value} (hd : value.Distinct) (hb : Budgeted value) :
    loads (encode 0 value ++ ['\n']) = .ok (value.map Number.reread) := by
  have hlex : lex (encode 0 value ++ ['\n']) = tokensOf value := by
    rw [lex_encode value 0 (space_ends rfl _), lex_space rfl, lex_nil, List.append_nil]
  have hparse := parse_tokens value (2 * (tokensOf value).length) [] hd hb (Nat.le_refl _)
  rw [List.append_nil] at hparse
  rw [loads, hlex, hparse]
  rfl

end WotAv.Tools
