import Mathlib.Algebra.Order.Ring.Nat
import Mathlib.Data.List.Induction

/-!
# Decimal numerals

Numerals without leading zeros are the texts of numbers, and numerals of one
length compare by the first digit in which they differ.
-/

namespace WotAv.Lib

open Nat (toDigits ofDigitChars)

def digitOf (c : Char) : ℕ := c.toNat - '0'.toNat

def Digits (text : List Char) : Prop := ∀ c ∈ text, c.isDigit = true

structure Canonical (text : List Char) : Prop where
  digits : Digits text
  ne_nil : text ≠ []
  head : text.head? = some '0' → text = ['0']

@[simp] theorem digits_nil : Digits [] := by simp [Digits]

variable {text : List Char}

@[simp] theorem digits_cons {c : Char} : Digits (c :: text) ↔ c.isDigit = true ∧ Digits text := by
  simp [Digits]

@[simp] theorem digits_append {text text' : List Char} : Digits (text ++ text') ↔ Digits text ∧ Digits text' := by
  simp [Digits, or_imp, forall_and]

theorem isDigit_iff_toNat {c : Char} : c.isDigit = true ↔ 48 ≤ c.toNat ∧ c.toNat ≤ 57 := by
  simp only [Char.isDigit, Bool.and_eq_true, decide_eq_true_eq, ge_iff_le, UInt32.le_iff_toNat_le]
  exact Iff.rfl

theorem digitOf_eq (c : Char) : digitOf c = c.toNat - 48 := rfl

theorem digitOf_lt {c : Char} (hc : c.isDigit = true) : digitOf c < 10 := by
  have := isDigit_iff_toNat.mp hc
  rw [digitOf_eq]
  omega

theorem digitOf_inj {c d : Char} (hc : c.isDigit = true) (hd : d.isDigit = true) : digitOf c = digitOf d ↔ c = d := by
  have := isDigit_iff_toNat.mp hc
  have := isDigit_iff_toNat.mp hd
  rw [← Char.toNat_inj, digitOf_eq, digitOf_eq]
  omega

theorem digitChar_toNat : ∀ n < 10, n.digitChar.toNat = 48 + n := by decide

theorem digitChar_digitOf {c : Char} (hc : c.isDigit = true) : (digitOf c).digitChar = c := by
  have := isDigit_iff_toNat.mp hc
  rw [← Char.toNat_inj, digitChar_toNat _ (digitOf_lt hc), digitOf_eq]
  omega

-- Values

theorem ofDigitChars_digit (c : Char) (text : List Char) :
    ofDigitChars 10 (c :: text) 0 = 10 ^ text.length * digitOf c + ofDigitChars 10 text 0 := by
  rw [Nat.ofDigitChars_cons, Nat.ofDigitChars_eq_ofDigitChars_zero, Nat.mul_zero, Nat.zero_add, digitOf]

theorem ofDigitChars_snoc (text : List Char) (c : Char) :
    ofDigitChars 10 (text ++ [c]) 0 = 10 * ofDigitChars 10 text 0 + digitOf c := by
  rw [Nat.ofDigitChars_append, Nat.ofDigitChars_cons, Nat.ofDigitChars_nil, digitOf]

theorem ofDigitChars_lt (h : Digits text) : ofDigitChars 10 text 0 < 10 ^ text.length := by
  induction text with
  | nil => simp
  | cons c text ih =>
    obtain ⟨hc, htext⟩ := digits_cons.mp h
    have hmul : 10 ^ text.length * digitOf c ≤ 10 ^ text.length * 9 :=
      Nat.mul_le_mul_left _ (Nat.le_of_lt_succ (digitOf_lt hc))
    have := ih htext
    rw [ofDigitChars_digit, List.length_cons, pow_succ]
    omega

theorem ofDigitChars_zeros_append (n : ℕ) (text : List Char) :
    ofDigitChars 10 (List.replicate n '0' ++ text) 0 = ofDigitChars 10 text 0 := by
  rw [Nat.ofDigitChars_append, Nat.ofDigitChars_replicate_zero, Nat.mul_zero]

-- Canonical numerals

theorem toDigits_ofDigitChars (h : Canonical text) : toDigits 10 (ofDigitChars 10 text 0) = text := by
  induction text using List.reverseRecOn with
  | nil => exact absurd rfl h.ne_nil
  | append_singleton text c ih =>
    obtain ⟨htext, hc⟩ := digits_append.mp h.digits
    have hc : c.isDigit = true := by simpa using hc
    rw [ofDigitChars_snoc]
    cases text with
    | nil =>
      rw [Nat.ofDigitChars_nil, Nat.mul_zero, Nat.zero_add, Nat.toDigits_of_lt_base (digitOf_lt hc), digitChar_digitOf hc]
      rfl
    | cons d text =>
      have hd : d ≠ '0' := by
        rintro rfl
        simpa using h.head rfl
      have hprefix := ih ⟨htext, by simp, fun hhead => absurd (Option.some.inj hhead) hd⟩
      have hpos : 0 < ofDigitChars 10 (d :: text) 0 := by
        rw [Nat.pos_iff_ne_zero]
        intro hzero
        rw [hzero, Nat.toDigits_zero] at hprefix
        exact hd (List.cons.inj hprefix).1.symm
      rw [← Nat.toDigits_append_toDigits (by decide) hpos (digitOf_lt hc), hprefix,
        Nat.toDigits_of_lt_base (digitOf_lt hc), digitChar_digitOf hc]

theorem digitChar_ne_zero : ∀ n < 10, 0 < n → n.digitChar ≠ '0' := by decide

theorem toDigits_head {n : ℕ} (hn : 0 < n) : ∃ d ds, toDigits 10 n = d :: ds ∧ d ≠ '0' := by
  induction n using Nat.strongRecOn with
  | ind n ih =>
    by_cases hlt : n < 10
    · exact ⟨n.digitChar, [], Nat.toDigits_of_lt_base hlt, digitChar_ne_zero n hlt hn⟩
    · obtain ⟨d, ds, hd, hz⟩ := ih (n / 10) (by omega) (by omega)
      exact ⟨d, ds ++ [(n % 10).digitChar], by rw [Nat.toDigits_of_base_le (by decide) (by omega), hd]; rfl, hz⟩

theorem canonical_toDigits (n : ℕ) : Canonical (toDigits 10 n) where
  digits _ hc := Nat.isDigit_of_mem_toDigits (by decide) (by decide) hc
  ne_nil := Nat.toDigits_ne_nil
  head hhead := by
    by_cases hn : n = 0
    · rw [hn, Nat.toDigits_zero]
    · obtain ⟨d, ds, hd, hz⟩ := toDigits_head (Nat.pos_of_ne_zero hn)
      rw [hd] at hhead
      exact absurd (Option.some.inj hhead) hz

theorem canonical_le_iff {n : ℕ} :
    (Canonical text ∧ ofDigitChars 10 text 0 ≤ n) ↔ ∃ m ≤ n, text = toDigits 10 m := by
  constructor
  · rintro ⟨hc, hle⟩
    exact ⟨_, hle, (toDigits_ofDigitChars hc).symm⟩
  · rintro ⟨m, hle, rfl⟩
    exact ⟨canonical_toDigits m, by rwa [Nat.ofDigitChars_ten_toDigits]⟩

theorem zeros_canonical (h : Digits text) (hne : text ≠ []) :
    ∃ n text', text = List.replicate n '0' ++ text' ∧ Canonical text' := by
  induction text with
  | nil => exact absurd rfl hne
  | cons c text ih =>
    obtain ⟨hc, htext⟩ := digits_cons.mp h
    by_cases hzero : c = '0' ∧ text ≠ []
    · obtain ⟨n, text', rfl, hcanonical⟩ := ih htext hzero.2
      exact ⟨n + 1, text', by rw [hzero.1]; rfl, hcanonical⟩
    · refine ⟨0, c :: text, rfl, h, by simp, fun hhead => ?_⟩
      obtain rfl : c = '0' := Option.some.inj hhead
      simpa using hzero

theorem pow_le_of_canonical (h : Canonical text) (hlength : 1 < text.length) :
    10 ^ (text.length - 1) ≤ ofDigitChars 10 text 0 := by
  cases text with
  | nil => simp at hlength
  | cons c text =>
    have hc : digitOf c ≠ 0 := by
      intro hzero
      obtain rfl : c = '0' := (digitOf_inj (digits_cons.mp h.digits).1 (by decide)).mp hzero
      simp [h.head rfl] at hlength
    have hmul : 10 ^ text.length * 1 ≤ 10 ^ text.length * digitOf c := Nat.mul_le_mul_left _ (Nat.pos_of_ne_zero hc)
    rw [ofDigitChars_digit, List.length_cons, Nat.add_sub_cancel]
    omega

-- Comparison

theorem ofDigitChars_lt_iff : ∀ {text text' : List Char}, Digits text → Digits text' → text.length = text'.length →
    (ofDigitChars 10 text 0 < ofDigitChars 10 text' 0 ↔
      ∃ i d c rest, text'[i]? = some d ∧ text = text'.take i ++ c :: rest ∧ digitOf c < digitOf d)
  | [], [], _, _, _ => by simp
  | a :: text, b :: text', h, h', hlength => by
    obtain ⟨ha, htext⟩ := digits_cons.mp h
    obtain ⟨hb, htext'⟩ := digits_cons.mp h'
    have hlength : text.length = text'.length := by simpa using hlength
    have hlt := ofDigitChars_lt htext
    have hlt' := ofDigitChars_lt htext'
    have ih := ofDigitChars_lt_iff htext htext' hlength
    rw [ofDigitChars_digit, ofDigitChars_digit, ← hlength]
    rw [← hlength] at hlt'
    constructor
    · intro hless
      by_cases heq : a = b
      · subst heq
        obtain ⟨i, d, c, rest, hd, rfl, hcd⟩ := ih.mp (by omega)
        exact ⟨i + 1, d, c, rest, by simpa using hd, by simp, hcd⟩
      · refine ⟨0, b, a, text, rfl, rfl, ?_⟩
        by_contra hge
        have hgreater : digitOf b + 1 ≤ digitOf a := by
          have := (digitOf_inj ha hb).not.mpr heq
          omega
        have hmul := Nat.mul_le_mul_left (10 ^ text.length) hgreater
        rw [Nat.mul_add] at hmul
        omega
    · rintro ⟨i, d, c, rest, hd, htake, hcd⟩
      cases i with
      | zero =>
        obtain ⟨rfl, rfl⟩ : a = c ∧ text = rest := by simpa using htake
        obtain rfl : b = d := by simpa using hd
        have hmul := Nat.mul_le_mul_left (10 ^ text.length) hcd
        rw [Nat.succ_eq_add_one, Nat.mul_add] at hmul
        omega
      | succ i =>
        obtain ⟨rfl, htail⟩ : a = b ∧ text = text'.take i ++ c :: rest := by simpa using htake
        have := ih.mpr ⟨i, d, c, rest, by simpa using hd, htail, hcd⟩
        omega
  | [], _ :: _, _, _, h => by simp at h
  | _ :: _, [], _, _, h => by simp at h

end WotAv.Lib
