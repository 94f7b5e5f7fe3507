import Mathlib.Algebra.Order.Field.Basic
import Mathlib.Data.List.TakeWhile
import Mathlib.Data.Rat.Defs
import Mathlib.Tactic.Linarith
import Mathlib.Tactic.FieldSimp

/-!
# Finite numbers and their texts

A finite number is known by the shortest decimal that reads back as it, which
is what its text is made of. Two numbers with one text are equal: the text is
read back digit by digit.
-/

namespace WotAv.Lib

open Nat (toDigits ofDigitChars)

/-- `digits` times ten to the `point - k`, where `digits` has `k` digits, the
last of them not 0. The two zeros are one: nothing here tells them apart. -/
structure FiniteNumber where
  negative : Bool
  digits : Nat
  point : Int
  tidy : if digits = 0 then negative = false ∧ point = 0 else digits % 10 ≠ 0
  deriving DecidableEq

namespace FiniteNumber

theorem tidy_zero : if (0 : Nat) = 0 then false = false ∧ (0 : Int) = 0 else 0 % 10 ≠ 0 := by decide

theorem tidy_one : if (1 : Nat) = 0 then false = false ∧ (1 : Int) = 0 else 1 % 10 ≠ 0 := by decide

def magnitude (x : FiniteNumber) : ℚ := x.digits * (10 : ℚ) ^ (x.point - (toDigits 10 x.digits).length)

def value (x : FiniteNumber) : ℚ := if x.negative then -x.magnitude else x.magnitude

def natural? (x : FiniteNumber) : Option Nat :=
  let scale := x.point - (toDigits 10 x.digits).length
  if x.digits = 0 then some 0
  else if x.negative = false ∧ 0 ≤ scale then some (x.digits * 10 ^ scale.toNat) else none

-- Writing

def exponentChars (e : Int) : List Char := (if e < 0 then '-' else '+') :: toDigits 10 e.natAbs

def form (integral fraction : List Char) (exponent : Option Int) : List Char :=
  integral ++ (if fraction = [] then [] else '.' :: fraction) ++
    match exponent with
    | none => []
    | some e => 'e' :: exponentChars e

def unsignedChars (x : FiniteNumber) : List Char :=
  let ds := toDigits 10 x.digits
  let k : Int := ds.length
  if k ≤ x.point ∧ x.point ≤ 21 then form (ds ++ List.replicate (x.point - k).toNat '0') [] none
  else if 0 < x.point ∧ x.point ≤ 21 then form (ds.take x.point.toNat) (ds.drop x.point.toNat) none
  else if -6 < x.point ∧ x.point ≤ 0 then form ['0'] (List.replicate (-x.point).toNat '0' ++ ds) none
  else form (ds.take 1) (ds.drop 1) (some (x.point - 1))

def toChars (x : FiniteNumber) : List Char :=
  if x.digits = 0 then ['0'] else if x.negative then '-' :: x.unsignedChars else x.unsignedChars

-- Reading back

def readExponent : List Char → Int
  | '-' :: ds => -(ofDigitChars 10 ds 0 : Int)
  | '+' :: ds => ofDigitChars 10 ds 0
  | _ => 0

def readUnsigned (cs : List Char) : ℚ :=
  let mantissa := cs.takeWhile (· ≠ 'e')
  let fraction := (mantissa.dropWhile (· ≠ '.')).tail
  ofDigitChars 10 (mantissa.takeWhile (· ≠ '.') ++ fraction) 0 *
    (10 : ℚ) ^ (readExponent (cs.dropWhile (· ≠ 'e')).tail - fraction.length)

theorem readExponent_chars (e : Int) : readExponent (exponentChars e) = e := by
  unfold exponentChars
  split
  · simp only [readExponent, Nat.ofDigitChars_ten_toDigits]
    omega
  · simp only [readExponent, Nat.ofDigitChars_ten_toDigits]
    omega

theorem takeWhile_stop {p : Char → Bool} {l r : List Char} {c : Char} (hl : ∀ x ∈ l, p x) (hc : p c = false) :
    (l ++ c :: r).takeWhile p = l ∧ (l ++ c :: r).dropWhile p = c :: r := by
  rw [List.takeWhile_append_of_pos hl, List.dropWhile_append_of_pos hl]
  simp [hc]

theorem readUnsigned_form {integral fraction : List Char} (hi : ∀ c ∈ integral, c.isDigit)
    (hf : ∀ c ∈ fraction, c.isDigit) (exponent : Option Int) :
    readUnsigned (form integral fraction exponent) =
      ofDigitChars 10 (integral ++ fraction) 0 * (10 : ℚ) ^ (exponent.getD 0 - fraction.length) := by
  have hne : ∀ c : Char, c.isDigit → c ≠ 'e' ∧ c ≠ '.' := by
    rintro c hc
    constructor <;> rintro rfl <;> simp at hc
  have hm : ∀ c ∈ integral ++ (if fraction = [] then [] else '.' :: fraction), decide (c ≠ 'e') = true := by
    intro c hc
    rw [List.mem_append] at hc
    rcases hc with hc | hc
    · simpa using (hne c (hi c hc)).1
    · split at hc
      · simp at hc
      · rcases List.mem_cons.mp hc with rfl | hc
        · decide
        · simpa using (hne c (hf c hc)).1
  have hi' : ∀ c ∈ integral, decide (c ≠ '.') = true := fun c hc => by simpa using (hne c (hi c hc)).2
  have hsplit : (integral ++ (if fraction = [] then [] else '.' :: fraction)).takeWhile (· ≠ '.') = integral ∧
      ((integral ++ (if fraction = [] then [] else '.' :: fraction)).dropWhile (· ≠ '.')).tail = fraction := by
    split
    · rename_i h
      rw [List.append_nil, List.takeWhile_eq_self_iff.mpr hi', List.dropWhile_eq_nil_iff.mpr hi', h]
      exact ⟨rfl, rfl⟩
    · obtain ⟨ht, hd⟩ := takeWhile_stop (r := fraction) hi' (c := '.') (by decide)
      exact ⟨ht, by rw [hd, List.tail_cons]⟩
  unfold readUnsigned form
  cases exponent with
  | none =>
    simp only [List.append_nil, List.takeWhile_eq_self_iff.mpr hm, List.dropWhile_eq_nil_iff.mpr hm, hsplit]
    simp [readExponent]
  | some e =>
    simp only [takeWhile_stop hm (c := 'e') (by decide), hsplit, List.tail_cons, readExponent_chars, Option.getD_some]

theorem digits_isDigit (n : Nat) : ∀ c ∈ toDigits 10 n, c.isDigit := fun _ hc =>
  Nat.isDigit_of_mem_toDigits (by decide) (by decide) hc

theorem zeros_isDigit (n : Nat) : ∀ c ∈ List.replicate n '0', c.isDigit := by
  intro c hc
  rw [List.eq_of_mem_replicate hc]
  decide

theorem ofDigitChars_zeros (n : Nat) (l : List Char) :
    ofDigitChars 10 (List.replicate n '0' ++ l) 0 = ofDigitChars 10 l 0 := by
  rw [Nat.ofDigitChars_append, Nat.ofDigitChars_replicate_zero]
  simp

theorem readUnsigned_chars (x : FiniteNumber) : readUnsigned x.unsignedChars = x.magnitude := by
  have hd := digits_isDigit x.digits
  have hz := zeros_isDigit
  have hval : ofDigitChars 10 (toDigits 10 x.digits) 0 = x.digits := Nat.ofDigitChars_ten_toDigits
  unfold unsignedChars magnitude
  simp only
  split
  · rename_i h
    rw [readUnsigned_form (fun c hc => (List.mem_append.mp hc).elim (hd c) (hz _ c)) (by simp), List.append_nil,
      Nat.ofDigitChars_append, hval, Nat.ofDigitChars_replicate_zero]
    have he : x.point - (toDigits 10 x.digits).length = ((x.point - (toDigits 10 x.digits).length).toNat : Int) := by omega
    rw [he, zpow_natCast]
    push_cast
    simp [mul_comm]
  · split
    · rename_i h
      rw [readUnsigned_form (fun c hc => hd c (List.mem_of_mem_take hc)) (fun c hc => hd c (List.mem_of_mem_drop hc)),
        List.take_append_drop, hval]
      congr 2
      simp only [Option.getD_none, List.length_drop]
      omega
    · split
      · rename_i h
        rw [readUnsigned_form (by simp) (fun c hc => (List.mem_append.mp hc).elim (hz _ c) (hd c)),
          show ['0'] = List.replicate 1 '0' from rfl, ofDigitChars_zeros, ofDigitChars_zeros, hval]
        congr 2
        simp only [Option.getD_none, List.length_append, List.length_replicate]
        omega
      · rw [readUnsigned_form (fun c hc => hd c (List.mem_of_mem_take hc)) (fun c hc => hd c (List.mem_of_mem_drop hc)),
          List.take_append_drop, hval]
        congr 2
        have : 0 < (toDigits 10 x.digits).length := List.length_pos_iff.mpr Nat.toDigits_ne_nil
        simp only [Option.getD_some, List.length_drop]
        omega

theorem scaled_inj {s s' : Nat} (hs : s % 10 ≠ 0) (hs' : s' % 10 ≠ 0) {a b : Int}
    (h : (s : ℚ) * (10 : ℚ) ^ a = s' * (10 : ℚ) ^ b) : s = s' ∧ a = b := by
  wlog hab : a ≤ b generalizing s s' a b
  · obtain ⟨hn, he⟩ := this hs' hs h.symm (by omega)
    exact ⟨hn.symm, he.symm⟩
  obtain ⟨n, hn⟩ := Int.le.dest hab
  have h10 : (10 : ℚ) ^ a ≠ 0 := zpow_ne_zero _ (by norm_num)
  have heq : (s : ℚ) = (s' * 10 ^ n : Nat) := by
    rw [← hn, zpow_add₀ (by norm_num), zpow_natCast] at h
    push_cast
    exact mul_right_cancel₀ h10 (by linarith)
  have heq : s = s' * 10 ^ n := by exact_mod_cast heq
  cases n with
  | zero => exact ⟨by simpa using heq, by omega⟩
  | succ n => exact absurd (by rw [heq, pow_succ, ← mul_assoc, Nat.mul_mod_left]) hs

theorem magnitude_eq_zero {x : FiniteNumber} : x.magnitude = 0 ↔ x.digits = 0 := by
  simp [magnitude, zpow_ne_zero]

theorem unsignedChars_head (x : FiniteNumber) : ∃ c cs, x.unsignedChars = c :: cs ∧ c.isDigit := by
  obtain ⟨d, ds, hds⟩ := List.exists_cons_of_ne_nil (Nat.toDigits_ne_nil (b := 10) (n := x.digits))
  have hd : d.isDigit := digits_isDigit x.digits d (by simp [hds])
  unfold unsignedChars form
  simp only [hds]
  split
  · exact ⟨d, _, rfl, hd⟩
  · split
    · rename_i h
      obtain ⟨n, hn⟩ : ∃ n, x.point.toNat = n + 1 := ⟨x.point.toNat - 1, by omega⟩
      exact ⟨d, _, by rw [hn, List.take_succ_cons, List.cons_append, List.cons_append], hd⟩
    · split
      · exact ⟨'0', _, rfl, by decide⟩
      · exact ⟨d, _, rfl, hd⟩

theorem toChars_inj {x y : FiniteNumber} (h : x.toChars = y.toChars) : x = y := by
  -- the sign is told by the first character, the rest is read back
  have key : ∀ z : FiniteNumber, z.digits ≠ 0 → z.toChars = if z.negative then '-' :: z.unsignedChars else z.unsignedChars :=
    fun z hz => if_neg hz
  have zero : ∀ z : FiniteNumber, z.digits = 0 → z.toChars = ['0'] := fun z hz => if_pos hz
  have far : ∀ z : FiniteNumber, z.digits ≠ 0 → z.toChars ≠ ['0'] := by
    intro z hz he
    rw [key z hz] at he
    split at he
    · simp at he
    · have hr := readUnsigned_chars z
      rw [he, show readUnsigned ['0'] = 0 by simp [readUnsigned, Nat.ofDigitChars_cons]] at hr
      exact hz (magnitude_eq_zero.mp hr.symm)
  have same : x.negative = y.negative → x.magnitude = y.magnitude → x = y := by
    intro hn hm
    obtain ⟨nx, dx, px, tx⟩ := x
    obtain ⟨ny, dy, py, ty⟩ := y
    simp only at hn
    subst hn
    by_cases hx : dx = 0
    · have hy : dy = 0 := magnitude_eq_zero.mp (hm.symm.trans (magnitude_eq_zero.mpr hx))
      subst hx hy
      simp only [↓reduceIte] at tx ty
      obtain ⟨-, rfl⟩ := tx
      obtain ⟨-, rfl⟩ := ty
      rfl
    · have hy : dy ≠ 0 := fun hy => hx (magnitude_eq_zero.mp (hm.trans (magnitude_eq_zero.mpr hy)))
      simp only [hx, ↓reduceIte] at tx
      simp only [hy, ↓reduceIte] at ty
      obtain ⟨rfl, he⟩ := scaled_inj tx ty hm
      obtain rfl : px = py := sub_left_injective he
      rfl
  by_cases hx : x.digits = 0
  · have hy : y.digits = 0 := by
      by_contra hy
      exact far y hy (h ▸ zero x hx)
    have tx := x.tidy
    have ty := y.tidy
    simp only [hx, ↓reduceIte] at tx
    simp only [hy, ↓reduceIte] at ty
    exact same (tx.1.trans ty.1.symm) (by rw [magnitude_eq_zero.mpr hx, magnitude_eq_zero.mpr hy])
  · have hy : y.digits ≠ 0 := fun hy => far x hx (h.trans (zero y hy))
    rw [key x hx, key y hy] at h
    obtain ⟨c, cs, hc, hcd⟩ := unsignedChars_head x
    obtain ⟨d, es, hd, hdd⟩ := unsignedChars_head y
    have hneg : ∀ c : Char, c.isDigit → c ≠ '-' := by
      rintro c hc rfl
      simp at hc
    have hu : x.unsignedChars = y.unsignedChars ∧ x.negative = y.negative := by
      cases hnx : x.negative <;> cases hny : y.negative <;> simp only [hnx, hny, Bool.false_eq_true, ↓reduceIte] at h
      · exact ⟨h, rfl⟩
      · rw [hc] at h
        exact absurd (List.cons.inj h).1 (hneg c hcd)
      · rw [hd] at h
        exact absurd (List.cons.inj h).1.symm (hneg d hdd)
      · exact ⟨(List.cons.inj h).2, rfl⟩
    exact same hu.2 (by rw [← readUnsigned_chars x, hu.1, readUnsigned_chars y])

def isNumeral (c : Char) : Bool := c.isDigit || c = '-' || c = '+' || c = '.' || c = 'e'

theorem toChars_numeral (x : FiniteNumber) : ∀ c ∈ x.toChars, isNumeral c := by
  have hd : ∀ n, ∀ c ∈ toDigits 10 n, isNumeral c := fun n c hc => by simp [isNumeral, digits_isDigit n c hc]
  have hz : ∀ n, ∀ c ∈ List.replicate n '0', isNumeral c := fun n c hc => by simp [isNumeral, zeros_isDigit n c hc]
  have hf : ∀ (i f : List Char) (e : Option Int), (∀ c ∈ i, isNumeral c) → (∀ c ∈ f, isNumeral c) →
      ∀ c ∈ form i f e, isNumeral c := by
    intro i f e hi hf c hc
    simp only [form, List.mem_append] at hc
    rcases hc with (hc | hc) | hc
    · exact hi c hc
    · split at hc
      · simp at hc
      · rcases List.mem_cons.mp hc with rfl | hc
        · decide
        · exact hf c hc
    · cases e with
      | none => simp at hc
      | some e =>
        rcases List.mem_cons.mp hc with rfl | hc
        · decide
        · rcases List.mem_cons.mp hc with rfl | hc
          · split <;> decide
          · exact hd _ c hc
  have hu : ∀ c ∈ x.unsignedChars, isNumeral c := by
    unfold unsignedChars
    simp only
    split
    · exact hf _ _ _ (fun c hc => (List.mem_append.mp hc).elim (hd _ c) (hz _ c)) (by simp)
    · split
      · exact hf _ _ _ (fun c hc => hd _ c (List.mem_of_mem_take hc)) (fun c hc => hd _ c (List.mem_of_mem_drop hc))
      · split
        · exact hf _ _ _ (by simp [isNumeral]) (fun c hc => (List.mem_append.mp hc).elim (hz _ c) (hd _ c))
        · exact hf _ _ _ (fun c hc => hd _ c (List.mem_of_mem_take hc)) (fun c hc => hd _ c (List.mem_of_mem_drop hc))
  intro c hc
  unfold toChars at hc
  split at hc
  · rcases List.mem_singleton.mp hc with rfl
    decide
  · split at hc
    · rcases List.mem_cons.mp hc with rfl | hc
      · decide
      · exact hu c hc
    · exact hu c hc

theorem toChars_ne_nil (x : FiniteNumber) : x.toChars ≠ [] := by
  obtain ⟨c, cs, hc, -⟩ := unsignedChars_head x
  unfold toChars
  split
  · simp
  · split <;> simp [hc]

end FiniteNumber

example : (⟨true, 15, -6, by decide⟩ : FiniteNumber).toChars = "-1.5e-7".toList := by decide
example : (⟨false, 15, 2, by decide⟩ : FiniteNumber).toChars = "15".toList := by decide

end WotAv.Lib
