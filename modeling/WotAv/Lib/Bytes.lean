import Mathlib.Data.List.Basic
import Mathlib.Tactic.Linarith
import Mathlib.Tactic.Ring

/-!
# Big-endian integers in byte buffers

`beBytes width n` writes the low `width` bytes of `n`, most significant
first; `readBE width offset buffer` reads a field back. The rules move a
read through the concatenation that laid the fields out, so that a layout
is checked by rewriting and not by evaluating bytes.
-/

namespace WotAv.Lib

abbrev Bytes := List UInt8

def beBytes : Nat → Nat → Bytes
  | 0, _ => []
  | width + 1, n => UInt8.ofNat (n / 256 ^ width) :: beBytes width n

def beNat (bytes : Bytes) : Nat := bytes.foldl (fun acc b => acc * 256 + b.toNat) 0

def readBE (width offset : Nat) (buffer : Bytes) : Nat := beNat ((buffer.drop offset).take width)

def byteAt (offset : Nat) (buffer : Bytes) : Nat := readBE 1 offset buffer

@[simp] theorem length_beBytes (width n : Nat) : (beBytes width n).length = width := by
  induction width with
  | zero => rfl
  | succ width ih => simp [beBytes, ih]

theorem beNat_foldl (bytes : Bytes) (acc : Nat) :
    bytes.foldl (fun acc b => acc * 256 + b.toNat) acc = acc * 256 ^ bytes.length + beNat bytes := by
  induction bytes generalizing acc with
  | nil => simp [beNat]
  | cons b bytes ih =>
    simp only [beNat, List.foldl_cons, List.length_cons, Nat.zero_mul, Nat.zero_add]
    rw [ih, ih b.toNat]
    ring

theorem beNat_cons (b : UInt8) (bytes : Bytes) :
    beNat (b :: bytes) = b.toNat * 256 ^ bytes.length + beNat bytes := by
  simp only [beNat, List.foldl_cons, Nat.zero_mul, Nat.zero_add]
  rw [beNat_foldl]
  rfl

theorem beNat_beBytes (width n : Nat) : beNat (beBytes width n) = n % 256 ^ width := by
  induction width with
  | zero => simp [beBytes, beNat, Nat.mod_one]
  | succ width ih =>
    rw [beBytes, beNat_cons, length_beBytes, ih, UInt8.toNat_ofNat', pow_succ 256 width,
      Nat.mod_mul, Nat.add_comm, Nat.mul_comm]

theorem beNat_lt (bytes : Bytes) : beNat bytes < 256 ^ bytes.length := by
  induction bytes with
  | nil => simp [beNat]
  | cons b bytes ih =>
    rw [beNat_cons, List.length_cons, pow_succ]
    have hb : b.toNat + 1 ≤ 256 := b.toNat_lt
    have := Nat.mul_le_mul_right (256 ^ bytes.length) hb
    linarith

theorem beBytes_beNat (bytes : Bytes) : beBytes bytes.length (beNat bytes) = bytes := by
  suffices h : ∀ (bytes : Bytes) (high : Nat),
      beBytes bytes.length (high * 256 ^ bytes.length + beNat bytes) = bytes by
    simpa using h bytes 0
  intro bytes
  induction bytes with
  | nil => intro high; rfl
  | cons b bytes ih =>
    intro high
    have hlt := beNat_lt bytes
    rw [beNat_cons, List.length_cons, beBytes]
    have hsum : high * 256 ^ (bytes.length + 1) + (b.toNat * 256 ^ bytes.length + beNat bytes) =
        (high * 256 + b.toNat) * 256 ^ bytes.length + beNat bytes := by ring
    rw [hsum, ih]
    congr 1
    rw [Nat.add_comm, Nat.add_mul_div_right _ _ (by positivity), Nat.div_eq_of_lt hlt, Nat.zero_add]
    apply UInt8.toNat_inj.mp
    rw [UInt8.toNat_ofNat']
    have := b.toNat_lt
    omega

-- Reads through a layout

theorem readBE_beBytes (width n : Nat) (rest : Bytes) :
    readBE width 0 (beBytes width n ++ rest) = n % 256 ^ width := by
  rw [readBE, List.drop_zero, List.take_left' (length_beBytes width n), beNat_beBytes]

@[simp] theorem readBE_here (h : n < 256 ^ width) :
    readBE width 0 (beBytes width n ++ rest) = n := by
  rw [readBE_beBytes, Nat.mod_eq_of_lt h]

@[simp] theorem readBE_skip (h : width' ≤ offset) :
    readBE width offset (beBytes width' n ++ rest) = readBE width (offset - width') rest := by
  rw [readBE, List.drop_append, length_beBytes,
    List.drop_eq_nil_of_le (by rw [length_beBytes]; exact h)]
  rfl

theorem readBE_skip_left (h : front.length ≤ offset) :
    readBE width offset (front ++ rest) = readBE width (offset - front.length) rest := by
  rw [readBE, List.drop_append, List.drop_eq_nil_of_le h]
  rfl

theorem readBE_drop (width offset k : Nat) (buffer : Bytes) :
    readBE width offset (buffer.drop k) = readBE width (k + offset) buffer := by
  rw [readBE, readBE, List.drop_drop]

@[simp] theorem drop_beBytes (h : width ≤ k) : (beBytes width n ++ rest).drop k = rest.drop (k - width) := by
  rw [List.drop_append, length_beBytes, List.drop_eq_nil_of_le (by rw [length_beBytes]; exact h)]
  rfl

theorem readBE_lt (width offset : Nat) (buffer : Bytes) : readBE width offset buffer < 256 ^ width := by
  refine lt_of_lt_of_le (beNat_lt _) (Nat.pow_le_pow_right (by decide) ?_)
  rw [List.length_take]
  exact Nat.min_le_left _ _

theorem byteAt_lt (offset : Nat) (buffer : Bytes) : byteAt offset buffer < 256 := readBE_lt 1 offset buffer

theorem readBE_two_zero (h : byteAt offset buffer = 0) (h' : byteAt (offset + 1) buffer = 0) :
    readBE 2 offset buffer = 0 := by
  unfold byteAt readBE at h h'
  rw [← List.drop_drop] at h'
  rw [readBE]
  generalize buffer.drop offset = rest at h h'
  match rest with
  | [] => rfl
  | [b] => exact h
  | b :: c :: _ =>
    simp only [List.take_succ_cons, List.take_zero, List.drop_succ_cons, List.drop_zero, beNat_cons] at h h' ⊢
    simp_all

theorem field_append (width offset : Nat) (buffer : Bytes) :
    (buffer.drop offset).take width ++ buffer.drop (offset + width) = buffer.drop offset := by
  rw [← List.drop_drop, List.take_append_drop]

theorem beBytes_readBE (h : offset + width ≤ buffer.length) :
    beBytes width (readBE width offset buffer) = (buffer.drop offset).take width := by
  have hl : ((buffer.drop offset).take width).length = width := by
    rw [List.length_take, List.length_drop]
    omega
  have h := beBytes_beNat ((buffer.drop offset).take width)
  rwa [hl] at h

end WotAv.Lib
