import WotAv.Lib.Bytes

/-!
# UTF-8 text in byte buffers
-/

namespace WotAv.Lib

def utf8 (text : String) : Bytes := text.toList.flatMap String.utf8EncodeChar

/-- A check of every character is decided along the text. -/
instance (priority := high) decidableEveryChar (p : Char → Prop) [DecidablePred p] (l : List Char) :
    Decidable (∀ ch ∈ l, p ch) := List.decidableBAll p l

@[simp] theorem utf8_append (s t : String) : utf8 (s ++ t) = utf8 s ++ utf8 t := by
  simp [utf8]

theorem utf8EncodeChar_ascii {c : Char} {b : UInt8} (hb : b ∈ String.utf8EncodeChar c) (h : b.toNat < 128) :
    c.toNat = b.toNat := by
  revert hb
  fun_cases String.utf8EncodeChar <;> intro hb
  · rename_i v hv
    simp only [List.mem_singleton] at hb
    have hlt : v < 256 := Nat.lt_of_le_of_lt hv (by decide)
    rw [hb, UInt8.toNat_ofNat', Nat.mod_eq_of_lt hlt]
    rfl
  all_goals
    simp only [List.mem_cons, List.not_mem_nil, or_false] at hb
    -- the lead and the continuation bytes are at least 128
    rcases hb with rfl | rfl | hb
    all_goals first
      | (simp only [UInt8.toNat_ofNat'] at h; omega)
      | (rcases hb with rfl | hb <;> simp_all [UInt8.toNat_ofNat'] <;> omega)

theorem isAlpha_iff (c : Char) : c.isAlpha ↔ 65 ≤ c.toNat ∧ c.toNat ≤ 90 ∨ 97 ≤ c.toNat ∧ c.toNat ≤ 122 := by
  change (decide (65 ≤ c.toNat ∧ c.toNat ≤ 90) || (decide (97 ≤ c.toNat) && decide (c.toNat ≤ 122))) = true ↔ _
  simp only [Bool.or_eq_true, Bool.and_eq_true, decide_eq_true_eq]

theorem isDigit_iff (c : Char) : c.isDigit ↔ 48 ≤ c.toNat ∧ c.toNat ≤ 57 := by
  simp [Char.isDigit, UInt32.le_iff_toNat_le]

theorem isAlphanum_iff (c : Char) : c.isAlphanum ↔
    (65 ≤ c.toNat ∧ c.toNat ≤ 90 ∨ 97 ≤ c.toNat ∧ c.toNat ≤ 122) ∨ 48 ≤ c.toNat ∧ c.toNat ≤ 57 := by
  rw [Char.isAlphanum, Bool.or_eq_true, isAlpha_iff, isDigit_iff]

/-- A fatal `TextDecoder`, which drops a byte order mark. -/
def decodeUtf8 (bytes : Bytes) : Option (List Char) :=
  bytes.toByteArray.utf8Decode?.map fun text =>
    if text.toList.head? = some '\uFEFF' then text.toList.tail else text.toList

theorem mem_utf8_ascii {b : UInt8} (hb : b ∈ utf8 text) (h : b.toNat < 128) :
    ∃ c ∈ text.toList, c.toNat = b.toNat := by
  obtain ⟨c, hc, hb⟩ := List.mem_flatMap.mp hb
  exact ⟨c, hc, utf8EncodeChar_ascii hb h⟩

end WotAv.Lib
