import Mathlib.Data.List.Dedup
import Mathlib.Data.List.Perm.Lattice
import WotAv.Lib.Json

/-!
# Canonical forms of JSON values

The properties of a record are looked up in its canonical form as in the
record itself, and a value that is canonical is its own canonical form.
-/

namespace WotAv.Lib.Json

variable {ν : Type}

-- The order of the keys

theorem keyLe_refl (a : String) : keyLe a a = true := by
  simp [keyLe]

theorem keyLe_total (a b : String) : keyLe a b = true ∨ keyLe b a = true := by
  simp only [keyLe, decide_eq_true_eq]
  exact le_total _ _

theorem keyLe_trans {a b c : String} (hab : keyLe a b = true) (hbc : keyLe b c = true) : keyLe a c = true := by
  simp only [keyLe, decide_eq_true_eq] at *
  exact le_trans hab hbc

theorem char_range (c : Char) : (c.toNat < 0xd800 ∨ 0xdfff < c.toNat) ∧ c.toNat < 0x110000 := by
  rcases c.valid with h | ⟨hlo, hhi⟩
  · exact ⟨.inl h, Nat.lt_trans h (by decide)⟩
  · exact ⟨.inr hlo, hhi⟩

theorem utf16_append_inj {c d : Char} {r s : List Nat} (h : utf16 c ++ r = utf16 d ++ s) : c = d ∧ r = s := by
  obtain ⟨hc, hcmax⟩ := char_range c
  obtain ⟨hd, hdmax⟩ := char_range d
  have hchar : c.toNat = d.toNat → c = d := fun h => by rw [← Char.ofNat_toNat c, h, Char.ofNat_toNat]
  unfold utf16 at h
  split at h <;> split at h <;> simp only [List.cons_append, List.nil_append, List.cons.injEq] at h
  · exact ⟨hchar h.1, h.2⟩
  · omega
  · omega
  · exact ⟨hchar (by omega), h.2.2⟩

theorem utf16_ne_nil (c : Char) : utf16 c ≠ [] := by
  unfold utf16
  split <;> simp

theorem utf16_inj {a b : List Char} (h : a.flatMap utf16 = b.flatMap utf16) : a = b := by
  induction a generalizing b with
  | nil =>
    cases b with
    | nil => rfl
    | cons d b => simp [utf16_ne_nil] at h
  | cons c a ih =>
    cases b with
    | nil => simp [utf16_ne_nil] at h
    | cons d b =>
      obtain ⟨rfl, hrest⟩ := utf16_append_inj (by simpa using h)
      rw [ih hrest]

theorem keyLe_antisymm {a b : String} (hab : keyLe a b = true) (hba : keyLe b a = true) : a = b := by
  simp only [keyLe, decide_eq_true_eq] at *
  have hunits : a.toList.flatMap utf16 = b.toList.flatMap utf16 := le_antisymm hab hba
  exact String.toList_injective (utf16_inj hunits)

def sortedUnique (texts : List String) : List String := texts.dedup.insertionSort fun a b => keyLe a b

instance : Std.Total fun a b : String => keyLe a b = true := ⟨keyLe_total⟩
instance : IsTrans String fun a b => keyLe a b = true := ⟨fun _ _ _ => keyLe_trans⟩

theorem sortedUnique_perm {a b : List String} (h : a.Perm b) : sortedUnique a = sortedUnique b := by
  have hperm : (sortedUnique a).Perm (sortedUnique b) :=
    (List.perm_insertionSort _ _).trans (h.dedup.trans (List.perm_insertionSort _ _).symm)
  exact hperm.eq_of_pairwise (fun _ _ _ _ => keyLe_antisymm) (List.pairwise_insertionSort _ _)
    (List.pairwise_insertionSort _ _)

-- Records

abbrev Members (ν : Type) := List (String × Json ν)

def memberLe (a b : String × Json ν) : Prop := keyLe a.1 b.1 = true

instance : DecidableRel (memberLe (ν := ν)) := fun a b => inferInstanceAs (Decidable (keyLe a.1 b.1 = true))
instance : Std.Total (memberLe (ν := ν)) := ⟨fun a b => keyLe_total a.1 b.1⟩
instance : IsTrans (String × Json ν) memberLe := ⟨fun _ _ _ => keyLe_trans⟩

def canonicalRecord (members : Members ν) : Members ν := (canonicalMembers members).insertionSort memberLe

theorem canonical_object (members : Members ν) : canonical (.object members) = .object (canonicalRecord members) := rfl

theorem canonicalItems_eq (items : List (Json ν)) : canonicalItems items = items.map canonical := by
  induction items with
  | nil => rfl
  | cons item items ih => rw [canonicalItems, ih, List.map_cons]

theorem canonical_array (items : List (Json ν)) : canonical (.array items) = .array (items.map canonical) := by
  rw [canonical, canonicalItems_eq]

theorem canonicalMembers_eq (members : Members ν) :
    canonicalMembers members = members.map fun member => (member.1, canonical member.2) := by
  induction members with
  | nil => rfl
  | cons member members ih =>
    obtain ⟨key, item⟩ := member
    rw [canonicalMembers, ih, List.map_cons]

theorem get_cons (key : String) (member : String × Json ν) (members : Members ν) :
    get key (member :: members) = if member.1 = key then some member.2 else get key members := by
  unfold get
  rw [List.find?_cons]
  split <;> simp_all

theorem get_orderedInsert (key : String) (member : String × Json ν) (members : Members ν) :
    get key (members.orderedInsert memberLe member) = get key (member :: members) := by
  induction members with
  | nil => rfl
  | cons first members ih =>
    rw [List.orderedInsert_cons]
    split
    · rfl
    · rename_i hle
      rw [get_cons, ih, get_cons, get_cons key member, get_cons key first]
      by_cases hkey : member.1 = key
      · have hfirst : first.1 ≠ key := by
          rintro rfl
          exact hle (by rw [memberLe, hkey]; exact keyLe_refl _)
        simp only [if_neg hfirst, if_pos hkey]
      · rw [if_neg hkey, if_neg hkey]

theorem get_insertionSort (key : String) (members : Members ν) :
    get key (members.insertionSort memberLe) = get key members := by
  induction members with
  | nil => rfl
  | cons member members ih => rw [List.insertionSort_cons, get_orderedInsert, get_cons, ih, ← get_cons]

@[simp] theorem get_canonicalRecord (key : String) (members : Members ν) :
    get key (canonicalRecord members) = (get key members).map canonical := by
  rw [canonicalRecord, get_insertionSort, canonicalMembers_eq]
  induction members with
  | nil => rfl
  | cons member members ih =>
    rw [List.map_cons, get_cons, ih, get_cons]
    split <;> rfl

@[simp] theorem length_canonicalRecord (members : Members ν) : (canonicalRecord members).length = members.length := by
  rw [canonicalRecord, List.length_insertionSort, canonicalMembers_eq, List.length_map]

theorem canonicalRecord_perm (members : Members ν) :
    (canonicalRecord members).Perm (members.map fun member => (member.1, canonical member.2)) := by
  rw [canonicalRecord, canonicalMembers_eq]
  exact List.perm_insertionSort _ _

theorem all_keys_canonicalRecord (p : String → Bool) (members : Members ν) :
    ((canonicalRecord members).all fun member => p member.1) = members.all fun member => p member.1 := by
  rw [(canonicalRecord_perm members).all_eq, List.all_map]
  rfl

mutual
theorem canonical_idem : ∀ value : Json ν, canonical (canonical value) = canonical value
  | .null | .bool _ | .number _ | .string _ => rfl
  | .array items => by rw [canonical, canonical, items_idem items]
  | .object members => by
    rw [canonical_object, canonical_object]
    refine congrArg Json.object ?_
    have hmember : ∀ member ∈ canonicalRecord members, (member.1, canonical member.2) = member := by
      intro member hmember
      rw [members_idem members member ((List.mem_insertionSort _).mp hmember)]
    rw [canonicalRecord, canonicalMembers_eq, List.map_congr_left hmember, List.map_id']
    exact (List.pairwise_insertionSort _ _).insertionSort_eq
theorem items_idem : ∀ items : List (Json ν), canonicalItems (canonicalItems items) = canonicalItems items
  | [] => rfl
  | item :: items => by rw [canonicalItems, canonicalItems, canonical_idem item, items_idem items]
theorem members_idem : ∀ (members : Members ν), ∀ member ∈ canonicalMembers members,
    canonical member.2 = member.2
  | [], _, h => absurd h List.not_mem_nil
  | (key, item) :: members, member, h => by
    rcases List.mem_cons.mp h with rfl | h
    · exact canonical_idem item
    · exact members_idem members member h
end

end WotAv.Lib.Json
