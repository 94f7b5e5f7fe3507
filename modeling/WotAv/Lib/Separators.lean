import Mathlib.Data.List.Induction
import Mathlib.Tactic.Ring

/-!
# Lists with separators in between
-/

namespace WotAv.Lib

variable {α : Type*} {sep : List α} {items : List (List α)}

theorem mem_intercalate {a : α} (h : a ∈ List.intercalate sep items) : a ∈ sep ∨ ∃ item ∈ items, a ∈ item := by
  induction items with
  | nil => cases h
  | cons item items ih =>
    cases items with
    | nil => exact .inr ⟨item, List.mem_cons_self, by simpa using h⟩
    | cons next items =>
      rw [List.intercalate_cons_cons, List.mem_append, List.mem_append] at h
      rcases h with (h | h) | h
      · exact .inr ⟨item, List.mem_cons_self, h⟩
      · exact .inl h
      · exact (ih h).imp_right fun ⟨other, ho, h⟩ => ⟨other, List.mem_cons_of_mem _ ho, h⟩

theorem intercalate_append (items : List (List α)) (next : List α) (rest : List (List α)) (h : items ≠ []) :
    List.intercalate sep (items ++ next :: rest) =
      List.intercalate sep items ++ sep ++ List.intercalate sep (next :: rest) := by
  induction items with
  | nil => exact absurd rfl h
  | cons item items ih =>
    cases items with
    | nil => simp [List.intercalate_cons_cons]
    | cons other items =>
      have := ih (List.cons_ne_nil _ _)
      simp only [List.cons_append, List.intercalate_cons_cons, List.append_assoc] at this ⊢
      rw [this]

theorem sum_intercalate (f : α → ℕ) (sep : List α) (items : List (List α)) : ((List.intercalate sep items).map f).sum =
    (items.map fun item => (item.map f).sum).sum + (sep.map f).sum * (items.length - 1) := by
  induction items with
  | nil => simp
  | cons item items ih =>
    cases items with
    | nil => simp
    | cons next items =>
      rw [List.intercalate_cons_cons, List.map_append, List.map_append, List.sum_append, List.sum_append, ih]
      simp only [List.map_cons, List.sum_cons, List.length_cons, Nat.add_sub_cancel]
      ring

theorem length_intercalate (sep : List α) (items : List (List α)) :
    (List.intercalate sep items).length = (items.map List.length).sum + sep.length * (items.length - 1) := by
  have hlength (l : List α) : (l.map fun _ => 1).sum = l.length := by simp [List.map_const']
  simpa only [hlength] using sum_intercalate (fun _ => 1) sep items

end WotAv.Lib
