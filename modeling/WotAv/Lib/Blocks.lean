import Mathlib.Data.List.Chain
import Mathlib.Data.List.Induction

/-!
# Lists cut into blocks

A block ends at an item that ends one. Cutting a list, and leaving out the
items that repeat the one before them, go from left to right, so that one more
item changes the result at its end only.
-/

namespace WotAv.Lib

variable {α : Type*}

def cut (ends : α → Bool) (l : List α) : List (List α) × List α :=
  l.foldl (fun (blocks, rest) a => if ends a then (blocks ++ [rest ++ [a]], []) else (blocks, rest ++ [a])) ([], [])

def withoutRepeats (same : α → α → Bool) (l : List α) : List α :=
  l.foldl (fun kept a => if kept.getLast?.any (same · a) then kept else kept ++ [a]) []

section
variable {ends : α → Bool} {same : α → α → Bool}

@[simp] theorem cut_nil : cut ends [] = ([], []) := rfl

theorem cut_snoc (l : List α) (a : α) :
    cut ends (l ++ [a]) = if ends a then ((cut ends l).1 ++ [(cut ends l).2 ++ [a]], []) else
      ((cut ends l).1, (cut ends l).2 ++ [a]) := by
  simp [cut]

@[simp] theorem withoutRepeats_nil : withoutRepeats same [] = [] := rfl

theorem withoutRepeats_snoc (l : List α) (a : α) :
    withoutRepeats same (l ++ [a]) =
      if (withoutRepeats same l).getLast?.any (same · a) then withoutRepeats same l
      else withoutRepeats same l ++ [a] := by
  rw [withoutRepeats, List.foldl_append]
  rfl

theorem cut_flatten (l : List α) : (cut ends l).1.flatten ++ (cut ends l).2 = l := by
  induction l using List.reverseRecOn with
  | nil => rfl
  | append_singleton l a ih =>
    rw [cut_snoc]
    split
    · simp only [List.flatten_append, List.flatten_singleton, List.append_nil, ← List.append_assoc, ih]
    · rw [← List.append_assoc, ih]

theorem getLast_cut {l : List α} (h : (cut ends l).2 ≠ []) : l.getLast? = (cut ends l).2.getLast? := by
  have hl : (cut ends l).1.flatten ++ (cut ends l).2 = l := cut_flatten l
  conv_lhs => rw [← hl]
  rw [List.getLast?_append_of_ne_nil _ h]

end

end WotAv.Lib
