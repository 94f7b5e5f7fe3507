import Mathlib.Logic.Relation
import Mathlib.Order.Lattice

/-!
# Chains of bounded length

`Within good edge n a`: no chain of edges from `a` has more than `n` nodes, and
all its nodes are good. What can be visited so is free of cycles.
-/

namespace WotAv.Lib

variable {κ : Type*} {good good' : κ → Prop} {edge edge' : κ → κ → Prop}

def Within (good : κ → Prop) (edge : κ → κ → Prop) : Nat → κ → Prop
  | 0, _ => False
  | n + 1, a => good a ∧ ∀ b, edge a b → Within good edge n b

namespace Within

theorem next (h : Within good edge (n + 1) a) (he : edge a b) : Within good edge n b := h.2 b he

theorem succ (h : Within good edge n a) : Within good edge (n + 1) a := by
  induction n generalizing a with
  | zero => exact h.elim
  | succ n ih => exact ⟨h.1, fun b hb => ih (h.2 b hb)⟩

theorem mono (h : Within good edge n a) (hn : n ≤ m) : Within good edge m a := by
  induction hn with
  | refl => exact h
  | step _ ih => exact ih.succ

theorem sub (hg : ∀ a, good a → good' a) (he : ∀ a b, good a → edge' a b → edge a b) (h : Within good edge n a) :
    Within good' edge' n a := by
  induction n generalizing a with
  | zero => exact h.elim
  | succ n ih => exact ⟨hg a h.1, fun b hb => ih (h.2 b (he a b h.1 hb))⟩

theorem bounded {nodes : List κ} (h : ∀ a ∈ nodes, ∃ n, Within good edge n a) : ∃ n, ∀ a ∈ nodes, Within good edge n a := by
  induction nodes with
  | nil => exact ⟨0, nofun⟩
  | cons b nodes ih =>
    obtain ⟨n, hn⟩ := ih fun a ha => h a (List.mem_cons_of_mem _ ha)
    obtain ⟨m, hm⟩ := h b List.mem_cons_self
    refine ⟨max n m, fun a ha => ?_⟩
    rcases List.mem_cons.mp ha with rfl | ha
    · exact hm.mono (le_max_right n m)
    · exact (hn a ha).mono (le_max_left n m)

open Relation in
theorem acyclic (h : Within good edge n a) : ¬TransGen edge a a := by
  induction n generalizing a with
  | zero => exact h.elim
  | succ n ih =>
    intro hc
    obtain ⟨b, hb, hrest⟩ := TransGen.head'_iff.mp hc
    exact ih (h.next hb) (TransGen.tail' hrest hb)

end Within

end WotAv.Lib
