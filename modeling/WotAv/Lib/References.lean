import Mathlib.Algebra.BigOperators.Group.Finset.Basic
import Mathlib.Data.Finset.Range

/-!
# Reference counts

Values shared by numbered places, and the counter kept for each value. The
books are in order (`Accounts`) when a known value's counter is the number of
its references and it has been released, once, exactly when it has none.
-/

namespace WotAv.Lib

open Finset

variable {κ : Type*} [DecidableEq κ]

def holders (n : Nat) (places : Nat → List κ) (c : κ) : Nat := ∑ s ∈ range n, (places s).count c

theorem holders_congr {places places' : Nat → List κ} (h : ∀ t, places' t = places t) :
    holders n places' c = holders n places c := by
  simp only [holders, h]

theorem holders_succ {places : Nat → List κ} (h : places n = []) :
    holders (n + 1) places c = holders n places c := by
  simp [holders, sum_range_succ, h]

theorem holders_eq_zero {places : Nat → List κ} :
    holders n places c = 0 ↔ ∀ s < n, c ∉ places s := by
  simp [holders, List.count_eq_zero]

theorem holders_change {places places' : Nat → List κ} (hs : s < n)
    (h : ∀ t, t ≠ s → places' t = places t) (c : κ) :
    holders n places' c + (places s).count c = holders n places c + (places' s).count c := by
  have hmem : s ∈ range n := mem_range.mpr hs
  have hrest : ∑ t ∈ (range n).erase s, (places' t).count c = ∑ t ∈ (range n).erase s, (places t).count c :=
    sum_congr rfl fun t ht => by rw [h t (ne_of_mem_erase ht)]
  rw [holders, holders, ← add_sum_erase _ _ hmem, ← add_sum_erase _ _ hmem, hrest]
  omega

theorem holders_cons {places places' : Nat → List κ} (hs : s < n)
    (h : ∀ t, t ≠ s → places' t = places t) (hc : places s = c₀ :: places' s) (c : κ) :
    holders n places c = holders n places' c + if c = c₀ then 1 else 0 := by
  have := holders_change hs h c
  rw [hc, List.count_cons] at this
  simp only [beq_iff_eq, eq_comm (a := c₀)] at this
  omega

theorem holders_concat {places places' : Nat → List κ} (hs : s < n)
    (h : ∀ t, t ≠ s → places' t = places t) (hc : places' s = places s ++ [c₀]) (c : κ) :
    holders n places' c = holders n places c + if c = c₀ then 1 else 0 := by
  have := holders_change hs h c
  rw [hc, List.count_append, List.count_singleton] at this
  simp only [beq_iff_eq, eq_comm (a := c₀)] at this
  omega

-- Counters

/-- The counters agree with the references held, and the releases with the counters. -/
structure Accounts (known : κ → Prop) (references : κ → Int) (released held : κ → Nat) : Prop where
  counted : ∀ c, known c → references c = held c
  once : ∀ c, known c → released c = if held c = 0 then 1 else 0
  unknown : ∀ c, ¬known c → held c = 0 ∧ released c = 0

variable {known known' : κ → Prop} {references references' : κ → Int} {released released' held held' : κ → Nat}

theorem Accounts.create (c₀ : κ) (h : Accounts known references released held) (hc : ¬known c₀)
    (hk : ∀ c, known' c ↔ known c ∨ c = c₀) (hr : references' = Function.update references c₀ 1)
    (hrel : ∀ c, released' c = released c) (hheld : ∀ c, held' c = held c + if c = c₀ then 1 else 0) :
    Accounts known' references' released' held' := by
  obtain ⟨h0, hr0⟩ := h.unknown c₀ hc
  subst hr
  refine ⟨fun c hk' => ?_, fun c hk' => ?_, fun c hk' => ?_⟩
  · by_cases he : c = c₀
    · subst he; simp [hheld, h0]
    · simpa [he, hheld] using h.counted c (by simpa [hk, he] using hk')
  · by_cases he : c = c₀
    · subst he; simp [hheld, h0, hrel, hr0]
    · simpa [he, hheld, hrel] using h.once c (by simpa [hk, he] using hk')
  · rw [hk, not_or] at hk'
    simpa [hheld, hrel, hk'.2] using h.unknown c hk'.1

theorem Accounts.acquire (c₀ : κ) (h : Accounts known references released held) (hc : 0 < held c₀)
    (hr : references' = Function.update references c₀ (references c₀ + 1))
    (hrel : ∀ c, released' c = released c) (hheld : ∀ c, held' c = held c + if c = c₀ then 1 else 0) :
    Accounts known references' released' held' := by
  subst hr
  refine ⟨fun c hk => ?_, fun c hk => ?_, fun c hk => ?_⟩
  · by_cases he : c = c₀
    · subst he; simp [hheld, h.counted c hk]
    · simpa [he, hheld] using h.counted c hk
  · by_cases he : c = c₀
    · subst he
      simp [hheld, hrel, h.once c hk, Nat.ne_of_gt hc]
    · simpa [he, hheld, hrel] using h.once c hk
  · have he : c ≠ c₀ := by
      rintro rfl
      have := (h.unknown c hk).1
      omega
    simpa [he, hheld, hrel] using h.unknown c hk

theorem Accounts.relinquish (c₀ : κ) (h : Accounts known references released held)
    (hr : references' = Function.update references c₀ (references c₀ - 1))
    (hrel : ∀ c, released' c = released c + if c = c₀ ∧ references c₀ - 1 = 0 then 1 else 0)
    (hheld : ∀ c, held c = held' c + if c = c₀ then 1 else 0) :
    Accounts known references' released' held' := by
  have hc := hheld c₀
  rw [if_pos rfl] at hc
  have hknown : known c₀ := by
    by_contra hk
    have := (h.unknown c₀ hk).1
    omega
  have hcount := h.counted c₀ hknown
  subst hr
  refine ⟨fun c hk => ?_, fun c hk => ?_, fun c hk => ?_⟩
  · by_cases he : c = c₀
    · subst he; simp [hcount, hc]
    · simpa [he, hheld] using h.counted c hk
  · by_cases he : c = c₀
    · subst he
      have := h.once c hk
      rw [if_neg (by omega)] at this
      rw [hrel, this]
      by_cases h0 : held' c = 0
      · simp [h0, hcount, hc]
      · have : references c - 1 ≠ 0 := by omega
        simp [h0, this]
    · simpa [he, hheld, hrel] using h.once c hk
  · have he : c ≠ c₀ := by rintro rfl; exact hk hknown
    simpa [he, hheld, hrel] using h.unknown c hk

omit [DecidableEq κ] in
theorem Accounts.congr (h : Accounts known references released held) (hrel : ∀ c, released' c = released c)
    (hheld : ∀ c, held' c = held c) : Accounts known references released' held' := by
  obtain rfl : released' = released := funext hrel
  obtain rfl : held' = held := funext hheld
  exact h

end WotAv.Lib
