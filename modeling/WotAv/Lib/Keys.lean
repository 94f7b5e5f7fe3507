import Mathlib.Logic.Function.Basic
import Mathlib.Tactic.Common

/-!
# Tables with keys

A table whose rows may have a key, no two the same; what is kept of the keys
beside the table (a set, an index) follows it through updates of one row.
-/

namespace WotAv.Lib

variable {ι κ : Type*}

def Keyed (t : ι → Option κ) (c : κ) : Prop := ∃ r, t r = some c

def Distinct (t : ι → Option κ) : Prop := ∀ r r' c, t r = some c → t r' = some c → r = r'

variable [DecidableEq ι] {t : ι → Option κ} {r : ι} {c c' : κ}

@[simp] theorem update_self (t : ι → Option κ) (r : ι) : Function.update t r (t r) = t := Function.update_eq_self r t

theorem keyed_insert (hr : t r = none) : Keyed (Function.update t r (some c)) c' ↔ c' = c ∨ Keyed t c' := by
  constructor
  · rintro ⟨r', h⟩
    by_cases hrr : r' = r
    · subst hrr
      rw [Function.update_self] at h
      exact .inl (Option.some.inj h).symm
    · rw [Function.update_of_ne hrr] at h
      exact .inr ⟨r', h⟩
  · rintro (rfl | ⟨r', h⟩)
    · exact ⟨r, Function.update_self ..⟩
    · refine ⟨r', ?_⟩
      rwa [Function.update_of_ne]
      rintro rfl
      rw [hr] at h
      cases h

theorem Distinct.insert (h : Distinct t) (hc : ¬ Keyed t c) : Distinct (Function.update t r (some c)) := by
  intro a b d ha hb
  by_cases har : a = r <;> by_cases hbr : b = r
  · exact har.trans hbr.symm
  · subst har
    rw [Function.update_self] at ha
    rw [Function.update_of_ne hbr] at hb
    obtain rfl := Option.some.inj ha
    exact absurd ⟨b, hb⟩ hc
  · subst hbr
    rw [Function.update_self] at hb
    rw [Function.update_of_ne har] at ha
    obtain rfl := Option.some.inj hb
    exact absurd ⟨a, ha⟩ hc
  · rw [Function.update_of_ne har] at ha
    rw [Function.update_of_ne hbr] at hb
    exact h a b d ha hb

theorem keyed_erase (h : Distinct t) (hr : t r = some c) :
    Keyed (Function.update t r none) c' ↔ c' ≠ c ∧ Keyed t c' := by
  constructor
  · rintro ⟨r', h'⟩
    have hrr : r' ≠ r := by
      rintro rfl
      rw [Function.update_self] at h'
      cases h'
    rw [Function.update_of_ne hrr] at h'
    refine ⟨?_, r', h'⟩
    rintro rfl
    exact hrr (h r' r c' h' hr)
  · rintro ⟨hne, r', h'⟩
    refine ⟨r', ?_⟩
    rwa [Function.update_of_ne]
    rintro rfl
    exact hne (Option.some.inj (h'.symm.trans hr))

theorem Distinct.erase (h : Distinct t) : Distinct (Function.update t r none) := by
  intro a b d ha hb
  have hne : ∀ {x : ι}, Function.update t r none x = some d → t x = some d := by
    intro x hx
    by_cases hxr : x = r
    · subst hxr
      rw [Function.update_self] at hx
      cases hx
    · rwa [Function.update_of_ne hxr] at hx
  exact h a b d (hne ha) (hne hb)

theorem bind_update {α : Type*} (rows : ι → Option α) (key : α → Option κ) (r : ι) (o : Option α) :
    (fun i => (Function.update rows r o i).bind key) = Function.update (fun i => (rows i).bind key) r (o.bind key) := by
  funext i
  by_cases hi : i = r
  · subst hi
    simp
  · simp [Function.update_of_ne hi]

end WotAv.Lib
