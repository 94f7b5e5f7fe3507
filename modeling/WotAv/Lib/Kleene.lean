import Mathlib.Data.List.Forall2

/-!
# Three-valued verdicts

`Truth` orders by information: `unknown` is below both definite values. A
verdict that counts (`atLeast`) is monotone for this order, and on definite
values it counts classically; that it is sound for what is missing follows
from the two.
-/

namespace WotAv.Lib

inductive Truth
  | true
  | false
  | unknown
  deriving DecidableEq, Repr

namespace Truth

def ofBool : Bool → Truth
  | .true => .true
  | .false => .false

@[simp] theorem ofBool_inj {a b : Bool} : ofBool a = ofBool b ↔ a = b := by
  cases a <;> cases b <;> simp [ofBool]

@[simp] theorem ofBool_ne_unknown {b : Bool} : ofBool b ≠ .unknown := by
  cases b <;> simp [ofBool]

def not : Truth → Truth
  | .true => .false
  | .false => .true
  | .unknown => .unknown

@[simp] theorem not_ofBool (b : Bool) : (ofBool b).not = ofBool (!b) := by
  cases b <;> rfl

/-- `t` says at most what `t'` says. -/
def Below (t t' : Truth) : Prop := t = .unknown ∨ t = t'

theorem Below.refl (t : Truth) : Below t t := .inr rfl

@[simp] theorem unknown_below (t : Truth) : Below .unknown t := .inl rfl

theorem Below.definite {t t' : Truth} {b : Bool} (h : Below t t') (ht : t = ofBool b) : t' = ofBool b := by
  rcases h with rfl | rfl
  · exact absurd ht.symm ofBool_ne_unknown
  · exact ht

theorem Below.not {t t' : Truth} (h : Below t t') : Below t.not t'.not := by
  rcases h with rfl | rfl
  · exact unknown_below _
  · exact Below.refl _

-- Counting

/-- `enough` tells of a number of positives whether it will do. -/
def atLeast (enough : Nat → Bool) (terms : List Truth) : Truth :=
  let positive := terms.count .true
  let unknown := terms.count .unknown
  if enough positive then .true else if enough (positive + unknown) then .unknown else .false

theorem count_below {terms terms' : List Truth} (h : List.Forall₂ Below terms terms') :
    terms.count .true ≤ terms'.count .true ∧
      terms'.count .true + terms'.count .unknown ≤ terms.count .true + terms.count .unknown := by
  induction h with
  | nil => simp
  | @cons t t' _ _ hb _ ih =>
    obtain ⟨ihp, ihu⟩ := ih
    rcases hb with rfl | rfl
    · cases t' <;> simp <;> omega
    · cases t <;> simp <;> omega

theorem atLeast_below {enough : Nat → Bool} (hmono : ∀ m n, m ≤ n → enough m → enough n)
    {terms terms' : List Truth} (h : List.Forall₂ Below terms terms') :
    Below (atLeast enough terms) (atLeast enough terms') := by
  obtain ⟨hp, hu⟩ := count_below h
  simp only [atLeast]
  by_cases h1 : enough (terms.count .true)
  · simp [h1, hmono _ _ hp h1, Below]
  · by_cases h2 : enough (terms.count .true + terms.count .unknown)
    · simp [h1, h2]
    · have h2' : ¬ enough (terms'.count .true + terms'.count .unknown) := fun h => h2 (hmono _ _ hu h)
      have h1' : ¬ enough (terms'.count .true) := fun h => h2' (hmono _ _ (Nat.le_add_right ..) h)
      simp [h1, h2, h1', h2', Below]

theorem count_ofBool (bs : List Bool) :
    (bs.map ofBool).count .true = bs.count Bool.true ∧ (bs.map ofBool).count .unknown = 0 := by
  induction bs with
  | nil => simp
  | cons b bs ih => cases b <;> simp [ofBool, ih]

theorem atLeast_ofBool (enough : Nat → Bool) (bs : List Bool) :
    atLeast enough (bs.map ofBool) = ofBool (enough (bs.count Bool.true)) := by
  obtain ⟨hp, hu⟩ := count_ofBool bs
  cases h : enough (bs.count Bool.true) <;> simp [atLeast, hp, hu, h, ofBool]

end Truth

end WotAv.Lib
