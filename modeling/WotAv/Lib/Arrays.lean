import Mathlib.Algebra.Group.Nat.Defs
import Mathlib.Tactic.Common

/-!
# Arrays

Loops that assign to an array and read from others, with indices of 64 bits.
An access outside of an array ends the computation, without a fault.
-/

namespace WotAv.Lib

abbrev Access (ε α : Type) := Except (Option ε) α

namespace Access

variable {ε α β : Type}

def thrown (result : Except ε α) : Access ε α := result.mapError some

def fetch (array : List β) (i : Nat) : Access ε β :=
  match array[i % 2 ^ 64]? with
  | some b => .ok b
  | none => .error none

def store (array : List β) (i : Nat) (b : β) : Access ε (List β) :=
  if i % 2 ^ 64 < array.length then .ok (array.set (i % 2 ^ 64) b) else .error none

structure Assignment (ε β : Type) where
  index : Nat
  value : Access ε β

def assign : List (Assignment ε β) → List β → Access ε (List β)
  | [], array => .ok array
  | a :: rest, array => do
    let b ← a.value
    let array ← store array a.index b
    assign rest array

/-- No access is outside of its array, and `P` holds of the result. -/
def Within (x : Access ε α) (P : α → Prop) : Prop :=
  match x with
  | .ok a => P a
  | .error fault => fault.isSome

theorem Within.ok {a : α} {P : α → Prop} (h : P a) : Within (.ok a : Access ε α) P := h

theorem Within.fault {fault : ε} {P : α → Prop} : Within (.error (some fault) : Access ε α) P := rfl

theorem Within.bind {x : Access ε α} {f : α → Access ε β} {P : α → Prop} {Q : β → Prop} (hx : x.Within P)
    (hf : ∀ a, P a → (f a).Within Q) : (x >>= f).Within Q := by
  cases x with
  | ok a => exact hf a hx
  | error fault => exact hx

theorem Within.mono {x : Access ε α} {P Q : α → Prop} (hx : x.Within P) (h : ∀ a, P a → Q a) : x.Within Q := by
  cases x with
  | ok a => exact h a hx
  | error fault => exact hx

theorem within_thrown {result : Except ε α} : (thrown result).Within fun a => result = .ok a := by
  cases result with
  | ok a => exact rfl
  | error fault => exact rfl

def Inside (x : Access ε α) : Prop := x.Within fun _ => True

theorem fetch_getD {array : List β} {i : Nat} (d : β) (hi : i < array.length) (hsize : array.length ≤ 2 ^ 64) :
    (fetch array i : Access ε β) = .ok (array.getD i d) := by
  have hmod : i % 2 ^ 64 = i := Nat.mod_eq_of_lt (Nat.lt_of_lt_of_le hi hsize)
  have hget : array[i % 2 ^ 64]? = some (array.getD i d) := by
    rw [hmod, List.getElem?_eq_getElem hi]
    simp [hi]
  rw [fetch, hget]

theorem assign_within {V : Nat → Access ε β} (l : List (Assignment ε β)) : ∀ {array : List β}, array.length ≤ 2 ^ 64 →
    (∀ a ∈ l, a.index < array.length ∧ a.value = V a.index ∧ (V a.index).Inside) →
    (assign l array).Within fun array' => array'.length = array.length ∧
      ∀ i, (∃ a ∈ l, a.index = i) ∨ (∃ b, V i = .ok b ∧ array[i]? = some b) →
        ∃ b, V i = .ok b ∧ array'[i]? = some b := by
  induction l with
  | nil =>
    intro array _ _
    refine .ok ⟨rfl, fun i hi => hi.resolve_left ?_⟩
    rintro ⟨a, ha, -⟩
    cases ha
  | cons a l ih =>
    intro array hsize hl
    obtain ⟨hindex, hvalue, hinside⟩ := hl a List.mem_cons_self
    have hmod : a.index % 2 ^ 64 = a.index := Nat.mod_eq_of_lt (Nat.lt_of_lt_of_le hindex hsize)
    simp only [assign, hvalue]
    cases hb : V a.index with
    | error fault =>
      rw [hb] at hinside
      exact hinside
    | ok b =>
      have hlength : (array.set a.index b).length = array.length := List.length_set
      have hstore : (store array a.index b : Access ε (List β)) = .ok (array.set a.index b) := by
        rw [store, hmod, if_pos hindex]
      have hrest := @ih (array.set a.index b) (hlength ▸ hsize) fun c hc =>
        hlength ▸ hl c (List.mem_cons_of_mem a hc)
      simp only [bind, Except.bind, hstore]
      refine hrest.mono fun array' h => ⟨h.1.trans hlength, fun i hi => h.2 i ?_⟩
      by_cases hsame : a.index = i
      · subst hsame
        exact .inr ⟨b, hb, List.getElem?_set_self hindex⟩
      · rcases hi with ⟨c, hc, hci⟩ | ⟨c, hc, hci⟩
        · rcases List.mem_cons.mp hc with rfl | hc
          · exact absurd hci hsame
          · exact .inl ⟨c, hc, hci⟩
        · exact .inr ⟨c, hc, by rw [List.getElem?_set_ne hsame, hci]⟩

theorem assign_total {F : Nat → β} (l : List (Assignment ε β)) {array : List β} (hsize : array.length ≤ 2 ^ 64)
    (hl : ∀ a ∈ l, a.index < array.length ∧ a.value = .ok (F a.index)) :
    (assign l array).Within fun array' => array'.length = array.length ∧
      ∀ a ∈ l, array'[a.index]? = some (F a.index) := by
  refine (assign_within (V := fun i => .ok (F i)) l hsize fun a ha => ⟨(hl a ha).1, (hl a ha).2, trivial⟩).mono
    fun array' h => ⟨h.1, fun a ha => ?_⟩
  obtain ⟨b, hb, hvalue⟩ := h.2 a.index (.inl ⟨a, ha, rfl⟩)
  rw [hvalue, ← Except.ok.inj hb]

end Access

end WotAv.Lib
