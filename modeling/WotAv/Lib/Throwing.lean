import Mathlib.Data.List.Forall2
import Mathlib.Order.Defs.Unbundled

/-!
# Computations that keep their state when they throw

`Keeps r m`: whatever the outcome of `m`, its state is `r`-related to the
state it began in.
-/

namespace WotAv.Lib

theorem except_bind_ok {ε α β : Type} {x : Except ε α} {f : α → Except ε β} {b : β} (h : (x >>= f) = .ok b) :
    ∃ a, x = .ok a ∧ f a = .ok b := by
  cases x with
  | error e => cases h
  | ok a => exact ⟨a, rfl, h⟩

theorem except_mapM_cons {ε α β : Type*} {f : α → Except ε β} {a : α} {l : List α} {bs : List β} :
    (a :: l).mapM f = .ok bs ↔ ∃ b bs', f a = .ok b ∧ l.mapM f = .ok bs' ∧ bs = b :: bs' := by
  rw [List.mapM_cons]
  cases f a with
  | error e => simp [bind, Except.bind]
  | ok b => cases l.mapM f <;> simp [bind, Except.bind, pure, Except.pure, eq_comm]

theorem except_mapM_ok {ε α β : Type} {f : α → Except ε β} {l : List α} {bs : List β} (h : l.mapM f = .ok bs) :
    List.Forall₂ (fun a b => f a = .ok b) l bs := by
  induction l generalizing bs with
  | nil =>
    obtain rfl := Except.ok.inj h
    exact .nil
  | cons a l ih =>
    obtain ⟨b, bs', hb, hbs, rfl⟩ := except_mapM_cons.mp h
    exact .cons hb (ih hbs)

theorem except_mem_mapM {ε α β : Type} {f : α → Except ε β} {l : List α} {bs : List β} (h : l.mapM f = .ok bs) {b : β}
    (hb : b ∈ bs) : ∃ a ∈ l, f a = .ok b := by
  induction l generalizing bs with
  | nil =>
    obtain rfl := Except.ok.inj h
    cases hb
  | cons a l ih =>
    obtain ⟨b', bs', hb', hbs, rfl⟩ := except_mapM_cons.mp h
    rcases List.mem_cons.mp hb with rfl | hb
    · exact ⟨a, List.mem_cons_self, hb'⟩
    · obtain ⟨a', ha', hb⟩ := ih hbs hb
      exact ⟨a', List.mem_cons_of_mem _ ha', hb⟩

def Throws {ε α : Type} (P : ε → Prop) (x : Except ε α) : Prop := ∀ e, x = .error e → P e

namespace Throws

variable {ε ε' α β : Type} {P : ε → Prop}

@[simp] theorem ok (a : α) : Throws P (.ok a : Except ε α) := nofun

@[simp] theorem error {e : ε} : Throws P (.error e : Except ε α) ↔ P e :=
  ⟨fun h => h e rfl, fun h _ he => (Except.error.inj he) ▸ h⟩

variable {f : α → Except ε β}

theorem bind {x : Except ε α} (hx : Throws P x) (hf : ∀ a, x = .ok a → Throws P (f a)) :
    Throws P (x >>= f) := by
  cases x with
  | error e => exact error.mpr (hx e rfl)
  | ok a => exact hf a rfl

theorem mapM (hf : ∀ a, Throws P (f a)) (l : List α) : Throws P (l.mapM f) := by
  induction l with
  | nil => exact ok _
  | cons a l ih =>
    rw [List.mapM_cons]
    exact (hf a).bind fun _ _ => ih.bind fun _ _ => ok _

theorem mapM_option (hf : ∀ a, Throws P (f a)) (o : Option α) : Throws P (o.mapM f) := by
  cases o with
  | none => exact ok _
  | some a =>
    rw [Option.mapM_some]
    exact (hf a).bind fun _ _ => ok _

theorem mapError {Q : ε' → Prop} {x : Except ε α} {g : ε → ε'} (hx : Throws P x) (hg : ∀ e, P e → Q (g e)) :
    Throws Q (x.mapError g) := by
  cases x with
  | error e => exact error.mpr (hg e (hx e rfl))
  | ok a => exact ok a

end Throws

def Throwing (ε σ α : Type) : Type := σ → Except ε α × σ

namespace Throwing

variable {ε σ α β : Type}

instance : Monad (Throwing ε σ) where
  pure a s := (.ok a, s)
  bind m f s := match m s with
    | (.ok a, s') => f a s'
    | (.error e, s') => (.error e, s')

def throw (e : ε) : Throwing ε σ α := fun s => (.error e, s)

def get : Throwing ε σ σ := fun s => (.ok s, s)

def modify (f : σ → σ) : Throwing ε σ Unit := fun s => (.ok (), f s)

def lift (r : Except ε α) : Throwing ε σ α := fun s => (r, s)

@[simp] theorem run_pure (a : α) (s : σ) : (pure a : Throwing ε σ α) s = (.ok a, s) := rfl

@[simp] theorem run_throw (e : ε) (s : σ) : (throw e : Throwing ε σ α) s = (.error e, s) := rfl

@[simp] theorem run_get (s : σ) : (get : Throwing ε σ σ) s = (.ok s, s) := rfl

@[simp] theorem run_modify (f : σ → σ) (s : σ) : (modify f : Throwing ε σ Unit) s = (.ok (), f s) := rfl

@[simp] theorem run_lift (r : Except ε α) (s : σ) : (lift r : Throwing ε σ α) s = (r, s) := rfl

theorem run_bind (m : Throwing ε σ α) (f : α → Throwing ε σ β) (s : σ) : (m >>= f) s = match m s with
    | (.ok a, s') => f a s'
    | (.error e, s') => (.error e, s') := rfl

@[simp] theorem run_modify_bind (g : σ → σ) (f : Unit → Throwing ε σ β) (s : σ) :
    (modify g >>= f) s = f () (g s) := rfl

@[simp] theorem run_get_bind (f : σ → Throwing ε σ β) (s : σ) : (get >>= f) s = f s s := rfl

@[simp] theorem run_throw_bind (e : ε) (f : α → Throwing ε σ β) (s : σ) :
    (throw e >>= f) s = (.error e, s) := rfl

@[simp] theorem run_pure_bind (a : α) (f : α → Throwing ε σ β) (s : σ) :
    ((pure a : Throwing ε σ α) >>= f) s = f a s := rfl

theorem bind_cases {m : Throwing ε σ α} {f : α → Throwing ε σ β} {s : σ} {P : Except ε β × σ → Prop}
    (hok : ∀ a s', m s = (.ok a, s') → P (f a s')) (herr : ∀ e s', m s = (.error e, s') → P (.error e, s')) :
    P ((m >>= f) s) := by
  rw [run_bind]
  cases hm : m s with
  | mk r s' =>
    cases r with
    | ok a => exact hok a s' hm
    | error e => exact herr e s' hm

theorem lift_cases {r : Except ε α} {f : α → Throwing ε σ β} {s : σ} {P : Except ε β × σ → Prop}
    (hok : ∀ a, r = .ok a → P (f a s)) (herr : ∀ e, P (.error e, s)) : P ((lift r >>= f) s) := by
  cases r with
  | ok a => exact hok a rfl
  | error e => exact herr e

def Keeps (r : σ → σ → Prop) (m : Throwing ε σ α) : Prop := ∀ s, r s (m s).2

section
variable {r : σ → σ → Prop}

theorem Keeps.pure (hr : ∀ s, r s s) (a : α) : Keeps r (Pure.pure a : Throwing ε σ α) := hr

theorem Keeps.throw (hr : ∀ s, r s s) (e : ε) : Keeps r (throw e : Throwing ε σ α) := hr

theorem Keeps.lift (hr : ∀ s, r s s) (o : Except ε α) : Keeps r (lift o : Throwing ε σ α) := hr

theorem Keeps.get (hr : ∀ s, r s s) : Keeps r (get : Throwing ε σ σ) := hr

theorem Keeps.modify {f : σ → σ} (h : ∀ s, r s (f s)) : Keeps r (modify f : Throwing ε σ Unit) := h

theorem Keeps.bind [IsTrans σ r] {m : Throwing ε σ α} {f : α → Throwing ε σ β} (hm : Keeps r m)
    (hf : ∀ a, Keeps r (f a)) : Keeps r (m >>= f) := by
  intro s
  refine bind_cases (P := fun x => r s x.2) (fun a s' h => ?_) fun e s' h => ?_
  · have h₁ := hm s
    rw [h] at h₁
    exact trans_of r h₁ (hf a s')
  · have h₁ := hm s
    rw [h] at h₁
    exact h₁

theorem Keeps.ok {m : Throwing ε σ α} (hm : Keeps r m) (h : m s = (o, s')) : r s s' := by
  have h₁ := hm s
  rwa [h] at h₁

end

-- Partial correctness, with what may be thrown

/-- From a state with `I`, `m` returns a `Q` in a state with `I`, or throws an
`R`. -/
def Yields (I : σ → Prop) (R : ε → Prop) (m : Throwing ε σ α) (Q : α → Prop) : Prop :=
  ∀ s, I s → match m s with
    | (.ok a, s') => Q a ∧ I s'
    | (.error e, _) => R e

section
variable {I : σ → Prop} {R : ε → Prop} {P : α → Prop} {Q : β → Prop}

theorem Yields.pure {a : α} (h : P a) : Yields I R (Pure.pure a) P := fun _ hs => ⟨h, hs⟩

theorem Yields.bind {m : Throwing ε σ α} {f : α → Throwing ε σ β} (hm : Yields I R m P)
    (hf : ∀ a, P a → Yields I R (f a) Q) : Yields I R (m >>= f) Q := by
  intro s hs
  have h₁ := hm s hs
  rw [run_bind]
  split at h₁ <;> rename_i heq
  · simpa only [heq] using hf _ h₁.1 _ h₁.2
  · simpa only [heq] using h₁

theorem Yields.mono {m : Throwing ε σ α} {P' : α → Prop} (hm : Yields I R m P) (h : ∀ a, P a → P' a) :
    Yields I R m P' := by
  intro s hs
  have h₁ := hm s hs
  split at h₁ <;> rename_i heq
  · exact ⟨h _ h₁.1, h₁.2⟩
  · exact h₁

end

end Throwing

end WotAv.Lib
