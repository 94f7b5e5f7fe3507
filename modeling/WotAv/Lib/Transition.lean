import Mathlib.Data.List.Induction

/-!
# Labelled transition systems

Runs of a system, the invariant rule, and systems whose steps are limited
by a condition on the state before the step. A simulation carries every run
of the concrete system to a run of the abstract one.
-/

namespace WotAv.Lib

structure System (σ ι : Type*) where
  init : σ → Prop
  step : σ → ι → σ → Prop

namespace System

variable {σ ι τ κ : Type*}

inductive Run (m : System σ ι) : σ → List ι → σ → Prop
  | nil : Run m s [] s
  | snoc : Run m s labels s' → m.step s' i s'' → Run m s (labels ++ [i]) s''

def Reachable (m : System σ ι) (s : σ) : Prop := ∃ s₀ labels, m.init s₀ ∧ m.Run s₀ labels s

variable {m : System σ ι}

theorem Reachable.start (h : m.init s) : m.Reachable s := ⟨s, [], h, .nil⟩

theorem Reachable.next (h : m.Reachable s) (hs : m.step s i s') :
    m.Reachable s' := by
  obtain ⟨s₀, labels, h₀, hr⟩ := h
  exact ⟨s₀, _, h₀, hr.snoc hs⟩

theorem Run.keeps {P : σ → Prop} (hstep : ∀ s i s', P s → m.step s i s' → P s')
    (hr : m.Run s labels s') (hs : P s) : P s' := by
  induction hr with
  | nil => exact hs
  | snoc _ hi ih => exact hstep _ _ _ ih hi

/-- The invariant rule. -/
theorem Reachable.invariant {P : σ → Prop} (hinit : ∀ s, m.init s → P s)
    (hstep : ∀ s i s', P s → m.step s i s' → P s') (h : m.Reachable s) : P s := by
  obtain ⟨s₀, labels, h₀, hr⟩ := h
  exact hr.keeps hstep (hinit s₀ h₀)

/-- The system whose steps all meet `ok`, a condition on the state before
the step and its label. -/
def when (m : System σ ι) (ok : σ → ι → Prop) : System σ ι where
  init := m.init
  step s i s' := ok s i ∧ m.step s i s'

theorem Reachable.mono {ok ok' : σ → ι → Prop} (hok : ∀ s i, ok s i → ok' s i)
    (h : (m.when ok).Reachable s) :
    (m.when ok').Reachable s := by
  obtain ⟨s₀, labels, h₀, hr⟩ := h
  refine Run.keeps (P := (m.when ok').Reachable) ?_ hr (.start h₀)
  intro s i s' hs hi
  have hi : ok s i ∧ m.step s i s' := hi
  exact hs.next ⟨hok s i hi.1, hi.2⟩

def ofFun (init : σ → Prop) (step : σ → ι → σ) : System σ ι where
  init := init
  step s i s' := s' = step s i

variable {init : σ → Prop} {step : σ → ι → σ}

theorem run_ofFun :
    (ofFun init step).Run s labels s' ↔ s' = labels.foldl step s := by
  constructor
  · intro h
    induction h with
    | nil => rfl
    | snoc _ hi ih => rw [List.foldl_append, ← ih]; exact hi
  · rintro rfl
    induction labels using List.reverseRecOn with
    | nil => exact .nil
    | append_singleton labels i ih => rw [List.foldl_append]; exact ih.snoc rfl

variable {ok : σ → ι → Prop}

theorem Reachable.foldl (labels : List ι)
    (hok : ∀ i ∈ labels, ∀ s, ok s i) :
    ∀ s, ((ofFun init step).when ok).Reachable s → ((ofFun init step).when ok).Reachable (labels.foldl step s) := by
  induction labels with
  | nil => exact fun s hs => hs
  | cons i labels ih =>
    intro s hs
    exact ih (fun j hj => hok j (List.mem_cons_of_mem _ hj)) _ (hs.next ⟨hok i List.mem_cons_self s, rfl⟩)

def follows (step : σ → ι → σ) (ok : σ → ι → Prop) [∀ s i, Decidable (ok s i)] : σ → List ι → Bool
  | _, [] => true
  | s, i :: labels => decide (ok s i) && follows step ok (step s i) labels

theorem Reachable.follows [∀ s i, Decidable (ok s i)]
    (labels : List ι) : ∀ s, ((ofFun init step).when ok).Reachable s → System.follows step ok s labels →
      ((ofFun init step).when ok).Reachable (labels.foldl step s) := by
  induction labels with
  | nil => exact fun s hs _ => hs
  | cons i labels ih =>
    intro s hs hf
    rw [System.follows, Bool.and_eq_true, decide_eq_true_eq] at hf
    exact ih _ (hs.next ⟨hf.1, rfl⟩) hf.2

/-- Some step of the run that the labels make meets the condition. -/
def Happened (step : σ → ι → σ) (E : σ → ι → Prop) (s : σ) (labels : List ι) : Prop :=
  ∃ before i after, labels = before ++ i :: after ∧ E (before.foldl step s) i

theorem Happened.snoc {E : σ → ι → Prop} (h : Happened step E s labels) (i : ι) :
    Happened step E s (labels ++ [i]) := by
  obtain ⟨before, j, after, rfl, hj⟩ := h
  exact ⟨before, j, after ++ [i], by simp, hj⟩

theorem Happened.last {E : σ → ι → Prop} (h : E (labels.foldl step s) i) :
    Happened step E s (labels ++ [i]) := ⟨labels, i, [], rfl, h⟩

theorem happened_snoc {E : σ → ι → Prop} (h : Happened step E s (labels ++ [i])) :
    Happened step E s labels ∨ E (labels.foldl step s) i := by
  obtain ⟨before, j, after, he, hj⟩ := h
  rcases List.eq_nil_or_concat after with rfl | ⟨after, k, rfl⟩
  · obtain ⟨hl, hi⟩ := List.append_inj' he rfl
    rw [hl, List.singleton_inj.mp hi]
    exact .inr hj
  · rw [List.concat_eq_append, ← List.cons_append, ← List.append_assoc] at he
    exact .inl ⟨before, j, after, (List.append_inj' he rfl).1, hj⟩

theorem Run.foldl
    (h : ((ofFun init step).when ok).Run s labels s') : s' = labels.foldl step s := by
  induction h with
  | nil => rfl
  | snoc _ hi ih =>
    rw [List.foldl_append, ← ih]
    exact hi.2

theorem Run.happened {ok E : σ → ι → Prop} {P Q : σ → Prop}
    (h : ((ofFun init step).when ok).Run s labels s') (hs : P s) (hn : ¬Q s)
    (hkeep : ∀ s i, P s → ok s i → P (step s i)) (hstep : ∀ s i, P s → Q (step s i) → Q s ∨ E s i) (hq : Q s') :
    Happened step E s labels := by
  induction h with
  | nil => exact absurd hq hn
  | snoc hr hi ih =>
    have hp := hr.keeps (P := P) (fun s i s' hs (hi : ok s i ∧ s' = step s i) => hi.2 ▸ hkeep s i hs hi.1) hs
    obtain ⟨-, he⟩ := hi
    obtain rfl := he
    rcases hstep _ _ hp hq with hq | he
    · exact (ih hq).snoc _
    · rw [hr.foldl] at he
      exact .last he

theorem Run.lasting {ok E : σ → ι → Prop} {P Q : σ → Prop}
    (h : ((ofFun init step).when ok).Run s labels s') (hs : P s)
    (hkeep : ∀ s i, P s → ok s i → P (step s i)) (hstep : ∀ s i, P s → E s i → Q (step s i))
    (hlast : ∀ s i, P s → Q s → Q (step s i)) (he : Happened step E s labels) : Q s' := by
  induction h with
  | nil =>
    obtain ⟨before, i, after, hn, -⟩ := he
    cases before <;> cases hn
  | snoc hr hi ih =>
    have hp := hr.keeps (P := P) (fun s i s' hs (hi : ok s i ∧ s' = step s i) => hi.2 ▸ hkeep s i hs hi.1) hs
    obtain ⟨-, hi⟩ := hi
    obtain rfl := hi
    rcases happened_snoc he with he | he
    · exact hlast _ _ hp (ih he)
    · rw [← hr.foldl] at he
      exact hstep _ _ hp he

theorem follows_snoc [∀ s i, Decidable (ok s i)] (labels : List ι) :
    ∀ s, System.follows step ok s (labels ++ [i]) → System.follows step ok s labels ∧ ok (labels.foldl step s) i := by
  induction labels with
  | nil =>
    intro s h
    simpa [System.follows] using h
  | cons j labels ih =>
    intro s h
    rw [List.cons_append, System.follows, Bool.and_eq_true] at h
    obtain ⟨h₁, h₂⟩ := ih _ h.2
    exact ⟨by rw [System.follows, h.1, h₁]; rfl, h₂⟩

theorem run_follows [∀ s i, Decidable (ok s i)]
    (labels : List ι) (h : System.follows step ok s labels) :
    ((ofFun init step).when ok).Run s labels (labels.foldl step s) := by
  induction labels using List.reverseRecOn with
  | nil => exact .nil
  | append_singleton labels i ih =>
    obtain ⟨h₁, h₂⟩ := follows_snoc labels s h
    rw [List.foldl_append]
    exact (ih h₁).snoc ⟨h₂, rfl⟩

def ofPartial (init : σ → Prop) (step : σ → ι → Option σ) : System σ ι where
  init := init
  step s i s' := step s i = some s'

def path (step : σ → ι → Option σ) : σ → List ι → Option σ
  | s, [] => some s
  | s, i :: labels => (step s i).bind fun s' => path step s' labels

theorem Reachable.path_when {step : σ → ι → Option σ} (labels : List ι)
    (hok : ∀ i ∈ labels, ∀ s, ok s i) :
    ∀ s s', ((ofPartial init step).when ok).Reachable s → path step s labels = some s' →
      ((ofPartial init step).when ok).Reachable s' := by
  induction labels with
  | nil =>
    intro s s' hs hp
    exact Option.some.inj hp ▸ hs
  | cons i labels ih =>
    intro s s' hs hp
    obtain ⟨s₁, hi, hp⟩ := Option.bind_eq_some_iff.mp hp
    exact ih (fun j hj => hok j (List.mem_cons_of_mem _ hj)) s₁ s' (hs.next ⟨hok i List.mem_cons_self s, hi⟩) hp

theorem Reachable.path {step : σ → ι → Option σ} (labels : List ι) :
    ∀ s s', (ofPartial init step).Reachable s → System.path step s labels = some s' →
      (ofPartial init step).Reachable s' := by
  induction labels with
  | nil =>
    intro s s' hs hp
    exact Option.some.inj hp ▸ hs
  | cons i labels ih =>
    intro s s' hs hp
    obtain ⟨s₁, hi, hp⟩ := Option.bind_eq_some_iff.mp hp
    exact ih s₁ s' (hs.next hi) hp

end System

end WotAv.Lib
