import Mathlib.Data.List.Basic

/-!
# Incremental consumers

A consumer takes one item at a time, may emit outputs, and may stop with an
error. Feeding a list is feeding its items in order up to the first error.
A chunked consumer that agrees with an item-wise one on every chunk gives,
on any list of chunks, what the item-wise one gives on their concatenation:
how the input was cut does not matter (`feedAll_chunks`).
-/

namespace WotAv.Lib

structure Fed (σ φ ε : Type*) where
  state : σ
  emitted : List φ
  error : Option ε

namespace Fed

def done (s : σ) : Fed σ φ ε := ⟨s, [], none⟩

def andThen (r : Fed σ φ ε) (next : σ → Fed σ φ ε) : Fed σ φ ε :=
  match r.error with
  | some _ => r
  | none => { next r.state with emitted := r.emitted ++ (next r.state).emitted }

@[simp] theorem done_andThen (s : σ) (next : σ → Fed σ φ ε) : (done s).andThen next = next s := rfl

theorem andThen_ok {r : Fed σ φ ε} {next : σ → Fed σ φ ε} (h : r.error = none) :
    r.andThen next = { next r.state with emitted := r.emitted ++ (next r.state).emitted } := by
  simp [andThen, h]

theorem andThen_assoc (r : Fed σ φ ε) (f g : σ → Fed σ φ ε) :
    (r.andThen f).andThen g = r.andThen fun s => (f s).andThen g := by
  obtain ⟨s, out, err⟩ := r
  cases err with
  | some e => simp [andThen]
  | none =>
    cases h : (f s).error <;> simp [andThen, h]

def map (f : σ → τ) (r : Fed σ φ ε) : Fed τ φ ε := { r with state := f r.state }

@[simp] theorem done_state (s : σ) : (done s : Fed σ φ ε).state = s := rfl
@[simp] theorem done_emitted (s : σ) : (done s : Fed σ φ ε).emitted = [] := rfl
@[simp] theorem done_error (s : σ) : (done s : Fed σ φ ε).error = none := rfl

@[simp] theorem map_state (f : σ → τ) (r : Fed σ φ ε) : (r.map f).state = f r.state := rfl
@[simp] theorem map_emitted (f : σ → τ) (r : Fed σ φ ε) : (r.map f).emitted = r.emitted := rfl
@[simp] theorem map_error (f : σ → τ) (r : Fed σ φ ε) : (r.map f).error = r.error := rfl

theorem map_andThen {f : σ → τ} {r : Fed σ φ ε} {next : σ → Fed σ φ ε} {next' : τ → Fed τ φ ε}
    (h : (next r.state).map f = next' (f r.state)) :
    (r.andThen next).map f = (r.map f).andThen next' := by
  obtain ⟨s, out, err⟩ := r
  cases err with
  | some e => rfl
  | none =>
    simp only [andThen, map] at h ⊢
    rw [← h]

end Fed

section
variable {σ φ ε β : Type*} (feed : σ → β → Fed σ φ ε)

def feedAll : σ → List β → Fed σ φ ε
  | s, [] => .done s
  | s, b :: bs => (feed s b).andThen fun s' => feedAll s' bs

@[simp] theorem feedAll_nil (s : σ) : feedAll feed s [] = .done s := rfl

@[simp] theorem feedAll_cons (s : σ) (b : β) (bs : List β) :
    feedAll feed s (b :: bs) = (feed s b).andThen fun s' => feedAll feed s' bs := rfl

theorem feedAll_append (s : σ) (bs cs : List β) :
    feedAll feed s (bs ++ cs) = (feedAll feed s bs).andThen fun s' => feedAll feed s' cs := by
  induction bs generalizing s with
  | nil => rfl
  | cons b bs ih =>
    simp only [List.cons_append, feedAll_cons, Fed.andThen_assoc, ih]

theorem feedAll_keeps {P : σ → Prop} (hstep : ∀ s b, P s → P (feed s b).state) :
    ∀ (bs : List β) (s : σ), P s → P (feedAll feed s bs).state := by
  intro bs
  induction bs with
  | nil => exact fun s hs => hs
  | cons b bs ih =>
    intro s hs
    rw [feedAll_cons, Fed.andThen]
    cases h : (feed s b).error with
    | some e => exact hstep s b hs
    | none => exact ih _ (hstep s b hs)

theorem feedAll_chunks {P : σ → Prop} {push : σ → List β → Fed σ φ ε}
    (hstep : ∀ s b, P s → P (feed s b).state)
    (hpush : ∀ s bs, P s → push s bs = feedAll feed s bs) :
    ∀ (chunks : List (List β)) (s : σ), P s →
      feedAll push s chunks = feedAll feed s chunks.flatten := by
  intro chunks
  induction chunks with
  | nil => intro s _; rfl
  | cons c cs ih =>
    intro s hs
    rw [feedAll_cons, hpush s c hs, List.flatten_cons, feedAll_append]
    have hs' := feedAll_keeps feed hstep c s hs
    cases h : (feedAll feed s c).error with
    | some e => simp [Fed.andThen, h]
    | none => simp [Fed.andThen, h, ih _ hs']

end

theorem feedAll_map {feed : σ → β → Fed σ φ ε} {feed' : τ → γ → Fed τ φ ε} {f : σ → τ} {g : β → γ}
    {P : σ → Prop} (hkeep : ∀ s b, P s → P (feed s b).state)
    (hstep : ∀ s b, P s → (feed s b).map f = feed' (f s) (g b)) :
    ∀ (bs : List β) (s : σ), P s → (feedAll feed s bs).map f = feedAll feed' (f s) (bs.map g) := by
  intro bs
  induction bs with
  | nil => intro s _; rfl
  | cons b bs ih =>
    intro s hs
    rw [feedAll_cons, List.map_cons, feedAll_cons, ← hstep s b hs]
    exact Fed.map_andThen (ih _ (hkeep s b hs))

end WotAv.Lib
