import WotAv.Events.Ownership

/-!
# A subscription that stops

What follows once `stop`, `close` or the caller's abort has been processed.
The continuations of a creation, of a renewal and of a recovery do not look
at `stopRequested`: `Halts` says which answers come too late for a stop. With
those out of the way a stopping subscription only ever gets nearer to its
end, one answer that it awaits at a time.
-/

namespace WotAv.Events.OwnedPullPoint

open WotAv.Lib Throwing

-- What a stop rules out

inductive Request
  | create
  | renew (generation : Nat)
  | pull (generation : Nat)
  deriving DecidableEq, Repr

def Request.ofEvent {V X : Type} : Event V X → Option Request
  | .create => some .create
  | .renew g => some (.renew g)
  | .pull g => some (.pull g)
  | _ => none

def requests {V X : Type} (s : OwnedPullPoint V X) : List Request := s.log.filterMap Request.ofEvent

def active {V X : Type} (s : OwnedPullPoint V X) : Bool :=
  [State.creating, .active, .recovering].contains s.currentState

def Loop.rank : Loop → Nat
  | .done => 0
  | .reporting => 1
  | .settling .. => 2
  | .unsubscribed .. => 3
  | .unsubscribing .. => 4
  | .finishing .. => 5
  | .released => 6
  | .releasing => 7
  | .running => 8
  | .created _ => 9
  | .sleeping => 10
  | .pulling _ => 11
  | .renewing _ => 12
  | .synchronizing _ => 13
  | .creating .. => 14
  | .idle => 15

def Delivery.rank {V X : Type} : Delivery V X → Nat
  | .calling _ _ false => 2
  | .calling _ _ true => 1
  | _ => 0

def remaining {V X : Type} (s : OwnedPullPoint V X) : Nat := 3 * Loop.rank s.loop + Delivery.rank s.delivery

def Awaits {V X : Type} (s : OwnedPullPoint V X) : Input V X → Prop
  | .turn => match s.loop with
    | .created _ | .running | .released | .finishing .. | .unsubscribed .. => True
    | .settling .. => Delivery.rank s.delivery = 0
    | _ => False
  | .created .. => ∃ phase started, s.loop = .creating phase started
  | .synchronized _ => ∃ phase, s.loop = .synchronizing phase
  | .renewed _ => ∃ started, s.loop = .renewing started
  | .pulled _ => ∃ started, s.loop = .pulling started
  | .slept _ => s.loop = .sleeping
  | .unsubscribed _ => s.loop = .releasing ∨ ∃ phase error, s.loop = .unsubscribing phase error
  | .reported _ => s.loop = .reporting
  | .listener => (∃ phase errors, s.loop = .settling phase errors) ∧ Delivery.rank s.delivery = 2
  | .delivered _ => (∃ phase errors, s.loop = .settling phase errors) ∧ Delivery.rank s.delivery = 1
  | .deadline _ => (∃ phase errors, s.loop = .settling phase errors) ∧ 1 ≤ Delivery.rank s.delivery
  | .deliveryTurn | .stop => False

variable {V X : Type} {c : Context V X} {s s' : OwnedPullPoint V X}

def Activates (c : Context V X) (started : Int) (result : CreateResult) (authorized : Except Failure Unit)
    (s : OwnedPullPoint V X) : Prop :=
  result.reference = .ok () ∧ authorized = .ok () ∧ (timing c result.timing started s).1 = .ok () ∧
    ¬(c.options.synchronize ∧ c.synchronize)

def extended (c : Context V X) (started : Int) (result : Timing) : M V X Nat := do
  timing c result started
  diagnostic c "SubscriptionRenewed" .info
  available c started

def Extends (c : Context V X) (started : Int) (result : Timing) (s : OwnedPullPoint V X) : Prop :=
  ∃ available s', extended c started result s = (.ok available, s') ∧ min s'.requestTimeout available ≤ 2147483647

/-- A stop comes after `start` and in time: what a stopping subscription goes
through is not an answer that makes it go on, nor a clock that fails before
the result is there. -/
def Halts (c : Context V X) (s : OwnedPullPoint V X) (i : Input V X) : Prop :=
  match i with
  | .stop => s.loop ≠ .idle
  | .created (.ok result) authorized => s.stopRequested → ∀ phase started, s.loop = .creating phase started →
    ¬Activates c started result authorized s
  | .synchronized (.ok ()) => s.stopRequested → ∀ phase, s.loop ≠ .synchronizing phase
  | .renewed (.ok result) => s.stopRequested → ∀ started, s.loop = .renewing started → ¬Extends c started result s
  | .turn => s.stopRequested → match s.loop with
    | .released => c.clock s.ticks = none
    | .unsubscribed .starting _ (some _) => c.clock s.ticks ≠ none
    | .settling phase _ => s.queue = [] ∨ c.clock s.ticks ≠ none ∨ phase = .running ∧ s.currentState = .uncertain
    | _ => True
  | _ => True

-- The part that a stop decides

structure Halt where
  state : State
  stopping : Bool
  stop : Promised
  loop : Loop
  requests : List Request

def halt (s : OwnedPullPoint V X) : Halt :=
  { state := s.currentState, stopping := s.stopRequested, stop := s.stopPromise, loop := s.loop, requests := requests s }

theorem Apart.halt (h : Apart s s') : halt s' = halt s := by
  have hlog : requests s' = requests s := h.filterMap fun e he => by cases e <;> first | rfl | cases he
  have hc := h.1
  simp only [control, owned, Owned.mk.injEq] at hc
  simp [OwnedPullPoint.halt, hlog, hc]

/-- What the state and the promise of `stop` are where a stopping
subscription is suspended. -/
def Concluded (state : State) (stop : Promised) : Loop → Prop
  | .idle => False
  | .settling _ errors => (state = .closing ∨ state = .uncertain ∧ errors ≠ []) ∧ stop = .pending
  | .reporting => (state = .failed ∨ state = .uncertain) ∧ stop = .pending
  | .done => (state = .closed ∨ state = .failed ∨ state = .uncertain) ∧ stop ≠ .pending
  | _ => state = .closing ∧ stop = .pending

def Halt.Inv (h : Halt) : Prop :=
  if h.stopping then Concluded h.state h.stop h.loop else h.stop = .pending ∧ 5 ≤ Loop.rank h.loop

theorem Concluded.early (h : Concluded state stop l) (hl : 3 ≤ Loop.rank l) : state = .closing ∧ stop = .pending := by
  cases l <;> simp_all [Concluded, Loop.rank]

theorem settled_early (hl : 3 ≤ Loop.rank l) (hi : Loop.rank l < 15) : Concluded .closing .pending l := by
  cases l <;> simp_all [Concluded, Loop.rank]

theorem Delivery.rank_le (d : Delivery V X) : Delivery.rank d ≤ 2 := by
  unfold Delivery.rank
  split <;> simp

-- Before the stop

def Calm (s s' : OwnedPullPoint V X) : Prop :=
  s'.stopRequested = s.stopRequested ∧ s'.stopPromise = s.stopPromise ∧
    (5 ≤ Loop.rank s.loop → 5 ≤ Loop.rank s'.loop)

theorem Calm.trans {s₁ s₂ s₃ : OwnedPullPoint V X} (h₁ : Calm s₁ s₂) (h₂ : Calm s₂ s₃) : Calm s₁ s₃ :=
  ⟨h₂.1.trans h₁.1, h₂.2.1.trans h₁.2.1, fun h => h₂.2.2 (h₁.2.2 h)⟩

instance : IsTrans (OwnedPullPoint V X) Calm := ⟨fun _ _ _ => Calm.trans⟩

theorem Calm.refl (s : OwnedPullPoint V X) : Calm s s := ⟨rfl, rfl, id⟩

theorem Calm.set (hs : s'.stopRequested = s.stopRequested) (hp : s'.stopPromise = s.stopPromise)
    (hl : 5 ≤ Loop.rank s'.loop) : Calm s s' := ⟨hs, hp, fun _ => hl⟩

theorem Apart.calm (h : Apart s s') : Calm s s' := by
  have hh := h.halt
  simp only [OwnedPullPoint.halt, Halt.mk.injEq] at hh
  exact ⟨hh.2.1, hh.2.2.1, fun hl => hh.2.2.2.1 ▸ hl⟩

theorem Calm.of_apart {α : Type} {m : M V X α} (h : Keeps Apart m) : Keeps Calm m := fun s => (h s).calm

theorem calm_suspend (hl : 5 ≤ Loop.rank l) : Keeps Calm (suspend l : M V X Unit) := .modify fun _ => .set rfl rfl hl

theorem calm_note (e : Event V X) : Keeps Calm (Throwing.modify (ε := Failure) (note e)) := .modify fun _ => ⟨rfl, rfl, id⟩

theorem calm_create : Keeps Calm (create c phase) :=
  .bind (.of_apart apart_now) fun _ => .bind (calm_note _) fun _ => calm_suspend (by simp [Loop.rank])

theorem calm_activate : Keeps Calm (activate c phase) :=
  .bind (.modify fun _ => ⟨rfl, rfl, id⟩) fun _ => .bind (.of_apart apart_diagnostic) fun _ =>
    calm_suspend (by simp [Loop.rank])

theorem calm_received : Keeps Calm (received c phase started result authorized) := by
  refine .bind (.lift .refl _) fun _ => .bind (.modify fun _ => ⟨rfl, rfl, id⟩) fun _ => ?_
  refine .bind (.modify fun _ => ⟨rfl, rfl, id⟩) fun _ => .bind (.lift .refl _) fun _ => ?_
  refine .bind (.of_apart apart_timing) fun _ => ?_
  split
  · exact .bind (.modify fun _ => ⟨rfl, rfl, id⟩) fun _ => calm_suspend (by simp [Loop.rank])
  · exact calm_activate

theorem calm_recover : Keeps Calm (recover c reason gone) := by
  refine .bind (.of_apart apart_diagnostic) fun _ => .bind (.modify fun _ => ⟨rfl, rfl, id⟩) fun _ => ?_
  refine .bind (.get .refl) fun s => ?_
  split
  · exact .throw .refl _
  · split <;> exact .modify fun _ => .set rfl rfl (by simp [Loop.rank])

theorem calm_restart : Keeps Calm (restart c) := .bind (.modify fun _ => ⟨rfl, rfl, id⟩) fun _ => calm_create

theorem calm_pull : Keeps Calm (pull c started) := by
  refine .bind (.of_apart apart_available) fun available => .bind (.get .refl) fun s => ?_
  split
  · exact .throw .refl _
  · exact .bind (.modify fun _ => ⟨rfl, rfl, id⟩) fun _ => calm_suspend (by simp [Loop.rank])

theorem calm_run : Keeps Calm (run c) := by
  refine .bind (.get .refl) fun s => ?_
  split
  · exact calm_suspend (by simp [Loop.rank])
  · split
    · exact .throw .refl _
    · refine .bind (.of_apart apart_now) fun started => ?_
      split
      · exact .throw .refl _
      · split
        · exact calm_pull
        · split
          · exact calm_recover
          · split
            · exact .bind (.modify fun _ => ⟨rfl, rfl, id⟩) fun _ => calm_suspend (by simp [Loop.rank])
            · exact calm_pull

theorem calm_renewed : Keeps Calm (renewed c started result) := by
  cases result with
  | error e =>
    refine .bind (.get .refl) fun s => ?_
    split
    · exact .bind (.of_apart apart_diagnostic) fun _ => calm_suspend (by simp [Loop.rank])
    · split
      · exact calm_recover
      · exact .bind (.of_apart apart_diagnostic) fun _ => .throw .refl _
  | ok result => exact .bind (.of_apart apart_timing) fun _ => .bind (.of_apart apart_diagnostic) fun _ => calm_pull

theorem calm_pullFailed : Keeps Calm (pullFailed c e) := by
  refine .bind (.get .refl) fun s => ?_
  split
  · exact .throw .refl _
  · split
    · exact .bind (.of_apart apart_diagnostic) fun _ => calm_suspend (by simp [Loop.rank])
    · refine .bind (.of_apart apart_limitFault) fun reduced => ?_
      split
      · exact calm_run
      · split
        · exact calm_recover
        · exact .bind (.of_apart apart_diagnostic) fun _ => .throw .refl _

theorem calm_wait : Keeps Calm (wait c started) := by
  refine .bind (.of_apart apart_now) fun now => ?_
  split
  · exact calm_suspend (by simp [Loop.rank])
  · exact calm_run

theorem calm_pulled : Keeps Calm (pulled c started result) := by
  refine .bind (.of_apart apart_timing) fun _ => .bind (.get .refl) fun s => ?_
  split
  · exact calm_suspend (by simp [Loop.rank])
  · split
    · split
      · exact .throw .refl _
      · split
        · exact .throw .refl _
        · exact .bind (.of_apart (apart_enqueueAll _)) fun _ => calm_wait
    · exact .throw .refl _

theorem calm_slept : Keeps Calm (slept c outcome) := by
  cases outcome with
  | ok => exact calm_run
  | error e =>
    refine .bind (.get .refl) fun s => ?_
    split
    · exact .throw .refl _
    · split
      · exact calm_run
      · exact .throw .refl _

theorem calm_releaseDone : Keeps Calm (releaseDone c outcome) := by
  cases outcome with
  | ok => exact .modify fun _ => ⟨rfl, rfl, id⟩
  | error e =>
    unfold releaseDone
    dsimp only
    split
    · exact .bind (.modify fun _ => ⟨rfl, rfl, id⟩) fun _ => .of_apart apart_diagnostic
    · exact .throw .refl _

theorem calm_raise (hm : Keeps Calm m) (s : OwnedPullPoint V X) : Calm s (raise phase m s) := by
  have h := hm s
  unfold raise
  split <;> rename_i heq <;> rw [heq] at h
  · exact h
  · exact .set h.1 h.2.1 (by simp [Loop.rank])

theorem calm_learn {α : Type} (result : Except Failure α) (s : OwnedPullPoint V X) : Calm s (learn result s) := by
  unfold learn
  split
  · split <;> exact ⟨rfl, rfl, id⟩
  · exact .refl s

-- What `timing` depends on

def Alike (s s' : OwnedPullPoint V X) : Prop :=
  s'.currentLease = s.currentLease ∧ s'.serverOffset = s.serverOffset ∧ s'.ticks = s.ticks

def Clocked {α : Type} (m : M V X α) : Prop := ∀ s s', Alike s s' → (m s').1 = (m s).1 ∧ Alike (m s).2 (m s').2

theorem Clocked.bind {α β : Type} {m : M V X α} {f : α → M V X β} (hm : Clocked m) (hf : ∀ a, Clocked (f a)) :
    Clocked (m >>= f) := by
  intro s s' h
  obtain ⟨h₁, h₂⟩ := hm s s' h
  rw [run_bind, run_bind]
  generalize m s = r at h₁ h₂
  generalize m s' = r' at h₁ h₂
  obtain ⟨r, s₁⟩ := r
  obtain ⟨r', s₁'⟩ := r'
  obtain rfl : r' = r := h₁
  cases r' with
  | ok a => exact hf a s₁ s₁' h₂
  | error e => exact ⟨rfl, h₂⟩

theorem Clocked.get {β : Type} {f : OwnedPullPoint V X → M V X β}
    (hf : ∀ s s', Alike s s' → (f s' s').1 = (f s s).1 ∧ Alike (f s s).2 (f s' s').2) : Clocked (.get >>= f) := hf

theorem Clocked.lift {α : Type} (r : Except Failure α) : Clocked (.lift r : M V X α) := fun _ _ h => ⟨rfl, h⟩

theorem Clocked.throw {α : Type} (e : Failure) : Clocked (.throw e : M V X α) := fun _ _ h => ⟨rfl, h⟩

theorem clocked_now : Clocked (now c) := by
  refine .get fun s s' h => ?_
  obtain ⟨hl, ho, ht⟩ := h
  simp only [run_modify_bind, ht]
  cases c.clock s.ticks <;> exact ⟨rfl, hl, ho, by simp⟩

theorem clocked_diagnostic : Clocked (diagnostic c code severity) := by
  refine .bind (fun _ _ h => ⟨rfl, h⟩) fun _ => .bind (fun _ _ h => ⟨rfl, h⟩) fun _ => ?_
  exact .bind (fun _ _ h => ⟨rfl, h⟩) fun _ => .bind clocked_now fun _ => fun _ _ h => ⟨rfl, h⟩

theorem clocked_setOffset : Clocked (.modify fun s => { s with serverOffset := offset } : M V X Unit) :=
  fun _ _ h => ⟨rfl, h.1, rfl, h.2.2⟩

theorem clocked_timingCurrent : Clocked (timingCurrent c current started) := by
  cases current with
  | text current =>
    refine .bind (.lift _) fun server => .get fun s s' h => ?_
    rw [h.1]
    cases s.currentLease with
    | none => exact clocked_setOffset s s' h
    | some lease =>
      refine Clocked.bind (.lift _) (fun previous => ?_) s s' h
      split
      · exact .bind clocked_diagnostic fun _ => clocked_setOffset
      · exact clocked_setOffset
  | _ => exact fun _ _ h => ⟨rfl, h⟩

theorem clocked_timing : Clocked (timing c result started) := by
  unfold timing
  split
  · exact .throw _
  · split
    · exact .throw _
    · split
      · exact .throw _
      · refine .bind clocked_timingCurrent fun _ => .get fun s s' h => ?_
        simp only [h.1, h.2.1]
        have hend (termination : Member) (offset : Int) (currentTime : String) : Clocked (V := V) (X := X) (do
            let _ ← now c
            let granted ← .lift (expiresAt c termination offset)
            .modify fun s => { s with currentLease := some ⟨currentTime, granted.1, granted.2⟩ }) :=
          .bind clocked_now fun _ => .bind (.lift _) fun _ => fun _ _ h => ⟨rfl, rfl, h.2⟩
        cases s.serverOffset with
        | none => exact ⟨rfl, h⟩
        | some offset =>
          split
          · exact hend _ offset _ s s' h
          · cases s.currentLease with
            | none => exact ⟨rfl, h⟩
            | some lease => exact hend _ offset _ s s' h

-- After the stop

def Onward (s s' : OwnedPullPoint V X) : Prop :=
  ∃ l, halt s' = { halt s with loop := l } ∧ 3 ≤ Loop.rank l ∧ Loop.rank l < Loop.rank s.loop

def Ends (s : OwnedPullPoint V X) : Except Failure Unit × OwnedPullPoint V X → Prop
  | (.ok _, s') => Onward s s'
  | (.error _, s') => halt s' = halt s

theorem Ends.aside {α : Type} {m : M V X α} {f : α → M V X Unit} (hm : Keeps Apart m) (hh : halt s' = halt s)
    (hf : ∀ a s₁, m s' = (.ok a, s₁) → halt s₁ = halt s → Ends s (f a s₁)) : Ends s ((m >>= f) s') := by
  refine bind_cases (P := Ends s) (fun a s₁ h => ?_) fun e s₁ h => ?_
  · exact hf a s₁ h ((hm.ok h).halt.trans hh)
  · exact (hm.ok h).halt.trans hh

theorem Ends.suspend (hh : halt s' = halt s) (hl : 3 ≤ Loop.rank l) (hr : Loop.rank l < Loop.rank s.loop) :
    Ends s ((OwnedPullPoint.suspend l : M V X Unit) s') := by
  refine ⟨l, ?_, hl, hr⟩
  rw [← hh]
  rfl

theorem Ends.raise (h : Ends s (m s')) (hl : 5 < Loop.rank s.loop) : Onward s (raise phase m s') := by
  unfold OwnedPullPoint.raise
  split
  · rename_i heq
    rw [heq] at h
    exact h
  · rename_i e s₁ heq
    rw [heq] at h
    have hh : halt s₁ = halt s := h
    refine ⟨.finishing phase (some e), ?_, by simp [Loop.rank], hl⟩
    rw [← hh]
    rfl

theorem stopping_of_halt (hh : halt s' = halt s) (hs : s.stopRequested) : s'.stopRequested :=
  (congrArg Halt.stopping hh).trans hs

theorem run_ends (hh : halt s' = halt s) (hs : s.stopRequested) (hl : 5 < Loop.rank s.loop) :
    Ends s (run c s') := by
  simp only [run, run_get_bind, stopping_of_halt hh hs, if_true]
  exact .suspend hh (by simp [Loop.rank]) hl

theorem received_ends (hs : halt s' = halt s) (ha : ¬Activates c started result authorized s')
    (hl : s.loop = .creating phase started) : Ends s (received c phase started result authorized s') := by
  refine lift_cases (P := Ends s) (fun _ hr => ?_) fun _ => hs
  rw [run_modify_bind, run_modify_bind]
  refine lift_cases (P := Ends s) (fun _ hauth => ?_) fun _ => ?_
  · generalize hreg : note _ _ = s₁
    have hh₁ : halt s₁ = halt s := by
      rw [← hs, ← hreg]
      simp [halt, note, requests, Request.ofEvent]
    have halike : Alike s' s₁ := by rw [← hreg]; exact ⟨rfl, rfl, rfl⟩
    refine .aside apart_timing hh₁ fun _ s₂ ht hh₂ => ?_
    split
    · rw [run_modify_bind]
      refine .suspend (l := .synchronizing phase) ?_ (by simp [Loop.rank]) (by simp [Loop.rank, hl])
      rw [← hh₂]
      simp [halt, note, requests, Request.ofEvent]
    · rename_i hsync
      refine absurd ⟨hr, hauth, ?_, hsync⟩ ha
      rw [← (clocked_timing s' s₁ halike).1, ht]
  · change halt (note _ _) = halt s
    rw [← hs]
    simp [halt, note, requests, Request.ofEvent]

theorem renewed_ends (hh : halt s' = halt s) (hs : s.stopRequested) (hl : s.loop = .renewing started)
    (he : ∀ timing, result = .ok timing → ¬Extends c started timing s') : Ends s (renewed c started result s') := by
  have hfinish : Loop.rank (.finishing .running none) < Loop.rank s.loop := by simp [hl, Loop.rank]
  cases result with
  | error e =>
    simp only [renewed, run_get_bind, stopping_of_halt hh hs, if_true]
    exact .aside apart_diagnostic hh fun _ _ _ hh₁ => .suspend hh₁ (by simp [Loop.rank]) hfinish
  | ok result =>
    refine .aside apart_timing hh fun _ s₁ h₁ hh₁ => .aside apart_diagnostic hh₁ fun _ s₂ h₂ hh₂ => ?_
    refine .aside apart_available hh₂ fun available s₃ h₃ hh₃ => ?_
    simp only [run_get_bind]
    split
    · exact hh₃
    · rename_i hmin
      refine absurd ⟨available, s₃, ?_, Nat.not_lt.mp hmin⟩ (he result rfl)
      simp only [extended, run_bind, h₁, h₂, h₃]

theorem pullFailed_ends (hh : halt s' = halt s) (hs : s.stopRequested) (hl : s.loop = .pulling started) :
    Ends s (pullFailed c e s') := by
  simp only [pullFailed, run_get_bind, stopping_of_halt hh hs, if_true]
  cases s'.deliveryFailure with
  | some failure => exact hh
  | none => exact .aside apart_diagnostic hh fun _ _ _ hh₁ => .suspend hh₁ (by simp [Loop.rank]) (by simp [hl, Loop.rank])

theorem pulled_ends (hh : halt s' = halt s) (hs : s.stopRequested) (hl : s.loop = .pulling started) :
    Ends s (pulled c started result s') := by
  refine .aside apart_timing hh fun _ s₁ _ hh₁ => ?_
  simp only [run_get_bind, stopping_of_halt hh₁ hs, if_true]
  exact .suspend hh₁ (by simp [Loop.rank]) (by simp [hl, Loop.rank])

theorem slept_ends (hh : halt s' = halt s) (hs : s.stopRequested) (hl : s.loop = .sleeping) :
    Ends s (slept c outcome s') := by
  have hrank : 5 < Loop.rank s.loop := by simp [hl, Loop.rank]
  cases outcome with
  | ok => exact run_ends hh hs hrank
  | error e =>
    simp only [slept, run_get_bind, stopping_of_halt hh hs, if_true]
    cases s'.deliveryFailure with
    | some failure => exact hh
    | none => exact run_ends hh hs hrank

theorem releaseDone_halt (outcome : Except Failure Unit) (s : OwnedPullPoint V X) :
    halt (releaseDone c outcome s).2 = halt s := by
  cases outcome with
  | ok => rfl
  | error e =>
    unfold releaseDone
    dsimp only
    split
    · exact (apart_diagnostic { s with endpointGone := true }).halt
    · rfl

theorem learn_halt {α : Type} (result : Except Failure α) (s : OwnedPullPoint V X) :
    halt (learn result s) = halt s := by
  unfold learn
  split
  · split
    · simp [halt, note, requests, Request.ofEvent]
    · rfl
  · rfl

theorem learnRelease_halt (outcome : Except Failure Unit) (s : OwnedPullPoint V X) :
    halt (learnRelease outcome s) = halt s := by
  cases outcome with
  | ok => simp [learnRelease, halt, note, requests, Request.ofEvent]
  | error e => exact learn_halt _ s

-- Steps

structure Kept (s s' : OwnedPullPoint V X) : Prop where
  stopping : s'.stopRequested
  requests : requests s' = requests s
  state : s.currentState ≠ .closing → s'.currentState = s.currentState
  stop : s.stopPromise ≠ .pending → s'.stopPromise = s.stopPromise

structure Advances (s s' : OwnedPullPoint V X) : Prop where
  kept : Kept s s'
  settled : Concluded s'.currentState s'.stopPromise s'.loop
  rank : Loop.rank s'.loop < Loop.rank s.loop

structure Stays (s s' : OwnedPullPoint V X) (i : Input V X) : Prop where
  halt : halt s' = halt s
  rank : Delivery.rank s'.delivery ≤ Delivery.rank s.delivery
  awaited : Awaits s i → Delivery.rank s'.delivery < Delivery.rank s.delivery

theorem Stays.refl (h : ¬Awaits s i) : Stays s s i := ⟨rfl, Nat.le_refl _, fun ha => absurd ha h⟩

theorem Onward.advances (h : Onward s s') (hs : s.stopRequested) (hset : Concluded s.currentState s.stopPromise s.loop)
    (hl : 3 ≤ Loop.rank s.loop) : Advances s s' := by
  obtain ⟨l, hh, h₃, hr⟩ := h
  obtain ⟨hstate, hstop⟩ := hset.early hl
  simp only [halt, Halt.mk.injEq] at hh
  obtain ⟨h₁, h₂, h₄, rfl, h₅⟩ := hh
  refine ⟨⟨h₂.trans hs, h₅, fun _ => h₁, fun _ => h₄⟩, ?_, hr⟩
  rw [h₁, h₄, hstate, hstop]
  refine settled_early h₃ (Nat.lt_of_lt_of_le hr ?_)
  cases s.loop <;> simp [Loop.rank]

theorem Advances.set (hs : s'.stopRequested) (hr : requests s' = requests s)
    (hstate : s.currentState ≠ .closing → s'.currentState = s.currentState) (hstop : s.stopPromise = .pending)
    (hset : Concluded s'.currentState s'.stopPromise s'.loop) (hl : Loop.rank s'.loop < Loop.rank s.loop) :
    Advances s s' := ⟨⟨hs, hr, hstate, fun h => absurd hstop h⟩, hset, hl⟩

theorem finish_advances (hl : s.loop = .finishing phase error)
    (hset : Concluded s.currentState s.stopPromise s.loop) : Advances s (finish phase error s) := by
  obtain ⟨hstate, hstop⟩ := hset.early (by simp [hl, Loop.rank])
  unfold finish
  dsimp only
  split
  · exact .set rfl rfl (fun h => absurd hstate h) hstop ⟨rfl, hstop⟩ (by simp [hl, Loop.rank])
  · refine .set rfl ?_ (fun h => absurd hstate h) hstop ⟨rfl, hstop⟩ (by simp [hl, Loop.rank])
    simp [requests, Request.ofEvent]

theorem diagnostic_cases (c : Context V X) (code : String) (severity : Severity) (s : OwnedPullPoint V X) :
    ∃ r s', diagnostic c code severity s = (r, s') ∧ halt s' = halt s ∧ (c.clock s.ticks = none ∨ r = .ok ()) := by
  refine ⟨(diagnostic c code severity s).1, (diagnostic c code severity s).2, rfl, (apart_diagnostic s).halt, ?_⟩
  cases ht : c.clock s.ticks with
  | none => exact .inl rfl
  | some t =>
    refine .inr ?_
    simp [diagnostic, now, note, run_bind, ht]

theorem undelivered_cases (c : Context V X) (s : OwnedPullPoint V X) :
    ∃ r s', undelivered c s = (r, s') ∧ halt s' = halt s ∧ (s.queue ≠ [] ∧ c.clock s.ticks = none ∨ r = .ok ()) := by
  refine ⟨(undelivered c s).1, (undelivered c s).2, rfl, (apart_undelivered s).halt, ?_⟩
  cases hq : s.queue with
  | nil =>
    unfold undelivered
    rw [run_get_bind, if_pos (by simp [hq])]
    exact .inr rfl
  | cons next queue =>
    obtain ⟨r, s₁, h₁, -, hr⟩ := diagnostic_cases c "UndeliveredNotifications" .gap s
    refine hr.imp (fun ht => ⟨by simp, ht⟩) fun hr => ?_
    subst hr
    unfold undelivered
    rw [run_get_bind, if_neg (by simp [hq]), run_bind, h₁]
    rfl

theorem finishReleased_advances (hs : s.stopRequested) (hl : s.loop = .unsubscribed phase error cleanup)
    (hset : Concluded s.currentState s.stopPromise s.loop)
    (hok : phase = .starting → cleanup.isSome → c.clock s.ticks ≠ none) :
    Advances s (crash phase (finishReleased c phase error cleanup) s) := by
  obtain ⟨hstate, hstop⟩ := hset.early (by simp [hl, Loop.rank])
  cases cleanup with
  | none => exact .set hs rfl (fun _ => rfl) hstop ⟨.inl hstate, hstop⟩ (by simp [crash, finishReleased, hl, Loop.rank])
  | some e =>
    generalize hmod : ({ s with remoteStopped := .rejected, currentState := .uncertain, failure := if s.failure = [] then
      [e] else s.failure } : OwnedPullPoint V X) = s₁
    have hrun : finishReleased c phase error (some e) s = (do
        diagnostic c "UnsubscribeOutcomeUnknown" .error
        suspend (.settling phase (error.toList ++ [e]))) s₁ := by subst hmod; rfl
    have hh₁ : halt s₁ = { halt s with state := .uncertain } := by subst hmod; rfl
    have ht₁ : s₁.ticks = s.ticks := by subst hmod; rfl
    obtain ⟨r, s₂, h₂, hh₂, hr⟩ := diagnostic_cases c "UnsubscribeOutcomeUnknown" .error s₁
    rw [hh₁] at hh₂
    simp only [halt, Halt.mk.injEq] at hh₂
    obtain ⟨hu, hst, hp, -, hreq⟩ := hh₂
    rw [ht₁] at hr
    rw [crash, hrun, run_bind, h₂]
    cases r with
    | ok =>
      exact .set (hst.trans hs) hreq (fun h => absurd hstate h) hstop ⟨.inr ⟨hu, by simp⟩, hp.trans hstop⟩
        (by simp [hl, suspend, Loop.rank])
    | error e' =>
      cases phase with
      | starting => exact absurd (hr.resolve_right (by simp)) (hok rfl rfl)
      | running =>
        exact .set (hst.trans hs) hreq (fun h => absurd hstate h) hstop ⟨.inr (.inr hu), by simp⟩ (by simp [hl, Loop.rank])

theorem finishSettled_advances (hs : s.stopRequested) (hl : s.loop = .settling phase errors)
    (hset : Concluded s.currentState s.stopPromise s.loop) (he : ∃ more, errors' = errors ++ more)
    (hok : s.queue = [] ∨ c.clock s.ticks ≠ none ∨ phase = .running ∧ s.currentState = .uncertain) :
    Advances s (crash phase (finishSettled c errors') s) := by
  rw [hl] at hset
  obtain ⟨hstate, hstop⟩ := hset
  obtain ⟨r, s₁, h₁, hh₁, hr⟩ := undelivered_cases c s
  simp only [halt, Halt.mk.injEq] at hh₁
  obtain ⟨hu, hst, hp, -, hreq⟩ := hh₁
  rw [crash, finishSettled, run_bind, h₁]
  cases r with
  | error e =>
    obtain ⟨hq, ht⟩ := hr.resolve_right nofun
    obtain ⟨rfl, hunc⟩ := (hok.resolve_left hq).resolve_left (not_not_intro ht)
    exact .set (hst.trans hs) hreq (fun _ => hu) hstop ⟨.inr (.inr (hu.trans hunc)), nofun⟩ (by simp [hl, Loop.rank])
  | ok =>
    dsimp only
    by_cases hnil : errors'.dedup = []
    · rw [if_pos hnil]
      obtain ⟨more, rfl⟩ := he
      have hclosing : s.currentState = .closing := by
        refine hstate.resolve_right fun h => h.2 ?_
        exact (List.append_eq_nil_iff.mp ((List.dedup_eq_nil _).mp hnil)).1
      exact .set (hst.trans hs) hreq (fun h => absurd hclosing h) hstop ⟨.inl rfl, nofun⟩ (by simp [hl, Loop.rank])
    · rw [if_neg hnil]
      have hfinal : s.currentState ≠ .closing →
          (if s₁.currentState = .uncertain then State.uncertain else .failed) = s.currentState := by
        intro h
        simp [hu, (hstate.resolve_left h).1]
      have hres : (if s₁.currentState = .uncertain then State.uncertain else .failed) = .failed ∨
          (if s₁.currentState = .uncertain then State.uncertain else .failed) = .uncertain := by
        split <;> simp
      by_cases hlistener : c.errorListener
      · rw [if_pos hlistener]
        exact .set (hst.trans hs) hreq hfinal hstop ⟨hres, hp.trans hstop⟩ (by simp [hl, Loop.rank])
      · rw [if_neg hlistener]
        exact .set (hst.trans hs) hreq hfinal hstop ⟨.inr hres, nofun⟩ (by simp [hl, Loop.rank])

theorem restart_ends (ht : c.clock s.ticks = none) : Ends s (restart c s) := by
  have hthrow : restart c s = (.error (.onvif "InvalidConfiguration" none), { s with
      currentLease := none, serverOffset := none, restarts := s.restarts + 1, ticks := s.ticks + 1 }) := by
    simp [restart, create, now, run_bind, ht]
  rw [hthrow]
  rfl

theorem turn_stopped (hs : s.stopRequested) (hset : Concluded s.currentState s.stopPromise s.loop)
    (hok : Halts c s .turn) : Advances s (turn c s) ∨ Stays s (turn c s) .turn := by
  have hturn := hok hs
  have honward (h : Onward s (turn c s)) (hl : 3 ≤ Loop.rank s.loop) := Or.inl (h.advances hs hset hl)
    (b := Stays s (turn c s) .turn)
  cases hl : s.loop <;> rw [hl] at hturn
  case idle => rw [hl] at hset; exact hset.elim
  case created phase =>
    refine honward ?_ (by simp [hl, Loop.rank])
    cases phase with
    | starting =>
      simp only [turn, hl]
      exact (run_ends rfl hs (by simp [hl, Loop.rank])).raise (by simp [hl, Loop.rank])
    | running => exact ⟨.running, by simp [turn, hl, halt, requests], by simp [Loop.rank], by simp [hl, Loop.rank]⟩
  case running =>
    refine honward ?_ (by simp [hl, Loop.rank])
    simp only [turn, hl]
    exact (run_ends rfl hs (by simp [hl, Loop.rank])).raise (by simp [hl, Loop.rank])
  case released =>
    refine honward ?_ (by simp [hl, Loop.rank])
    simp only [turn, hl]
    exact (restart_ends hturn).raise (by simp [hl, Loop.rank])
  case finishing phase error =>
    simp only [turn, hl]
    exact .inl (finish_advances hl hset)
  case unsubscribed phase error cleanup =>
    simp only [turn, hl]
    refine .inl (finishReleased_advances hs hl hset fun hp hc => ?_)
    subst hp
    obtain ⟨e, rfl⟩ := Option.isSome_iff_exists.mp hc
    exact hturn
  case settling phase errors =>
    simp only [turn, hl]
    split
    · rename_i record bytes called hd
      refine .inr (.refl ?_)
      cases called <;> simp [Awaits, hl, hd, Delivery.rank]
    · exact .inl (finishSettled_advances hs hl hset ⟨_, rfl⟩ hturn)
  all_goals
    simp only [turn, hl]
    exact .inr (.refl (by simp [Awaits, hl]))

theorem unsubscribed_stopped (hs : s.stopRequested) (hset : Concluded s.currentState s.stopPromise s.loop) :
    Advances s (unsubscribed c outcome s) ∨ Stays s (unsubscribed c outcome s) (.unsubscribed outcome) := by
  have hh : halt (learnRelease outcome s) = halt s := learnRelease_halt outcome s
  have hdone := (releaseDone_halt (c := c) outcome (learnRelease outcome s)).trans hh
  have honward (h : Onward s (unsubscribed c outcome s)) (hl : 3 ≤ Loop.rank s.loop) :=
    Or.inl (h.advances hs hset hl) (b := Stays s (unsubscribed c outcome s) (.unsubscribed outcome))
  cases hl : s.loop
  case releasing =>
    refine honward ?_ (by simp [hl, Loop.rank])
    simp only [unsubscribed, hl]
    refine Ends.raise (bind_cases (P := Ends s) (fun _ s₁ h₁ => ?_) fun _ s₁ h₁ => ?_) (by simp [hl, Loop.rank])
    · exact .suspend ((congrArg (halt ·.2) h₁).symm.trans hdone) (by simp [Loop.rank]) (by simp [hl, Loop.rank])
    · exact (congrArg (halt ·.2) h₁).symm.trans hdone
  case unsubscribing phase error =>
    refine honward ?_ (by simp [hl, Loop.rank])
    simp only [unsubscribed, hl]
    split <;> rename_i h₁ <;> rw [h₁] at hdone
    · exact ⟨.unsubscribed phase error none, by rw [← hdone]; rfl, by simp [Loop.rank], by simp [hl, Loop.rank]⟩
    · exact ⟨.unsubscribed phase error _, by rw [← hdone]; rfl, by simp [Loop.rank], by simp [hl, Loop.rank]⟩
  all_goals
    simp only [unsubscribed, hl]
    exact .inr (.refl (by simp [Awaits, hl]))

theorem drain_rank (hs : s.stopRequested) : Delivery.rank (drain s).delivery = 0 := by
  unfold drain
  split
  · rw [if_pos hs]
    rfl
  · rfl

theorem delivered_rank (outcome : Except Failure Unit) (bytes : Nat) (hs : s.stopRequested) :
    Delivery.rank (delivered outcome bytes s).delivery = 0 := by
  cases outcome with
  | ok => exact drain_rank hs
  | error e => rfl

theorem deliveryTurn_rank (s : OwnedPullPoint V X) :
    Delivery.rank (deliveryTurn c s).delivery ≤ Delivery.rank s.delivery := by
  unfold deliveryTurn
  split
  · exact Nat.zero_le _
  · rename_i e hd
    have hkeep : ∀ s : OwnedPullPoint V X, (diagnostic c "DeliveryFailed" .gap s).2.delivery = s.delivery := by
      intro s
      simp only [diagnostic, now, run_bind, run_get, run_modify, note]
      cases c.clock s.ticks <;> rfl
    have hfailed : (deliveryFailed c e s).2.delivery = .failed e := by
      unfold deliveryFailed
      rw [run_modify_bind, run_bind]
      have h := hkeep { s with deliveryFailure := some e, delivery := .failed e }
      generalize diagnostic c "DeliveryFailed" .gap _ = r at h
      obtain ⟨r, s₁⟩ := r
      cases r <;> exact h
    simp [hfailed, hd, Delivery.rank]
  · exact Nat.le_refl _

theorem step_stopped (hs : s.stopRequested) (hset : Concluded s.currentState s.stopPromise s.loop)
    (hok : Halts c s i) : Advances s (step c s i) ∨ Stays s (step c s i) i := by
  have honward {s' : OwnedPullPoint V X} (h : Onward s s') (hl : 3 ≤ Loop.rank s.loop) : Advances s s' ∨ Stays s s' i :=
    .inl (h.advances hs hset hl)
  cases i with
  | turn => exact turn_stopped hs hset hok
  | unsubscribed outcome => exact unsubscribed_stopped hs hset
  | created result authorized =>
    cases hl : s.loop
    case creating phase started =>
      refine honward ?_ (by simp [hl, Loop.rank])
      simp only [step, hl]
      cases result with
      | ok result => exact (received_ends rfl (hok hs phase started hl) hl).raise (by simp [hl, Loop.rank])
      | error e => exact Ends.raise (m := .throw e) rfl (by simp [hl, Loop.rank])
    all_goals
      simp only [step, hl]
      exact .inr (.refl (by simp [Awaits, hl]))
  | synchronized result =>
    cases hl : s.loop
    case synchronizing phase =>
      refine honward ?_ (by simp [hl, Loop.rank])
      simp only [step, hl]
      cases result with
      | ok => exact absurd hl (hok hs phase)
      | error e => exact Ends.raise (m := .throw e) (learn_halt _ s) (by simp [hl, Loop.rank])
    all_goals
      simp only [step, hl]
      exact .inr (.refl (by simp [Awaits, hl]))
  | renewed result =>
    cases hl : s.loop
    case renewing started =>
      refine honward ?_ (by simp [hl, Loop.rank])
      simp only [step, hl]
      refine (renewed_ends (learn_halt _ s) hs hl fun timing ht => ?_).raise (by simp [hl, Loop.rank])
      subst ht
      exact hok hs started hl
    all_goals
      simp only [step, hl]
      exact .inr (.refl (by simp [Awaits, hl]))
  | pulled result =>
    cases hl : s.loop
    case pulling started =>
      refine honward ?_ (by simp [hl, Loop.rank])
      simp only [step, hl]
      cases result with
      | ok result =>
        have hhalt : halt (s.note (.drained (drainedBy result))) = halt s := by simp [halt, note, requests, Request.ofEvent]
        exact (pulled_ends hhalt hs hl).raise (by simp [hl, Loop.rank])
      | error e => exact (pullFailed_ends (learn_halt _ s) hs hl).raise (by simp [hl, Loop.rank])
    all_goals
      simp only [step, hl]
      exact .inr (.refl (by simp [Awaits, hl]))
  | slept outcome =>
    cases hl : s.loop
    case sleeping =>
      refine honward ?_ (by simp [hl, Loop.rank])
      simp only [step, hl]
      exact (slept_ends rfl hs hl).raise (by simp [hl, Loop.rank])
    all_goals
      simp only [step, hl]
      exact .inr (.refl (by simp [Awaits, hl]))
  | reported outcome =>
    cases hl : s.loop
    case reporting =>
      rw [hl] at hset
      simp only [step, hl]
      exact .inl (.set hs rfl (fun _ => rfl) hset.2 ⟨.inr hset.1, by simp [reported]⟩ (by simp [hl, reported, Loop.rank]))
    all_goals
      simp only [step, hl]
      exact .inr (.refl (by simp [Awaits, hl]))
  | listener =>
    simp only [step]
    split
    · rename_i record bytes hd
      refine .inr ⟨by simp [halt, note, requests, Request.ofEvent], ?_, fun _ => ?_⟩ <;> simp [hd, note, Delivery.rank]
    · rename_i hd
      refine .inr (.refl fun h => ?_)
      cases hq : s.delivery with
      | calling record bytes called =>
        cases called with
        | false => exact hd record bytes hq
        | true => exact absurd h.2 (by simp [hq, Delivery.rank])
      | _ => exact absurd h.2 (by simp [hq, Delivery.rank])
  | delivered outcome =>
    simp only [step]
    split
    · rename_i record bytes hd
      have hrank := delivered_rank (s := s.note .returned) outcome bytes hs
      refine .inr ⟨?_, by omega, fun _ => by rw [hrank, hd]; simp [Delivery.rank]⟩
      rw [apart_delivered.halt]
      simp [halt, note, requests, Request.ofEvent]
    · rename_i hd
      refine .inr (.refl fun h => ?_)
      cases hq : s.delivery with
      | calling record bytes called =>
        cases called with
        | false => exact absurd h.2 (by simp [hq, Delivery.rank])
        | true => exact hd record bytes hq
      | _ => exact absurd h.2 (by simp [hq, Delivery.rank])
  | deadline e =>
    simp only [step]
    split
    · rename_i record bytes called hd
      have hrank := delivered_rank (.error e) bytes hs
      refine .inr ⟨apart_delivered.halt, by omega, fun _ => ?_⟩
      rw [hrank, hd]
      cases called <;> simp [Delivery.rank]
    · rename_i hd
      refine .inr (.refl fun h => ?_)
      cases hq : s.delivery with
      | calling record bytes called => exact hd record bytes called hq
      | _ => exact absurd h.2 (by simp [hq, Delivery.rank])
  | deliveryTurn => exact .inr ⟨apart_deliveryTurn.halt, deliveryTurn_rank s, by simp [Awaits]⟩
  | stop =>
    simp only [step, externalStop, hs, if_true]
    exact .inr (.refl (by simp [Awaits]))

theorem step_calm (hs : s.stopRequested = false) (hp : s.stopPromise = .pending) (hl : 5 ≤ Loop.rank s.loop)
    (hok : Halts c s i) : Calm s (step c s i) ∨ Concluded (step c s i).currentState (step c s i).stopPromise
      (step c s i).loop ∧ (step c s i).stopRequested := by
  cases i with
  | turn =>
    simp only [step]
    cases hq : s.loop <;> rw [hq] at hl <;> simp only [turn, hq]
    case idle =>
      rw [hs]
      exact .inl (calm_raise calm_create s)
    case created phase =>
      cases phase with
      | starting => exact .inl (calm_raise calm_run s)
      | running => exact .inl (.set rfl rfl (by simp [Loop.rank]))
    case running => exact .inl (calm_raise calm_run s)
    case released => exact .inl (calm_raise calm_restart s)
    case finishing phase error =>
      refine .inr ?_
      unfold finish
      dsimp only
      split <;> exact ⟨⟨rfl, hp⟩, rfl⟩
    case settling => exact absurd hl (by simp [Loop.rank])
    case unsubscribed => exact absurd hl (by simp [Loop.rank])
    all_goals exact .inl (.refl s)
  | created result authorized =>
    simp only [step]
    split
    · exact .inl (calm_raise calm_received s)
    · exact .inl (calm_raise (.throw .refl _) s)
    · exact .inl (.refl s)
  | synchronized result =>
    simp only [step]
    split
    · exact .inl (calm_raise calm_activate s)
    · exact .inl (Calm.trans (calm_learn _ s) (calm_raise (.throw .refl _) _))
    · exact .inl (.refl s)
  | renewed result =>
    simp only [step]
    split
    · exact .inl (Calm.trans (calm_learn _ s) (calm_raise calm_renewed _))
    · exact .inl (.refl s)
  | pulled result =>
    simp only [step]
    split
    · exact .inl (Calm.trans (show Calm s (s.note _) from ⟨rfl, rfl, id⟩) (calm_raise calm_pulled _))
    · exact .inl (Calm.trans (calm_learn _ s) (calm_raise calm_pullFailed _))
    · exact .inl (.refl s)
  | slept outcome =>
    simp only [step]
    split
    · exact .inl (calm_raise calm_slept s)
    · exact .inl (.refl s)
  | unsubscribed outcome =>
    have hlearn : Calm s (learnRelease outcome s) := by
      cases outcome with
      | ok => exact ⟨rfl, rfl, id⟩
      | error e => exact calm_learn _ s
    simp only [step, unsubscribed]
    cases hq : s.loop <;> rw [hq] at hl
    case releasing =>
      exact .inl (Calm.trans hlearn (calm_raise (.bind calm_releaseDone fun _ => calm_suspend (by simp [Loop.rank])) _))
    case unsubscribing => exact absurd hl (by simp [Loop.rank])
    all_goals exact .inl (.refl s)
  | reported outcome =>
    cases hq : s.loop <;> rw [hq] at hl <;> simp only [step, hq]
    case reporting => exact absurd hl (by simp [Loop.rank])
    all_goals exact .inl (.refl s)
  | listener =>
    simp only [step]
    split
    · exact .inl ⟨rfl, rfl, id⟩
    · exact .inl (.refl s)
  | delivered outcome =>
    simp only [step]
    split
    · exact .inl (Calm.trans (show Calm s (s.note .returned) from ⟨rfl, rfl, id⟩) apart_delivered.calm)
    · exact .inl (.refl s)
  | deadline e =>
    simp only [step]
    split
    · exact .inl apart_delivered.calm
    · exact .inl (.refl s)
  | deliveryTurn => exact .inl apart_deliveryTurn.calm
  | stop =>
    refine .inr ?_
    simp only [step, externalStop, hs, Bool.false_eq_true, if_false, and_true]
    rw [hp]
    refine settled_early (Nat.le_trans (by simp) hl) ?_
    cases hq : s.loop <;> simp_all [Halts, Loop.rank]

theorem inv_step (h : (halt s).Inv) (hok : Halts c s i) : (halt (step c s i)).Inv := by
  cases hs : s.stopRequested with
  | true =>
    have hset : Concluded s.currentState s.stopPromise s.loop := by simpa [Halt.Inv, halt, hs] using h
    rcases step_stopped hs hset hok with h' | h'
    · simpa [Halt.Inv, halt, h'.kept.stopping] using h'.settled
    · rw [h'.halt]
      exact h
  | false =>
    obtain ⟨hp, hl⟩ : s.stopPromise = .pending ∧ 5 ≤ Loop.rank s.loop := by simpa [Halt.Inv, halt, hs] using h
    rcases step_calm hs hp hl hok with ⟨h₁, h₂, h₃⟩ | ⟨h₁, h₂⟩
    · simp [Halt.Inv, halt, h₁.trans hs, h₂.trans hp, h₃ hl]
    · simpa [Halt.Inv, halt, h₂] using h₁

theorem reachable_halt (h : ((system c).when (Halts c)).Reachable s) : (halt s).Inv := by
  refine h.invariant (P := fun s => (halt s).Inv) ?_ ?_
  · rintro s rfl
    exact ⟨rfl, by simp [halt, initial, Loop.rank]⟩
  · rintro s i s' hs ⟨hok, rfl⟩
    exact inv_step hs hok

-- The rest of a run

/-- What a stopping subscription has come to from `s` to `s'`. -/
structure Halted (c : Context V X) (s s' : OwnedPullPoint V X) : Prop where
  state : s'.currentState ∈ [State.closing, .closed, .failed, .uncertain]
  inactive : s'.active = false
  requests : requests s' = requests s
  result : s.currentState ≠ .closing → s'.currentState = s.currentState
  settled : s.stopPromise ≠ .pending → s'.stopPromise = s.stopPromise
  done : s'.loop = .done → s'.currentState ≠ .closing ∧ s'.stopPromise ≠ .pending
  nearer : remaining s' ≤ remaining s
  awaits : s'.loop ≠ .done → ∃ i, Awaits s' i
  answered : ∀ i, Halts c s' i → Awaits s' i → remaining (step c s' i) < remaining s'

theorem awaits_some (hset : Concluded s.currentState s.stopPromise s.loop) (hl : s.loop ≠ .done) :
    ∃ i : Input V X, Awaits s i := by
  cases hq : s.loop
  case idle => rw [hq] at hset; exact hset.elim
  case creating => exact ⟨.created (.error (.other "")) (.ok ()), _, _, hq⟩
  case synchronizing => exact ⟨.synchronized (.ok ()), _, hq⟩
  case renewing => exact ⟨.renewed (.ok none), _, hq⟩
  case pulling => exact ⟨.pulled (.error (.other "")), _, hq⟩
  case sleeping => exact ⟨.slept (.ok ()), hq⟩
  case releasing => exact ⟨.unsubscribed (.ok ()), .inl hq⟩
  case unsubscribing => exact ⟨.unsubscribed (.ok ()), .inr ⟨_, _, hq⟩⟩
  case reporting => exact ⟨.reported (.ok ()), hq⟩
  case done => exact absurd hq hl
  case settling phase errors =>
    rcases Nat.eq_zero_or_pos (Delivery.rank s.delivery) with hd | hd
    · exact ⟨.turn, by simpa [Awaits, hq] using hd⟩
    · exact ⟨.deadline (.other ""), ⟨_, _, hq⟩, hd⟩
  all_goals exact ⟨.turn, by simp [Awaits, hq]⟩

theorem step_remaining (h : Advances s s' ∨ Stays s s' i) :
    remaining s' ≤ remaining s ∧ (Awaits s i → remaining s' < remaining s) := by
  unfold remaining
  rcases h with h | h
  · have h₁ := h.rank
    have h₂ := Delivery.rank_le s'.delivery
    omega
  · have hloop : s'.loop = s.loop := congrArg Halt.loop h.halt
    have hrank := h.rank
    rw [hloop]
    exact ⟨by omega, fun ha => by have := h.awaited ha; omega⟩

theorem Advances.kept_of (h : Advances s s' ∨ Stays s s' i) (hs : s.stopRequested) : Kept s s' := by
  rcases h with h | h
  · exact h.kept
  · have hh := h.halt
    simp only [halt, Halt.mk.injEq] at hh
    exact ⟨hh.2.1.trans hs, hh.2.2.2.2, fun _ => hh.1, fun _ => hh.2.2.1⟩

theorem Kept.trans {s₁ s₂ s₃ : OwnedPullPoint V X} (h₁ : Kept s₁ s₂) (h₂ : Kept s₂ s₃) : Kept s₁ s₃ where
  stopping := h₂.stopping
  requests := h₂.requests.trans h₁.requests
  state h := (h₂.state fun h' => h ((h₁.state h).symm.trans h')).trans (h₁.state h)
  stop h := (h₂.stop fun h' => h ((h₁.stop h).symm.trans h')).trans (h₁.stop h)

theorem run_kept (h : (halt s).Inv) (hs : s.stopRequested) (hr : ((system c).when (Halts c)).Run s labels s') :
    Kept s s' ∧ (halt s').Inv ∧ remaining s' ≤ remaining s := by
  induction hr with
  | nil => exact ⟨⟨hs, rfl, fun _ => rfl, fun _ => rfl⟩, h, Nat.le_refl _⟩
  | snoc _ hi ih =>
    obtain ⟨hok, rfl⟩ := hi
    obtain ⟨hkept, hinv, hrem⟩ := ih
    have hset := by simpa [Halt.Inv, halt, hkept.stopping] using hinv
    have hstep := step_stopped hkept.stopping hset hok
    exact ⟨hkept.trans (Advances.kept_of hstep hkept.stopping), inv_step hinv hok,
      Nat.le_trans (step_remaining hstep).1 hrem⟩

theorem Concluded.mem {q : State} (h : Concluded q stop l) : q ∈ [State.closing, .closed, .failed, .uncertain] := by
  cases l <;> simp only [Concluded] at h
  case settling => rcases h.1 with h | h <;> simp [h]
  case reporting => rcases h.1 with h | h <;> simp [h]
  case done => rcases h.1 with h | h | h <;> simp [h]
  all_goals simp [h.1]

/-- Unless an answer comes too late for the stop or the clock fails, a
subscription that has been told to stop never becomes active again, starts
nothing, and comes to one result. -/
theorem stopping_halts (h : ((system c).when (Halts c)).Reachable s) (hs : s.stopRequested)
    (hr : ((system c).when (Halts c)).Run s labels s') : Halted c s s' := by
  obtain ⟨hkept, hinv, hrem⟩ := run_kept (reachable_halt h) hs hr
  have hset : Concluded s'.currentState s'.stopPromise s'.loop := by simpa [Halt.Inv, halt, hkept.stopping] using hinv
  refine ⟨hset.mem, ?_, hkept.requests, hkept.state, hkept.stop, fun hl => ?_, hrem, awaits_some hset, fun i hok => ?_⟩
  · have hstate := hset.mem
    simp only [List.mem_cons, List.not_mem_nil, or_false] at hstate
    rcases hstate with h | h | h | h <;> simp [active, h]
  · rw [hl] at hset
    refine ⟨fun h => ?_, hset.2⟩
    rcases hset.1 with h' | h' | h' <;> simp [h'] at h
  · exact (step_remaining (step_stopped hkept.stopping hset hok)).2

-- Two runs

theorem halts_turn (hc : c.clock s.ticks ≠ none) (hl : s.loop ≠ .released) : Halts c s .turn := by
  intro _
  split
  · rename_i h
    exact absurd h hl
  · exact hc
  · exact .inr (.inl hc)
  · trivial

theorem halts_calm (hs : s.stopRequested = false) (hl : s.loop ≠ .idle) : Halts c s i := by
  unfold Halts
  split <;> simp [hs, hl]

theorem stopping_halts_closing :
    ∃ s s' : OwnedPullPoint Unit Unit, s.stopRequested ∧ s'.loop = .done ∧ Halted sample s s' := by
  have hturn {s : OwnedPullPoint Unit Unit} (hl : s.loop ≠ .released) : Halts sample s .turn := halts_turn nofun hl
  have hstart : ((system sample).when (Halts sample)).Reachable (initial sample) := .start rfl
  have hcreated := (hstart.next ⟨hturn (by decide), rfl⟩).next (i := .created sampleCreate (.ok ()))
    ⟨halts_calm (by decide +kernel) (by decide +kernel), rfl⟩
  have hstop := hcreated.next (i := .stop) ⟨halts_calm (by decide +kernel) (by decide +kernel), rfl⟩
  generalize hs : step sample (step sample _ _) .stop = s at hstop
  have hrun := System.Run.nil (m := (system sample).when (Halts sample)) (s := s)
  have hrun := hrun.snoc (i := .turn) ⟨hturn (by subst hs; decide +kernel), rfl⟩
  have hrun := hrun.snoc (i := .turn) ⟨hturn (by subst hs; decide +kernel), rfl⟩
  have hrun := hrun.snoc (i := .unsubscribed (.ok ())) ⟨show Halts sample _ (.unsubscribed (.ok ())) from trivial, rfl⟩
  have hrun := hrun.snoc (i := .turn) ⟨hturn (by subst hs; decide +kernel), rfl⟩
  have hrun := hrun.snoc (i := .turn) ⟨hturn (by subst hs; decide +kernel), rfl⟩
  have hstopped : s.stopRequested := by subst hs; decide +kernel
  exact ⟨s, _, hstopped, by subst hs; decide +kernel, stopping_halts hstop hstopped hrun⟩

/-- A stop between the response to the creation and its continuation. -/
theorem stopping_halts_late :
    ¬∀ (c : Context Unit Unit) (s s' : OwnedPullPoint Unit Unit) (labels : List (Input Unit Unit)),
      (system c).Reachable s → s.stopRequested → (system c).Run s labels s' → Halted c s s' := by
  intro h
  have hr : (system sample).Reachable ([.turn, .stop].foldl (step sample) (initial sample)) :=
    ⟨_, [.turn, .stop], rfl, System.run_ofFun.mpr rfl⟩
  have hhalted := h sample _ _ [.created sampleCreate (.ok ())] hr (by decide +kernel) (System.run_ofFun.mpr rfl)
  exact absurd hhalted.inactive (by decide +kernel)

end WotAv.Events.OwnedPullPoint
