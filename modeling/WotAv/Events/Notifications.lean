import WotAv.Events.PullPoint

/-!
# What becomes of a drained notification

The records a pull enqueues, the listener's calls and the continuity of the
records, as the log tells them. Apart from `enqueue` and the delivery, no step
touches the queue.
-/

namespace WotAv.Events.OwnedPullPoint

open WotAv.Lib Throwing

variable {V X : Type}

-- Reading the log

def drained (log : List (Event V X)) : List (V × X) :=
  log.flatMap fun | .drained messages => messages | _ => []

def enqueued (log : List (Event V X)) : List (NativeEventRecord V X) :=
  log.filterMap fun | .enqueued record => some record | _ => none

def called (log : List (Event V X)) : List (NativeEventRecord V X) :=
  log.filterMap fun | .called record => some record | _ => none

def completed (log : List (Event V X)) : Nat :=
  log.countP fun | .returned => true | _ => false

def continued (last : Option Nat) : Event V X → Option Nat
  | .enqueued record => some record.generation
  | .diagnostic .gap _ => none
  | _ => last

/-- The generation of the last record, if no gap has been recorded since. -/
def unbroken (log : List (Event V X)) : Option Nat := log.foldl continued none

def Undelivered (log : List (Event V X)) : Prop := .diagnostic .gap "UndeliveredNotifications" ∈ log

def pair (record : NativeEventRecord V X) : V × X := (record.value, record.xml)

section
variable (log more : List (Event V X))

@[simp] theorem drained_append : drained (log ++ more) = drained log ++ drained more := List.flatMap_append

@[simp] theorem enqueued_append : enqueued (log ++ more) = enqueued log ++ enqueued more := List.filterMap_append

@[simp] theorem called_append : called (log ++ more) = called log ++ called more := List.filterMap_append

@[simp] theorem completed_append : completed (log ++ more) = completed log + completed more := List.countP_append

@[simp] theorem unbroken_snoc (e : Event V X) : unbroken (log ++ [e]) = continued (unbroken log) e := by
  simp [unbroken]

end

def plain : Event V X → Bool
  | .drained _ | .enqueued _ | .called _ | .returned | .dropped _ => false
  | _ => true

theorem plain_reads (es : List (Event V X)) (h : ∀ e ∈ es, plain e) :
    drained es = [] ∧ enqueued es = [] ∧ called es = [] ∧ completed es = 0 := by
  induction es with
  | nil => exact ⟨rfl, rfl, rfl, rfl⟩
  | cons e es ih =>
    obtain ⟨h₁, h₂, h₃, h₄⟩ := ih fun e he => h e (List.mem_cons_of_mem _ he)
    have he := h e List.mem_cons_self
    have hone : drained [e] = [] ∧ enqueued [e] = [] ∧ called [e] = [] ∧ completed [e] = 0 := by
      cases e <;> first | exact ⟨rfl, rfl, rfl, rfl⟩ | exact absurd he (by simp [plain])
    obtain ⟨g₁, g₂, g₃, g₄⟩ := hone
    rw [← List.singleton_append, drained_append, enqueued_append, called_append, completed_append,
      g₁, g₂, g₃, g₄, h₁, h₂, h₃, h₄]
    exact ⟨rfl, rfl, rfl, rfl⟩

-- Steps aside from the queue

def Replacing : Loop → Bool
  | .idle | .releasing | .released | .creating _ _ => true
  | _ => false

/-- The queue and the delivery are left alone; where the loop is suspended
anew is in `Q`. A gap may be recorded, and no record becomes continuous. -/
structure Aside (Q : Loop → Bool) (s s' : OwnedPullPoint V X) : Prop where
  events : ∃ es, s'.log = s.log ++ es ∧ ∀ e ∈ es, plain e
  queue : s'.queue = s.queue
  queuedBytes : s'.queuedBytes = s.queuedBytes
  delivering : s'.delivering = s.delivering
  delivery : s'.delivery = s.delivery
  failure : s'.failure = s.failure
  stop : s'.stopRequested = s.stopRequested
  loop : s'.loop = s.loop ∨ Q s'.loop
  continuity : s'.continuity = .continuous → s.continuity = .continuous ∧
    s'.currentGeneration = s.currentGeneration ∧ unbroken s'.log = unbroken s.log
  replacing : Replacing s'.loop → s'.continuity = .continuous → Replacing s.loop

variable {Q : Loop → Bool} {c : Context V X} {s s' s'' : OwnedPullPoint V X}

theorem Aside.refl (s : OwnedPullPoint V X) : Aside Q s s :=
  ⟨⟨[], (List.append_nil _).symm, fun _ h => nomatch h⟩, rfl, rfl, rfl, rfl, rfl, rfl, .inl rfl,
    fun h => ⟨h, rfl, rfl⟩, fun h _ => h⟩

theorem Aside.trans (h₁ : Aside Q s s') (h₂ : Aside Q s' s'') : Aside Q s s'' where
  events := by
    obtain ⟨es, he, hp⟩ := h₁.events
    obtain ⟨es', he', hp'⟩ := h₂.events
    refine ⟨es ++ es', by rw [he', he, List.append_assoc], fun e h => ?_⟩
    exact (List.mem_append.mp h).elim (hp e) (hp' e)
  queue := h₂.queue.trans h₁.queue
  queuedBytes := h₂.queuedBytes.trans h₁.queuedBytes
  delivering := h₂.delivering.trans h₁.delivering
  delivery := h₂.delivery.trans h₁.delivery
  failure := h₂.failure.trans h₁.failure
  stop := h₂.stop.trans h₁.stop
  loop := by
    rcases h₂.loop with h | h
    · rw [h]; exact h₁.loop
    · exact .inr h
  continuity h := by
    obtain ⟨hc, hg, hu⟩ := h₂.continuity h
    obtain ⟨hc', hg', hu'⟩ := h₁.continuity hc
    exact ⟨hc', hg.trans hg', hu.trans hu'⟩
  replacing h hc := by
    have hc' := (h₂.continuity hc).1
    exact h₁.replacing (h₂.replacing h hc) hc'

instance : IsTrans (OwnedPullPoint V X) (Aside Q) := ⟨fun _ _ _ => Aside.trans⟩

theorem Aside.of_same (hlog : s'.log = s.log) (hq : s'.queue = s.queue) (hb : s'.queuedBytes = s.queuedBytes)
    (hd : s'.delivering = s.delivering) (hy : s'.delivery = s.delivery) (hf : s'.failure = s.failure)
    (hs : s'.stopRequested = s.stopRequested) (hc : s'.continuity = s.continuity)
    (hg : s'.currentGeneration = s.currentGeneration) (hl : s'.loop = s.loop) : Aside Q s s' :=
  ⟨⟨[], by rw [hlog, List.append_nil], fun _ h => nomatch h⟩, hq, hb, hd, hy, hf, hs, .inl hl,
    fun h => ⟨hc ▸ h, hg, by rw [hlog]⟩, fun h _ => hl ▸ h⟩

theorem aside_note {e : Event V X} (he : plain e) (hg : ∀ last, continued last e = last) : Aside Q s (s.note e) :=
  ⟨⟨[e], rfl, fun e' h => by rw [List.mem_singleton.mp h]; exact he⟩, rfl, rfl, rfl, rfl, rfl, rfl, .inl rfl,
    fun h => ⟨h, rfl, by rw [note, unbroken_snoc, hg]⟩, fun h _ => h⟩

theorem aside_suspend {place : Loop} (hq : Q place) (hr : Replacing place = false) :
    Keeps (Aside Q) (suspend place : M V X Unit) := fun _ =>
  ⟨⟨[], (List.append_nil _).symm, fun _ h => nomatch h⟩, rfl, rfl, rfl, rfl, rfl, rfl, .inr hq,
    fun h => ⟨h, rfl, rfl⟩, fun h _ => absurd (show Replacing place = true from h) (by rw [hr]; decide)⟩

theorem aside_now : Keeps (Aside Q) (now c) :=
  keeps_now .refl fun _ => .of_same rfl rfl rfl rfl rfl rfl rfl rfl rfl rfl

theorem aside_diagnostic : Keeps (Aside Q) (diagnostic c code severity) := by
  have hnote : ∀ s : OwnedPullPoint V X, Aside Q s ((({ s with
      continuity := if severity = .gap then .gap else s.continuity } : OwnedPullPoint V X)).note
        (.diagnostic severity code)) := by
    intro s
    refine ⟨⟨_, rfl, fun e h => by rw [List.mem_singleton.mp h]; rfl⟩, rfl, rfl, rfl, rfl, rfl, rfl, .inl rfl, ?_,
      fun h _ => h⟩
    by_cases hg : severity = .gap
    · simp [note, hg]
    · intro h
      refine ⟨by simpa [note, hg] using h, rfl, ?_⟩
      rw [note, unbroken_snoc]
      cases severity <;> first | exact absurd rfl hg | rfl
  intro s
  unfold diagnostic
  simp only [run_modify_bind]
  refine (?_ : Aside Q s _)
  have hrest : Keeps (Aside Q) (do
      let at_ ← now c
      Throwing.modify fun s => { s with findings := s.findings ++ [⟨at_, code, s.currentGeneration, severity⟩] }) :=
    .bind aside_now fun _ => .modify fun _ => .of_same rfl rfl rfl rfl rfl rfl rfl rfl rfl rfl
  refine Aside.trans (hnote s) (Aside.trans ?_ (hrest _))
  exact .of_same rfl rfl rfl rfl rfl rfl rfl rfl rfl rfl

theorem diagnostic_gap (h : diagnostic c code .gap s = (r, s')) : s'.continuity = .gap := by
  have hkeep : Keeps (fun s s' : OwnedPullPoint V X => s'.continuity = s.continuity) (do
      let at_ ← now c
      Throwing.modify fun s => { s with findings := s.findings ++ [⟨at_, code, s.currentGeneration, .gap⟩] }) := by
    intro s
    refine bind_cases (P := fun r : Except Failure Unit × OwnedPullPoint V X => r.2.continuity = s.continuity) (fun _ s₁ h₁ => ?_) fun _ s₁ h₁ => ?_
    all_goals
      simp only [now, run_get_bind, run_modify_bind] at h₁
      cases hc : c.clock s.ticks <;> (rw [hc] at h₁; cases h₁ <;> rfl)
  unfold diagnostic at h
  simp only [run_modify_bind] at h
  exact hkeep.ok h

theorem aside_timing : Keeps (Aside Q) (timing c result startedAt) := by
  have hcurrent (current : Member) : Keeps (Aside Q) (timingCurrent c current startedAt) :=
    keeps_timingCurrent .refl aside_diagnostic fun _ _ => .of_same rfl rfl rfl rfl rfl rfl rfl rfl rfl rfl
  exact keeps_timing .refl hcurrent aside_now fun _ _ => .of_same rfl rfl rfl rfl rfl rfl rfl rfl rfl rfl

theorem aside_limitFault : Keeps (Aside Q) (limitFault c error) :=
  keeps_limitFault .refl aside_diagnostic fun _ _ _ => .of_same rfl rfl rfl rfl rfl rfl rfl rfl rfl rfl

def Steady : Loop → Bool
  | .creating .running _ | .synchronizing .running | .created .running | .running | .renewing _ | .pulling _ |
    .sleeping | .releasing | .released | .finishing .running none => true
  | _ => false

def Starting : Loop → Bool
  | .idle | .creating .starting _ | .synchronizing .starting | .created .starting => true
  | _ => false

theorem aside_send {place : Loop} {e : OwnedPullPoint V X → Event V X} (he : ∀ s, plain (e s))
    (hg : ∀ s last, continued last (e s) = last) (hq : Q place) (hr : Replacing place = false) :
    Keeps (Aside Q) (do .modify fun s => s.note (e s); suspend place : M V X Unit) :=
  .bind (.modify fun s => aside_note (he s) (hg s)) fun _ => aside_suspend hq hr

theorem aside_pull : Keeps (Aside Steady) (pull c started) := by
  have havailable : Keeps (Aside Steady) (available c started) := by
    refine .bind (.get .refl) fun s => ?_
    split
    · exact .pure .refl _
    · exact .bind aside_now fun _ => .pure .refl _
    · exact .bind aside_now fun _ => .pure .refl _
  refine .bind havailable fun a => .bind (.get .refl) fun s => ?_
  split
  · exact .throw .refl _
  · exact aside_send (e := fun s => .pull s.currentGeneration) (fun _ => rfl) (fun _ _ => rfl) rfl rfl

theorem aside_recover : Keeps (Aside Steady) (recover c reason gone) := by
  intro s
  unfold recover
  refine bind_cases (P := fun r => Aside Steady s r.2) (fun _ s₁ h₁ => ?_) fun e s₁ h₁ => aside_diagnostic.ok h₁
  have hd : Aside Steady s s₁ := aside_diagnostic.ok h₁
  have hg : s₁.continuity = .gap := diagnostic_gap h₁
  refine hd.trans ?_
  simp only [run_modify_bind, run_get_bind]
  split
  · exact .of_same rfl rfl rfl rfl rfl rfl rfl rfl rfl rfl
  · split
    · exact ⟨⟨[], (List.append_nil _).symm, fun _ h => nomatch h⟩, rfl, rfl, rfl, rfl, rfl, rfl, .inr rfl,
        fun h => absurd (hg.symm.trans h) (by decide), fun _ h => absurd (hg.symm.trans h) (by decide)⟩
    · exact ⟨⟨[_], rfl, fun e h => by rw [List.mem_singleton.mp h]; rfl⟩, rfl, rfl, rfl, rfl, rfl, rfl, .inr rfl,
        fun h => absurd (hg.symm.trans h) (by decide), fun _ h => absurd (hg.symm.trans h) (by decide)⟩

theorem aside_run : Keeps (Aside Steady) (run c) := by
  refine .bind (.get .refl) fun s => ?_
  split
  · exact aside_suspend rfl rfl
  · split
    · exact .throw .refl _
    · refine .bind aside_now fun started => ?_
      split
      · exact .throw .refl _
      · split
        · exact aside_pull
        · split
          · exact aside_recover
          · split
            · exact aside_send (e := fun s => .renew s.currentGeneration) (fun _ => rfl) (fun _ _ => rfl) rfl rfl
            · exact aside_pull

theorem aside_renewed (result : Except Failure Timing) : Keeps (Aside Steady) (renewed c started result) := by
  cases result with
  | error e =>
    refine .bind (.get .refl) fun s => ?_
    split
    · exact .bind aside_diagnostic fun _ => aside_suspend rfl rfl
    · split
      · exact aside_recover
      · exact .bind aside_diagnostic fun _ => .throw .refl _
  | ok timing => exact .bind aside_timing fun _ => .bind aside_diagnostic fun _ => aside_pull

theorem aside_pullFailed : Keeps (Aside Steady) (pullFailed c e) := by
  refine .bind (.get .refl) fun s => ?_
  split
  · exact .throw .refl _
  · split
    · exact .bind aside_diagnostic fun _ => aside_suspend rfl rfl
    · refine .bind aside_limitFault fun reduced => ?_
      split
      · exact aside_run
      · split
        · exact aside_recover
        · exact .bind aside_diagnostic fun _ => .throw .refl _

theorem aside_wait : Keeps (Aside Steady) (wait c started) := by
  refine .bind aside_now fun now => ?_
  split
  · exact aside_suspend rfl rfl
  · exact aside_run

theorem aside_slept (outcome : Except Failure Unit) : Keeps (Aside Steady) (slept c outcome) := by
  cases outcome with
  | ok => exact aside_run
  | error e =>
    refine .bind (.get .refl) fun s => ?_
    split
    · exact .throw .refl _
    · split
      · exact aside_run
      · exact .throw .refl _

theorem aside_activate (hq : Q (.created phase)) : Keeps (Aside Q) (activate c phase) :=
  .bind (.modify fun _ => .of_same rfl rfl rfl rfl rfl rfl rfl rfl rfl rfl) fun _ =>
    .bind aside_diagnostic fun _ => aside_suspend hq rfl

theorem aside_releaseDone (outcome : Except Failure Unit) : Keeps (Aside Q) (releaseDone c outcome) := by
  cases outcome with
  | ok => exact .modify fun _ => .of_same rfl rfl rfl rfl rfl rfl rfl rfl rfl rfl
  | error e =>
    change Keeps (Aside Q) (if resourceUnknown e then _ else _)
    split
    · exact .bind (.modify fun _ => .of_same rfl rfl rfl rfl rfl rfl rfl rfl rfl rfl) fun _ => aside_diagnostic
    · exact .throw .refl _

-- The invariant

def Waiting (undelivered : Prop) (delivery : Delivery V X) (queue : List (NativeEventRecord V X × Nat))
    (rest : List (NativeEventRecord V X)) : Prop :=
  match delivery with
  | .calling record _ false => rest = record :: queue.map (·.1)
  | .calling _ _ true => rest = queue.map (·.1)
  | .rejected _ | .failed _ => True
  | _ => rest = queue.map (·.1) ∨ queue = [] ∧ undelivered

theorem Waiting.mono {p q : Prop} {delivery : Delivery V X} {queue : List (NativeEventRecord V X × Nat)}
    {rest : List (NativeEventRecord V X)} (h : Waiting p delivery queue rest) (hpq : p → q) :
    Waiting q delivery queue rest := by
  cases delivery with
  | undefined | returned => exact h.imp_right fun h => ⟨h.1, hpq h.2⟩
  | calling record bytes called =>
    cases called with
    | false => exact h
    | true => exact h
  | rejected | failed => trivial

def inHand : Delivery V X → Nat
  | .calling _ bytes _ => bytes
  | _ => 0

def isCalling : Delivery V X → Bool
  | .calling .. => true
  | _ => false

def Calls (delivery : Delivery V X) (called completed : Nat) : Prop :=
  match delivery with
  | .calling _ _ true => called = completed + 1
  | .rejected _ | .failed _ => called ≤ completed + 1
  | _ => called = completed

def Delivering : Delivery V X → Bool
  | .rejected _ | .failed _ => false
  | _ => true

/-- A continuous record directly follows one of its generation. -/
def History (log : List (Event V X)) : Prop :=
  ∀ before record after, log = before ++ .enqueued record :: after → record.continuity = .continuous →
    unbroken before = some record.generation

theorem History.snoc {log : List (Event V X)} {e : Event V X} (h : History log)
    (he : ∀ record, e = .enqueued record → record.continuity = .continuous →
    unbroken log = some record.generation) : History (log ++ [e]) := by
  intro before record after heq hc
  rcases List.eq_nil_or_concat after with rfl | ⟨after, last, rfl⟩
  · obtain ⟨rfl, hlast⟩ := List.append_inj' heq rfl
    exact he record (List.singleton_inj.mp hlast) hc
  · rw [List.concat_eq_append, ← List.cons_append, ← List.append_assoc] at heq
    exact h before record after (List.append_inj' heq rfl).1 hc

theorem History.plain {log es : List (Event V X)} (h : History log) (hp : ∀ e ∈ es, OwnedPullPoint.plain e) :
    History (log ++ es) := by
  induction es generalizing log with
  | nil => rwa [List.append_nil]
  | cons e es ih =>
    rw [List.append_cons]
    refine ih (h.snoc fun record hr => ?_) fun e' he' => hp e' (List.mem_cons_of_mem _ he')
    have := hp e List.mem_cons_self
    rw [hr] at this
    cases this

/-- What holds of the queue and the delivery, wherever the loop is suspended. -/
structure Core (c : Context V X) (stop : Bool) (queue : List (NativeEventRecord V X × Nat)) (queuedBytes : Nat)
    (delivering : Bool) (delivery : Delivery V X) (continuity : Continuity) (generation : Nat)
    (log : List (Event V X)) : Prop where
  account : ∃ rest, enqueued log = called log ++ rest ∧ Waiting (Undelivered log ∧ stop = true) delivery queue rest
  live : stop = false → Delivering delivery → isCalling delivery = false → queue = []
  bytes : queuedBytes = (queue.map (·.2)).sum + inHand delivery
  bound : queue.length + delivering.toNat ≤ c.options.maxQueuedMessages ∧ queuedBytes ≤ c.options.maxQueuedBytes
  sized : ∀ entry ∈ queue, entry.2 = c.byteLength entry.1.value
  delivering : delivering = isCalling delivery
  calls : Calls delivery (called log).length (completed log)
  unbroken : continuity = .continuous → unbroken log = some generation
  history : History log

def core (c : Context V X) (s : OwnedPullPoint V X) : Prop :=
  Core c s.stopRequested s.queue s.queuedBytes s.delivering s.delivery s.continuity s.currentGeneration s.log

def Whole (log : List (Event V X)) : Prop := drained log = (enqueued log).map pair

/-- What accounts for a notification that has not been enqueued. -/
def Loss (s : OwnedPullPoint V X) : Prop :=
  match s.loop with
  | .idle | .creating .starting _ | .synchronizing .starting | .created .starting | .finishing .starting _ |
    .unsubscribing .starting _ | .unsubscribed .starting _ _ | .settling .starting _ => drained s.log = []
  | .finishing .running error | .unsubscribing .running error | .unsubscribed .running error _ =>
    Whole s.log ∨ error ≠ none
  | .settling .running errors => Whole s.log ∨ errors ≠ []
  | .reporting => s.failure ≠ []
  | .done => s.failure ≠ [] ∨ drained s.log = [] ∨
      Whole s.log ∧ s.queue = [] ∧ Delivering s.delivery ∧ isCalling s.delivery = false
  | _ => Whole s.log

def Stopped (s : OwnedPullPoint V X) : Prop :=
  match s.loop with
  | .unsubscribing _ _ | .unsubscribed _ _ _ | .settling _ _ | .reporting | .done => s.stopRequested
  | _ => True

structure Accounted (c : Context V X) (s : OwnedPullPoint V X) : Prop where
  core : s.core c
  lost : ∃ lost, drained s.log = (enqueued s.log).map pair ++ lost
  loss : Loss s
  stopped : Stopped s
  fresh : Replacing s.loop → s.continuity ≠ .continuous

theorem accounted_initial (c : Context V X) : Accounted c (initial c) where
  core := ⟨⟨[], rfl, .inl rfl⟩, fun _ _ _ => rfl, rfl, ⟨Nat.zero_le _, Nat.zero_le _⟩, fun _ h => (nomatch h), rfl, rfl,
    fun h => (nomatch h), fun before record after h => by simp [initial] at h⟩
  lost := ⟨[], rfl⟩
  loss := rfl
  stopped := trivial
  fresh := fun _ h => nomatch h

section
variable (h : Aside Q s s')
include h

theorem Aside.reads : drained s'.log = drained s.log ∧ enqueued s'.log = enqueued s.log ∧
    called s'.log = called s.log ∧ completed s'.log = completed s.log := by
  obtain ⟨es, he, hp⟩ := h.events
  obtain ⟨h₁, h₂, h₃, h₄⟩ := plain_reads es hp
  rw [he]
  simp [h₁, h₂, h₃, h₄]

theorem Aside.core (hs : s.core c) : s'.core c := by
  obtain ⟨_, henq, hcall, hdone⟩ := h.reads
  obtain ⟨es, he, hp⟩ := h.events
  unfold OwnedPullPoint.core
  rw [h.stop, h.queue, h.queuedBytes, h.delivering, h.delivery]
  refine ⟨?_, hs.live, hs.bytes, hs.bound, hs.sized, hs.delivering, by rw [hcall, hdone]; exact hs.calls, fun hc => ?_, ?_⟩
  · obtain ⟨rest, hrest, hw⟩ := hs.account
    refine ⟨rest, by rw [henq, hcall]; exact hrest, ?_⟩
    refine hw.mono fun h => ⟨?_, h.2⟩
    rw [he]
    exact List.mem_append_left _ h.1
  · obtain ⟨hc', hg, hu⟩ := h.continuity hc
    rw [hu, hg]
    exact hs.unbroken hc'
  · rw [he]
    exact History.plain hs.history hp

theorem Aside.lost (hl : ∃ lost, drained s.log = (enqueued s.log).map pair ++ lost) :
    ∃ lost, drained s'.log = (enqueued s'.log).map pair ++ lost := by
  obtain ⟨hd, he, -, -⟩ := h.reads
  rw [hd, he]
  exact hl

theorem Aside.whole (hw : Whole s.log) : Whole s'.log := by
  obtain ⟨hd, he, -, -⟩ := h.reads
  unfold Whole
  rw [hd, he]
  exact hw

theorem Aside.fresh (hf : Replacing s.loop → s.continuity ≠ .continuous) :
    Replacing s'.loop → s'.continuity ≠ .continuous :=
  fun hr hc => hf (h.replacing hr hc) (h.continuity hc).1

end

theorem loss_of_steady (h : Steady s.loop) (hw : Whole s.log) : Loss s := by
  unfold Loss
  cases hl : s.loop <;> rw [hl] at h
  case creating phase _ => cases phase <;> first | exact hw | cases h
  case synchronizing phase => cases phase <;> first | exact hw | cases h
  case created phase => cases phase <;> first | exact hw | cases h
  case finishing phase _ => cases phase <;> first | exact .inl hw | exact absurd h (by simp [Steady])
  all_goals first | exact hw | exact absurd h (by simp [Steady])

theorem loss_of_starting (h : Starting s.loop) (hd : drained s.log = []) : Loss s := by
  unfold Loss
  cases hl : s.loop <;> rw [hl] at h
  case creating phase _ => cases phase <;> first | exact hd | cases h
  case synchronizing phase => cases phase <;> first | exact hd | cases h
  case created phase => cases phase <;> first | exact hd | cases h
  all_goals first | exact hd | exact absurd h (by simp [Starting])

theorem stopped_of_steady (h : Steady s.loop ∨ Starting s.loop) : Stopped s := by
  unfold Stopped
  cases hl : s.loop <;> rw [hl] at h <;> simp only <;> simp [Steady, Starting] at h

variable {m : M V X Unit}

theorem raise_running (hm : Aside Steady s (m s).2) (h : Accounted c s)
    (hs : Steady s.loop ∨ s.loop = .created .starting ∧ drained s.log = []) (hw : Whole s.log) :
    Accounted c (raise .running m s) := by
  unfold raise
  generalize m s = r at hm
  obtain ⟨r, s'⟩ := r
  have hloop : Steady s'.loop ∨ s'.loop = .created .starting ∧ drained s'.log = [] := by
    rcases hm.loop with hl | hl
    · rw [hl, hm.reads.1]
      exact hs
    · exact .inl hl
  cases r with
  | error e => exact ⟨hm.core h.core, hm.lost h.lost, .inr (by simp), trivial, fun h => nomatch h⟩
  | ok =>
    rcases hloop with hl | ⟨hl, hd⟩
    · exact ⟨hm.core h.core, hm.lost h.lost, loss_of_steady hl (hm.whole hw), stopped_of_steady (.inl hl), hm.fresh h.fresh⟩
    · have hl : Starting s'.loop := by rw [hl]; rfl
      exact ⟨hm.core h.core, hm.lost h.lost, loss_of_starting hl hd, stopped_of_steady (.inr hl), hm.fresh h.fresh⟩

theorem raise_starting (hm : Aside Starting s (m s).2) (h : Accounted c s) (hs : Starting s.loop)
    (hd : drained s.log = []) : Accounted c (raise .starting m s) := by
  unfold raise
  generalize m s = r at hm
  obtain ⟨r, s'⟩ := r
  have hloop : Starting s'.loop := hm.loop.elim (fun hl => hl ▸ hs) id
  have hd' : drained s'.log = [] := hm.reads.1.trans hd
  cases r with
  | ok =>
    exact ⟨hm.core h.core, hm.lost h.lost, loss_of_starting hloop hd', stopped_of_steady (.inr hloop), hm.fresh h.fresh⟩
  | error e => exact ⟨hm.core h.core, hm.lost h.lost, hd', trivial, fun h => nomatch h⟩

-- The queue

structure Draining (c : Context V X) (s : OwnedPullPoint V X) : Prop where
  account : enqueued s.log = called s.log ++ s.queue.map (·.1)
  bytes : s.queuedBytes = (s.queue.map (·.2)).sum
  bound : s.queue.length ≤ c.options.maxQueuedMessages ∧ s.queuedBytes ≤ c.options.maxQueuedBytes
  sized : ∀ entry ∈ s.queue, entry.2 = c.byteLength entry.1.value
  delivering : s.delivering = false
  calls : (called s.log).length = completed s.log
  unbroken : s.continuity = .continuous → unbroken s.log = some s.currentGeneration
  history : History s.log

theorem drain_stops (h : s.queue = [] ∨ s.stopRequested) : drain s = { s with delivery := .returned } := by
  unfold OwnedPullPoint.drain
  cases hq : s.queue with
  | nil => rfl
  | cons next queue =>
    rcases h with h | h
    · rw [hq] at h; cases h
    · simp only [h, if_true]

theorem drain_next (hq : s.queue = (record, bytes) :: more) (hs : s.stopRequested = false) :
    drain s = { s with queue := more, delivering := true, delivery := .calling record bytes false } := by
  unfold OwnedPullPoint.drain
  rw [hq]
  simp only [hs, if_false, Bool.false_eq_true]

theorem Draining.drain (h : Draining c s) : (drain s).core c := by
  by_cases hend : s.queue = [] ∨ s.stopRequested
  · rw [drain_stops hend]
    refine ⟨⟨_, h.account, .inl rfl⟩, fun hs _ _ => ?_, h.bytes, ⟨by simpa [h.delivering] using h.bound.1, h.bound.2⟩,
      h.sized, h.delivering, h.calls, h.unbroken, h.history⟩
    exact hend.resolve_right (by rw [show s.stopRequested = false from hs]; decide)
  · obtain ⟨hq, hs⟩ := not_or.mp hend
    obtain ⟨⟨record, bytes⟩, more, hq⟩ := List.exists_cons_of_ne_nil hq
    rw [drain_next hq (by simpa using hs)]
    have hlen := h.bound.1
    rw [hq, List.length_cons] at hlen
    have hbytes := h.bytes
    rw [hq, List.map_cons, List.sum_cons] at hbytes
    have haccount := h.account
    rw [hq, List.map_cons] at haccount
    have hsized : ∀ entry ∈ more, entry.2 = c.byteLength entry.1.value :=
      fun entry hmem => h.sized entry (by rw [hq]; exact List.mem_cons_of_mem _ hmem)
    exact ⟨⟨_, haccount, rfl⟩, fun _ _ hno => (nomatch hno), hbytes.trans (Nat.add_comm _ _), ⟨hlen, h.bound.2⟩, hsized, rfl,
      h.calls, h.unbroken, h.history⟩

/-- Nothing is enqueued while the delivery has yet to be cleared. -/
def Ready : Delivery V X → Bool
  | .returned => false
  | _ => true

structure Filling (c : Context V X) (s : OwnedPullPoint V X) : Prop where
  core : s.core c
  stop : s.stopRequested = false
  ready : Ready s.delivery

theorem overflows_false (h : s.overflows c bytes = false) :
    s.queue.length + s.delivering.toNat < c.options.maxQueuedMessages ∧
    s.queuedBytes + bytes ≤ c.options.maxQueuedBytes := by
  simpa [overflows] using h

def pushed (record : NativeEventRecord V X) (bytes : Nat) (s : OwnedPullPoint V X) : OwnedPullPoint V X :=
  { s with queue := s.queue ++ [(record, bytes)], queuedBytes := s.queuedBytes + bytes, continuity := .continuous
           log := s.log ++ [.enqueued record] }

theorem enqueue_eq (c : Context V X) (record : NativeEventRecord V X) (s : OwnedPullPoint V X) :
    enqueue c record s =
      if s.overflows c (c.byteLength record.value) then
        (do diagnostic c "DeliveryOverflow" .gap; .throw (.onvif "XmlLimit" (some .unknown)) : M V X Unit) s
      else (.ok (), match s.delivery with
        | .undefined => drain (pushed record (c.byteLength record.value) s)
        | _ => pushed record (c.byteLength record.value) s) := by
  unfold enqueue
  simp only [run_get_bind]
  by_cases ho : s.overflows c (c.byteLength record.value)
  · simp only [ho, if_true]
  · simp only [ho, if_false, Bool.false_eq_true, run_modify_bind]
    cases hd : s.delivery <;> simp only [pushed, hd] <;> rfl

theorem pushed_log (record : NativeEventRecord V X) (bytes : Nat) (s : OwnedPullPoint V X) :
    drained (pushed record bytes s).log = drained s.log ∧
    enqueued (pushed record bytes s).log = enqueued s.log ++ [record] ∧
    called (pushed record bytes s).log = called s.log ∧
    completed (pushed record bytes s).log = completed s.log := by
  simp only [pushed, drained_append, enqueued_append, called_append, completed_append]
  exact ⟨List.append_nil _, rfl, List.append_nil _, rfl⟩

theorem pushed_history (bytes : Nat) (h : s.core c) (hgen : record.generation = s.currentGeneration)
    (hcont : record.continuity = s.continuity) :
    unbroken (pushed record bytes s).log = some s.currentGeneration ∧ History (pushed record bytes s).log := by
  constructor
  · simp [pushed, continued, hgen]
  · refine h.history.snoc fun r hr hc => ?_
    obtain rfl := Event.enqueued.inj hr
    rw [h.unbroken (hcont ▸ hc), hgen]

theorem pushed_sized (h : ∀ entry ∈ s.queue, entry.2 = c.byteLength entry.1.value)
    (hsize : bytes = c.byteLength record.value) :
    ∀ entry ∈ (pushed record bytes s).queue, entry.2 = c.byteLength entry.1.value := by
  intro entry hmem
  rcases List.mem_append.mp hmem with hmem | hmem
  · exact h entry hmem
  · rw [List.mem_singleton.mp hmem]
    exact hsize

theorem pushed_core (h : Filling c s) (hgen : record.generation = s.currentGeneration)
    (hcont : record.continuity = s.continuity) (hsize : bytes = c.byteLength record.value)
    (hfit : s.overflows c bytes = false)
    (hbusy : ∀ rest, Waiting (Undelivered s.log ∧ s.stopRequested = true) s.delivery s.queue rest →
      Waiting (Undelivered (pushed record bytes s).log ∧ s.stopRequested = true) s.delivery
        (s.queue ++ [(record, bytes)]) (rest ++ [record]))
    (hlive : Delivering s.delivery → isCalling s.delivery) : (pushed record bytes s).core c := by
  obtain ⟨hunbroken, hhistory⟩ := pushed_history bytes h.core hgen hcont
  obtain ⟨-, henq, hcall, hdone⟩ := pushed_log record bytes s
  obtain ⟨hlen, hbytes⟩ := overflows_false hfit
  refine ⟨?_, fun _ hd hno => ?_, ?_, ⟨?_, hbytes⟩, pushed_sized h.core.sized hsize, h.core.delivering, ?_,
    fun _ => hunbroken, hhistory⟩
  · obtain ⟨rest, hrest, hw⟩ := h.core.account
    exact ⟨rest ++ [record], by rw [henq, hcall, hrest, List.append_assoc], hbusy rest hw⟩
  · exact absurd (hlive hd) (by rw [show isCalling s.delivery = false from hno]; decide)
  · have hb := h.core.bytes
    simp only [pushed, List.map_append, List.sum_append, List.map_cons, List.map_nil, List.sum_cons, List.sum_nil]
    omega
  · simp only [pushed, List.length_append, List.length_singleton]
    omega
  · rw [hcall, hdone]
    exact h.core.calls

theorem enqueue_refused (ho : s.overflows c (c.byteLength record.value)) :
    ∃ e s', enqueue c record s = (.error e, s') ∧ Aside Steady s s' := by
  rw [enqueue_eq, if_pos ho]
  refine bind_cases (P := fun r : Except Failure Unit × OwnedPullPoint V X =>
    ∃ e s', r = (.error e, s') ∧ Aside Steady s s') (fun _ s₁ h₁ => ?_) fun e s₁ h₁ => ?_
  · exact ⟨_, s₁, rfl, aside_diagnostic.ok h₁⟩
  · exact ⟨e, s₁, rfl, aside_diagnostic.ok h₁⟩

theorem enqueue_filling (h : Filling c s) (hgen : record.generation = s.currentGeneration)
    (hcont : record.continuity = s.continuity) :
    (∃ e s', enqueue c record s = (.error e, s') ∧ Aside Steady s s') ∨
      ∃ s', enqueue c record s = (.ok (), s') ∧ Filling c s' ∧ drained s'.log = drained s.log ∧
        enqueued s'.log = enqueued s.log ++ [record] ∧ s'.loop = s.loop := by
  by_cases ho : s.overflows c (c.byteLength record.value)
  · exact .inl (enqueue_refused ho)
  · right
    rw [enqueue_eq, if_neg ho]
    have hfit : s.overflows c (c.byteLength record.value) = false := by simpa using ho
    obtain ⟨hd, he, hcall, hdone⟩ := pushed_log record (c.byteLength record.value) s
    obtain ⟨rest, hrest, hw⟩ := h.core.account
    cases hdel : s.delivery with
    | undefined =>
      rw [hdel] at hw
      have hempty : s.queue = [] := h.core.live h.stop (by rw [hdel]; rfl) (by rw [hdel]; rfl)
      have hw : rest = [] := by
        rcases hw with hw | ⟨_, _, hs⟩
        · rw [hw, hempty, List.map_nil]
        · exact absurd (hs.symm.trans h.stop) (by decide)
      have hdelivering : s.delivering = false := by rw [h.core.delivering, hdel]; rfl
      obtain ⟨hunbroken, hhistory⟩ := pushed_history (c.byteLength record.value) h.core hgen hcont
      obtain ⟨hlen, hbytes⟩ := overflows_false hfit
      have hcalls := h.core.calls
      rw [hdel] at hcalls
      have hzero : s.queuedBytes = 0 := by
        have := h.core.bytes
        rwa [hempty, hdel] at this
      have hdrain : Draining c (pushed record (c.byteLength record.value) s) :=
        ⟨by rw [he, hcall, hrest, hw]; simp [pushed, hempty], by simp [pushed, hempty, hzero],
          ⟨by simp [pushed, hempty]; omega, hbytes⟩, pushed_sized h.core.sized rfl, hdelivering, by rw [hcall, hdone]; exact hcalls,
          fun _ => hunbroken, hhistory⟩
      have hqueue : (pushed record (c.byteLength record.value) s).queue = [(record, c.byteLength record.value)] := by
        simp [pushed, hempty]
      have hnext := drain_next hqueue h.stop
      refine ⟨_, rfl, ⟨hdrain.drain, ?_, ?_⟩, ?_, ?_, ?_⟩ <;> rw [hnext]
      · exact h.stop
      · rfl
      · exact hd
      · exact he
      · rfl
    | returned => exact absurd h.ready (by rw [hdel]; simp [Ready])
    | calling r b called =>
      refine ⟨_, rfl, ⟨pushed_core h hgen hcont rfl hfit (fun rest hw => ?_) fun _ => by rw [hdel]; rfl, h.stop, ?_⟩, hd, he, rfl⟩
      · rw [hdel] at hw ⊢
        cases called with
        | false => simp only [Waiting] at hw ⊢; rw [hw]; simp
        | true => simp only [Waiting] at hw ⊢; rw [hw]; simp
      · exact h.ready
    | rejected e | failed e =>
      refine ⟨_, rfl, ⟨pushed_core h hgen hcont rfl hfit (fun rest hw => ?_) fun hn => ?_, h.stop, h.ready⟩, hd, he, rfl⟩
      · rw [hdel]; trivial
      · rw [hdel] at hn; cases hn

theorem enqueueAll_filling (c : Context V X) (lease : EventLease) : ∀ (messages : List (V × X))
    (s : OwnedPullPoint V X),
    Filling c s → drained s.log = (enqueued s.log).map pair ++ messages →
    (∃ e s', enqueueAll c lease messages s = (.error e, s') ∧ s'.core c ∧
      ∃ lost, drained s'.log = (enqueued s'.log).map pair ++ lost) ∨
    ∃ s', enqueueAll c lease messages s = (.ok (), s') ∧ Filling c s' ∧ s'.loop = s.loop ∧ Whole s'.log
  | [], s, h, hd => .inr ⟨s, rfl, h, rfl, by rwa [List.append_nil] at hd⟩
  | (value, xml) :: messages, s, h, hd => by
    have hnow : Aside (fun _ => false) s (now c s).2 := aside_now s
    unfold enqueueAll
    rw [run_bind]
    generalize now c s = r at hnow
    obtain ⟨r, s₁⟩ := r
    have hd₁ : drained s₁.log = (enqueued s₁.log).map pair ++ (value, xml) :: messages := by
      rw [hnow.reads.1, hnow.reads.2.1]
      exact hd
    have hl₁ : s₁.loop = s.loop := hnow.loop.resolve_right (by decide)
    have h₁ : Filling c s₁ := ⟨hnow.core h.core, hnow.stop.trans h.stop, by rw [hnow.delivery]; exact h.ready⟩
    cases r with
    | error e => exact .inl ⟨e, s₁, rfl, h₁.core, _, hd₁⟩
    | ok receivedAt =>
      simp only [run_get_bind]
      rw [run_bind]
      generalize hrecord : NativeEventRecord.mk value xml receivedAt lease.currentTime lease.terminationTime
        s₁.currentGeneration s₁.continuity = record
      have hgen : record.generation = s₁.currentGeneration := by rw [← hrecord]
      have hcont : record.continuity = s₁.continuity := by rw [← hrecord]
      have hpair : pair record = (value, xml) := by rw [← hrecord]; rfl
      rcases enqueue_filling h₁ hgen hcont with ⟨e, s₂, heq, ha⟩ | ⟨s₂, heq, h₂, hd₂, he₂, hl₂⟩
      · rw [heq]
        exact .inl ⟨e, s₂, rfl, ha.core h₁.core, ha.lost ⟨_, hd₁⟩⟩
      · rw [heq]
        have hd' : drained s₂.log = (enqueued s₂.log).map pair ++ messages := by
          rw [hd₂, he₂, hd₁]
          simp [hpair]
        refine (enqueueAll_filling c lease messages s₂ h₂ hd').imp_right ?_
        rintro ⟨s₃, heq₃, h₃, hl₃, hw₃⟩
        exact ⟨s₃, heq₃, h₃, hl₃.trans (hl₂.trans hl₁), hw₃⟩

theorem enqueueAll_refused (c : Context V X) (lease : EventLease) (rest : List (V × X))
    (h : (c.clock s.ticks).isSome = false ∨ s.overflows c (c.byteLength value)) :
    ∃ e s', enqueueAll c lease ((value, xml) :: rest) s = (.error e, s') ∧ Aside Steady s s' := by
  have hticks : Aside Steady s { s with ticks := s.ticks + 1 } := .of_same rfl rfl rfl rfl rfl rfl rfl rfl rfl rfl
  unfold enqueueAll now
  rw [run_bind, run_get_bind, run_modify_bind]
  cases hc : c.clock s.ticks with
  | none => exact ⟨_, _, rfl, hticks⟩
  | some receivedAt =>
    have ho : s.overflows c (c.byteLength value) := h.resolve_left (by rw [hc]; exact Bool.noConfusion)
    simp only [run_pure, run_get_bind]
    rw [run_bind]
    obtain ⟨e, s', heq, ha⟩ : ∃ e s', enqueue c
          ⟨value, xml, receivedAt, lease.currentTime, lease.terminationTime, s.currentGeneration, s.continuity⟩
          { s with ticks := s.ticks + 1 } = (.error e, s') ∧ Aside Steady { s with ticks := s.ticks + 1 } s' :=
      enqueue_refused ho
    rw [heq]
    exact ⟨e, s', rfl, hticks.trans ha⟩

-- A successful pull

def accepts (c : Context V X) (result : PullResult V X) (s : OwnedPullPoint V X) : Bool :=
  match result.messages, result.nodes with
  | some messages, some nodes =>
    messages.length = nodes.length && messages.length ≤ s.requestLimit && (c.clock s.ticks).isSome &&
      messages.head?.all fun value => !s.overflows c (c.byteLength value)
  | _, _ => false

/-- No response with notifications, its timing in order, is processed once a
stop has been requested, and none is enqueued while `delivery` is the promise
of a `drain` that has returned. -/
def PullHeeded (c : Context V X) (s : OwnedPullPoint V X) (i : Input V X) : Prop :=
  ∀ started result s', s.loop = .pulling started → i = .pulled (.ok result) → drainedBy result ≠ [] →
    timing c result.timing started (s.note (.drained (drainedBy result))) = (.ok (), s') →
    s.stopRequested = false ∧ (s'.accepts c result → Ready s.delivery)

theorem drained_core (h : s.core c) (messages : List (V × X)) : (s.note (.drained messages)).core c := by
  obtain ⟨rest, hrest, hw⟩ := h.account
  refine ⟨⟨rest, ?_, hw.mono fun hu => ⟨List.mem_append_left _ hu.1, hu.2⟩⟩, h.live, h.bytes, h.bound, h.sized, h.delivering,
    ?_, fun hc => ?_, h.history.snoc fun _ hr => nomatch hr⟩
  · simp only [note, enqueued_append, called_append, hrest]
    simp [enqueued, called]
  · simpa [note, called, completed] using h.calls
  · rw [note, unbroken_snoc]
    exact h.unbroken hc

theorem drained_note (messages : List (V × X)) :
    drained (s.note (.drained messages)).log = drained s.log ++ messages ∧
    enqueued (s.note (.drained messages)).log = enqueued s.log := by
  simp [note, drained, enqueued]

def Pulled (c : Context V X) : Except Failure Unit × OwnedPullPoint V X → Prop
  | (.ok _, s') => s'.core c ∧ Steady s'.loop ∧ Whole s'.log ∧ (Replacing s'.loop → s'.continuity ≠ .continuous)
  | (.error _, s') => s'.core c ∧ ∃ lost, drained s'.log = (enqueued s'.log).map pair ++ lost

theorem pulled_aside (hm : Keeps (Aside Steady) m) (h : s.core c) (hl : Steady s.loop)
    (hw : Whole s.log) (hf : Replacing s.loop → s.continuity ≠ .continuous) : Pulled c (m s) := by
  have ha := hm s
  generalize m s = r at ha
  obtain ⟨r, s'⟩ := r
  cases r with
  | ok => exact ⟨ha.core h, ha.loop.elim (fun h => h ▸ hl) id, ha.whole hw, ha.fresh hf⟩
  | error e => exact ⟨ha.core h, ha.lost ⟨[], by rw [List.append_nil]; exact hw⟩⟩

theorem pulled_accounted (h : Accounted c s) (hl : s.loop = .pulling started)
    (hok : PullHeeded c s (.pulled (.ok result))) :
    Accounted c (raise .running (pulled c started result) (s.note (.drained (drainedBy result)))) := by
  have hw : Whole s.log := by have := h.loss; unfold Loss at this; rwa [hl] at this
  suffices hp : Pulled c (pulled c started result (s.note (.drained (drainedBy result)))) by
    unfold raise
    generalize pulled c started result (s.note (.drained (drainedBy result))) = r at hp
    obtain ⟨r, s'⟩ := r
    cases r with
    | ok =>
      obtain ⟨hc, hs, hw, hf⟩ := hp
      exact ⟨hc, ⟨[], by rw [List.append_nil]; exact hw⟩, loss_of_steady hs hw, stopped_of_steady (.inl hs), hf⟩
    | error e => exact ⟨hp.1, hp.2, .inr (by simp), trivial, fun h => nomatch h⟩
  have hheed : drainedBy result ≠ [] → _ := fun hne s' => hok started result s' hl rfl hne
  generalize ht : s.note (.drained (drainedBy result)) = t at hheed
  have hcore : t.core c := ht ▸ drained_core h.core _
  have hlog : drained t.log = (enqueued t.log).map pair ++ drainedBy result := by
    rw [← ht, (drained_note _).1, (drained_note _).2, hw]
  have hplace : t.loop = .pulling started ∧ t.stopRequested = s.stopRequested ∧ t.delivery = s.delivery := by
    rw [← ht]
    exact ⟨hl, rfl, rfl⟩
  obtain ⟨hplace, hstop, hdel⟩ := hplace
  refine bind_cases (P := Pulled c) (fun _ s₁ h₁ => ?_) fun e s₁ h₁ => ?_
  case refine_2 =>
    have ha : Aside Steady t s₁ := aside_timing.ok h₁
    exact ⟨ha.core hcore, ha.lost ⟨_, hlog⟩⟩
  have ha : Aside (fun _ => false) t s₁ := aside_timing.ok h₁
  have hheed : drainedBy result ≠ [] → s.stopRequested = false ∧ (s₁.accepts c result → Ready s.delivery) :=
    fun hne => hheed hne s₁ h₁
  have hl₁ : s₁.loop = .pulling started := (ha.loop.resolve_right (by decide)).trans hplace
  have hlog₁ : drained s₁.log = (enqueued s₁.log).map pair ++ drainedBy result := by
    rw [ha.reads.1, ha.reads.2.1, hlog]
  have hfresh : Replacing s₁.loop → s₁.continuity ≠ .continuous := by rw [hl₁]; exact fun h => nomatch h
  have hsteady : Steady s₁.loop := by rw [hl₁]; rfl
  change Pulled c ((if s₁.stopRequested then _ else _ : M V X Unit) s₁)
  split
  · rename_i hstopped
    have hnil : drainedBy result = [] := by
      by_contra hne
      rw [ha.stop, hstop, (hheed hne).1] at hstopped
      cases hstopped
    refine pulled_aside (aside_suspend rfl rfl) (ha.core hcore) hsteady ?_ hfresh
    rw [hnil, List.append_nil] at hlog₁
    exact hlog₁
  · rename_i hrunning
    have herror : ∀ e : Failure, Pulled c ((.error e, s₁) : Except Failure Unit × OwnedPullPoint V X) :=
      fun _ => ⟨ha.core hcore, _, hlog₁⟩
    cases hm : result.messages with
    | none => exact herror _
    | some messages =>
      cases hn : result.nodes with
      | none => exact herror _
      | some nodes =>
        have hby : drainedBy result = messages.zip nodes := by simp [drainedBy, hm, hn]
        dsimp only
        split
        · exact herror _
        · rename_i hshape
          cases s₁.currentLease with
          | none => exact herror _
          | some lease =>
            dsimp only
            rw [hby] at hlog₁ hheed
            cases hz : messages.zip nodes with
            | nil =>
              rw [hz, List.append_nil] at hlog₁
              exact pulled_aside aside_wait (ha.core hcore) hsteady hlog₁ hfresh
            | cons first rest =>
              obtain ⟨hs, hr⟩ := hheed (by rw [hz]; exact List.cons_ne_nil _ _)
              obtain ⟨value, xml⟩ := first
              have hhead : messages.head? = some value := by
                cases messages <;> cases nodes <;> simp at hz
                exact congrArg some hz.1.1
              by_cases hacc : s₁.accepts c result
              case neg =>
                have hrefuse : (c.clock s₁.ticks).isSome = false ∨ s₁.overflows c (c.byteLength value) := by
                  simp only [not_or, not_not, Nat.not_lt] at hshape
                  by_contra hno
                  obtain ⟨hclock, hroom⟩ := not_or.mp hno
                  refine hacc ?_
                  unfold accepts
                  rw [hm, hn]
                  simp only [Bool.and_eq_true, decide_eq_true_eq, hhead, Option.all_some]
                  exact ⟨⟨⟨hshape.1, hshape.2⟩, by simpa [Option.isSome_iff_ne_none] using hclock⟩, by simpa using hroom⟩
                obtain ⟨e, s₂, heq, ha₂⟩ := enqueueAll_refused c lease rest hrefuse
                rw [run_bind, heq]
                rw [hz] at hlog₁
                exact ⟨ha₂.core (ha.core hcore), ha₂.lost ⟨_, hlog₁⟩⟩
              have hfill : Filling c s₁ :=
                ⟨ha.core hcore, ha.stop.trans (hstop.trans hs), by rw [ha.delivery, hdel]; exact hr hacc⟩
              rw [← hz, run_bind]
              rcases enqueueAll_filling c lease _ s₁ hfill hlog₁ with ⟨e, s₂, heq, hc₂, hlost⟩ | ⟨s₂, heq, hf₂, hl₂, hw₂⟩
              · rw [heq]
                exact ⟨hc₂, hlost⟩
              · rw [heq]
                refine pulled_aside aside_wait hf₂.core ?_ hw₂ ?_ <;> rw [hl₂]
                · exact hsteady
                · rw [hl₁]; exact fun h => nomatch h

-- The other steps

theorem Accounted.beside (h : Accounted c s) (hc : s'.core c) (hd : drained s'.log = drained s.log)
    (he : enqueued s'.log = enqueued s.log) (hf : s'.failure = s.failure) (hs : s'.stopRequested = s.stopRequested)
    (hl : s'.loop = s.loop) (hcont : s'.continuity = .continuous → s.continuity = .continuous)
    (hend : s.queue = [] ∧ Delivering s.delivery ∧ isCalling s.delivery = false →
      s'.queue = [] ∧ Delivering s'.delivery ∧ isCalling s'.delivery = false) : Accounted c s' := by
  refine ⟨hc, by rw [hd, he]; exact h.lost, ?_, ?_, fun hr hc => h.fresh (by rw [← hl]; exact hr) (hcont hc)⟩
  · have hloss := h.loss
    unfold Loss Whole at hloss ⊢
    rw [hl, hd, he, hf]
    split at hloss <;> first | exact hloss | exact hloss.imp_right (.imp_right fun h => ⟨h.1, hend h.2⟩)
  · have := h.stopped
    unfold Stopped at this ⊢
    rw [hl, hs]
    exact this

theorem aside_accounted (h : Accounted c s) (ha : Aside (fun _ => false) s s') : Accounted c s' := by
  obtain ⟨hd, he, -, -⟩ := ha.reads
  refine h.beside (ha.core h.core) hd he ha.failure ha.stop (ha.loop.resolve_right (by decide))
    (fun hc => (ha.continuity hc).1) ?_
  rw [ha.queue, ha.delivery]
  exact id

theorem returned_log : drained (s.note .returned).log = drained s.log ∧
    enqueued (s.note .returned).log = enqueued s.log ∧
    called (s.note .returned).log = called s.log ∧ completed (s.note .returned).log = completed s.log + 1 := by
  simp [note, drained, enqueued, called, completed]

theorem drain_beside : (drain s).log = s.log ∧ (drain s).failure = s.failure ∧
    (drain s).stopRequested = s.stopRequested ∧
    (drain s).loop = s.loop ∧ (drain s).continuity = s.continuity := by
  unfold drain
  split
  · split <;> exact ⟨rfl, rfl, rfl, rfl, rfl⟩
  · exact ⟨rfl, rfl, rfl, rfl, rfl⟩

section
variable (h : Accounted c s)
include h

theorem delivered_accounted (hd : s.delivery = .calling record bytes true) :
    Accounted c (delivered (.ok ()) bytes (s.note .returned)) := by
  obtain ⟨hdr, he, hca, hco⟩ := returned_log (s := s)
  obtain ⟨rest, hrest, hw⟩ := h.core.account
  have hcalls := h.core.calls
  have hbytes := h.core.bytes
  rw [hd] at hw hcalls hbytes
  have hsum : s.queuedBytes - bytes = (s.queue.map (·.2)).sum := by
    rw [hbytes]
    exact Nat.add_sub_cancel _ _
  have hdrain : Draining c { s.note .returned with
      count := s.count + 1, delivering := false, queuedBytes := s.queuedBytes - bytes } := by
    refine ⟨?_, hsum, ⟨Nat.le_trans (Nat.le_add_right _ _) h.core.bound.1, Nat.le_trans (Nat.sub_le _ _) h.core.bound.2⟩,
      h.core.sized, rfl, ?_, fun hc => ?_, h.core.history.snoc fun _ hr => nomatch hr⟩
    · change enqueued (s.note .returned).log = called (s.note .returned).log ++ _
      rw [he, hca, hrest, show rest = s.queue.map (·.1) from hw]
      rfl
    · change (called (s.note .returned).log).length = completed (s.note .returned).log
      rw [hca, hco]
      exact hcalls
    · rw [note, unbroken_snoc]
      exact h.core.unbroken hc
  obtain ⟨hlog, hf, hs, hl, hcont⟩ := drain_beside (s := { s.note .returned with
    count := s.count + 1, delivering := false, queuedBytes := s.queuedBytes - bytes })
  refine h.beside hdrain.drain ?_ ?_ hf hs hl (fun hc => hcont ▸ hc) fun hend => ?_
  · exact (congrArg drained hlog).trans hdr
  · exact (congrArg enqueued hlog).trans he
  · rw [hd] at hend
    cases hend.2.2

theorem rejected_accounted (hd : s.delivery = .calling record bytes begun)
    (hlog : t.log = s.log ∨ t = s.note .returned)
    (ht : t = { s with log := t.log }) : Accounted c (delivered (.error e) bytes t) := by
  have hreads : drained t.log = drained s.log ∧ enqueued t.log = enqueued s.log ∧ called t.log = called s.log ∧
      completed s.log ≤ completed t.log ∧ unbroken t.log = unbroken s.log ∧ History t.log := by
    rcases hlog with hlog | rfl
    · rw [hlog]
      exact ⟨rfl, rfl, rfl, Nat.le_refl _, rfl, h.core.history⟩
    · obtain ⟨hdr, he, hca, hco⟩ := returned_log (s := s)
      exact ⟨hdr, he, hca, by rw [hco]; exact Nat.le_succ _, by rw [note, unbroken_snoc]; rfl,
        h.core.history.snoc fun _ hr => nomatch hr⟩
  obtain ⟨hdr, he, hca, hco, hu, hh⟩ := hreads
  generalize t.log = log at hdr he hca hco hu hh ht
  subst ht
  have hcalls := h.core.calls
  have hbytes := h.core.bytes
  rw [hd] at hcalls hbytes
  refine h.beside ?_ hdr he rfl rfl rfl id fun hend => ?_
  · refine ⟨?_, fun _ hn => (nomatch hn), ?_, ⟨Nat.le_trans (Nat.le_add_right _ _) h.core.bound.1,
      Nat.le_trans (Nat.sub_le _ _) h.core.bound.2⟩, h.core.sized, rfl, ?_, fun hc => ?_, hh⟩
    · obtain ⟨rest, hrest, -⟩ := h.core.account
      refine ⟨rest, ?_, trivial⟩
      change enqueued log = called log ++ rest
      rw [he, hca, hrest]
    · change s.queuedBytes - bytes = _
      rw [hbytes]
      exact Nat.add_sub_cancel _ _
    · change (called log).length ≤ completed log + 1
      rw [hca]
      cases begun with
      | true => exact Nat.le_trans (Nat.le_of_eq hcalls) (Nat.succ_le_succ hco)
      | false => exact Nat.le_trans (Nat.le_of_eq hcalls) (Nat.le_trans hco (Nat.le_succ _))
    · change unbroken log = _
      rw [hu]
      exact h.core.unbroken hc
  · rw [hd] at hend
    cases hend.2.2

theorem deliveryTurn_accounted : Accounted c (deliveryTurn c s) := by
  unfold deliveryTurn
  cases hd : s.delivery with
  | returned =>
    have hcore : ({ s with delivery := .undefined } : OwnedPullPoint V X).core c := by
      obtain ⟨rest, hrest, hw⟩ := h.core.account
      have hcalls := h.core.calls
      have hlive := h.core.live
      have hbytes := h.core.bytes
      have hdel := h.core.delivering
      rw [hd] at hw hcalls hlive hbytes hdel
      exact ⟨⟨rest, hrest, hw⟩, hlive, hbytes, h.core.bound, h.core.sized, hdel, hcalls, h.core.unbroken, h.core.history⟩
    exact h.beside hcore rfl rfl rfl rfl rfl id fun hend => ⟨hend.1, rfl, rfl⟩
  | rejected e =>
    have hfailed : Accounted c { s with deliveryFailure := some e, delivery := .failed e } := by
      have hcore : ({ s with deliveryFailure := some e, delivery := .failed e } : OwnedPullPoint V X).core c := by
        obtain ⟨rest, hrest, -⟩ := h.core.account
        have hcalls := h.core.calls
        have hbytes := h.core.bytes
        have hdel := h.core.delivering
        rw [hd] at hcalls hbytes hdel
        exact ⟨⟨rest, hrest, trivial⟩, fun _ hn => (nomatch hn), hbytes, h.core.bound, h.core.sized, hdel, hcalls, h.core.unbroken,
          h.core.history⟩
      refine h.beside hcore rfl rfl rfl rfl rfl id fun hend => ?_
      rw [hd] at hend
      cases hend.2.1
    unfold deliveryFailed
    simp only [run_modify_bind]
    refine aside_accounted hfailed ((?_ : Keeps (Aside fun _ => false) (do
      diagnostic c "DeliveryFailed" .gap
      .modify fun s => { s with aborted := true })) _)
    exact .bind aside_diagnostic fun _ => .modify fun _ => .of_same rfl rfl rfl rfl rfl rfl rfl rfl rfl rfl
  | undefined => exact h
  | calling record bytes begun => exact h
  | failed e => exact h

theorem listener_accounted (hd : s.delivery = .calling record bytes false) :
    Accounted c ({ s with delivery := .calling record bytes true }.note (.called record)) := by
  have hlog : drained (s.log ++ [.called record]) = drained s.log ∧
      enqueued (s.log ++ [.called record]) = enqueued s.log ∧
      called (s.log ++ [.called record]) = called s.log ++ [record] ∧
      completed (s.log ++ [.called record]) = completed s.log := by
    simp [drained, enqueued, called, completed]
  obtain ⟨hdr, he, hca, hco⟩ := hlog
  refine h.beside ?_ hdr he rfl rfl rfl id fun hend => ?_
  · obtain ⟨rest, hrest, hw⟩ := h.core.account
    rw [hd] at hw
    have hcalls := h.core.calls
    rw [hd] at hcalls
    refine ⟨⟨s.queue.map (·.1), ?_, ?_⟩, fun _ _ hno => (nomatch hno), ?_, h.core.bound, h.core.sized, ?_, ?_, fun hc => ?_,
      h.core.history.snoc fun _ hr => nomatch hr⟩
    · change enqueued (s.log ++ _) = called (s.log ++ _) ++ _
      rw [he, hca, hrest, show rest = record :: s.queue.map (·.1) from hw]
      simp
    · change s.queue.map (·.1) = s.queue.map (·.1)
      rfl
    · have := h.core.bytes
      rwa [hd] at this
    · have := h.core.delivering
      rwa [hd] at this
    · change (called (s.log ++ _)).length = completed (s.log ++ _) + 1
      rw [hca, hco, List.length_append, show (called s.log).length = completed s.log from hcalls]
      rfl
    · rw [note, unbroken_snoc]
      exact h.core.unbroken hc
  · rw [hd] at hend
    cases hend.2.2

end

-- A new endpoint

theorem aside_create (hq : ∀ started, Q (.creating phase started)) (hf : s.continuity ≠ .continuous) :
    Aside Q s (create c phase s).2 := by
  unfold create
  refine bind_cases (P := fun r : Except Failure Unit × OwnedPullPoint V X => Aside Q s r.2) (fun started s₁ h₁ => ?_)
    fun e s₁ h₁ => aside_now.ok h₁
  have ha : Aside Q s s₁ := aside_now.ok h₁
  refine ha.trans ?_
  have hf₁ : s₁.continuity ≠ .continuous := fun h => hf (ha.continuity h).1
  exact ⟨⟨[.create], rfl, fun e h => by rw [List.mem_singleton.mp h]; rfl⟩, rfl, rfl, rfl, rfl, rfl, rfl, .inr (hq started),
    fun h => absurd h hf₁, fun _ h => absurd h hf₁⟩

theorem aside_restart (hf : s.continuity ≠ .continuous) : Aside Steady s (restart c s).2 := by
  unfold restart
  simp only [run_modify_bind]
  refine Aside.trans (?_ : Aside Steady s _) (aside_create (fun _ => rfl) hf)
  exact .of_same rfl rfl rfl rfl rfl rfl rfl rfl rfl rfl

theorem aside_received (hs : Q (.synchronizing phase)) (hq : Q (.created phase)) (hf : s.continuity ≠ .continuous) :
    Aside Q s (received c phase started result authorized s).2 := by
  unfold received
  refine bind_cases (P := fun r : Except Failure Unit × OwnedPullPoint V X => Aside Q s r.2) (fun _ s₁ h₁ => ?_)
    fun e s₁ h₁ => ?_
  case refine_2 =>
    have ha : Keeps (Aside Q) (Throwing.lift result.reference : M V X Unit) := .lift .refl _
    exact ha.ok h₁
  have ha : Aside Q s s₁ := (Keeps.lift .refl _ : Keeps (Aside Q) (Throwing.lift result.reference : M V X Unit)).ok h₁
  have hf₁ : s₁.continuity ≠ .continuous := fun h => hf (ha.continuity h).1
  simp only [run_modify_bind]
  have hreceived : Aside Q s₁ { s₁ with
      endpoint := true, cleanupAttempted := false, endpointGone := false, currentGeneration := s₁.currentGeneration + 1
      log := s₁.log ++ [.received (s₁.currentGeneration + 1)] } :=
    ⟨⟨_, rfl, fun e h => by rw [List.mem_singleton.mp h]; rfl⟩, rfl, rfl, rfl, rfl, rfl, rfl, .inl rfl,
      fun h => absurd h hf₁, fun h _ => h⟩
  refine ha.trans (hreceived.trans ?_)
  refine ((?_ : Keeps (Aside Q) (do
    Throwing.lift authorized
    timing c result.timing started
    if c.options.synchronize ∧ c.synchronize then
      .modify fun s => s.note (.synchronize s.currentGeneration)
      suspend (.synchronizing phase)
    else activate c phase : M V X Unit)) _)
  refine .bind (.lift .refl _) fun _ => .bind aside_timing fun _ => ?_
  split
  · exact aside_send (e := fun s => .synchronize s.currentGeneration) (fun _ => rfl) (fun _ _ => rfl) hs rfl
  · exact aside_activate hq

theorem aside_learn {α : Type} (result : Except Failure α) : Aside Q s (learn result s) := by
  unfold learn
  cases result with
  | ok => exact .refl s
  | error e =>
    dsimp only
    split
    · exact aside_note rfl fun _ => rfl
    · exact .refl s

theorem aside_learnRelease (outcome : Except Failure Unit) : Aside Q s (learnRelease outcome s) := by
  cases outcome with
  | ok => exact aside_note rfl fun _ => rfl
  | error e => exact aside_learn (.error e : Except Failure Unit)

-- The end

theorem core_stop (h : s.core c) : ({ s with stopRequested := true } : OwnedPullPoint V X).core c := by
  obtain ⟨rest, hrest, hw⟩ := h.account
  exact ⟨⟨rest, hrest, hw.mono fun h => ⟨h.1, rfl⟩⟩, fun h => (nomatch h), h.bytes, h.bound, h.sized, h.delivering, h.calls,
    h.unbroken, h.history⟩

theorem stopped_of_stop (h : s.stopRequested) : Stopped s := by
  unfold Stopped
  split <;> first | exact h | trivial

theorem externalStop_accounted (h : Accounted c s) : Accounted c (externalStop s) := by
  unfold externalStop
  split
  · exact h
  · refine ⟨core_stop h.core, h.lost, ?_, stopped_of_stop rfl, h.fresh⟩
    exact h.loss

structure Ending (c : Context V X) (phase : Phase) (s : OwnedPullPoint V X) : Prop where
  core : s.core c
  lost : ∃ lost, drained s.log = (enqueued s.log).map pair ++ lost
  stop : s.stopRequested
  starting : phase = .starting → drained s.log = []

theorem Ending.aside (h : Ending c phase s) (ha : Aside Q s s') : Ending c phase s' where
  core := ha.core h.core
  lost := ha.lost h.lost
  stop := ha.stop.trans h.stop
  starting hp := ha.reads.1.trans (h.starting hp)

def Ended (c : Context V X) (phase : Phase) : Except Failure Unit × OwnedPullPoint V X → Prop
  | (.ok _, s') => Ending c phase s' ∧ Loss s' ∧ Replacing s'.loop = false
  | (.error _, s') => Ending c phase s'

theorem crash_accounted (h : Ended c phase (m s)) : Accounted c (crash phase m s) := by
  unfold crash
  generalize m s = r at h
  obtain ⟨r, s'⟩ := r
  cases r with
  | ok =>
    obtain ⟨he, hl, hr⟩ := h
    exact ⟨he.core, he.lost, hl, stopped_of_stop he.stop, fun h => absurd h (by rw [hr]; decide)⟩
  | error e =>
    cases phase with
    | starting => exact ⟨h.core, h.lost, .inr (.inl (h.starting rfl)), stopped_of_stop h.stop, fun h => nomatch h⟩
    | running => exact ⟨h.core, h.lost, .inl (List.cons_ne_nil _ _), stopped_of_stop h.stop, fun h => nomatch h⟩

theorem finish_accounted (h : Accounted c s) (hl : s.loop = .finishing phase error) :
    Accounted c (finish phase error s) := by
  have hloss := h.loss
  unfold Loss at hloss
  rw [hl] at hloss
  unfold finish
  dsimp only
  split
  · refine ⟨core_stop h.core, h.lost, ?_, rfl, fun h => nomatch h⟩
    cases phase <;> exact hloss
  · have ha : Aside (fun _ => false) s (s.note (.unsubscribe s.currentGeneration)) := aside_note rfl fun _ => rfl
    refine ⟨core_stop (ha.core h.core), ha.lost h.lost, ?_, rfl, fun h => nomatch h⟩
    cases phase with
    | starting => exact ha.reads.1.trans hloss
    | running => exact hloss.imp_left ha.whole

theorem finishReleased_accounted (h : Accounted c s) (hl : s.loop = .unsubscribed phase error cleanup) :
    Accounted c (crash phase (finishReleased c phase error cleanup) s) := by
  have hloss := h.loss
  have hstop := h.stopped
  unfold Loss at hloss
  unfold Stopped at hstop
  rw [hl] at hloss hstop
  have hstarting : phase = .starting → drained s.log = [] := by
    rintro rfl
    exact hloss
  refine crash_accounted ?_
  cases cleanup with
  | none =>
    refine ⟨⟨h.core, h.lost, hstop, hstarting⟩, ?_, rfl⟩
    cases phase with
    | starting => exact hloss
    | running =>
      refine hloss.imp_right fun he => ?_
      cases error with
      | none => exact absurd rfl he
      | some e => exact List.cons_ne_nil _ _
  | some failure =>
    have hset : ∀ s₁, Ending c phase s₁ →
        Ended c phase (suspend (.settling phase (error.toList ++ [failure])) s₁ : Except Failure Unit × OwnedPullPoint V X) := by
      intro s₁ h₁
      refine ⟨⟨h₁.core, h₁.lost, h₁.stop, h₁.starting⟩, ?_, rfl⟩
      cases phase with
      | starting => exact h₁.starting rfl
      | running => exact .inr (by simp)
    have hbegin : Ending c phase { s with
        remoteStopped := .rejected, currentState := .uncertain
        failure := if s.failure = [] then [failure] else s.failure } := ⟨h.core, h.lost, hstop, hstarting⟩
    unfold finishReleased
    simp only [run_modify_bind]
    refine bind_cases (P := Ended c phase) (fun _ s₁ h₁ => hset s₁ ?_) fun e s₁ h₁ => ?_
    · exact hbegin.aside (Q := fun _ => false) (aside_diagnostic.ok h₁)
    · exact hbegin.aside (Q := fun _ => false) (aside_diagnostic.ok h₁)

theorem dropped_core (h : s.core c) (hs : s.stopRequested) (hd : isCalling s.delivery = false)
    (hu : Undelivered s.log) :
    ({ s with queue := [], queuedBytes := 0, log := s.log ++ [.dropped (s.queue.map (·.1))] } :
      OwnedPullPoint V X).core c := by
  have hreads : ∀ records : List (NativeEventRecord V X), enqueued (s.log ++ [.dropped records]) = enqueued s.log ∧
      called (s.log ++ [.dropped records]) = called s.log ∧
      completed (s.log ++ [.dropped records]) = completed s.log := by
    intro records
    simp [enqueued, called, completed]
  obtain ⟨he, hca, hco⟩ := hreads (s.queue.map (·.1))
  obtain ⟨rest, hrest, hw⟩ := h.account
  refine ⟨⟨rest, by rw [he, hca]; exact hrest, ?_⟩, fun _ _ _ => rfl, ?_, ?_, fun _ h => (nomatch h), h.delivering, ?_, fun hc => ?_,
    h.history.snoc fun _ hr => nomatch hr⟩
  · change Waiting _ s.delivery [] rest
    have hgone : ([] : List (NativeEventRecord V X × Nat)) = [] ∧
        Undelivered (s.log ++ [.dropped (s.queue.map (·.1))]) ∧ s.stopRequested = true :=
      ⟨rfl, List.mem_append_left _ hu, hs⟩
    cases hdel : s.delivery with
    | undefined | returned => exact .inr hgone
    | calling => rw [hdel] at hd; cases hd
    | rejected | failed => trivial
  · change 0 = 0 + inHand s.delivery
    cases hdel : s.delivery <;> first | rfl | (rw [hdel] at hd; cases hd)
  · have := h.delivering
    rw [hd] at this
    simp [this]
  · rw [hca, hco]
    exact h.calls
  · rw [unbroken_snoc]
    exact h.unbroken hc

structure Settled (c : Context V X) (phase : Phase) (s : OwnedPullPoint V X)
    (r : Except Failure Unit × OwnedPullPoint V X) : Prop where
  ending : Ending c phase r.2
  queue : r.1 = .ok () → r.2.queue = []
  drained : drained r.2.log = drained s.log
  enqueued : enqueued r.2.log = enqueued s.log
  delivery : r.2.delivery = s.delivery

theorem diagnostic_mem (h : diagnostic c code severity s = (r, s')) : .diagnostic severity code ∈ s'.log := by
  have hrest : Keeps (Aside fun _ => false) (do
      let at_ ← now c
      Throwing.modify fun s => { s with findings := s.findings ++ [⟨at_, code, s.currentGeneration, severity⟩] } : M V X Unit) :=
    .bind aside_now fun _ => .modify fun _ => .of_same rfl rfl rfl rfl rfl rfl rfl rfl rfl rfl
  unfold diagnostic at h
  simp only [run_modify_bind] at h
  obtain ⟨es, he, -⟩ := (hrest.ok h).events
  rw [he]
  exact List.mem_append_left _ (List.mem_append_right _ (List.mem_singleton.mpr rfl))

theorem undelivered_settled (h : Ending c phase s) (hd : isCalling s.delivery = false) :
    Settled c phase s (undelivered c s) := by
  unfold undelivered
  simp only [run_get_bind]
  split
  · rename_i hq
    exact ⟨h, fun _ => List.isEmpty_iff.mp hq, rfl, rfl, rfl⟩
  · refine bind_cases (P := Settled c phase s) (fun _ s₁ h₁ => ?_) fun e s₁ h₁ => ?_
    · have ha : Aside (fun _ => false) s s₁ := aside_diagnostic.ok h₁
      obtain ⟨hdr, he, -, -⟩ := ha.reads
      have h₂ := h.aside ha
      have hsame : ∀ records, OwnedPullPoint.drained (s₁.log ++ [.dropped records]) = OwnedPullPoint.drained s₁.log ∧
          OwnedPullPoint.enqueued (s₁.log ++ [.dropped records]) = OwnedPullPoint.enqueued s₁.log := by
        intro records
        simp [OwnedPullPoint.drained, OwnedPullPoint.enqueued]
      obtain ⟨hdr', he'⟩ := hsame (s₁.queue.map (·.1))
      have hcore := dropped_core h₂.core h₂.stop (by rw [ha.delivery]; exact hd) (diagnostic_mem h₁)
      refine ⟨⟨hcore, ?_, h₂.stop, fun hp => hdr'.trans (h₂.starting hp)⟩, fun _ => rfl, hdr'.trans hdr, he'.trans he,
        ha.delivery⟩
      obtain ⟨lost, hlost⟩ := h₂.lost
      exact ⟨lost, hdr'.trans (hlost.trans (congrArg (fun records => records.map pair ++ lost) he'.symm))⟩
    · have ha : Aside (fun _ => false) s s₁ := aside_diagnostic.ok h₁
      exact ⟨h.aside ha, fun h => (nomatch h), ha.reads.1, ha.reads.2.1, ha.delivery⟩

theorem finishSettled_accounted (h : Accounted c s) (hl : s.loop = .settling phase errors)
    (hd : isCalling s.delivery = false) :
    Accounted c (crash phase (finishSettled c (errors ++ deliveryReason s.delivery)) s) := by
  have hloss := h.loss
  have hstop := h.stopped
  unfold Loss at hloss
  unfold Stopped at hstop
  rw [hl] at hloss hstop
  have hending : Ending c phase s := ⟨h.core, h.lost, hstop, by rintro rfl; exact hloss⟩
  have hsettled := undelivered_settled hending hd
  refine crash_accounted ?_
  unfold finishSettled
  refine bind_cases (P := Ended c phase) (fun _ s₁ h₁ => ?_) fun e s₁ h₁ => ?_
  case refine_2 =>
    rw [h₁] at hsettled
    exact hsettled.ending
  rw [h₁] at hsettled
  obtain ⟨he₁, hq₁, hdr₁, henq₁, hdel₁⟩ := hsettled
  have hend : ∀ s₂ : OwnedPullPoint V X, s₂.core c → s₂.log = s₁.log → s₂.stopRequested = s₁.stopRequested →
      Ending c phase s₂ := fun s₂ hc hlog hs => ⟨hc, by rw [hlog]; exact he₁.lost, hs.trans he₁.stop, by rw [hlog]; exact he₁.starting⟩
  dsimp only
  split
  · rename_i hnone
    have hnone : errors ++ deliveryReason s.delivery = [] := by
      cases he : errors ++ deliveryReason s.delivery with
      | nil => rfl
      | cons e es =>
        rw [he] at hnone
        have : e ∈ (e :: es).dedup := List.mem_dedup.mpr List.mem_cons_self
        rw [hnone] at this
        cases this
    obtain ⟨herrors, hreason⟩ := List.append_eq_nil_iff.mp hnone
    refine ⟨hend _ he₁.core rfl rfl, ?_, rfl⟩
    cases phase with
    | starting => exact .inr (.inl (he₁.starting rfl))
    | running =>
      refine .inr (.inr ⟨?_, hq₁ rfl, ?_, ?_⟩)
      · have hw := hloss.resolve_right fun h => h herrors
        unfold Whole at hw ⊢
        exact hdr₁.trans (hw.trans (congrArg (List.map pair) henq₁.symm))
      · change Delivering s₁.delivery = true
        rw [show s₁.delivery = s.delivery from hdel₁]
        cases hds : s.delivery <;> first | rfl | (rw [hds] at hreason; cases hreason)
      · change isCalling s₁.delivery = false
        rw [show s₁.delivery = s.delivery from hdel₁]
        exact hd
  · rename_i hsome
    split
    · exact ⟨hend _ he₁.core rfl rfl, hsome, rfl⟩
    · exact ⟨hend _ he₁.core rfl rfl, .inl hsome, rfl⟩

theorem reported_accounted (h : Accounted c s) (hl : s.loop = .reporting) : Accounted c (reported outcome s) := by
  have hloss := h.loss
  have hstop := h.stopped
  unfold Loss at hloss
  unfold Stopped at hstop
  rw [hl] at hloss hstop
  refine ⟨h.core, h.lost, .inl ?_, hstop, fun h => nomatch h⟩
  cases outcome with
  | ok => exact hloss
  | error e => exact List.append_ne_nil_of_left_ne_nil hloss _

-- Every step

section
variable (h : Accounted c s)
include h

theorem unsubscribed_accounted : Accounted c (unsubscribed c outcome s) := by
  have hloss := h.loss
  have ha : Aside (fun _ => false) s (releaseDone c outcome (learnRelease outcome s)).2 :=
    (aside_learnRelease outcome).trans (aside_releaseDone outcome _)
  unfold unsubscribed
  cases hl : s.loop with
  | releasing =>
    unfold Loss at hloss
    rw [hl] at hloss
    have hlearn := aside_accounted h (aside_learnRelease outcome)
    have hloop : (learnRelease outcome s).loop = .releasing :=
      ((aside_learnRelease (Q := fun _ => false) outcome).loop.resolve_right (by decide)).trans hl
    refine raise_running ?_ hlearn (.inl (by rw [hloop]; rfl)) ((aside_learnRelease (Q := fun _ => false) outcome).whole hloss)
    refine bind_cases (P := fun r : Except Failure Unit × OwnedPullPoint V X => Aside Steady (learnRelease outcome s) r.2)
      (fun _ s₁ h₁ => ?_) fun e s₁ h₁ => ?_
    · have ha₁ : Aside Steady (learnRelease outcome s) s₁ := (aside_releaseDone outcome).ok h₁
      have hr : Replacing (learnRelease outcome s).loop := by rw [hloop]; rfl
      refine ha₁.trans ⟨⟨[], (List.append_nil _).symm, fun _ h => nomatch h⟩, rfl, rfl, rfl, rfl, rfl, rfl, .inr rfl,
        fun h => ⟨h, rfl, rfl⟩, fun _ hc => ?_⟩
      exact absurd (ha₁.continuity hc).1 (hlearn.fresh hr)
    · exact (aside_releaseDone outcome).ok h₁
  | unsubscribing phase error =>
    have hstop := h.stopped
    unfold Loss at hloss
    unfold Stopped at hstop
    rw [hl] at hloss hstop
    dsimp only
    generalize releaseDone c outcome (learnRelease outcome s) = r at ha
    obtain ⟨r, s'⟩ := r
    have hplace : ∀ cleanup, Accounted c { s' with loop := .unsubscribed phase error cleanup } := by
      intro cleanup
      refine ⟨ha.core h.core, ha.lost h.lost, ?_, ha.stop.trans hstop, fun h => nomatch h⟩
      cases phase with
      | starting => exact ha.reads.1.trans hloss
      | running => exact hloss.imp_left ha.whole
    cases r with
    | ok => exact hplace none
    | error e => exact hplace (some e)
  | _ => exact h

theorem whole_of_loss (hd : drained s.log = []) : Whole s.log := by
  obtain ⟨lost, hlost⟩ := h.lost
  rw [hd] at hlost
  have := List.append_eq_nil_iff.mp hlost.symm
  unfold Whole
  rw [hd, this.1]

theorem turn_accounted : Accounted c (turn c s) := by
  have hloss := h.loss
  unfold Loss at hloss
  unfold turn
  cases hl : s.loop with
  | idle =>
    rw [hl] at hloss
    dsimp only
    split
    · rename_i hs
      exact ⟨h.core, h.lost, .inr (.inl hloss), hs, fun h => nomatch h⟩
    · refine raise_starting (aside_create (fun _ => rfl) (h.fresh (by rw [hl]; rfl))) h (by rw [hl]; rfl) hloss
  | created phase =>
    rw [hl] at hloss
    cases phase with
    | starting => exact raise_running (aside_run s) h (.inr ⟨hl, hloss⟩) (whole_of_loss h hloss)
    | running =>
      have hcore : ({ s with continuity := .gap, loop := .running } : OwnedPullPoint V X).core c :=
        ⟨h.core.account, h.core.live, h.core.bytes, h.core.bound, h.core.sized, h.core.delivering, h.core.calls, fun h => (nomatch h),
          h.core.history⟩
      exact ⟨hcore, h.lost, hloss, trivial, fun h => nomatch h⟩
  | running =>
    rw [hl] at hloss
    exact raise_running (aside_run s) h (.inl (by rw [hl]; rfl)) hloss
  | released =>
    rw [hl] at hloss
    exact raise_running (aside_restart (h.fresh (by rw [hl]; rfl))) h (.inl (by rw [hl]; rfl)) hloss
  | finishing phase error => exact finish_accounted h hl
  | unsubscribed phase error cleanup => exact finishReleased_accounted h hl
  | settling phase errors =>
    dsimp only
    cases hd : s.delivery with
    | calling => exact h
    | _ =>
      have := finishSettled_accounted h hl (by rw [hd]; rfl)
      rwa [hd] at this
  | _ => exact h

theorem created_accounted (hl : s.loop = .creating phase started)
    (hm : ∀ Q : Loop → Bool, Q (.synchronizing phase) → Q (.created phase) → Aside Q s (m s).2) :
    Accounted c (raise phase m s) := by
  have hloss := h.loss
  unfold Loss at hloss
  rw [hl] at hloss
  cases phase with
  | starting => exact raise_starting (hm _ rfl rfl) h (by rw [hl]; rfl) hloss
  | running => exact raise_running (hm _ rfl rfl) h (.inl (by rw [hl]; rfl)) hloss

theorem synchronized_accounted (hl : s.loop = .synchronizing phase)
    (hm : ∀ Q : Loop → Bool, Q (.created phase) → Aside Q s (m s).2) : Accounted c (raise phase m s) := by
  have hloss := h.loss
  unfold Loss at hloss
  rw [hl] at hloss
  cases phase with
  | starting => exact raise_starting (hm _ rfl) h (by rw [hl]; rfl) hloss
  | running => exact raise_running (hm _ rfl) h (.inl (by rw [hl]; rfl)) hloss

end

theorem response_accounted {α : Type} (result : Except Failure α) (h : Accounted c s) (hs : Steady s.loop)
    (hw : Whole s.log) (hm : Keeps (Aside Steady) m) : Accounted c (raise .running m (learn result s)) := by
  have ha : Aside (fun _ => false) s (learn result s) := aside_learn result
  refine raise_running (hm _) (aside_accounted h ha) (.inl ?_) (ha.whole hw)
  rw [ha.loop.resolve_right (by decide)]
  exact hs

theorem step_accounted (h : Accounted c s) (hok : PullHeeded c s i) : Accounted c (step c s i) := by
  have hloss := h.loss
  unfold Loss at hloss
  cases i with
  | turn => exact turn_accounted h
  | created result authorized =>
    unfold step
    cases hl : s.loop <;> try exact h
    rename_i phase started
    cases result with
    | ok result =>
      exact created_accounted h hl fun Q hs hq => aside_received hs hq (h.fresh (by rw [hl]; rfl))
    | error e => exact created_accounted h hl fun Q _ _ => .refl s
  | synchronized result =>
    unfold step
    cases hl : s.loop <;> try exact h
    rename_i phase
    cases result with
    | ok => exact synchronized_accounted h hl fun Q hq => aside_activate hq s
    | error e =>
      have ha : Aside (fun _ => false) s (learn (.error e : Except Failure Unit) s) := aside_learn _
      refine synchronized_accounted (aside_accounted h ha) ((ha.loop.resolve_right (by decide)).trans hl) fun Q _ => .refl _
  | renewed result =>
    unfold step
    cases hl : s.loop <;> try exact h
    rw [hl] at hloss
    exact response_accounted result h (by rw [hl]; rfl) hloss (aside_renewed result)
  | pulled result =>
    unfold step
    cases hl : s.loop <;> try exact h
    rw [hl] at hloss
    cases result with
    | ok result => exact pulled_accounted h hl hok
    | error e => exact response_accounted _ h (by rw [hl]; rfl) hloss aside_pullFailed
  | slept outcome =>
    unfold step
    cases hl : s.loop <;> try exact h
    rw [hl] at hloss
    exact raise_running (aside_slept outcome s) h (.inl (by rw [hl]; rfl)) hloss
  | unsubscribed outcome => exact unsubscribed_accounted h
  | reported outcome =>
    unfold step
    cases hl : s.loop <;> try exact h
    exact reported_accounted h hl
  | listener =>
    unfold step
    cases hd : s.delivery <;> try exact h
    rename_i record bytes begun
    cases begun with
    | false => exact listener_accounted h hd
    | true => exact h
  | delivered outcome =>
    unfold step
    cases hd : s.delivery <;> try exact h
    rename_i record bytes begun
    cases begun with
    | false => exact h
    | true =>
      cases outcome with
      | ok => exact delivered_accounted h hd
      | error e => exact rejected_accounted h hd (.inr rfl) rfl
  | deadline e =>
    unfold step
    cases hd : s.delivery <;> try exact h
    exact rejected_accounted h hd (.inl rfl) rfl
  | deliveryTurn => exact deliveryTurn_accounted h
  | stop => exact externalStop_accounted h

-- Every run

theorem heeded_accounted (h : ((system c).when (PullHeeded c)).Reachable s) : Accounted c s := by
  refine h.invariant (fun s hs => ?_) fun s i s' hs hstep => ?_
  · rw [show s = initial c from hs]
    exact accounted_initial c
  · obtain ⟨hok, rfl⟩ := hstep
    exact step_accounted hs hok

/-- The delivery under way takes the next record as soon as the listener is
done with its own. -/
def Serving (s : OwnedPullPoint V X) : Prop :=
  ∃ record bytes begun next more, s.delivery = .calling record bytes begun ∧ s.queue = next :: more ∧
    (delivered (.ok ()) bytes s).delivery = .calling next.1 next.2 false ∧ (delivered (.ok ()) bytes s).queue = more

theorem serving (h : s.core c) (hq : s.queue ≠ []) (hs : s.stopRequested = false) (hd : Delivering s.delivery) :
    Serving s := by
  have hcalling : isCalling s.delivery := by
    by_contra hno
    exact hq (h.live hs hd (by simpa using hno))
  obtain ⟨⟨record, bytes⟩, more, hq⟩ := List.exists_cons_of_ne_nil hq
  cases hdel : s.delivery with
  | calling current size begun =>
    have hnext : ∀ t : OwnedPullPoint V X, t.queue = s.queue → t.stopRequested = s.stopRequested →
        (drain t).delivery = .calling record bytes false ∧ (drain t).queue = more := by
      intro t htq hts
      rw [drain_next (htq.trans hq) (hts.trans hs)]
      exact ⟨rfl, rfl⟩
    exact ⟨current, size, begun, (record, bytes), more, hdel, hq, hnext _ rfl rfl⟩
  | undefined | returned | rejected | failed => rw [hdel] at hcalling; cases hcalling

theorem calls_in_order (h : Accounted c s) : (called s.log).map pair <+: drained s.log := by
  obtain ⟨rest, hrest, -⟩ := h.core.account
  obtain ⟨lost, hlost⟩ := h.lost
  rw [hlost, hrest, List.map_append, List.append_assoc]
  exact List.prefix_append _ _

theorem done_accounted (h : Accounted c s) (hl : s.loop = .done) :
    (called s.log).map pair = drained s.log ∨ Undelivered s.log ∨ s.failure ≠ [] := by
  have hloss := h.loss
  unfold Loss at hloss
  rw [hl] at hloss
  rcases hloss with hf | hd | ⟨hw, hq, hdel, hno⟩
  · exact .inr (.inr hf)
  · have := calls_in_order h
    rw [hd] at this ⊢
    exact .inl (List.prefix_nil.mp this)
  · obtain ⟨rest, hrest, hwait⟩ := h.core.account
    have hrest' : rest = [] ∨ Undelivered s.log := by
      cases hds : s.delivery with
      | undefined | returned =>
        rw [hds] at hwait
        refine hwait.imp (fun hr => ?_) fun hu => hu.2.1
        rw [hr, hq, List.map_nil]
      | calling => rw [hds] at hno; cases hno
      | rejected | failed => rw [hds] at hdel; cases hdel
    refine hrest'.imp (fun hr => ?_) .inl
    rw [hr, List.append_nil] at hrest
    exact (hw.trans (congrArg (List.map pair) hrest)).symm

theorem calls_bounded (h : s.core c) : (called s.log).length ≤ completed s.log + 1 := by
  have hcalls := h.calls
  cases hd : s.delivery with
  | calling record bytes begun =>
    rw [hd] at hcalls
    cases begun with
    | true => exact Nat.le_of_eq hcalls
    | false => exact Nat.le_trans (Nat.le_of_eq hcalls) (Nat.le_succ _)
  | undefined | returned =>
    rw [hd] at hcalls
    exact Nat.le_trans (Nat.le_of_eq hcalls) (Nat.le_succ _)
  | rejected | failed =>
    rw [hd] at hcalls
    exact hcalls

theorem queue_bounded (h : s.core c) : s.queue.length ≤ c.options.maxQueuedMessages ∧
    (s.queue.map fun entry => c.byteLength entry.1.value).sum ≤ c.options.maxQueuedBytes := by
  obtain ⟨hlen, hbytes⟩ := h.bound
  have hsum : s.queue.map (fun entry => c.byteLength entry.1.value) = s.queue.map (·.2) :=
    List.map_congr_left fun entry hmem => (h.sized entry hmem).symm
  have hqueued := h.bytes
  rw [hsum]
  omega

/-- As long as every response is heeded, the listener is given each drained
notification once and in order, or the end accounts for it; the queue is
served and bounded, and a continuous record follows its predecessor. -/
theorem notifications_accounted (h : ((system c).when (PullHeeded c)).Reachable s) :
    (called s.log).map pair <+: drained s.log ∧ (called s.log).length ≤ completed s.log + 1 ∧
      (s.loop = .done → (called s.log).map pair = drained s.log ∨ Undelivered s.log ∨ s.failure ≠ []) ∧
      (s.queue ≠ [] → s.stopRequested = false → Delivering s.delivery → Serving s) ∧
      (s.queue.length ≤ c.options.maxQueuedMessages ∧
        (s.queue.map fun entry => c.byteLength entry.1.value).sum ≤ c.options.maxQueuedBytes) ∧
      History s.log := by
  have hinv := heeded_accounted h
  exact ⟨calls_in_order hinv, calls_bounded hinv.core, done_accounted hinv, serving hinv.core, queue_bounded hinv.core,
    hinv.core.history⟩

-- Three runs

def single : Context Nat Unit where
  options := .least
  renew := false
  synchronize := false
  errorListener := false
  clock _ := some 0
  instantMilliseconds text := .ok (if text = "start" then 0 else 1000)
  fixedDurationMilliseconds _ := .ok 0
  byteLength _ := 1

def singleResult (value : Nat) : PullResult Nat Unit :=
  { timing := some (.text "start", .text "end"), messages := some [value], nodes := some [()] }

def pullingRun : List (Input Nat Unit) :=
  [.turn, .created (.ok ⟨.ok (), some (.text "start", .text "end")⟩) (.ok ()), .turn]

def singlePull (value : Nat) : Input Nat Unit := .pulled (.ok (singleResult value))

def servedRun : List (Input Nat Unit) :=
  [.listener, .delivered (.ok ()), .deliveryTurn, .stop, .slept (.ok ()), .turn, .unsubscribed (.ok ()), .turn, .turn]

def stoppedRun : List (Input Nat Unit) :=
  pullingRun ++ [.stop, singlePull 7, .turn, .unsubscribed (.ok ()), .turn, .turn]

def stalledRun : List (Input Nat Unit) :=
  pullingRun ++ [singlePull 7, .slept (.ok ()), .listener, .delivered (.ok ()), singlePull 8, .deliveryTurn]

def after (labels : List (Input Nat Unit)) : OwnedPullPoint Nat Unit := labels.foldl (step single) (initial single)

theorem after_reachable (labels : List (Input Nat Unit)) : (system single).Reachable (after labels) :=
  ⟨_, labels, rfl, System.run_ofFun.mpr rfl⟩

theorem servedRun_reachable :
    ((system single).when (PullHeeded single)).Reachable (after (pullingRun ++ singlePull 7 :: servedRun)) := by
  have hpulling : ((system single).when (PullHeeded single)).Reachable (after pullingRun) := by
    refine System.Reachable.foldl pullingRun (fun i hi s started result s' _ he => ?_) _ (.start rfl)
    subst he
    simp [pullingRun] at hi
  have hpulled : ((system single).when (PullHeeded single)).Reachable (step single (after pullingRun) (singlePull 7)) := by
    refine hpulling.next ⟨fun started result s' _ _ _ _ => ⟨?_, fun _ => ?_⟩, rfl⟩
    · decide +kernel
    · decide +kernel
  have hserved : ((system single).when (PullHeeded single)).Reachable
      (servedRun.foldl (step single) (step single (after pullingRun) (singlePull 7))) := by
    refine System.Reachable.foldl servedRun (fun i hi s started result s' _ he => ?_) _ hpulled
    subst he
    simp [servedRun] at hi
  unfold after
  rw [List.foldl_append]
  exact hserved

theorem notifications_accounted_served :
    ∃ s : OwnedPullPoint Nat Unit, s.loop = .done ∧ (called s.log).map pair = [(7, ())] ∧
      (called s.log).map pair <+: drained s.log ∧ (called s.log).length ≤ completed s.log + 1 ∧
      (s.loop = .done → (called s.log).map pair = drained s.log ∨ Undelivered s.log ∨ s.failure ≠ []) ∧
      (s.queue ≠ [] → s.stopRequested = false → Delivering s.delivery → Serving s) ∧
      (s.queue.length ≤ single.options.maxQueuedMessages ∧
        (s.queue.map fun entry => single.byteLength entry.1.value).sum ≤ single.options.maxQueuedBytes) ∧
      History s.log :=
  ⟨_, by decide +kernel, by decide +kernel, notifications_accounted servedRun_reachable⟩

def gapFree (log : List (Event V X)) : Bool := log.all fun | .diagnostic .gap _ => false | _ => true

theorem gapFree_not {log : List (Event V X)} (h : gapFree log) : ¬∃ code, .diagnostic .gap code ∈ log := by
  rintro ⟨code, hmem⟩
  have := List.all_eq_true.mp h _ hmem
  simp at this

/-- A notification is lost without a trace, and a queue is left without a delivery. -/
theorem notifications_accounted_unheeded :
    (¬∀ (c : Context Nat Unit) (s : OwnedPullPoint Nat Unit), (system c).Reachable s → s.loop = .done →
      (called s.log).map pair = drained s.log ∨ (∃ code, .diagnostic .gap code ∈ s.log) ∨ s.failure ≠ []) ∧
    ¬∀ (c : Context Nat Unit) (s : OwnedPullPoint Nat Unit), (system c).Reachable s →
      s.queue ≠ [] → s.stopRequested = false → Delivering s.delivery → isCalling s.delivery := by
  constructor
  · intro h
    rcases h single _ (after_reachable stoppedRun) (by decide +kernel) with hcalled | hgap | hfailure
    · exact absurd hcalled (by decide +kernel)
    · exact gapFree_not (by decide +kernel) hgap
    · exact absurd hfailure (by decide +kernel)
  · intro h
    have hqueue : (after stalledRun).queue.length = 1 := by decide +kernel
    have hcalling := h single _ (after_reachable stalledRun) (by rintro hq; rw [hq] at hqueue; cases hqueue)
      (by decide +kernel) (by decide +kernel)
    exact absurd hcalling (by decide +kernel)

end WotAv.Events.OwnedPullPoint
