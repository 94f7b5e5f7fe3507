import WotAv.Events.PullPoint

/-!
# Ownership of the subscription's endpoints

The part of a subscription that decides what is sent to its endpoints. All
that `timing`, `enqueue` and the delivery do leaves it as it was.
-/

namespace WotAv.Events.OwnedPullPoint

open WotAv.Lib Throwing

inductive Traffic
  | create
  | received (generation : Nat)
  | use (generation : Nat)
  | unsubscribe (generation : Nat)
  | absent (generation : Nat)
  deriving DecidableEq, Repr

def Traffic.ofEvent {V X : Type} : Event V X → Option Traffic
  | .create => some .create
  | .received g => some (.received g)
  | .synchronize g | .renew g | .pull g => some (.use g)
  | .unsubscribe g => some (.unsubscribe g)
  | .absent g => some (.absent g)
  | _ => none

def traffic {V X : Type} (s : OwnedPullPoint V X) : List Traffic := s.log.filterMap Traffic.ofEvent

structure Owned where
  state : State
  endpoint : Bool
  gone : Bool
  attempted : Bool
  generation : Nat
  restarts : Nat
  stopping : Bool
  loop : Loop
  remote : Promised
  stop : Promised
  log : List Traffic

def owned {V X : Type} (s : OwnedPullPoint V X) : Owned :=
  { state := s.currentState, endpoint := s.endpoint, gone := s.endpointGone, attempted := s.cleanupAttempted
    generation := s.currentGeneration, restarts := s.restarts, stopping := s.stopRequested, loop := s.loop
    remote := s.remoteStopped, stop := s.stopPromise, log := traffic s }

variable {V X : Type} {c : Context V X} {s s' : OwnedPullPoint V X}

def Same (s s' : OwnedPullPoint V X) : Prop := owned s' = owned s

instance : IsTrans (OwnedPullPoint V X) Same := ⟨fun _ _ _ h₁ h₂ => h₂.trans h₁⟩

theorem Same.refl (s : OwnedPullPoint V X) : Same s s := rfl

@[simp] theorem owned_returned : owned (s.note .returned) = owned s := by
  simp [owned, note, traffic, Traffic.ofEvent]

@[simp] theorem owned_called {delivery : Delivery V X} :
    owned ({ s with delivery }.note (.called record)) = owned s := by
  simp [owned, note, traffic, Traffic.ofEvent]

-- What happens aside

def control (s : OwnedPullPoint V X) : Owned := { owned s with log := [] }

def Event.aside : Event V X → Bool
  | .drained _ | .enqueued _ | .called _ | .returned | .dropped _ | .diagnostic .. => true
  | _ => false

def Apart (s s' : OwnedPullPoint V X) : Prop :=
  control s' = control s ∧ ∃ es, s'.log = s.log ++ es ∧ ∀ e ∈ es, Event.aside e

theorem Apart.data (hc : control s' = control s) (hl : s'.log = s.log) : Apart s s' :=
  ⟨hc, [], by simp [hl], by simp⟩

theorem Apart.refl (s : OwnedPullPoint V X) : Apart s s := .data rfl rfl

theorem Apart.event (hc : control s' = control s) (hl : s'.log = s.log ++ [e]) (he : Event.aside e) : Apart s s' :=
  ⟨hc, [e], hl, by simpa using he⟩

theorem Apart.trans {s₁ s₂ s₃ : OwnedPullPoint V X} (h₁ : Apart s₁ s₂) (h₂ : Apart s₂ s₃) : Apart s₁ s₃ := by
  obtain ⟨hc₁, es₁, hl₁, he₁⟩ := h₁
  obtain ⟨hc₂, es₂, hl₂, he₂⟩ := h₂
  refine ⟨hc₂.trans hc₁, es₁ ++ es₂, by simp [hl₂, hl₁], fun e he => ?_⟩
  exact (List.mem_append.mp he).elim (he₁ e) (he₂ e)

instance : IsTrans (OwnedPullPoint V X) Apart := ⟨fun _ _ _ => Apart.trans⟩

theorem Apart.filterMap {β : Type} {f : Event V X → Option β} (hf : ∀ e, Event.aside e → f e = none)
    (h : Apart s s') : s'.log.filterMap f = s.log.filterMap f := by
  obtain ⟨-, es, hl, he⟩ := h
  have hnil : es.filterMap f = [] := List.filterMap_eq_nil_iff.mpr fun e h => hf e (he e h)
  simp [hl, hnil]

theorem Apart.same (h : Apart s s') : Same s s' := by
  have hlog : traffic s' = traffic s := h.filterMap fun e he => by cases e <;> first | rfl | cases he
  have hc := h.1
  simp only [control, owned, Owned.mk.injEq] at hc
  simp [Same, owned, hlog, hc]

theorem apart_now : Keeps Apart (now c) := keeps_now .refl fun _ => .data rfl rfl

theorem apart_diagnostic : Keeps Apart (diagnostic c code severity) := by
  refine .bind (.modify fun _ => .data rfl rfl) fun _ => .bind (.modify fun _ => .data rfl rfl) fun _ => ?_
  refine .bind (.modify fun _ => .event rfl rfl rfl) fun _ => .bind apart_now fun _ => .modify fun _ => .data rfl rfl

theorem apart_timingCurrent : Keeps Apart (timingCurrent c current startedAt) :=
  keeps_timingCurrent .refl apart_diagnostic fun _ _ => .data rfl rfl

theorem apart_timing : Keeps Apart (timing c result startedAt) :=
  keeps_timing .refl (fun _ => apart_timingCurrent) apart_now fun _ _ => .data rfl rfl

theorem apart_drain : Apart s (drain s) := by
  unfold drain
  split
  · split <;> exact .data rfl rfl
  · exact .data rfl rfl

theorem apart_enqueue : Keeps Apart (enqueue c record) :=
  keeps_enqueue .refl apart_diagnostic (fun _ _ => .event rfl rfl rfl) fun _ => apart_drain

theorem apart_enqueueAll (messages : List (V × X)) : Keeps Apart (enqueueAll c lease messages) :=
  keeps_enqueueAll .refl apart_now (fun _ => apart_enqueue) messages

theorem apart_limitFault : Keeps Apart (limitFault c error) :=
  keeps_limitFault .refl apart_diagnostic fun _ _ _ => .data rfl rfl

theorem apart_available : Keeps Apart (available c started) := by
  refine .bind (.get .refl) fun s => ?_
  split
  · exact .pure .refl _
  · exact .bind apart_now fun _ => .pure .refl _
  · exact .bind apart_now fun _ => .pure .refl _

theorem apart_undelivered : Keeps Apart (undelivered c) := by
  refine .bind (.get .refl) fun s => ?_
  split
  · exact .pure .refl ()
  · exact .bind apart_diagnostic fun _ => .modify fun _ => .event rfl rfl rfl

theorem apart_delivered : Apart s (delivered outcome bytes s) := by
  cases outcome with
  | ok => exact Apart.trans (.data rfl rfl) apart_drain
  | error e => exact .data rfl rfl

theorem apart_deliveryTurn : Apart s (deliveryTurn c s) := by
  unfold deliveryTurn
  split
  · exact .data rfl rfl
  · refine (?_ : Keeps Apart (deliveryFailed c _)) s
    exact .bind (.modify fun _ => .data rfl rfl) fun _ =>
      .bind apart_diagnostic fun _ => .modify fun _ => .data rfl rfl
  · exact .refl s

theorem same_now : Keeps Same (now c) := fun s => (apart_now s).same

theorem same_diagnostic : Keeps Same (diagnostic c code severity) := fun s => (apart_diagnostic s).same

theorem same_timing : Keeps Same (timing c result startedAt) := fun s => (apart_timing s).same

theorem same_enqueueAll (messages : List (V × X)) : Keeps Same (enqueueAll c lease messages) := fun s => (apart_enqueueAll messages s).same

theorem same_limitFault : Keeps Same (limitFault c error) := fun s => (apart_limitFault s).same

theorem same_available : Keeps Same (available c started) := fun s => (apart_available s).same

theorem same_undelivered : Keeps Same (undelivered c) := fun s => (apart_undelivered s).same

theorem same_delivered : owned (delivered outcome bytes s) = owned s := apart_delivered.same

theorem same_deliveryTurn : owned (deliveryTurn c s) = owned s := apart_deliveryTurn.same

-- The invariant

def Orderly (a b : Traffic) : Prop := ∀ g, a = .unsubscribe g → b ≠ .use g ∧ b ≠ .unsubscribe g

structure Early (remote stop : Promised) (state : State) : Prop where
  remote : remote = .pending
  stop : stop = .pending
  state : state ≠ .closed ∧ state ≠ .failed ∧ state ≠ .uncertain

def Owned.Early (o : Owned) : Prop := OwnedPullPoint.Early o.remote o.stop o.state

/-- A good result tells that the endpoint is gone, as far as `ok` goes. -/
structure Honest (ok : Prop) (stopping endpoint gone : Bool) (remote stop : Promised) (state : State) : Prop where
  halted : stopping
  clean : remote = .resolved → ok → endpoint → gone
  result : stop = .resolved ∨ state = .closed ∨ state = .failed → remote = .resolved

def Owned.Honest (ok : Prop) (o : Owned) : Prop :=
  OwnedPullPoint.Honest ok o.stopping o.endpoint o.gone o.remote o.stop o.state

def Owned.Stage (n : Nat) (ok : Prop) (o : Owned) : Prop :=
  match o.loop with
  | .idle => o.log.count .create = 0 ∧ o.endpoint = false ∧ o.Early
  | .creating .starting _ => o.endpoint = false ∧ o.Early
  | .creating .running _ => (o.endpoint ∧ o.gone) ∧ o.Early
  | .released => o.restarts < n ∧ (o.endpoint ∧ o.gone) ∧ o.Early
  | .synchronizing _ | .created _ | .running | .renewing _ | .pulling _ | .sleeping =>
    (o.endpoint ∧ o.gone = false ∧ o.attempted = false) ∧ o.Early
  | .releasing => o.restarts < n ∧ o.endpoint ∧ o.Early
  | .finishing _ _ => (ok → o.endpoint → o.attempted → o.gone) ∧ o.Early
  | .unsubscribing _ _ => o.endpoint ∧ o.stopping ∧ o.Early
  | .unsubscribed _ _ none => (ok → o.endpoint → o.gone) ∧ o.stopping ∧ o.Early
  | .unsubscribed _ _ (some _) => o.stopping ∧ o.Early
  | .settling _ errors => o.Honest ok ∧ o.stop = .pending ∧
      (o.state = .uncertain ∧ errors ≠ [] ∨ o.state ≠ .uncertain ∧ o.remote = .resolved)
  | .reporting => o.Honest ok ∧ o.stop = .pending
  | .done => o.Honest ok

structure Sound (n : Nat) (log : List Traffic) (generation restarts : Nat) (attempted gone endpoint : Bool) : Prop where
  orderly : log.Pairwise Orderly
  known : ∀ g, .unsubscribe g ∈ log → g ≤ generation
  received : ∀ g, .received g ∈ log → 1 ≤ g ∧ g ≤ generation
  fresh : attempted = false → .unsubscribe generation ∉ log
  creates : log.count .create ≤ restarts + 1
  restarts : restarts ≤ n
  old : ∀ g, 1 ≤ g → g < generation → .absent g ∈ log
  gone : gone → 1 ≤ generation → .absent generation ∈ log
  endpoint : endpoint = true ↔ 1 ≤ generation

def Owned.Sound (n : Nat) (o : Owned) : Prop :=
  OwnedPullPoint.Sound n o.log o.generation o.restarts o.attempted o.gone o.endpoint

def Owned.Inv (n : Nat) (ok : Prop) (o : Owned) : Prop := o.Sound n ∧ o.Stage n ok

theorem inv_initial : (owned (initial c)).Inv n ok :=
  ⟨⟨.nil, fun _ h => (nomatch h), fun _ h => (nomatch h), fun _ h => (nomatch h), Nat.zero_le _, Nat.zero_le _,
    fun g _ h => absurd h (Nat.not_lt_zero g), fun h => (nomatch h), by simp [owned, initial]⟩,
    rfl, rfl, rfl, rfl, by simp [owned, initial]⟩

section
variable {n : Nat} {log : List Traffic} {generation restarts : Nat} {attempted gone endpoint : Bool}

theorem Sound.add (h : Sound n log generation restarts attempted gone endpoint)
    (he : ∀ g, e = .use g ∨ e = .unsubscribe g → g = generation ∧ attempted = false)
    (hu : e ≠ .unsubscribe generation) (hr : ∀ g, e ≠ .received g)
    (hc : (log ++ [e]).count .create ≤ restarts + 1) :
    Sound n (log ++ [e]) generation restarts attempted gone endpoint where
  orderly := by
    rw [List.pairwise_append]
    refine ⟨h.orderly, List.pairwise_singleton _ _, fun a ha b hb g hag => ?_⟩
    obtain rfl := List.mem_singleton.mp hb
    subst hag
    refine ⟨fun hb => ?_, fun hb => ?_⟩
    · obtain ⟨rfl, hf⟩ := he g (.inl hb)
      exact h.fresh hf ha
    · obtain ⟨rfl, hf⟩ := he g (.inr hb)
      exact h.fresh hf ha
  known g hg := by
    rcases List.mem_append.mp hg with hg | hg
    · exact h.known g hg
    · exact Nat.le_of_eq (he g (.inr (List.mem_singleton.mp hg).symm)).1
  received g hg := by
    rcases List.mem_append.mp hg with hg | hg
    · exact h.received g hg
    · exact absurd (List.mem_singleton.mp hg).symm (hr g)
  fresh hf hg := by
    rcases List.mem_append.mp hg with hg | hg
    · exact h.fresh hf hg
    · exact hu (List.mem_singleton.mp hg).symm
  creates := hc
  restarts := h.restarts
  old g h₁ h₂ := List.mem_append_left _ (h.old g h₁ h₂)
  gone hg h₁ := List.mem_append_left _ (h.gone hg h₁)
  endpoint := h.endpoint

theorem count_add {e : Traffic} (h : log.count .create ≤ k) (he : e ≠ .create) :
    (log ++ [e]).count .create ≤ k := by
  rw [List.count_append, List.count_singleton, if_neg (by simpa using he)]
  exact h

theorem Sound.use (h : Sound n log generation restarts false gone endpoint) :
    Sound n (log ++ [.use generation]) generation restarts false gone endpoint :=
  h.add (fun g hg => ⟨by simpa [eq_comm] using hg, rfl⟩) (by simp) (by simp) (count_add h.creates (by simp))

section
variable (h : Sound n log generation restarts attempted gone endpoint)
include h

theorem Sound.learn (g : Nat) :
    Sound n (log ++ [.absent g]) generation restarts attempted gone endpoint :=
  h.add (fun _ hg => by simp at hg) (by simp) (by simp) (count_add h.creates (by simp))

theorem Sound.create
    (hc : log.count .create ≤ restarts) :
    Sound n (log ++ [.create]) generation restarts attempted gone endpoint :=
  h.add (fun _ hg => by simp at hg) (by simp) (by simp) (by simpa using hc)

end

theorem Sound.unsubscribe (h : Sound n log generation restarts false gone endpoint) :
    Sound n (log ++ [.unsubscribe generation]) generation restarts true gone endpoint where
  orderly := by
    rw [List.pairwise_append]
    refine ⟨h.orderly, List.pairwise_singleton _ _, fun a ha b hb g hag => ?_⟩
    obtain rfl := List.mem_singleton.mp hb
    subst hag
    refine ⟨by simp, fun hb => ?_⟩
    obtain rfl := Traffic.unsubscribe.inj hb
    exact h.fresh rfl ha
  known g hg := by
    rcases List.mem_append.mp hg with hg | hg
    · exact h.known g hg
    · exact Nat.le_of_eq (Traffic.unsubscribe.inj (List.mem_singleton.mp hg))
  received g hg := h.received g (by simpa using hg)
  fresh hf := nomatch hf
  creates := count_add h.creates (by simp)
  restarts := h.restarts
  old g h₁ h₂ := List.mem_append_left _ (h.old g h₁ h₂)
  gone hg h₁ := List.mem_append_left _ (h.gone hg h₁)
  endpoint := h.endpoint

section
variable (h : Sound n log generation restarts attempted gone endpoint)
include h

theorem Sound.receive
    (hg : endpoint → gone) :
    Sound n (log ++ [.received (generation + 1)]) (generation + 1) restarts false false true where
  orderly := by
    rw [List.pairwise_append]
    refine ⟨h.orderly, List.pairwise_singleton _ _, fun a _ b hb g _ => ?_⟩
    obtain rfl := List.mem_singleton.mp hb
    simp
  known g hu := by
    rcases List.mem_append.mp hu with hu | hu
    · exact Nat.le_trans (h.known g hu) (Nat.le_succ _)
    · simp at hu
  received g hu := by
    rcases List.mem_append.mp hu with hu | hu
    · exact ⟨(h.received g hu).1, Nat.le_trans (h.received g hu).2 (Nat.le_succ _)⟩
    · obtain rfl := Traffic.received.inj (List.mem_singleton.mp hu)
      exact ⟨Nat.succ_pos _, Nat.le_refl _⟩
  fresh _ hu := by
    rcases List.mem_append.mp hu with hu | hu
    · exact absurd (h.known _ hu) (Nat.not_succ_le_self _)
    · simp at hu
  creates := count_add h.creates (by simp)
  restarts := h.restarts
  old g h₁ h₂ := by
    refine List.mem_append_left _ ?_
    rcases Nat.lt_succ_iff_lt_or_eq.mp h₂ with h₂ | rfl
    · exact h.old g h₁ h₂
    · exact h.gone (hg (h.endpoint.mpr h₁)) h₁
  gone hg := nomatch hg
  endpoint := by simp

theorem Sound.end
    (hg : gone' = true → .absent generation ∈ log) : Sound n log generation restarts attempted gone' endpoint :=
  ⟨h.orderly, h.known, h.received, h.fresh, h.creates, h.restarts, h.old, fun h' _ => hg h', h.endpoint⟩

theorem Sound.restart (hr : restarts < n) :
    Sound n log generation (restarts + 1) attempted gone endpoint :=
  ⟨h.orderly, h.known, h.received, h.fresh, Nat.le_trans h.creates (Nat.le_succ _), hr, h.old, h.gone, h.endpoint⟩

end

end

-- Where the steps of the loop lead

def Owned.Failing (n : Nat) (ok : Prop) (o : Owned) : Prop :=
  ∀ phase e, Owned.Inv n ok { o with loop := .finishing phase (some e) }

theorem Owned.Inv.failing {o : Owned} (hs : o.Sound n) (hf : ok → o.endpoint → o.attempted → o.gone)
    (he : o.Early) :
    o.Failing n ok := fun _ _ => ⟨hs, hf, ⟨he.remote, he.stop, he.state⟩⟩

def Led (n : Nat) (ok : Prop) : Except Failure Unit × OwnedPullPoint V X → Prop
  | (.ok _, s') => (owned s').Inv n ok
  | (.error _, s') => (owned s').Failing n ok

def Leads (n : Nat) (ok : Prop) (m : M V X Unit) (s : OwnedPullPoint V X) : Prop := Led n ok (m s)

theorem Leads.raise (h : Leads n ok m s) (phase : Phase) : (owned (raise phase m s)).Inv n ok := by
  unfold Leads at h
  unfold OwnedPullPoint.raise
  generalize m s = r at h
  obtain ⟨r, s'⟩ := r
  cases r with
  | ok => exact h
  | error e => exact h phase e

theorem Leads.same {α : Type} {m : M V X α} {f : α → M V X Unit} (hm : Keeps Same m) (hf : (owned s).Failing n ok)
    (h : ∀ a s', owned s' = owned s → Leads n ok (f a) s') : Leads n ok (m >>= f) s := by
  refine bind_cases (P := Led n ok) (fun a s' hs => h a s' (hm.ok hs)) fun e s' hs => ?_
  change (owned s').Failing n ok
  rw [show owned s' = owned s from hm.ok hs]
  exact hf

theorem Leads.get {f : OwnedPullPoint V X → M V X Unit} (h : Leads n ok (f s) s) : Leads n ok (.get >>= f) s := h

theorem Leads.throw (h : (owned s).Failing n ok) : Leads n ok (Throwing.throw e) s := h

theorem Leads.suspend {place : Loop} (h : Owned.Inv n ok { owned s with loop := place }) :
    Leads n ok (suspend place) s := h

theorem Leads.send {place : Loop} {e : OwnedPullPoint V X → Event V X} {t : Traffic}
    (he : Traffic.ofEvent (e s) = some t)
    (h : Owned.Inv n ok { owned s with log := (owned s).log ++ [t], loop := place }) :
    Leads n ok (do .modify fun s => s.note (e s); OwnedPullPoint.suspend place) s := by
  change (owned { s.note (e s) with loop := place }).Inv n ok
  have : owned { s.note (e s) with loop := place } = { owned s with log := (owned s).log ++ [t], loop := place } := by
    simp [owned, traffic, note, he]
  rwa [this]

def Owned.Live (o : Owned) : Prop := (o.endpoint ∧ o.gone = false ∧ o.attempted = false) ∧ o.Early

theorem Owned.Live.failing {o : Owned} (hs : o.Sound n) (h : o.Live) : o.Failing n ok :=
  Owned.Inv.failing hs (fun _ _ ha => by rw [h.1.2.2] at ha; cases ha) h.2

structure Running (n : Nat) (s : OwnedPullPoint V X) : Prop where
  sound : (owned s).Sound n
  live : (owned s).Live

section
variable (h : Running n s)
include h

theorem Running.same (hs : owned s' = owned s) : Running n s' :=
  ⟨hs ▸ h.sound, hs ▸ h.live⟩

theorem Running.failing : (owned s).Failing n ok := h.live.failing h.sound

theorem Running.move (hp : Owned.Stage n ok { owned s with loop := place } = (owned s).Live) :
    Owned.Inv n ok { owned s with loop := place } :=
  ⟨h.sound, hp ▸ h.live⟩

theorem Running.use
    (hp : Owned.Stage n ok { owned s with log := (owned s).log ++ [.use s.currentGeneration], loop := place } =
      (owned s).Live) :
    Owned.Inv n ok { owned s with log := (owned s).log ++ [.use s.currentGeneration], loop := place } := by
  refine ⟨?_, hp ▸ h.live⟩
  have hs := h.sound
  unfold Owned.Sound at hs
  rw [h.live.1.2.2] at hs
  have := hs.use
  unfold Owned.Sound
  rw [h.live.1.2.2]
  exact this

theorem Running.finish : Owned.Inv n ok { owned s with loop := .finishing .running none } :=
  ⟨h.sound, fun _ _ ha => absurd ha (by rw [h.live.1.2.2]; decide), h.live.2.remote, h.live.2.stop, h.live.2.state⟩

theorem pull_leads : Leads n ok (pull c started) s := by
  refine .same same_available h.failing fun a s₁ h₁ => ?_
  have hr := h.same h₁
  refine .same (.get .refl) hr.failing fun s' s₂ h₂ => ?_
  have hr := hr.same h₂
  split
  · exact .throw hr.failing
  · exact .send (e := fun s => .pull s.currentGeneration) rfl (hr.use rfl)

theorem recover_leads (hn : c.options.maxRestarts = n)
    (hg : gone = true → .absent s.currentGeneration ∈ traffic s) : Leads n ok (recover c reason gone) s := by
  refine .same same_diagnostic h.failing fun _ s₁ h₁ => ?_
  have hr := h.same h₁
  have hg : gone = true → .absent (owned s₁).generation ∈ (owned s₁).log := by rw [h₁]; exact hg
  -- `endpointGone` is set
  have hsound : ∀ g, (g = true → .absent (owned s₁).generation ∈ (owned s₁).log) →
      Owned.Sound n { owned s₁ with gone := g } := fun g hg => Sound.end hr.sound hg
  have hfail : Owned.Failing n ok { owned s₁ with gone := gone } :=
    Owned.Inv.failing (hsound gone hg) (fun _ _ ha => absurd ha (by rw [hr.live.1.2.2]; decide))
      ⟨hr.live.2.remote, hr.live.2.stop, hr.live.2.state⟩
  simp only [Leads, run_modify_bind, run_get_bind]
  split
  · exact hfail
  · rename_i hmore
    have hlt : s₁.restarts < n := by
      rw [not_or] at hmore
      omega
    have hearly : Owned.Early { owned s₁ with state := .recovering } :=
      ⟨hr.live.2.remote, hr.live.2.stop, by simp⟩
    split
    · rename_i hgone
      have he : s₁.endpoint = true := hr.live.1.1
      have ha : s₁.cleanupAttempted = false := hr.live.1.2.2
      have hgone : gone = true := by simpa [he, ha] using hgone
      exact ⟨hsound gone hg, hlt, ⟨he, hgone⟩, hearly.remote, hearly.stop, hearly.state⟩
    · rename_i hlive
      have ha : s₁.cleanupAttempted = false := hr.live.1.2.2
      have hs := hsound gone hg
      unfold Owned.Sound at hs
      simp only [show (owned s₁).attempted = false from ha] at hs
      refine ⟨?_, hlt, hr.live.1.1, hearly.remote, hearly.stop, hearly.state⟩
      have hu := hs.unsubscribe
      simpa [owned, Owned.Sound, traffic, Traffic.ofEvent] using hu

theorem run_leads (hn : c.options.maxRestarts = n) : Leads n ok (run c) s := by
  refine .same (.get .refl) h.failing fun s' s₁ h₁ => ?_
  have hr := h.same h₁
  split
  · exact .suspend hr.finish
  · split
    · exact .throw hr.failing
    · refine .same same_now hr.failing fun started s₂ h₂ => ?_
      have hr := hr.same h₂
      split
      · exact .throw hr.failing
      · split
        · exact pull_leads hr
        · split
          · exact recover_leads hr hn fun hg => nomatch hg
          · split
            · exact .send (e := fun s => .renew s.currentGeneration) rfl (hr.use rfl)
            · exact pull_leads hr

theorem renewed_leads (hn : c.options.maxRestarts = n) (result : Except Failure Timing)
    (hu : ∀ e, result = .error e → resourceUnknown e → .absent s.currentGeneration ∈ traffic s) :
    Leads n ok (renewed c started result) s := by
  cases result with
  | error e =>
    change Leads n ok (if s.stopRequested then _ else _) s
    split
    · refine .same same_diagnostic h.failing fun _ s₁ h₁ => .suspend (h.same h₁).finish
    · split
      · rename_i he
        exact recover_leads h hn fun _ => hu e rfl he
      · exact .same same_diagnostic h.failing fun _ s₁ h₁ => .throw (h.same h₁).failing
  | ok timing =>
    refine .same same_timing h.failing fun _ s₁ h₁ => ?_
    have hr := h.same h₁
    exact .same same_diagnostic hr.failing fun _ s₂ h₂ => pull_leads (hr.same h₂)

theorem pullFailed_leads (hn : c.options.maxRestarts = n)
    (hu : resourceUnknown e → .absent s.currentGeneration ∈ traffic s) : Leads n ok (pullFailed c e) s := by
  refine .get ?_
  split
  · exact .throw h.failing
  · split
    · exact .same same_diagnostic h.failing fun _ s₁ h₁ => .suspend (h.same h₁).finish
    · refine .same same_limitFault h.failing fun reduced s₁ h₁ => ?_
      have hr := h.same h₁
      split
      · exact run_leads hr hn
      · split
        · rename_i he
          refine recover_leads hr hn fun _ => ?_
          change Traffic.absent (owned s₁).generation ∈ (owned s₁).log
          rw [h₁]
          exact hu he
        · exact .same same_diagnostic hr.failing fun _ s₂ h₂ => .throw (hr.same h₂).failing

theorem wait_leads (hn : c.options.maxRestarts = n) : Leads n ok (wait c started) s := by
  refine .same same_now h.failing fun now s₁ h₁ => ?_
  have hr := h.same h₁
  split
  · exact .suspend (hr.move rfl)
  · exact run_leads hr hn

theorem pulled_leads (hn : c.options.maxRestarts = n) :
    Leads n ok (pulled c started result) s := by
  refine .same same_timing h.failing fun _ s₁ h₁ => ?_
  have hr := h.same h₁
  refine .same (.get .refl) hr.failing fun s' s₂ h₂ => ?_
  have hr := hr.same h₂
  split
  · exact .suspend hr.finish
  · split
    · split
      · exact .throw hr.failing
      · split
        · exact .throw hr.failing
        · exact .same (same_enqueueAll _) hr.failing fun _ s₃ h₃ => wait_leads (hr.same h₃) hn
    · exact .throw hr.failing

theorem slept_leads (hn : c.options.maxRestarts = n) (outcome : Except Failure Unit) :
    Leads n ok (slept c outcome) s := by
  cases outcome with
  | ok => exact run_leads h hn
  | error e =>
    refine .get ?_
    split
    · exact .throw h.failing
    · split
      · exact run_leads h hn
      · exact .throw h.failing

end

-- Creation

theorem create_leads (hs : (owned s).Sound n) (hc : (owned s).log.count .create ≤ s.restarts)
    (he : (owned s).Early) (hp : match phase with
      | .starting => s.endpoint = false
      | .running => s.endpoint ∧ s.endpointGone) : Leads n ok (create c phase) s := by
  have hf : (owned s).Failing n ok := Owned.Inv.failing hs (fun _ h₁ _ => by
    cases phase with
    | starting => exact absurd h₁ (by simp [owned, show s.endpoint = false from hp])
    | running => exact hp.2) he
  refine .same same_now hf fun started s₁ h₁ => ?_
  refine .send (e := fun _ => .create) rfl ?_
  rw [h₁]
  refine ⟨hs.create hc, ?_⟩
  cases phase with
  | starting => exact ⟨hp, he⟩
  | running => exact ⟨hp, he⟩

theorem restart_leads (hs : (owned s).Sound n) (hr : s.restarts < n) (hp : s.endpoint ∧ s.endpointGone)
    (he : (owned s).Early) : Leads n ok (restart c) s := by
  change Leads n ok (create c .running)
    { s with currentLease := none, serverOffset := none, restarts := s.restarts + 1 }
  exact create_leads (hs.restart hr) hs.creates he hp

theorem activate_leads (h : Running n s) : Leads n ok (activate c phase) s := by
  have hr : Running n { s with currentState := .active } :=
    ⟨h.sound, h.live.1, h.live.2.remote, h.live.2.stop, by simp [owned]⟩
  change Leads n ok (do diagnostic c "SubscriptionCreated" .info; suspend (.created phase))
    { s with currentState := .active }
  exact .same same_diagnostic hr.failing fun _ s₁ h₁ => .suspend ((hr.same h₁).move rfl)

theorem received_leads (hs : (owned s).Sound n) (he : (owned s).Early)
    (hp : s.endpoint → s.endpointGone) : Leads n ok (received c phase started result authorized) s := by
  refine .same (.lift .refl _) (Owned.Inv.failing hs (fun _ h _ => hp h) he) fun _ s₁ h₁ => ?_
  simp only [Leads, run_modify_bind]
  -- the endpoint is there
  generalize hnew : (note (.received _) _ : OwnedPullPoint V X) = s₂
  have hr : Running n s₂ := by
    have hlog : owned s₂ = { owned s₁ with
        endpoint := true, gone := false, attempted := false, generation := (owned s₁).generation + 1
        log := (owned s₁).log ++ [.received ((owned s₁).generation + 1)] } := by
      rw [← hnew]
      simp [owned, note, traffic, Traffic.ofEvent]
    refine ⟨?_, ?_⟩ <;> rw [hlog, h₁]
    · exact Sound.receive hs hp
    · exact ⟨⟨rfl, rfl, rfl⟩, he⟩
  change Leads n ok _ s₂
  refine .same (.lift .refl _) hr.failing fun _ s₃ h₃ => ?_
  have hr := hr.same h₃
  refine .same same_timing hr.failing fun _ s₄ h₄ => ?_
  have hr := hr.same h₄
  split
  · exact .send (e := fun s => .synchronize s.currentGeneration) rfl (hr.use rfl)
  · exact activate_leads hr

-- Release and `finish`

theorem releaseDone_owned (hs : (owned s).Sound n) (hg : outcome = .ok () → .absent s.currentGeneration ∈ traffic s)
    (hu : ∀ e, outcome = .error e → resourceUnknown e → .absent s.currentGeneration ∈ traffic s) :
    match releaseDone c outcome s with
    | (.ok _, s') => owned s' = { owned s with gone := true } ∧ (owned s').Sound n
    | (.error e, s') => (owned s' = owned s ∧ outcome = .error e ∧ ¬resourceUnknown e) ∨
        owned s' = { owned s with gone := true } ∧ (owned s').Sound n := by
  have hgone : .absent s.currentGeneration ∈ traffic s → Owned.Sound n { owned s with gone := true } :=
    fun h => Sound.end hs fun _ => h
  cases outcome with
  | ok => exact ⟨rfl, hgone (hg rfl)⟩
  | error e =>
    unfold releaseDone
    by_cases he : resourceUnknown e
    · simp only [he, if_true, run_modify_bind]
      have hsame : Keeps Same (diagnostic c "CleanupResourceAbsent" .info) := same_diagnostic
      have hd := hsame { s with endpointGone := true }
      generalize diagnostic c "CleanupResourceAbsent" .info { s with endpointGone := true } = r at hd
      obtain ⟨r, s'⟩ := r
      have hd : owned s' = { owned s with gone := true } := hd
      have hs' : (owned s').Sound n := by rw [hd]; exact hgone (hu e rfl he)
      cases r with
      | ok => exact ⟨hd, hs'⟩
      | error e' => exact .inr ⟨hd, hs'⟩
    · simp only [he, if_false, Bool.false_eq_true]
      exact .inl ⟨rfl, rfl, he⟩

theorem finish_inv (hs : (owned s).Sound n) (hf : ok → s.endpoint → s.cleanupAttempted → s.endpointGone)
    (he : (owned s).Early) : (owned (finish phase error s)).Inv n ok := by
  unfold finish
  dsimp only
  split
  · rename_i hskip
    refine ⟨hs, fun hok hend => ?_, rfl, he.remote, he.stop, by simp [owned]⟩
    rcases hskip with h | h | h
    · exact absurd hend (by simp [owned, h])
    · exact h
    · exact hf hok hend h
  · rename_i hlive
    simp only [not_or, Bool.not_eq_true, Bool.not_eq_false] at hlive
    obtain ⟨hend, hgone, hatt⟩ := hlive
    unfold Owned.Sound at hs
    rw [show (owned s).attempted = false from hatt] at hs
    refine ⟨?_, hend, rfl, he.remote, he.stop, by simp [owned]⟩
    simpa [owned, Owned.Sound, traffic, Traffic.ofEvent] using hs.unsubscribe

def Finished (n : Nat) (ok : Prop) : Except Failure Unit × OwnedPullPoint V X → Prop
  | (.ok _, s') => (owned s').Inv n ok
  | (.error _, s') => (owned s').Sound n ∧ (owned s').Honest ok ∧ s'.stopPromise = .pending

def Finishes (n : Nat) (ok : Prop) (m : M V X Unit) (s : OwnedPullPoint V X) : Prop := Finished n ok (m s)

theorem crash_inv {m : M V X Unit} (phase : Phase) (h : Finishes n ok m s) :
    (owned (crash phase m s)).Inv n ok := by
  unfold Finishes at h
  unfold crash
  generalize m s = r at h
  obtain ⟨r, s'⟩ := r
  cases r with
  | ok => exact h
  | error e =>
    obtain ⟨hs, hh, hp⟩ := h
    have hresult : s'.currentState = .closed ∨ s'.currentState = .failed → s'.remoteStopped = .resolved :=
      fun h => hh.result (.inr h)
    cases phase with
    | starting => exact ⟨hs, hh.halted, hh.clean, fun h => h.elim (fun h => absurd h (by simp [owned, hp])) hresult⟩
    | running => exact ⟨hs, hh.halted, hh.clean, fun h => h.elim (fun h => nomatch h) hresult⟩

theorem finishReleased_inv (hs : (owned s).Sound n) (hp : cleanup = none → ok → s.endpoint → s.endpointGone)
    (hstop : s.stopRequested) (he : (owned s).Early) :
    (owned (crash phase (finishReleased c phase error cleanup) s)).Inv n ok := by
  refine crash_inv phase ?_
  cases cleanup with
  | none => exact ⟨hs, ⟨hstop, fun _ => hp rfl, fun _ => rfl⟩, he.stop, .inr ⟨he.state.2.2, rfl⟩⟩
  | some cleanup =>
    have hkeep : ∀ s' : OwnedPullPoint V X, owned s' = { owned s with remote := .rejected, state := .uncertain } →
        (owned s').Sound n ∧ (owned s').Honest ok ∧ s'.stopPromise = .pending := by
      intro s' h
      have hstop' : s'.stopPromise = .pending := (congrArg Owned.stop h).trans he.stop
      rw [h]
      exact ⟨hs, ⟨hstop, fun h => (nomatch h), fun h => by simp [he.stop] at h⟩, hstop'⟩
    simp only [Finishes, finishReleased, run_modify_bind]
    refine bind_cases (P := Finished n ok) (fun _ s₁ h₁ => ?_) fun e s₁ h₁ => ?_
    · have hd := same_diagnostic.ok h₁
      obtain ⟨hs₁, hh₁, hp₁⟩ := hkeep s₁ hd
      exact ⟨hs₁, hh₁, hp₁, .inl ⟨congrArg Owned.state hd, by simp⟩⟩
    · exact hkeep s₁ (same_diagnostic.ok h₁)

theorem finishSettled_inv (hs : (owned s).Sound n) (hh : (owned s).Honest ok) (hp : s.stopPromise = .pending)
    (hr : s.currentState = .uncertain ∧ errors ≠ [] ∨ s.currentState ≠ .uncertain ∧ s.remoteStopped = .resolved) :
    (owned (crash phase (finishSettled c errors) s)).Inv n ok := by
  refine crash_inv phase ?_
  refine bind_cases (P := Finished n ok) (fun _ s₁ h₁ => ?_) fun e s₁ h₁ => ?_
  all_goals
    have hd : owned s₁ = owned s := same_undelivered.ok h₁
    have hs₁ : (owned s₁).Sound n := hd ▸ hs
    have hh₁ : (owned s₁).Honest ok := hd ▸ hh
    have hstop : s₁.stopPromise = .pending := (congrArg Owned.stop hd).trans hp
  · rw [← show s₁.currentState = s.currentState from congrArg Owned.state hd,
      ← show s₁.remoteStopped = s.remoteStopped from congrArg Owned.remote hd] at hr
    change Finishes n ok (if _ then _ else _) s₁
    split
    · rename_i hnone
      have hres : s₁.remoteStopped = .resolved := by
        rcases hr with ⟨_, hne⟩ | ⟨_, h⟩
        · exact absurd (List.dedup_eq_nil _ |>.mp hnone) hne
        · exact h
      exact ⟨hs₁, hh₁.halted, hh₁.clean, fun _ => hres⟩
    · have hres : (if s₁.currentState = .uncertain then State.uncertain else .failed) ≠ .closed ∧
          ((if s₁.currentState = .uncertain then State.uncertain else .failed) = .failed →
            s₁.remoteStopped = .resolved) := by
        split
        · exact ⟨by decide, fun h => nomatch h⟩
        · rename_i hne
          exact ⟨by decide, fun _ => hr.elim (fun h => absurd h.1 hne) And.right⟩
      split
      · refine ⟨hs₁, ⟨hh₁.halted, hh₁.clean, fun h => ?_⟩, hstop⟩
        rcases h with h | h | h
        · exact absurd (show s₁.stopPromise = .resolved from h) (by simp [hstop])
        · exact absurd h hres.1
        · exact hres.2 h
      · refine ⟨hs₁, hh₁.halted, hh₁.clean, fun h => ?_⟩
        rcases h with h | h | h
        · cases h
        · exact absurd h hres.1
        · exact hres.2 h
  · exact ⟨hs₁, hh₁, hstop⟩

-- Runs

/-- The Unsubscribe of a recovery is confirmed, or told that the resource is unknown. -/
def RecoveryCleans (s : OwnedPullPoint V X) (i : Input V X) : Prop :=
  s.loop = .releasing → ∀ e, i = .unsubscribed (.error e) → resourceUnknown e

theorem externalStop_inv (h : (owned s).Inv n ok) : (owned (externalStop s)).Inv n ok := by
  unfold externalStop
  split
  · exact h
  rename_i hstop
  obtain ⟨hs, hst⟩ := h
  have hearly : (owned s).Early → OwnedPullPoint.Early s.remoteStopped s.stopPromise .closing :=
    fun h => ⟨h.remote, h.stop, by simp⟩
  refine ⟨hs, ?_⟩
  cases hl : s.loop <;> simp only [Owned.Stage, owned, hl] at hst ⊢
  case idle => exact ⟨hst.1, hst.2.1, hearly hst.2.2⟩
  case creating phase _ => cases phase <;> exact ⟨hst.1, hearly hst.2⟩
  case released => exact ⟨hst.1, hst.2.1, hearly hst.2.2⟩
  case releasing => exact ⟨hst.1, hst.2.1, hearly hst.2.2⟩
  case synchronizing | created | running | renewing | pulling | sleeping | finishing => exact ⟨hst.1, hearly hst.2⟩
  case unsubscribing => exact absurd hst.2.1 hstop
  case unsubscribed cleanup =>
    cases cleanup with
    | none => exact absurd hst.2.1 hstop
    | some => exact absurd hst.1 hstop
  case settling => exact absurd hst.1.halted hstop
  case reporting => exact absurd hst.1.halted hstop
  case done => exact absurd hst.halted hstop

theorem learn_log {α : Type} (result : Except Failure α) (s : OwnedPullPoint V X) (e : Failure)
    (h : result = .error e) (he : resourceUnknown e) : .absent s.currentGeneration ∈ traffic (learn result s) := by
  subst h
  simp [learn, he, note, traffic, Traffic.ofEvent]

theorem absent_inv (h : (owned s).Inv n ok) : (owned (s.note (.absent s.currentGeneration))).Inv n ok := by
  have hn : owned (s.note (.absent s.currentGeneration)) =
      { owned s with log := (owned s).log ++ [.absent s.currentGeneration] } := by
    simp [owned, note, traffic, Traffic.ofEvent]
  rw [hn]
  refine ⟨h.1.learn _, ?_⟩
  have hst := h.2
  cases hl : s.loop <;> simp only [Owned.Stage, owned, hl] at hst ⊢
  case idle => exact ⟨by simpa [List.count_append] using hst.1, hst.2⟩
  case creating phase _ => cases phase <;> exact hst
  case unsubscribed cleanup => cases cleanup <;> exact hst
  all_goals exact hst

theorem learn_inv {α : Type} (result : Except Failure α) (h : (owned s).Inv n ok) :
    (owned (learn result s)).Inv n ok := by
  unfold learn
  split
  · split
    · exact absent_inv h
    · exact h
  · exact h

theorem learn_loop {α : Type} (result : Except Failure α) (s : OwnedPullPoint V X) :
    (learn result s).loop = s.loop ∧ (learn result s).currentGeneration = s.currentGeneration := by
  unfold learn
  split
  · split <;> exact ⟨rfl, rfl⟩
  · exact ⟨rfl, rfl⟩

def Place.live : Loop → Bool
  | .synchronizing _ | .created _ | .running | .renewing _ | .pulling _ | .sleeping => true
  | _ => false

theorem running_of_inv (h : (owned s).Inv n ok) (hl : Place.live s.loop) : Running n s := by
  refine ⟨h.1, ?_⟩
  have hst := h.2
  cases hp : s.loop <;> rw [hp] at hl <;> first
    | (simp only [Owned.Stage, owned, hp] at hst; exact hst)
    | exact absurd hl (by simp [Place.live])

theorem turn_inv (hn : c.options.maxRestarts = n) (h : (owned s).Inv n ok) : (owned (turn c s)).Inv n ok := by
  obtain ⟨hs, hst⟩ := h
  have hinv : (owned s).Inv n ok := ⟨hs, hst⟩
  cases hl : s.loop <;> simp only [Owned.Stage, owned, hl] at hst <;> simp only [turn, hl]
  case idle =>
    split
    · rename_i hstop
      exact ⟨hs, hstop, fun h => absurd (hst.2.2.remote.symm.trans h) (by decide), fun h => by
        rcases h with h | h | h
        · exact absurd (hst.2.2.stop.symm.trans h) (by decide)
        · exact absurd h hst.2.2.state.1
        · exact absurd h hst.2.2.state.2.1⟩
    · exact (create_leads hs (Nat.le_trans (Nat.le_of_eq hst.1) (Nat.zero_le _)) hst.2.2 hst.2.1).raise _
  case created phase =>
    have hr := running_of_inv hinv (by rw [hl]; rfl)
    cases phase with
    | starting => exact (run_leads hr hn).raise _
    | running => exact hr.move rfl
  case running => exact (run_leads (running_of_inv hinv (by rw [hl]; rfl)) hn).raise _
  case released => exact (restart_leads hs hst.1 hst.2.1 hst.2.2).raise _
  case finishing => exact finish_inv hs hst.1 hst.2
  case unsubscribed phase error cleanup =>
    cases cleanup with
    | none => exact finishReleased_inv hs (fun _ => hst.1) hst.2.1 hst.2.2
    | some e => exact finishReleased_inv hs (fun h => nomatch h) hst.1 hst.2
  case settling phase errors =>
    split
    · exact hinv
    · refine finishSettled_inv hs hst.1 hst.2.1 (hst.2.2.imp_left fun h => ⟨h.1, ?_⟩)
      exact fun hnil => h.2 (List.append_eq_nil_iff.mp hnil).1
  all_goals exact hinv

theorem unsubscribed_inv (h : (owned s).Inv n ok) (hc : ok → RecoveryCleans s (.unsubscribed outcome)) :
    (owned (unsubscribed c outcome s)).Inv n ok := by
  unfold unsubscribed
  generalize hlearnt : learnRelease outcome s = learnt
  have hinv : (owned learnt).Inv n ok := by
    rw [← hlearnt]
    unfold learnRelease
    split
    · exact absent_inv h
    · exact learn_inv _ h
  have hloop : learnt.loop = s.loop := by
    rw [← hlearnt]
    unfold learnRelease
    split
    · rfl
    · exact (learn_loop _ _).1
  have hok : outcome = .ok () → .absent learnt.currentGeneration ∈ traffic learnt := by
    rintro rfl
    rw [← hlearnt]
    simp [learnRelease, note, traffic, Traffic.ofEvent]
  have hu : ∀ e, outcome = .error e → resourceUnknown e → .absent learnt.currentGeneration ∈ traffic learnt := by
    rintro e rfl he
    rw [← hlearnt]
    simp only [learnRelease, (learn_loop _ _).2]
    exact learn_log _ s e rfl he
  have hdone := releaseDone_owned (c := c) hinv.1 hok hu
  have hst := hinv.2
  rw [← hloop]
  cases hl : learnt.loop <;> simp only [Owned.Stage, owned, hl] at hst <;> dsimp only <;> try exact h
  case releasing =>
    refine Leads.raise (s := learnt) ?_ _
    unfold Leads
    refine bind_cases (P := Led n ok) (fun _ s₁ h₁ => ?_) fun e s₁ h₁ => ?_ <;> rw [h₁] at hdone
    · obtain ⟨ho, hs₁⟩ := hdone
      change Owned.Inv n ok { owned s₁ with loop := .released }
      rw [ho] at hs₁ ⊢
      exact ⟨hs₁, hst.1, ⟨hst.2.1, rfl⟩, hst.2.2⟩
    · rcases hdone with ⟨ho, he, hno⟩ | ⟨ho, hs₁⟩
      · change (owned s₁).Failing n ok
        rw [ho]
        refine Owned.Inv.failing hinv.1 (fun hok _ _ => ?_) hst.2.2
        exact absurd (hc hok (hloop.symm.trans hl) e (congrArg Input.unsubscribed he)) hno
      · change (owned s₁).Failing n ok
        rw [ho] at hs₁ ⊢
        exact Owned.Inv.failing hs₁ (fun _ _ _ => rfl) hst.2.2
  case unsubscribing phase error =>
    generalize releaseDone c outcome learnt = r at hdone
    obtain ⟨r, s₁⟩ := r
    cases r with
    | ok =>
      obtain ⟨ho, hs₁⟩ := hdone
      change Owned.Inv n ok { owned s₁ with loop := .unsubscribed phase error none }
      rw [ho] at hs₁ ⊢
      exact ⟨hs₁, fun _ _ => rfl, hst.2.1, hst.2.2⟩
    | error e =>
      change Owned.Inv n ok { owned s₁ with loop := .unsubscribed phase error (some e) }
      rcases hdone with ⟨ho, -, -⟩ | ⟨ho, hs₁⟩
      · rw [ho]
        exact ⟨hinv.1, hst.2.1, hst.2.2⟩
      · rw [ho] at hs₁ ⊢
        exact ⟨hs₁, hst.2.1, hst.2.2⟩

theorem step_inv (hn : c.options.maxRestarts = n) (h : (owned s).Inv n ok) (hc : ok → RecoveryCleans s i) :
    (owned (step c s i)).Inv n ok := by
  cases i with
  | turn => exact turn_inv hn h
  | created result authorized =>
    have hst := h.2
    cases hl : s.loop <;> simp only [Owned.Stage, owned, hl] at hst <;> simp only [step, hl] <;> try exact h
    case creating phase started =>
      have hp : (s.endpoint → s.endpointGone) ∧ (owned s).Early := by
        cases phase with
        | starting => exact ⟨fun he => absurd he (by rw [hst.1]; decide), hst.2⟩
        | running => exact ⟨fun _ => hst.1.2, hst.2⟩
      cases result with
      | ok result => exact (received_leads h.1 hp.2 hp.1).raise _
      | error e => exact (Leads.throw (Owned.Inv.failing h.1 (fun _ he _ => hp.1 he) hp.2)).raise _
  | synchronized result =>
    cases hl : s.loop <;> simp only [step, hl] <;> try exact h
    case synchronizing phase =>
      cases result with
      | ok => exact (activate_leads (running_of_inv h (by rw [hl]; rfl))).raise _
      | error e =>
        refine (Leads.throw (running_of_inv (learn_inv _ h) ?_).failing).raise _
        rw [(learn_loop _ _).1, hl]
        rfl
  | renewed result =>
    cases hl : s.loop <;> simp only [step, hl] <;> try exact h
    case renewing started =>
      refine (renewed_leads (running_of_inv (learn_inv _ h) ?_) hn _ ?_).raise _
      · rw [(learn_loop _ _).1, hl]
        rfl
      · intro e he hu
        rw [(learn_loop _ _).2]
        exact learn_log result s e he hu
  | pulled result =>
    cases hl : s.loop <;> simp only [step, hl] <;> try exact h
    case pulling started =>
      cases result with
      | ok result =>
        have hr := running_of_inv h (by rw [hl]; rfl)
        exact (pulled_leads (hr.same (by simp [owned, note, traffic, Traffic.ofEvent])) hn).raise _
      | error e =>
        refine (pullFailed_leads (running_of_inv (learn_inv _ h) ?_) hn ?_).raise _
        · rw [(learn_loop _ _).1, hl]
          rfl
        · intro hu
          rw [(learn_loop _ _).2]
          exact learn_log _ s e rfl hu
  | slept outcome =>
    cases hl : s.loop <;> simp only [step, hl] <;> try exact h
    case sleeping => exact (slept_leads (running_of_inv h (by rw [hl]; rfl)) hn _).raise _
  | unsubscribed outcome => exact unsubscribed_inv h hc
  | reported outcome =>
    have hst := h.2
    cases hl : s.loop <;> simp only [Owned.Stage, owned, hl] at hst <;> simp only [step, hl] <;> try exact h
    case reporting =>
      exact ⟨h.1, hst.1.halted, hst.1.clean, fun hres => hst.1.result (hres.imp_left fun h => nomatch h)⟩
  | listener =>
    simp only [step]
    split
    · rw [owned_called]
      exact h
    · exact h
  | delivered outcome =>
    simp only [step]
    split
    · rw [same_delivered, owned_returned]
      exact h
    · exact h
  | deadline e =>
    simp only [step]
    split
    · rw [same_delivered]; exact h
    · exact h
  | deliveryTurn =>
    simp only [step]
    rw [same_deliveryTurn]
    exact h
  | stop => exact externalStop_inv h

theorem reachable_inv {ok : Prop} {m : System (OwnedPullPoint V X) (Input V X)}
    (hi : ∀ s, m.init s → s = initial c)
    (hm : ∀ s i s', m.step s i s' → s' = step c s i ∧ (ok → RecoveryCleans s i))
    (h : m.Reachable s) : (owned s).Inv c.options.maxRestarts ok := by
  refine h.invariant (P := fun s => (owned s).Inv c.options.maxRestarts ok) ?_ ?_
  · rintro s hs
    rw [hi s hs]
    exact inv_initial
  · intro s i s' hs hstep
    obtain ⟨rfl, hc⟩ := hm s i s' hstep
    exact step_inv rfl hs hc

theorem gone_of_result (h : (owned s).Inv n ok)
    (hres : s.remoteStopped = .resolved ∨ s.stopPromise = .resolved ∨ s.currentState = .closed ∨
      s.currentState = .failed) :
    ok → s.endpoint → s.endpointGone := by
  have hearly : (owned s).Early → False := by
    intro he
    rcases hres with h | h | h | h
    · exact absurd (he.remote.symm.trans h) (by decide)
    · exact absurd (he.stop.symm.trans h) (by decide)
    · exact he.state.1 h
    · exact he.state.2.1 h
  have hhonest : (owned s).Honest ok → ok → s.endpoint → s.endpointGone := by
    intro hh
    exact hh.clean (hres.elim id hh.result)
  have hst := h.2
  cases hl : s.loop <;> simp only [Owned.Stage, owned, hl] at hst
  case idle => exact (hearly hst.2.2).elim
  case creating phase _ => cases phase <;> exact (hearly hst.2).elim
  case released | releasing | unsubscribing => exact (hearly hst.2.2).elim
  case synchronizing | created | running | renewing | pulling | sleeping | finishing => exact (hearly hst.2).elim
  case unsubscribed cleanup =>
    cases cleanup with
    | none => exact (hearly hst.2.2).elim
    | some => exact (hearly hst.2).elim
  case settling | reporting => exact hhonest hst.1
  case done => exact hhonest hst

/-- Nothing that a subscription sends follows the Unsubscribe of an endpoint,
creations are bounded, and as long as recoveries clean up, a good end tells
that every endpoint has been confirmed absent. -/
theorem endpoints_owned (h : ((system c).when RecoveryCleans).Reachable s) :
    (traffic s).Pairwise Orderly ∧ (traffic s).count .create ≤ 1 + c.options.maxRestarts ∧
      (s.remoteStopped = .resolved ∨ s.stopPromise = .resolved ∨ s.currentState = .closed ∨
        s.currentState = .failed →
        ∀ g, .received g ∈ traffic s → .absent g ∈ traffic s) := by
  have hinv : (owned s).Inv c.options.maxRestarts True :=
    reachable_inv (m := (system c).when RecoveryCleans) (fun s hs => hs) (fun s i s' hi => ⟨hi.2, fun _ => hi.1⟩) h
  have hs := hinv.1
  refine ⟨hs.orderly, ?_, fun hres g hg => ?_⟩
  · have hc : (traffic s).count .create ≤ s.restarts + 1 := hs.creates
    have hr : s.restarts ≤ c.options.maxRestarts := hs.restarts
    omega
  · obtain ⟨h₁, hle⟩ := hs.received g hg
    rcases Nat.lt_or_eq_of_le hle with hlt | rfl
    · exact hs.old g h₁ hlt
    · exact hs.gone (gone_of_result hinv hres trivial (hs.endpoint.mpr h₁)) h₁

-- Two runs

def sample : Context Unit Unit where
  options := .least
  renew := false
  synchronize := false
  errorListener := false
  clock tick := some (if tick < 3 then 0 else 2000)
  instantMilliseconds text := .ok (if text = "start" then 0 else 1000)
  fixedDurationMilliseconds _ := .ok 0
  byteLength _ := 1

def sampleCreate : Except Failure CreateResult := .ok ⟨.ok (), some (.text "start", .text "end")⟩

def closingRun : List (Input Unit Unit) :=
  [.turn, .created sampleCreate (.ok ()), .stop, .turn, .turn, .unsubscribed (.ok ()), .turn, .turn]

def expiringRun : List (Input Unit Unit) :=
  [.turn, .created sampleCreate (.ok ()), .turn, .unsubscribed (.error (.other "timeout")), .turn, .turn, .turn]

theorem closingRun_reachable :
    ((system sample).when RecoveryCleans).Reachable (closingRun.foldl (step sample) (initial sample)) := by
  refine System.Reachable.foldl closingRun (fun i hi s _ e he => ?_) _ (.start rfl)
  subst he
  simp [closingRun] at hi

theorem endpoints_owned_closing :
    ∃ s : OwnedPullPoint Unit Unit, s.currentState = .closed ∧ .received 1 ∈ traffic s ∧
      (traffic s).Pairwise Orderly ∧ (traffic s).count .create ≤ 1 + sample.options.maxRestarts ∧
      (s.remoteStopped = .resolved ∨ s.stopPromise = .resolved ∨ s.currentState = .closed ∨
        s.currentState = .failed →
        ∀ g, .received g ∈ traffic s → .absent g ∈ traffic s) := by
  have hlog : traffic (closingRun.foldl (step sample) (initial sample)) =
      [.create, .received 1, .unsubscribe 1, .absent 1] := by decide +kernel
  exact ⟨_, by decide +kernel, by rw [hlog]; decide, endpoints_owned closingRun_reachable⟩

theorem endpoints_owned_expired :
    ¬∀ (c : Context Unit Unit) (s : OwnedPullPoint Unit Unit), (system c).Reachable s →
      (s.remoteStopped = .resolved ∨ s.stopPromise = .resolved ∨ s.currentState = .closed ∨
        s.currentState = .failed →
        ∀ g, .received g ∈ traffic s → .absent g ∈ traffic s) := by
  intro h
  have hr : (system sample).Reachable (expiringRun.foldl (step sample) (initial sample)) :=
    ⟨_, expiringRun, rfl, System.run_ofFun.mpr rfl⟩
  have hlog : traffic (expiringRun.foldl (step sample) (initial sample)) =
      [.create, .received 1, .unsubscribe 1] := by decide +kernel
  have hres : (expiringRun.foldl (step sample) (initial sample)).remoteStopped = .resolved := by decide +kernel
  have habsent := h sample _ hr (.inl hres) 1 (by rw [hlog]; decide)
  rw [hlog] at habsent
  exact absurd habsent (by decide)

end WotAv.Events.OwnedPullPoint
