import Mathlib.Data.Rat.Floor
import WotAv.Events.Instant
import WotAv.Events.PullPoint

/-!
# Estimates of leases

A run of a subscription whose server's clock and whose client's go at the same
rate, `D` apart. Each of the server's times was read no earlier than the
request began; then no estimate of the end of the lease is late by more than a
millisecond, and no pull outlasts the lease.
-/

namespace WotAv.Events

open WotAv.Lib

variable {V X : Type}

def errorCode : Binding.OnvifErrorCode → String
  | .invalidConfiguration => "InvalidConfiguration"
  | .invalidRegistry => "InvalidRegistry"
  | .invalidValue => "InvalidValue"
  | .invalidXml => "InvalidXml"
  | .xmlLimit => "XmlLimit"
  | .invalidSecurity => "InvalidSecurity"
  | .authenticationFailed => "AuthenticationFailed"
  | .policyDenied => "PolicyDenied"
  | .unsupportedCapability => "UnsupportedCapability"
  | .transportError => "TransportError"
  | .outcomeUnknown => "OutcomeUnknown"
  | .soapFault => "SoapFault"
  | .runtimeClosed => "RuntimeClosed"

def Context.timed (c : Context V X) : Context V X :=
  { c with instantMilliseconds := fun value =>
      (Events.instantMilliseconds value.toList).mapError fun e => .onvif (errorCode e.code) (some .notSent) }

def Event.isPull : Event V X → Bool
  | .pull _ => true
  | _ => false

namespace OwnedPullPoint

variable {c : Context V X} {D : ℚ} {s s' s'' : OwnedPullPoint V X} {phase : Phase} {started : Int} {e : Failure}
variable {lease : EventLease}

-- Leases

/-- The estimate is at most a millisecond after the end that the server has
told, on the client's clock. -/
def Conservative (D : ℚ) (lease : EventLease) : Prop := match lease.terminationTime, lease.expiresAt with
  | some value, some expiresAt => ∃ x, Instant gregorian value.toList x ∧ (expiresAt : ℚ) < x + D + 1
  | none, none => True
  | _, _ => False

structure Leased (D : ℚ) (s : OwnedPullPoint V X) : Prop where
  offset : ∀ offset, s.serverOffset = some offset → (offset : ℚ) < D + 1
  lease : ∀ lease, s.currentLease = some lease → Conservative D lease

def Read (D : ℚ) (started : Int) (result : Timing) : Prop :=
  ∀ current termination, result = some (.text current, termination) →
    ∀ x, Instant gregorian current.toList x → (started : ℚ) ≤ x + D

def pulls (s : OwnedPullPoint V X) : ℕ := s.log.countP Event.isPull

def Quiet (D : ℚ) (s s' : OwnedPullPoint V X) : Prop := Leased D s → Leased D s' ∧ s'.pulls = s.pulls

theorem Quiet.refl (s : OwnedPullPoint V X) : Quiet D s s := fun h => ⟨h, rfl⟩

theorem Quiet.trans (h : Quiet D s s') (h' : Quiet D s' s'') : Quiet D s s'' :=
  fun hs => ⟨(h' (h hs).1).1, (h' (h hs).1).2.trans (h hs).2⟩

instance : IsTrans (OwnedPullPoint V X) (Quiet D) := ⟨fun _ _ _ => Quiet.trans⟩

section
variable (hl : s'.currentLease = s.currentLease)
include hl

theorem Quiet.of_eq (ho : s'.serverOffset = s.serverOffset) (hp : s'.pulls = s.pulls) :
    Quiet D s s' :=
  fun h => ⟨⟨fun offset hoffset => h.offset offset (ho ▸ hoffset), fun lease hlease => h.lease lease (hl ▸ hlease)⟩, hp⟩

theorem Quiet.data (ho : s'.serverOffset = s.serverOffset) (hlog : s'.log = s.log) :
    Quiet D s s' := .of_eq hl ho (congrArg (·.countP Event.isPull) hlog)

theorem Quiet.event {event : Event V X} (ho : s'.serverOffset = s.serverOffset)
    (hlog : s'.log = s.log ++ [event]) (he : event.isPull = false) : Quiet D s s' :=
  .of_eq hl ho (by rw [pulls, pulls, hlog, List.countP_append, List.countP_singleton, he]; rfl)

end

open Throwing in
section
theorem quiet_now : Keeps (Quiet D) (now c) := keeps_now .refl fun _ => .data rfl rfl rfl

theorem quiet_suspend (loop : Loop) : Keeps (Quiet D) (suspend loop : M V X Unit) := .modify fun _ => .data rfl rfl rfl

theorem quiet_diagnostic {code : String} {severity : Severity} : Keeps (Quiet D) (diagnostic c code severity) := by
  refine .bind (.modify fun _ => .data rfl rfl rfl) fun _ => .bind (.modify fun _ => .data rfl rfl rfl) fun _ => ?_
  exact .bind (.modify fun _ => .event rfl rfl rfl rfl) fun _ => .bind quiet_now fun _ => .modify fun _ => .data rfl rfl rfl

theorem quiet_create : Keeps (Quiet D) (create c phase) :=
  .bind quiet_now fun _ => .bind (.modify fun _ => .event rfl rfl rfl rfl) fun _ => quiet_suspend _

theorem quiet_activate : Keeps (Quiet D) (activate c phase) :=
  .bind (.modify fun _ => .data rfl rfl rfl) fun _ => .bind quiet_diagnostic fun _ => quiet_suspend _

theorem quiet_drain (s : OwnedPullPoint V X) : Quiet D s (drain s) := by
  unfold drain
  split
  · split <;> exact .data rfl rfl rfl
  · exact .data rfl rfl rfl

theorem quiet_enqueue (record : NativeEventRecord V X) : Keeps (Quiet D) (enqueue c record) :=
  keeps_enqueue .refl quiet_diagnostic (fun _ _ => .event rfl rfl rfl rfl) quiet_drain

theorem quiet_enqueueAll (messages : List (V × X)) : Keeps (Quiet D) (enqueueAll c lease messages) :=
  keeps_enqueueAll .refl quiet_now quiet_enqueue messages

theorem quiet_deliveryFailed : Keeps (Quiet D) (deliveryFailed c e) :=
  .bind (.modify fun _ => .data rfl rfl rfl) fun _ => .bind quiet_diagnostic fun _ => .modify fun _ => .data rfl rfl rfl

theorem quiet_recover {reason : String} {gone : Bool} : Keeps (Quiet D) (recover c reason gone) := by
  refine .bind quiet_diagnostic fun _ => .bind (.modify fun _ => .data rfl rfl rfl) fun _ => .bind (.get .refl) fun s => ?_
  split
  · exact .throw .refl _
  · split
    · exact .modify fun _ => .data rfl rfl rfl
    · exact .modify fun _ => .event rfl rfl rfl rfl

theorem quiet_restart : Keeps (Quiet D) (restart c) :=
  .bind (.modify fun _ _ => ⟨⟨nofun, nofun⟩, rfl⟩) fun _ => quiet_create

theorem quiet_limitFault : Keeps (Quiet D) (limitFault c e) :=
  keeps_limitFault .refl quiet_diagnostic fun _ _ _ => .data rfl rfl rfl

theorem quiet_releaseDone {outcome : Except Failure Unit} : Keeps (Quiet D) (releaseDone c outcome) := by
  cases outcome with
  | ok => exact .modify fun _ => .data rfl rfl rfl
  | error e =>
    unfold releaseDone
    dsimp only
    split
    · exact .bind (.modify fun _ => .data rfl rfl rfl) fun _ => quiet_diagnostic
    · exact .throw .refl _

theorem quiet_finishReleased {error cleanup : Option Failure} : Keeps (Quiet D) (finishReleased c phase error cleanup) := by
  cases cleanup with
  | none => exact .modify fun _ => .data rfl rfl rfl
  | some cleanup => exact .bind (.modify fun _ => .data rfl rfl rfl) fun _ => .bind quiet_diagnostic fun _ => quiet_suspend _

theorem quiet_finishSettled {errors : List Failure} : Keeps (Quiet D) (finishSettled c errors) := by
  have hundelivered : Keeps (Quiet D) (undelivered c) := by
    refine .bind (.get .refl) fun s => ?_
    split
    · exact .pure .refl _
    · exact .bind quiet_diagnostic fun _ => .modify fun _ => .event rfl rfl rfl rfl
  refine .bind hundelivered fun _ => ?_
  dsimp only
  split
  · exact .modify fun _ => .data rfl rfl rfl
  · split <;> exact .modify fun _ => .data rfl rfl rfl

theorem quiet_available : Keeps (Quiet D) (available c started) := by
  refine .bind (.get .refl) fun s => ?_
  split
  · exact .pure .refl _
  · exact .bind quiet_now fun _ => .pure .refl _
  · exact .bind quiet_now fun _ => .pure .refl _

end

theorem quiet_finish (phase : Phase) (error : Option Failure) (s : OwnedPullPoint V X) : Quiet D s (finish phase error s) := by
  unfold finish
  dsimp only
  split
  · exact .data rfl rfl rfl
  · exact .event rfl rfl rfl rfl

theorem quiet_learn {α : Type} (result : Except Failure α) (s : OwnedPullPoint V X) : Quiet D s (learn result s) := by
  unfold learn
  split
  · split
    · exact .event rfl rfl rfl rfl
    · exact .refl s
  · exact .refl s

theorem quiet_delivered (outcome : Except Failure Unit) (bytes : ℕ) (s : OwnedPullPoint V X) :
    Quiet D s (delivered outcome bytes s) := by
  unfold delivered
  split
  · refine Quiet.trans ?_ (quiet_drain _)
    exact .data rfl rfl rfl
  · exact .data rfl rfl rfl

-- Responses

theorem timed_ok {value : String} {n : Int} (h : c.timed.instantMilliseconds value = .ok n) :
    Events.instantMilliseconds value.toList = .ok n := by
  unfold Context.timed at h
  dsimp only at h
  cases hi : Events.instantMilliseconds value.toList with
  | error e =>
    rw [hi] at h
    cases h
  | ok m =>
    rw [hi] at h
    change Except.ok m = Except.ok n at h
    rw [Except.ok.inj h]

theorem offset_lt {current : String} {server : Int} (hserver : c.timed.instantMilliseconds current = .ok server)
    (hread : ∀ x, Instant gregorian current.toList x → (started : ℚ) ≤ x + D) :
    ((started - server : Int) : ℚ) < D + 1 := by
  obtain ⟨x, hx⟩ := instant_exists gregorian (timed_ok hserver)
  have hfloor := (instant_floor gregorian (timed_ok hserver) hx).2
  have hstarted := hread x hx
  push_cast
  linarith

theorem Leased.setOffset {offset : Int} (h : Leased D s) (ho : (offset : ℚ) < D + 1) :
    Leased D { s with serverOffset := some offset } where
  offset other hother := by
    obtain rfl := Option.some.inj hother
    exact ho
  lease := h.lease

theorem Keeps.lift_bind {α β : Type} {r : OwnedPullPoint V X → OwnedPullPoint V X → Prop} (hr : ∀ s, r s s)
    {o : Except Failure α} {f : α → M V X β} (hf : ∀ a, o = .ok a → Throwing.Keeps r (f a)) :
    Throwing.Keeps r (Throwing.lift o >>= f) := by
  cases o with
  | error e => exact hr
  | ok a => exact hf a rfl

open Throwing in
theorem quiet_timingCurrent {current : Member} {termination : Member} (hread : Read D started (some (current, termination))) :
    Keeps (Quiet D) (timingCurrent c.timed current started) := by
  unfold timingCurrent
  split
  · rename_i current
    refine Keeps.lift_bind .refl fun server hserver => .bind (.get .refl) fun s => ?_
    have hoffset : ((started - server : Int) : ℚ) < D + 1 := offset_lt hserver (hread current termination rfl)
    have hset : Keeps (Quiet D) (Throwing.modify fun s => { s with serverOffset := some (started - server) } : M V X Unit) := .modify fun s h => ⟨h.setOffset hoffset, rfl⟩
    split
    · refine .bind (.lift .refl _) fun previous => ?_
      split
      · exact .bind quiet_diagnostic fun _ => hset
      · exact hset
    · exact hset
  · exact .pure .refl _

theorem conservative {termination : Member} {offset : Int} {currentTime : String} {terminationTime : Option String}
    {expiry : Option Int} (ho : (offset : ℚ) < D + 1)
    (h : expiresAt c.timed termination offset = .ok (terminationTime, expiry)) :
    Conservative D ⟨currentTime, terminationTime, expiry⟩ := by
  unfold expiresAt at h
  split at h
  · rename_i value
    split at h
    · rename_i instant hinstant
      obtain ⟨rfl, rfl⟩ := Prod.mk.inj (Except.ok.inj h)
      obtain ⟨x, hx⟩ := instant_exists gregorian (timed_ok hinstant)
      have hfloor := (instant_floor gregorian (timed_ok hinstant) hx).1
      refine ⟨x, hx, ?_⟩
      push_cast
      linarith
    · cases h
  · obtain ⟨rfl, rfl⟩ := Prod.mk.inj (Except.ok.inj h)
    trivial

open Throwing in
theorem quiet_estimate {termination : Member} {offset : Int} {currentTime : String} (ho : (offset : ℚ) < D + 1) :
    Keeps (Quiet D) (do
      let _ ← now c.timed
      let (terminationTime, expiresAt) ← Throwing.lift (expiresAt c.timed termination offset)
      Throwing.modify fun s => { s with currentLease := some { currentTime, terminationTime, expiresAt } } : M V X Unit) := by
  refine .bind quiet_now fun _ => Keeps.lift_bind .refl fun estimate hexpires => .modify fun s h => ⟨⟨h.offset, ?_⟩, rfl⟩
  rintro lease hlease
  obtain rfl := Option.some.inj hlease
  exact conservative ho hexpires

open Throwing in
theorem quiet_timing {result : Timing} (hread : Read D started result) : Keeps (Quiet D) (timing c.timed result started) := by
  unfold timing
  split
  · exact .throw .refl _
  · rename_i current termination
    split
    · exact .throw .refl _
    · split
      · exact .throw .refl _
      · refine .bind (quiet_timingCurrent hread) fun _ => ?_
        intro s hs
        rw [run_get_bind]
        cases ho : s.serverOffset with
        | none => exact ⟨hs, rfl⟩
        | some offset =>
          cases current with
          | text current => exact quiet_estimate (hs.offset offset ho) s hs
          | _ =>
            cases hl : s.currentLease with
            | none => exact ⟨hs, rfl⟩
            | some lease => exact quiet_estimate (hs.offset offset ho) s hs

-- Pulls

/-- The pull whose request has been sent when the state is `s'`, `n` pulls
after the first: from what state, and its `Timeout`. -/
structure Sent (c : Context V X) (D : ℚ) (n : ℕ) (s' before : OwnedPullPoint V X) (started : Int) (timeout : ℕ) : Prop where
  count : before.pulls = n
  sends : pull c started before = (.ok (), s')
  available : ∃ available after, OwnedPullPoint.available c started before = (.ok available, after) ∧
    timeout = min after.requestTimeout available
  leased : Leased D before
  lease : before.currentLease.isSome

/-- The estimates stay conservative, and the last thing that is done may be to send a pull. -/
def AtEnd (c : Context V X) (D : ℚ) (n : ℕ) (r : Except Failure Unit × OwnedPullPoint V X) : Prop :=
  Leased D r.2 ∧ (r.2.pulls = n ∨ r.1 = .ok () ∧ ∃ before started timeout, Sent c D n r.2 before started timeout)

def Tail (c : Context V X) (D : ℚ) (m : M V X Unit) : Prop := ∀ s, Leased D s → AtEnd c D s.pulls (m s)

def SameLease (s s' : OwnedPullPoint V X) : Prop := s'.currentLease = s.currentLease

theorem SameLease.refl (s : OwnedPullPoint V X) : SameLease s s := rfl

instance : IsTrans (OwnedPullPoint V X) SameLease := ⟨fun _ _ _ h h' => Eq.trans h' h⟩

open Throwing in
section

theorem now_lease : Keeps SameLease (now c) := keeps_now .refl fun _ => rfl

theorem diagnostic_lease {code : String} {severity : Severity} : Keeps SameLease (diagnostic c code severity) := by
  refine .bind (.modify fun _ => rfl) fun _ => .bind (.modify fun _ => rfl) fun _ => ?_
  exact .bind (.modify fun _ => rfl) fun _ => .bind now_lease fun _ => .modify fun _ => rfl

def Leaves {α : Type} (m : M V X α) : Prop := ∀ s a s', m s = (.ok a, s') → s'.currentLease.isSome

theorem Leaves.throw {α : Type} (e : Failure) : Leaves (Throwing.throw e : M V X α) := by
  intro s a s' h
  cases (Prod.mk.inj h).1

theorem Leaves.bind {α β : Type} {m : M V X α} {f : α → M V X β} (hf : ∀ a, Leaves (f a)) : Leaves (m >>= f) := by
  intro s b s' h
  rw [run_bind] at h
  split at h
  · exact hf _ _ _ _ h
  · cases h

theorem leaves_estimate {termination : Member} {offset : Int} {currentTime : String} :
    Leaves (do
      let _ ← now c
      let (terminationTime, expiresAt) ← Throwing.lift (expiresAt c termination offset)
      Throwing.modify fun s => { s with currentLease := some { currentTime, terminationTime, expiresAt } } : M V X Unit) := by
  refine .bind fun _ => .bind fun _ s _ s' h => ?_
  obtain ⟨-, rfl⟩ := Prod.mk.inj h
  rfl

theorem leaves_timing {result : Timing} : Leaves (timing c result started) := by
  unfold timing
  split
  · exact .throw _
  · rename_i current termination
    split
    · exact .throw _
    · split
      · exact .throw _
      · refine .bind fun _ => .bind fun s => ?_
        cases ho : s.serverOffset with
        | none => exact .throw _
        | some offset =>
          cases current with
          | text current => exact leaves_estimate
          | _ =>
            cases hl : s.currentLease with
            | none => exact .throw _
            | some lease => exact leaves_estimate

theorem Tail.of_quiet {m : M V X Unit} (h : Keeps (Quiet D) m) : Tail c D m := fun s hs => ⟨(h s hs).1, .inl (h s hs).2⟩

theorem Tail.bind {α : Type} {m : M V X α} {f : α → M V X Unit} (hm : Keeps (Quiet D) m) (hf : ∀ a, Tail c D (f a)) :
    Tail c D (m >>= f) := by
  intro s hs
  refine bind_cases (P := AtEnd c D s.pulls) (fun a s' h => ?_) fun e s' h => ?_
  · obtain ⟨hs', hp⟩ := hm.ok h hs
    exact hp ▸ hf a s' hs'
  · obtain ⟨hs', hp⟩ := hm.ok h hs
    exact ⟨hs', .inl hp⟩

theorem pull_ended (hs : Leased D s) (hl : s.currentLease.isSome) : AtEnd c D s.pulls (pull c started s) := by
  have hquiet := (quiet_available : Throwing.Keeps (Quiet D) (OwnedPullPoint.available c started)) s hs
  have hpull : pull c started s = (OwnedPullPoint.available c started >>= fun available => Throwing.get >>= fun s =>
      if min s.requestTimeout available > 2147483647 then Throwing.throw (.onvif "InvalidValue" none)
      else do
        .modify fun s => s.note (.pull s.currentGeneration)
        suspend (.pulling started)) s := rfl
  cases havailable : OwnedPullPoint.available c started s with
  | mk r after =>
    rw [havailable] at hquiet
    cases r with
    | error e =>
      have hrun : pull c started s = (.error e, after) := by rw [hpull, run_bind, havailable]
      rw [hrun]
      exact ⟨hquiet.1, .inl hquiet.2⟩
    | ok available =>
      have hrun : pull c started s = if min after.requestTimeout available > 2147483647 then
          (.error (.onvif "InvalidValue" none), after)
          else (.ok (), { after.note (.pull after.currentGeneration) with loop := .pulling started }) := by
        rw [hpull, run_bind, havailable]
        dsimp only
        rw [run_get_bind]
        split <;> rfl
      split at hrun
      · rw [hrun]
        exact ⟨hquiet.1, .inl hquiet.2⟩
      · rw [hrun]
        have hsent : Sent c D s.pulls _ s started (min after.requestTimeout available) :=
          ⟨rfl, hrun, ⟨available, after, havailable, rfl⟩, hs, hl⟩
        exact ⟨⟨hquiet.1.offset, hquiet.1.lease⟩, .inr ⟨rfl, s, started, _, hsent⟩⟩

theorem tail_run : Tail c D (run c) := by
  intro s hs
  unfold run
  rw [run_get_bind]
  cases hstop : s.stopRequested with
  | true => exact Tail.of_quiet (quiet_suspend _) s hs
  | false =>
    cases hfailure : s.deliveryFailure with
    | some e => exact ⟨hs, .inl rfl⟩
    | none =>
      change AtEnd c D s.pulls ((now c >>= _) s)
      refine bind_cases (P := AtEnd c D s.pulls) (fun started s' h => ?_) fun e s' h => ?_
      · obtain ⟨hs', hp⟩ := quiet_now.ok h hs
        have hlease : s'.currentLease = s.currentLease := now_lease.ok h
        rw [← hp]
        cases hl : s.currentLease with
        | none => exact ⟨hs', .inl rfl⟩
        | some lease =>
          have hpull : AtEnd c D s'.pulls (pull c started s') := pull_ended hs' (by rw [hlease, hl]; rfl)
          cases he : lease.expiresAt with
          | none =>
            dsimp only
            rw [he]
            exact hpull
          | some expiresAt =>
            dsimp only
            rw [he]
            dsimp only
            split
            · exact Tail.of_quiet quiet_recover s' hs'
            · split
              · refine Tail.of_quiet ?_ s' hs'
                exact .bind (.modify fun _ => .event rfl rfl rfl rfl) fun _ => quiet_suspend _
              · exact hpull
      · obtain ⟨hs', hp⟩ := quiet_now.ok h hs
        exact ⟨hs', .inl hp⟩

theorem tail_renewed {result : Except Failure Timing} (hread : ∀ timing, result = .ok timing → Read D started timing) :
    Tail c.timed D (renewed c.timed started result) := by
  cases result with
  | error e =>
    refine .of_quiet (.bind (.get .refl) fun s => ?_)
    split
    · exact .bind quiet_diagnostic fun _ => quiet_suspend _
    · split
      · exact quiet_recover
      · exact .bind quiet_diagnostic fun _ => .throw .refl _
  | ok result =>
    intro s hs
    change AtEnd c.timed D s.pulls ((timing c.timed result started >>= fun _ =>
      diagnostic c.timed "SubscriptionRenewed" .info >>= fun _ => pull c.timed started) s)
    refine bind_cases (P := AtEnd c.timed D s.pulls) (fun _ s₁ h₁ => ?_) fun e s₁ h₁ => ?_
    · obtain ⟨hs₁, hp₁⟩ := (quiet_timing (hread result rfl)).ok h₁ hs
      refine bind_cases (P := AtEnd c.timed D s.pulls) (fun _ s₂ h₂ => ?_) fun e s₂ h₂ => ?_
      · obtain ⟨hs₂, hp₂⟩ := quiet_diagnostic.ok h₂ hs₁
        have hlease : s₂.currentLease = s₁.currentLease := diagnostic_lease.ok h₂
        rw [← hp₁, ← hp₂]
        exact pull_ended hs₂ (hlease ▸ leaves_timing s _ s₁ h₁)
      · obtain ⟨hs₂, hp₂⟩ := quiet_diagnostic.ok h₂ hs₁
        exact ⟨hs₂, .inl (hp₂.trans hp₁)⟩
    · obtain ⟨hs₁, hp₁⟩ := (quiet_timing (hread result rfl)).ok h₁ hs
      exact ⟨hs₁, .inl hp₁⟩

theorem tail_pullFailed : Tail c D (pullFailed c e) := by
  refine .bind (.get .refl) fun s => ?_
  split
  · exact .of_quiet (.throw .refl _)
  · split
    · exact .of_quiet (.bind quiet_diagnostic fun _ => quiet_suspend _)
    · refine .bind quiet_limitFault fun reduced => ?_
      split
      · exact tail_run
      · split
        · exact .of_quiet quiet_recover
        · exact .of_quiet (.bind quiet_diagnostic fun _ => .throw .refl _)

theorem tail_wait : Tail c D (wait c started) := by
  refine .bind quiet_now fun now => ?_
  split
  · exact .of_quiet (quiet_suspend _)
  · exact tail_run

theorem tail_pulled {result : PullResult V X} (hread : Read D started result.timing) :
    Tail c.timed D (pulled c.timed started result) := by
  refine .bind (quiet_timing hread) fun _ => .bind (.get .refl) fun s => ?_
  split
  · exact .of_quiet (quiet_suspend _)
  · split
    · split
      · exact .of_quiet (.throw .refl _)
      · split
        · exact .of_quiet (.throw .refl _)
        · exact .bind (quiet_enqueueAll _) fun _ => tail_wait
    · exact .of_quiet (.throw .refl _)

theorem tail_slept {outcome : Except Failure Unit} : Tail c D (slept c outcome) := by
  cases outcome with
  | ok => exact tail_run
  | error e =>
    refine .bind (.get .refl) fun s => ?_
    split
    · exact .of_quiet (.throw .refl _)
    · split
      · exact tail_run
      · exact .of_quiet (.throw .refl _)

end

-- Runs

/-- The server's time in the response was read when the request had begun. -/
def Causal (D : ℚ) (s : OwnedPullPoint V X) (input : Input V X) : Prop := match s.loop, input with
  | .creating _ started, .created (.ok result) _ => Read D started result.timing
  | .renewing started, .renewed (.ok timing) => Read D started timing
  | .pulling started, .pulled (.ok result) => Read D started result.timing
  | _, _ => True

def Stepped (c : Context V X) (D : ℚ) (s s' : OwnedPullPoint V X) : Prop :=
  Leased D s' ∧ (s'.pulls = s.pulls ∨ ∃ before started timeout, Sent c D s.pulls s' before started timeout)

theorem Quiet.stepped (h : Quiet D s s') (hs : Leased D s) : Stepped c D s s' := ⟨(h hs).1, .inl (h hs).2⟩

variable {m : M V X Unit}

theorem AtEnd.raise (h : AtEnd c D s'.pulls (m s)) : Stepped c D s' (raise phase m s) := by
  unfold OwnedPullPoint.raise
  obtain ⟨hleased, hsent⟩ := h
  split
  · rename_i after heq
    rw [heq] at hleased hsent
    exact ⟨hleased, hsent.imp_right And.right⟩
  · rename_i e after heq
    rw [heq] at hleased hsent
    refine ⟨⟨hleased.offset, hleased.lease⟩, .inl ?_⟩
    exact hsent.resolve_right fun hs => nomatch hs.1

theorem Tail.raise (h : Tail c D m) (hs : Leased D s) : Stepped c D s (raise phase m s) := (h s hs).raise

theorem quiet_crash (h : Throwing.Keeps (Quiet D) m) (s : OwnedPullPoint V X) : Quiet D s (crash phase m s) := by
  have hm := h s
  unfold crash
  split
  · rename_i heq
    rw [heq] at hm
    exact hm
  · rename_i heq
    rw [heq] at hm
    split
    · exact hm.trans (.data rfl rfl rfl)
    · exact hm.trans (.data rfl rfl rfl)

open Throwing in
theorem turn_stepped (hs : Leased D s) : Stepped c D s (turn c s) := by
  unfold turn
  split
  · split
    · exact Quiet.stepped (.data rfl rfl rfl) hs
    · exact (Tail.of_quiet quiet_create).raise hs
  · exact tail_run.raise hs
  · exact Quiet.stepped (.data rfl rfl rfl) hs
  · exact tail_run.raise hs
  · exact (Tail.of_quiet quiet_restart).raise hs
  · exact (quiet_finish _ _ s).stepped hs
  · exact (quiet_crash quiet_finishReleased s).stepped hs
  · split
    · exact (Quiet.refl s).stepped hs
    · exact (quiet_crash quiet_finishSettled s).stepped hs
  · exact (Quiet.refl s).stepped hs

open Throwing in
theorem quiet_received {result : CreateResult} {authorized : Except Failure Unit} (hread : Read D started result.timing) :
    Keeps (Quiet D) (received c.timed phase started result authorized) := by
  refine .bind (.lift .refl _) fun _ => .bind (.modify fun _ => .data rfl rfl rfl) fun _ => ?_
  refine .bind (.modify fun _ => .event rfl rfl rfl rfl) fun _ => .bind (.lift .refl _) fun _ => ?_
  refine .bind (quiet_timing hread) fun _ => ?_
  split
  · exact .bind (.modify fun _ => .event rfl rfl rfl rfl) fun _ => quiet_suspend _
  · exact quiet_activate

theorem quiet_learnRelease (outcome : Except Failure Unit) (s : OwnedPullPoint V X) : Quiet D s (learnRelease outcome s) := by
  cases outcome with
  | ok => exact .event rfl rfl rfl rfl
  | error e => exact quiet_learn (.error e : Except Failure Unit) s

theorem Tail.raise_after (h : Tail c D m) (hq : Quiet D s s') (hs : Leased D s) :
    Stepped c D s (OwnedPullPoint.raise phase m s') := by
  have hended := h s' (hq hs).1
  rw [(hq hs).2] at hended
  exact hended.raise

open Throwing in
theorem unsubscribed_stepped {outcome : Except Failure Unit} (hs : Leased D s) : Stepped c D s (unsubscribed c outcome s) := by
  unfold unsubscribed
  split
  · exact (Tail.of_quiet (.bind quiet_releaseDone fun _ => quiet_suspend _)).raise_after (quiet_learnRelease outcome s) hs
  · have hdone : Keeps (Quiet D) (releaseDone c outcome) := quiet_releaseDone
    have hrelease := (quiet_learnRelease outcome s).trans (hdone _)
    split
    · rename_i heq
      rw [heq] at hrelease
      exact Quiet.stepped (hrelease.trans (.data rfl rfl rfl)) hs
    · rename_i heq
      rw [heq] at hrelease
      exact Quiet.stepped (hrelease.trans (.data rfl rfl rfl)) hs
  · exact (Quiet.refl s).stepped hs

open Throwing in
theorem step_stepped {input : Input V X} (hs : Leased D s) (hh : Causal D s input) :
    Stepped c.timed D s (step c.timed s input) := by
  have hstay : Stepped c.timed D s s := (Quiet.refl s).stepped hs
  cases input with
  | turn => exact turn_stepped hs
  | created result authorized =>
    unfold Causal at hh
    unfold step
    dsimp only
    split
    · rename_i hloop
      rw [hloop] at hh
      exact (Tail.of_quiet (quiet_received hh)).raise hs
    · exact (Tail.of_quiet (.throw .refl _)).raise hs
    · exact hstay
  | synchronized result =>
    unfold step
    dsimp only
    split
    · exact (Tail.of_quiet quiet_activate).raise hs
    · exact (Tail.of_quiet (.throw .refl _)).raise_after (quiet_learn _ s) hs
    · exact hstay
  | renewed result =>
    unfold Causal at hh
    unfold step
    dsimp only
    split
    · rename_i hloop
      rw [hloop] at hh
      refine (tail_renewed fun timing ht => ?_).raise_after (quiet_learn _ s) hs
      rw [ht] at hh
      exact hh
    · exact hstay
  | pulled result =>
    unfold Causal at hh
    unfold step
    dsimp only
    split
    · rename_i result hloop
      rw [hloop] at hh
      have hdrained : Quiet D s (s.note (.drained (drainedBy result))) := .event rfl rfl rfl rfl
      exact (tail_pulled hh).raise_after hdrained hs
    · exact tail_pullFailed.raise_after (quiet_learn _ s) hs
    · exact hstay
  | slept outcome =>
    unfold step
    dsimp only
    split
    · exact tail_slept.raise hs
    · exact hstay
  | unsubscribed outcome => exact unsubscribed_stepped hs
  | reported outcome =>
    unfold step
    dsimp only
    split
    · exact Quiet.stepped (.data rfl rfl rfl) hs
    · exact hstay
  | listener =>
    unfold step
    dsimp only
    split
    · exact Quiet.stepped (.event rfl rfl rfl rfl) hs
    · exact hstay
  | delivered outcome =>
    unfold step
    dsimp only
    split
    · have hreturned : Quiet D s (s.note .returned) := .event rfl rfl rfl rfl
      exact (hreturned.trans (quiet_delivered _ _ _)).stepped hs
    · exact hstay
  | deadline e =>
    unfold step
    dsimp only
    split
    · exact (quiet_delivered _ _ s).stepped hs
    · exact hstay
  | deliveryTurn =>
    unfold step OwnedPullPoint.deliveryTurn
    dsimp only
    split
    · exact Quiet.stepped (.data rfl rfl rfl) hs
    · exact (quiet_deliveryFailed s).stepped hs
    · exact hstay
  | stop =>
    unfold step externalStop
    dsimp only
    split
    · exact hstay
    · exact Quiet.stepped (.data rfl rfl rfl) hs

theorem leased_initial : Leased D (initial c) := ⟨nofun, nofun⟩

theorem leased_reachable (h : ((system c.timed).when (Causal D)).Reachable s) : Leased D s := by
  refine h.invariant (P := Leased D) ?_ fun s input s' hs hstep => ?_
  · rintro s rfl
    exact leased_initial
  · obtain ⟨hh, rfl⟩ := hstep
    exact (step_stepped hs hh).1

/-- A pull that waits at all is sent at `now` and is over when the lease ends. -/
def Timely (c : Context V X) (D : ℚ) (before : OwnedPullPoint V X) (timeout : ℕ) : Prop :=
  ∃ lease, before.currentLease = some lease ∧ ∀ value, lease.terminationTime = some value →
    ∃ x now, Instant gregorian value.toList x ∧ c.clock before.ticks = some now ∧
      (0 < timeout → ((now + timeout : ℤ) : ℚ) ≤ x + D)

theorem available_timed {before after : OwnedPullPoint V X} {available : ℕ} {expiresAt : Int}
    (hl : before.currentLease = some lease) (he : lease.expiresAt = some expiresAt) (h : OwnedPullPoint.available c started before = (.ok available, after)) :
    ∃ now, c.clock before.ticks = some now ∧ available = (expiresAt - now - 1).toNat := by
  obtain ⟨currentTime, terminationTime, expiry⟩ := lease
  obtain rfl : expiry = some expiresAt := he
  have hrun : OwnedPullPoint.available c started before = (now c >>= fun now => pure (expiresAt - now - 1).toNat) before := by
    unfold OwnedPullPoint.available
    rw [Throwing.run_get_bind, hl]
  rw [hrun, Throwing.run_bind] at h
  simp only [now, Throwing.run_get_bind, Throwing.run_modify_bind] at h
  cases hclock : c.clock before.ticks with
  | none =>
    rw [hclock] at h
    cases (Prod.mk.inj h).1
  | some now =>
    rw [hclock] at h
    exact ⟨now, rfl, (Except.ok.inj (Prod.mk.inj h).1).symm⟩

theorem Sent.timely {n timeout : ℕ} {before : OwnedPullPoint V X} (h : Sent c D n s' before started timeout) :
    Timely c D before timeout := by
  obtain ⟨lease, hl⟩ := Option.isSome_iff_exists.mp h.lease
  refine ⟨lease, hl, fun value hvalue => ?_⟩
  have hestimate := h.leased.lease lease hl
  obtain ⟨available, after, havailable, rfl⟩ := h.available
  unfold Conservative at hestimate
  rw [hvalue] at hestimate
  cases he : lease.expiresAt with
  | none =>
    rw [he] at hestimate
    exact hestimate.elim
  | some expiresAt =>
    rw [he] at hestimate
    obtain ⟨x, hx, hlate⟩ := hestimate
    obtain ⟨now, hnow, rfl⟩ := available_timed hl he havailable
    refine ⟨x, now, hx, hnow, fun hpos => ?_⟩
    have hsum : now + (min after.requestTimeout (expiresAt - now - 1).toNat : ℕ) ≤ expiresAt - 1 := by omega
    have hsum' : ((now + (min after.requestTimeout (expiresAt - now - 1).toNat : ℕ) : ℤ) : ℚ) ≤ expiresAt - 1 := by
      exact_mod_cast hsum
    linarith

theorem leases_conservative (h : ((system c.timed).when (Causal D)).Reachable s) :
    (∀ lease, s.currentLease = some lease → Conservative D lease) ∧
      (∀ input, Causal D s input → (step c.timed s input).pulls ≠ s.pulls →
        ∃ before started timeout, Sent c.timed D s.pulls (step c.timed s input) before started timeout ∧
          Timely c D before timeout) ∧
      ∀ value n, Events.instantMilliseconds value = .ok n →
        (∃ x, Instant gregorian value x) ∧ ∀ (calendar : Calendar) x, Instant calendar value x → n = ⌊x⌋ := by
  have hs := leased_reachable h
  refine ⟨hs.lease, fun input hh hgrown => ?_, fun value n hn => ⟨instant_exists _ hn, fun calendar x hx => ?_⟩⟩
  · obtain ⟨before, started, timeout, hsent⟩ := (step_stepped hs hh).2.resolve_left hgrown
    exact ⟨before, started, timeout, hsent, hsent.timely⟩
  · exact (Int.floor_eq_iff.mpr (instant_floor calendar hn hx)).symm

-- A lease of a minute

def minute : Context Unit Unit where
  options :=
    { Settings.least with
        pullTimeoutMs := 60000, restartOnExpiry := false, maxRestarts := 0
        pullTimeout_le := by decide, maxRestarts_le := by decide }
  renew := false
  synchronize := false
  errorListener := false
  clock tick := some (1000 * tick)
  instantMilliseconds _ := .ok 0
  fixedDurationMilliseconds _ := .ok 0
  byteLength _ := 1

def minuteCreate : CreateResult := ⟨.ok (), some (.text "1970-01-01T00:00:00.5Z", .text "1970-01-01T00:01:00Z")⟩

def minuteRequested : OwnedPullPoint Unit Unit := step minute.timed (initial minute.timed) .turn

def minuteGranted : OwnedPullPoint Unit Unit := step minute.timed minuteRequested (.created (.ok minuteCreate) (.ok ()))

theorem leases_conservative_minute : ∃ s : OwnedPullPoint Unit Unit,
    s.currentLease = some ⟨"1970-01-01T00:00:00.5Z", some "1970-01-01T00:01:00Z", some 59500⟩ ∧
      (∀ lease, s.currentLease = some lease → Conservative 0 lease) ∧
      ∃ before started timeout, Sent minute.timed 0 s.pulls (step minute.timed s .turn) before started timeout ∧
        Timely minute 0 before timeout := by
  have hread : Read 0 0 minuteCreate.timing := by
    intro current termination h x hx
    obtain rfl := Member.text.inj (Prod.mk.inj (Option.some.inj h)).1
    have hcurrent : Events.instantMilliseconds "1970-01-01T00:00:00.5Z".toList = .ok 500 := by decide +kernel
    have hfloor := (instant_floor gregorian hcurrent hx).1
    push_cast at hfloor ⊢
    linarith
  have hturn : ((system minute.timed).when (Causal 0)).step (initial minute.timed) .turn minuteRequested := ⟨trivial, rfl⟩
  have hcreated : ((system minute.timed).when (Causal 0)).step minuteRequested (.created (.ok minuteCreate) (.ok ()))
      minuteGranted := ⟨hread, rfl⟩
  have hr := ((System.Reachable.start rfl).next hturn).next hcreated
  obtain ⟨hlease, hpull, -⟩ := leases_conservative hr
  exact ⟨minuteGranted, by decide +kernel, hlease, hpull .turn trivial (by decide +kernel)⟩

end OwnedPullPoint

end WotAv.Events
