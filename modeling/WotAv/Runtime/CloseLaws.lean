import WotAv.Runtime.Close

/-!
# What a resolved close confirms

The invariant of every run whose ordinary subscriptions of one href do not
overlap and whose registrations do not fail once their pull point has started:
what is counted against a capacity is what is starting or not confirmed as
stopped, and after a close that resolves everything is cleaned up.
-/

namespace WotAv.Runtime

open WotAv.Lib

-- Steps of a runtime that accepts nothing

namespace NativeEvents
variable {e e' : NativeEvents} {l : EventLabel}

theorem registrations_old (hl : OnvifRuntime.tracks (.event l) = false) (hs : e.step l = some e') (r : ℕ)
    (h : e.registrations r = none) : e'.registrations r = none := by
  cases l with
  | enter k name => cases hl
  | start r' =>
    obtain ⟨g, hg, -, -, rfl⟩ := start_ok hs
    simp only [setClient, setRegistration]
    grind [Function.update_apply]
  | subscribe r' => cases hl
  | create r' =>
    obtain ⟨g, hg, -, rfl⟩ := create_ok hs
    simp only
    grind [Function.update_apply]
  | complete r' =>
    obtain ⟨g, n, x, hg, -, -, rfl⟩ := complete_ok hs
    simp only [setClient, setNative, setRegistration, finish]
    grind [Function.update_apply]
  | fail r' =>
    obtain ⟨g, hg, ⟨-, rfl⟩ | ⟨-, rfl⟩ | ⟨n, -, rfl⟩⟩ := fail_ok hs <;> simp only [setClient, setRegistration, finish] <;>
      grind [Function.update_apply]
  | clean r' ok =>
    obtain ⟨g, n, x, hg, -, -, ⟨-, -, rfl⟩ | ⟨-, rfl⟩⟩ := clean_ok hs <;>
      simp only [setClient, setNative, setRegistration, finish] <;> grind [Function.update_apply]
  | confirm n =>
    obtain ⟨x, -, rfl⟩ := confirm_ok hs
    exact h
  | settle n ok =>
    obtain ⟨x, -, -, -, ⟨-, -, rfl⟩ | ⟨-, rfl⟩⟩ := settle_ok hs <;> exact h

theorem natives_old (hidle : ∀ r, e.registrations r = none) (hl : OnvifRuntime.tracks (.event l) = false)
    (hs : e.step l = some e') (n : ℕ) (x' : Native) (hx : e'.natives n = some x') :
    ∃ x, e.natives n = some x ∧ (x.confirmed = true → x'.confirmed = true) := by
  have hno : ∀ {r : ℕ} {g : Registration} {P : Prop}, e.registrations r = some g → P := fun {r} _ _ h =>
    nomatch (hidle r).symm.trans h
  cases l with
  | enter k name => cases hl
  | start r =>
    obtain ⟨g, hg, -⟩ := start_ok hs
    exact hno hg
  | subscribe r => cases hl
  | create r =>
    obtain ⟨g, hg, -⟩ := create_ok hs
    exact hno hg
  | complete r =>
    obtain ⟨g, n, x, hg, -⟩ := complete_ok hs
    exact hno hg
  | fail r =>
    obtain ⟨g, hg, -⟩ := fail_ok hs
    exact hno hg
  | clean r ok =>
    obtain ⟨g, n, x, hg, -⟩ := clean_ok hs
    exact hno hg
  | confirm n' =>
    obtain ⟨x, hx', rfl⟩ := confirm_ok hs
    simp only [setNative] at hx
    grind [Function.update_apply]
  | settle n' ok =>
    obtain ⟨x, hx', -, -, ⟨-, -, rfl⟩ | ⟨-, rfl⟩⟩ := settle_ok hs <;> simp only [setNative, setClient] at hx <;>
      grind [Function.update_apply]

theorem Served.step (h : Served e) (hs : e.step l = some e') : Served e' := by
  obtain ⟨h₁, h₂⟩ := h
  cases l with
  | enter k name =>
    obtain ⟨hk, rfl⟩ := enter_ok hs
    constructor <;> simp only <;> grind [Function.update_apply]
  | start r =>
    obtain ⟨g, hg, -, -, rfl⟩ := start_ok hs
    constructor <;> simp only [setClient, setRegistration] <;> grind [Function.update_apply]
  | subscribe r =>
    obtain ⟨g, hg, -, rfl⟩ := subscribe_ok hs
    constructor <;> simp only [setRegistration] <;> grind [Function.update_apply]
  | create r =>
    obtain ⟨g, hg, -, rfl⟩ := create_ok hs
    constructor <;> simp only [setClient, setNative] <;> grind [Function.update_apply]
  | complete r =>
    obtain ⟨g, n, x, hg, -, hx, rfl⟩ := complete_ok hs
    constructor <;> simp only [setClient, setNative, setRegistration, finish] <;> grind [Function.update_apply]
  | fail r =>
    obtain ⟨g, hg, ⟨-, rfl⟩ | ⟨-, rfl⟩ | ⟨n, -, rfl⟩⟩ := fail_ok hs <;> constructor <;>
      simp only [setClient, setRegistration, finish] <;> grind [Function.update_apply]
  | clean r ok =>
    obtain ⟨g, n, x, hg, -, hx, ⟨-, -, rfl⟩ | ⟨-, rfl⟩⟩ := clean_ok hs <;> constructor <;>
      simp only [setClient, setNative, setRegistration, finish] <;> grind [Function.update_apply]
  | confirm n =>
    obtain ⟨x, hx, rfl⟩ := confirm_ok hs
    constructor <;> simp only [setNative] <;> grind [Function.update_apply]
  | settle n ok =>
    obtain ⟨x, hx, -, -, ⟨-, -, rfl⟩ | ⟨-, rfl⟩⟩ := settle_ok hs <;> constructor <;>
      simp only [setNative, setClient] <;> grind [Function.update_apply]

end NativeEvents

theorem Multiplexer.rows_old {m m' : Multiplexer} {l : HttpLabel} (hl : OnvifRuntime.tracks (.http l) = false)
    (hs : m.step l = some m') : m'.subscribes = m.subscribes ∧ m'.unlinks = m.unlinks ∧
      (∀ i, m.subscribing i = none → m'.subscribing i = none) ∧ ∀ i, m.unlinking i = none → m'.unlinking i = none := by
  cases l with
  | subscribe | unlink => cases hl
  | subscribed j ok =>
    obtain ⟨key, hkey, ⟨-, rfl⟩ | ⟨-, rfl⟩⟩ := subscribed_ok hs <;> simp only <;> grind [Function.update_apply]
  | look j =>
    obtain ⟨w, hw, -, rfl⟩ := look_ok hs
    simp only
    grind [Function.update_apply]
  | unlinked j ok =>
    obtain ⟨w, entry, hw, -, ⟨-, rfl⟩ | ⟨-, rfl⟩⟩ := unlinked_ok hs
    · cases entry <;> simp only [release] <;> grind [Function.update_apply]
    · simp only
      grind [Function.update_apply]

theorem Multiplexer.rows_fresh {m m' : Multiplexer} {l : HttpLabel} (hs : m.step l = some m')
    (h₁ : ∀ i, m.subscribes ≤ i → m.subscribing i = none) (h₂ : ∀ i, m.unlinks ≤ i → m.unlinking i = none) :
    (∀ i, m'.subscribes ≤ i → m'.subscribing i = none) ∧ ∀ i, m'.unlinks ≤ i → m'.unlinking i = none := by
  cases hl : OnvifRuntime.tracks (.http l) with
  | true =>
    cases l with
    | subscribe | unlink =>
      cases Option.some.inj hs
      grind [Function.update_apply]
    | subscribed | look | unlinked => cases hl
  | false =>
    obtain ⟨hsubscribes, hunlinks, hsub, hunl⟩ := rows_old hl hs
    exact ⟨fun i hi => hsub i (h₁ i (hsubscribes ▸ hi)), fun i hi => hunl i (h₂ i (hunlinks ▸ hi))⟩

theorem ManagedSubscriptions.state_old {m m' : ManagedSubscriptions} {l : ManagedLabel}
    (hl : OnvifRuntime.tracks (.managed l) = false) (hs : m.step l = some m') {i : ℕ} {st : SubscriptionState}
    (hst : m'.state i = some st) :
    m.state i = some st ∨ m.state i = some .active ∨ m.state i = some .closing ∧ st ≠ .active := by
  cases l with
  | manage => cases hl
  | stop j =>
    simp only [ManagedSubscriptions.step] at hs
    split at hs <;> cases hs
    simp only at hst
    grind [Function.update_apply]
  | released j ok =>
    simp only [ManagedSubscriptions.step] at hs
    split at hs
    · split at hs <;> cases hs <;> simp only at hst <;> grind [Function.update_apply]
    · cases hs

namespace OnvifRuntime

variable {s s' : OnvifRuntime} {l : Label}

theorem rows_mem {α : Type} {table : ℕ → Option α} {count : ℕ} (hfresh : ∀ i, count ≤ i → table i = none) {i : ℕ}
    (h : table i ≠ none) : i ∈ rows table count := by
  have hlt : i < count := by
    by_contra hle
    exact h (hfresh i (by omega))
  simp [rows, hlt, Option.isSome_iff_ne_none, h]

-- The invariant

structure Draining (s : OnvifRuntime) (w : Awaited) : Prop where
  calls : ∀ i, s.calls i ≠ none → i ∈ w.calls
  registrations : ∀ r, s.events.registrations r ≠ none → r ∈ w.registrations
  subscribing : ∀ i, s.http.subscribing i ≠ none → i ∈ w.subscribing
  unlinking : ∀ i, s.http.unlinking i ≠ none → i ∈ w.unlinking
  managed : ∀ m st, s.managed.state m = some st → st = .closed ∨ st ≠ .active ∧ m ∈ w.managed

structure Idle (s : OnvifRuntime) : Prop where
  calls : ∀ i, s.calls i = none
  registrations : ∀ r, s.events.registrations r = none
  subscribing : ∀ i, s.http.subscribing i = none
  unlinking : ∀ i, s.http.unlinking i = none
  managed : ∀ m st, s.managed.state m = some st → st = .closed ∨ st = .uncertain ∧ s.failed = true

theorem Idle.same (h : Idle s) (hc : s'.calls = s.calls)
    (hr : s'.events.registrations = s.events.registrations) (hs : s'.http.subscribing = s.http.subscribing)
    (hu : s'.http.unlinking = s.http.unlinking) (hm : s'.managed = s.managed) (hf : s.failed = true → s'.failed = true) :
    Idle s' where
  calls := hc ▸ h.calls
  registrations := hr ▸ h.registrations
  subscribing := hs ▸ h.subscribing
  unlinking := hu ▸ h.unlinking
  managed m st hst := (h.managed m st (hm ▸ hst)).imp_right fun ⟨hst, hfailed⟩ => ⟨hst, hf hfailed⟩

/-- Every pull point is confirmed or in the list, or the close has failed. -/
def Confirmed (s : OnvifRuntime) (l : List ℕ) : Prop :=
  ∀ n x, s.events.natives n = some x → x.confirmed = true ∨ n ∈ l ∨ s.failed = true

/-- Every ordinary subscription is unlinked or in the list, or the close has failed. -/
def Unlinked (s : OnvifRuntime) (l : List ℕ) : Prop :=
  ∀ o x, s.http.started o = some x → x.unlinked = true ∨ o ∈ l ∨ s.failed = true

/-- What holds in a stage. -/
def At (s : OnvifRuntime) : Stage → Prop
  | .open => s.accepting = true ∧ s.http.Linked
  | .draining w => s.accepting = false ∧ s.http.Linked ∧ Draining s w
  | .events l => s.accepting = false ∧ Idle s ∧ s.http.Linked ∧ Confirmed s l
  | .factories l => s.accepting = false ∧ Idle s ∧ Confirmed s [] ∧ Unlinked s l
  | .services => s.accepting = false ∧ Idle s ∧ Confirmed s [] ∧ Unlinked s []
  | .transport | .done =>
    (s.accepting = false ∧ Idle s ∧ Confirmed s [] ∧ Unlinked s []) ∧ s.transportClosing = true

structure Inv (s : OnvifRuntime) : Prop where
  starting : s.events.Starting
  fresh : s.events.Fresh
  owned : s.events.Owned
  served : s.events.Served
  kept : s.managed.Kept
  calls : ∀ i, s.begun ≤ i → s.calls i = none
  subscribing : ∀ i, s.http.subscribes ≤ i → s.http.subscribing i = none
  unlinking : ∀ i, s.http.unlinks ≤ i → s.http.unlinking i = none
  stage : At s s.stage

/-- Ordinary subscriptions of one href do not overlap, and no cleanup of a
failed registration is confirmed. -/
def Careful (s : OnvifRuntime) : Label → Prop
  | .event l => NativeEvents.Registers l
  | .http l => s.http.Apart l
  | _ => True

theorem At.accepting {st : Stage} (h : At s st) (ha : s.accepting = true) : st = .open := by
  cases st with
  | «open» => rfl
  | transport | done => exact absurd ha (by simp [h.1.1])
  | _ => exact absurd ha (by simp [h.1])

-- Steps within a stage

/-- A step that leaves the ordinary subscriptions and what is accepted alone. -/
structure Quiet (s s' : OnvifRuntime) : Prop where
  accepting : s'.accepting = s.accepting
  started : s'.http = s.http
  transport : s'.transportClosing = s.transportClosing
  failed : s.failed = true → s'.failed = true
  draining : ∀ w, Draining s w → Draining s' w
  idle : Idle s → Idle s'
  confirmed : Idle s → ∀ l, Confirmed s l → Confirmed s' l

theorem At.quiet {st : Stage} (h : At s st) (hq : Quiet s s') : At s' st := by
  have hunlinked : ∀ l, Unlinked s l → Unlinked s' l := by
    intro l hu o x hx
    rw [hq.started] at hx
    rcases hu o x hx with h | h | h
    · exact .inl h
    · exact .inr (.inl h)
    · exact .inr (.inr (hq.failed h))
  cases st with
  | «open» => exact ⟨hq.accepting.trans h.1, hq.started ▸ h.2⟩
  | draining w => exact ⟨hq.accepting.trans h.1, hq.started ▸ h.2.1, hq.draining w h.2.2⟩
  | events l => exact ⟨hq.accepting.trans h.1, hq.idle h.2.1, hq.started ▸ h.2.2.1, hq.confirmed h.2.1 l h.2.2.2⟩
  | factories l =>
    exact ⟨hq.accepting.trans h.1, hq.idle h.2.1, hq.confirmed h.2.1 [] h.2.2.1, hunlinked l h.2.2.2⟩
  | services =>
    exact ⟨hq.accepting.trans h.1, hq.idle h.2.1, hq.confirmed h.2.1 [] h.2.2.1, hunlinked [] h.2.2.2⟩
  | transport | done =>
    obtain ⟨⟨ha, hi, hc, hu⟩, ht⟩ := h
    exact ⟨⟨hq.accepting.trans ha, hq.idle hi, hq.confirmed hi [] hc, hunlinked [] hu⟩, hq.transport.trans ht⟩

theorem quiet_failed (b : Bool) : Quiet s { s with failed := s.failed || b } where
  accepting := rfl
  started := rfl
  transport := rfl
  failed h := by simp [h]
  draining w h := ⟨h.calls, h.registrations, h.subscribing, h.unlinking, h.managed⟩
  idle h := h.same rfl rfl rfl rfl rfl fun hf => by simp [hf]
  confirmed _ l h n x hx := by
    rcases h n x hx with h | h | h
    · exact .inl h
    · exact .inr (.inl h)
    · exact .inr (.inr (by simp [h]))

theorem quiet_event {l : EventLabel} {e : NativeEvents} (hl : tracks (.event l) = false)
    (hs : s.events.step l = some e) : Quiet s { s with events := e } where
  accepting := rfl
  started := rfl
  transport := rfl
  failed := id
  draining w h := ⟨h.calls, fun r hr => h.registrations r (mt (NativeEvents.registrations_old hl hs r) hr),
    h.subscribing, h.unlinking, h.managed⟩
  idle h := ⟨h.calls, fun r => NativeEvents.registrations_old hl hs r (h.registrations r), h.subscribing, h.unlinking,
    h.managed⟩
  confirmed hi l h n x hx := by
    obtain ⟨x₀, hx₀, hmono⟩ := NativeEvents.natives_old hi.registrations hl hs n x hx
    exact (h n x₀ hx₀).imp_left hmono

theorem quiet_managed {l : ManagedLabel} {m : ManagedSubscriptions} (hl : tracks (.managed l) = false)
    (hs : s.managed.step l = some m) : Quiet s { s with managed := m } where
  accepting := rfl
  started := rfl
  transport := rfl
  failed := id
  draining w h := by
    refine ⟨h.calls, h.registrations, h.subscribing, h.unlinking, fun i st hst => ?_⟩
    rcases ManagedSubscriptions.state_old hl hs hst with hold | hactive | ⟨hclosing, hne⟩
    · exact h.managed i st hold
    · exact absurd (h.managed i _ hactive) (by simp)
    · exact .inr ⟨hne, ((h.managed i _ hclosing).resolve_left nofun).2⟩
  idle h := by
    refine ⟨h.calls, h.registrations, h.subscribing, h.unlinking, fun i st hst => ?_⟩
    rcases ManagedSubscriptions.state_old hl hs hst with hold | hactive | ⟨hclosing, -⟩
    · exact h.managed i st hold
    · exact absurd (h.managed i _ hactive) (by simp)
    · exact absurd (h.managed i _ hclosing) (by simp)
  confirmed _ _ h := h

theorem quiet_calls {i : ℕ} (hi : s.calls i ≠ none) (o : Option Bool) {e : NativeEvents}
    (he : e = s.events ∨ e = { s.events with services := s.events.services + 1 }) :
    Quiet s { s with calls := Function.update s.calls i o, events := e } where
  accepting := rfl
  started := rfl
  transport := rfl
  failed := id
  draining w h := by
    refine ⟨fun j hj => ?_, ?_, h.subscribing, h.unlinking, h.managed⟩
    · by_cases hji : j = i
      · exact hji ▸ h.calls i hi
      · exact h.calls j (by simpa [Function.update_of_ne hji] using hj)
    · rcases he with rfl | rfl <;> exact h.registrations
  idle h := absurd (h.calls i) hi
  confirmed h := absurd (h.calls i) hi

theorem At.http {l : HttpLabel} {m : Multiplexer} {st : Stage} (h : At s st) (hok : s.http.Apart l)
    (hl : tracks (.http l) = false) (hs : s.http.step l = some m) : At { s with http := m } st := by
  -- Without a call in progress there is no such step.
  have hno : ¬ ((∀ i, s.http.subscribing i = none) ∧ ∀ i, s.http.unlinking i = none) := by
    rintro ⟨h₁, h₂⟩
    cases l with
    | subscribe | unlink => cases hl
    | subscribed i ok =>
      obtain ⟨key, hkey, -⟩ := Multiplexer.subscribed_ok hs
      exact nomatch (h₁ i).symm.trans hkey
    | look i =>
      obtain ⟨w, hw, -⟩ := Multiplexer.look_ok hs
      exact nomatch (h₂ i).symm.trans hw
    | unlinked i ok =>
      obtain ⟨w, entry, hw, -⟩ := Multiplexer.unlinked_ok hs
      exact nomatch (h₂ i).symm.trans hw
  cases st with
  | «open» => exact ⟨h.1, h.2.step hok hs⟩
  | draining w =>
    obtain ⟨ha, hlinked, hd⟩ := h
    obtain ⟨-, -, hsub, hunl⟩ := Multiplexer.rows_old hl hs
    exact ⟨ha, hlinked.step hok hs, hd.calls, hd.registrations, fun i hi => hd.subscribing i (mt (hsub i) hi),
      fun i hi => hd.unlinking i (mt (hunl i) hi), hd.managed⟩
  | events | factories | services => exact absurd ⟨h.2.1.subscribing, h.2.1.unlinking⟩ hno
  | transport | done => exact absurd ⟨h.1.2.1.subscribing, h.1.2.1.unlinking⟩ hno

-- Every step

theorem owned_of_eq {e e' : NativeEvents} (h : e.Owned) (hc : ∀ k, (e'.clients k).owned = (e.clients k).owned)
    (hn : e'.natives = e.natives) (hr : e'.registrations = e.registrations) : e'.Owned := by
  refine ⟨h.toListed.same hc hn, h.toHeld.same ?_ fun k n hbare => ?_⟩
  · unfold NativeEvents.held
    rw [hr]
  · simpa only [NativeEvents.Bare, hn] using hbare

theorem mem_ownedEntries (h : Inv s) {n : ℕ} {x : Native} (hx : s.events.natives n = some x)
    (hs : x.stopped = false) : n ∈ s.ownedEntries := by
  simp only [ownedEntries, List.mem_flatMap, List.mem_range]
  exact ⟨x.client, h.served.natives n x hx, (h.owned.mem n x hx x.client).mpr ⟨rfl, hs⟩⟩

theorem settled_idle {w : Awaited} (hd : Draining s w) (hs : s.settled w = true) :
    Idle { s with failed := s.failed || w.managed.any fun m => s.managed.state m = some .uncertain } := by
  simp only [settled, Bool.and_eq_true, List.all_eq_true, Option.isNone_iff_eq_none, decide_eq_true_eq] at hs
  obtain ⟨⟨⟨⟨hcalls, hregs⟩, hsub⟩, hunl⟩, hman⟩ := hs
  refine ⟨fun i => ?_, fun i => ?_, fun i => ?_, fun i => ?_, fun m st hm => ?_⟩
  · exact by_contra fun h => h (hcalls i (hd.calls i h))
  · exact by_contra fun h => h (hregs i (hd.registrations i h))
  · exact by_contra fun h => h (hsub i (hd.subscribing i h))
  · exact by_contra fun h => h (hunl i (hd.unlinking i h))
  · rcases hd.managed m st hm with h | ⟨hne, hw⟩
    · exact .inl h
    · have hclosing := hman m hw
      rw [hm] at hclosing
      cases st with
      | active => exact absurd rfl hne
      | closing => exact absurd rfl hclosing
      | closed => exact .inl rfl
      | uncertain => exact .inr ⟨rfl, by simpa using .inr ⟨m, hw, hm⟩⟩

theorem Inv.initial : Inv .initial where
  starting := ⟨fun k name => by simp [OnvifRuntime.initial, NativeEvents.empty, NativeEvents.names, Keyed],
    fun _ => List.nodup_nil, fun r r' c h => by simp [OnvifRuntime.initial, NativeEvents.empty, NativeEvents.names] at h⟩
  fresh := ⟨fun _ _ => rfl, fun _ _ => rfl⟩
  owned := ⟨⟨nofun, nofun, fun _ => List.nodup_nil, nofun⟩, ⟨nofun, nofun⟩⟩
  served := ⟨nofun, nofun⟩
  kept := ⟨fun _ _ => rfl, nofun, nofun, List.nodup_nil⟩
  calls _ _ := rfl
  subscribing _ _ := rfl
  unlinking _ _ := rfl
  stage := ⟨rfl, ⟨fun _ _ => rfl, nofun⟩⟩

theorem Inv.failed (h : Inv s) (b : Bool) : Inv { s with failed := s.failed || b } where
  starting := h.starting
  fresh := h.fresh
  owned := h.owned
  served := h.served
  kept := h.kept
  calls := h.calls
  subscribing := h.subscribing
  unlinking := h.unlinking
  stage := h.stage.quiet (quiet_failed b)

theorem Inv.act (h : Inv s) (hok : Careful s l) (ht : tracks l = true → s.accepting = true) (hs : s.act l = some s') :
    Inv s' := by
  cases l with
  | call consume =>
    cases Option.some.inj hs
    have hopen := h.stage.accepting (ht rfl)
    have hat := h.stage
    refine { h with calls := fun i hi => ?_, stage := ?_ }
    · simp only at hi ⊢
      rw [Function.update_of_ne (by omega)]
      exact h.calls i (by omega)
    · rw [hopen] at hat ⊢
      exact hat
  | service i =>
    simp only [OnvifRuntime.act] at hs
    split at hs
    · rename_i hi
      cases hs
      refine { h with
        starting := h.starting.same (fun _ => rfl) rfl
        fresh := ⟨h.fresh.registrations, h.fresh.natives⟩
        owned := owned_of_eq h.owned (fun _ => rfl) rfl rfl
        served := ⟨fun r g hg => Nat.lt_succ_of_lt (h.served.registrations r g hg),
          fun n x hx => Nat.lt_succ_of_lt (h.served.natives n x hx)⟩
        calls := fun j hj => ?_
        stage := h.stage.quiet (quiet_calls (by simp [hi]) _ (.inr rfl)) }
      have := h.calls j hj
      simp only
      grind [Function.update_apply]
    · cases hs
  | ended i ok =>
    simp only [OnvifRuntime.act] at hs
    split at hs
    · rename_i hi
      cases hs
      refine { h with
        calls := fun j hj => ?_
        stage := h.stage.quiet (quiet_calls (Option.isSome_iff_ne_none.mp hi) none (.inl rfl)) }
      have := h.calls j hj
      simp only
      grind [Function.update_apply]
    · cases hs
  | event l =>
    obtain ⟨e, he, rfl⟩ := Option.map_eq_some_iff.mp hs
    refine { h with
      starting := h.starting.step h.fresh he
      fresh := h.fresh.step he
      owned := h.owned.step h.fresh hok he
      served := h.served.step he
      stage := ?_ }
    cases htracks : tracks (.event l) with
    | true =>
      have hopen := h.stage.accepting (ht htracks)
      have hat := h.stage
      simp only [hopen] at hat ⊢
      exact hat
    | false => exact h.stage.quiet (quiet_event htracks he)
  | http l =>
    obtain ⟨m, hm, rfl⟩ := Option.map_eq_some_iff.mp hs
    obtain ⟨hsub, hunl⟩ := Multiplexer.rows_fresh hm h.subscribing h.unlinking
    refine { h with subscribing := hsub, unlinking := hunl, stage := ?_ }
    cases htracks : tracks (.http l) with
    | true =>
      have hopen := h.stage.accepting (ht htracks)
      have hat := h.stage
      simp only [hopen] at hat ⊢
      exact ⟨hat.1, hat.2.step hok hm⟩
    | false => exact h.stage.http hok htracks hm
  | managed l =>
    obtain ⟨m, hm, rfl⟩ := Option.map_eq_some_iff.mp hs
    refine { h with kept := h.kept.step hm, stage := ?_ }
    cases htracks : tracks (.managed l) with
    | true =>
      have hopen := h.stage.accepting (ht htracks)
      have hat := h.stage
      simp only [hopen] at hat ⊢
      exact hat
    | false => exact h.stage.quiet (quiet_managed htracks hm)
  | request =>
    simp only [OnvifRuntime.act] at hs
    split at hs <;> cases hs
    refine { h with stage := h.stage.quiet ⟨rfl, rfl, rfl, id, fun w hd => ?_, fun hi => ?_, fun _ _ hc => hc⟩ }
    · exact ⟨hd.calls, hd.registrations, hd.subscribing, hd.unlinking, hd.managed⟩
    · exact ⟨hi.calls, hi.registrations, hi.subscribing, hi.unlinking, hi.managed⟩
  | close =>
    simp only [OnvifRuntime.act] at hs
    split at hs
    · rename_i hopen
      cases hs
      have hat := h.stage
      rw [hopen] at hat
      refine { h with kept := h.kept.stopAll, stage := ⟨rfl, hat.2, ?_⟩ }
      refine ⟨fun i hi => rows_mem h.calls hi, fun r hr => rows_mem h.fresh.registrations hr,
        fun i hi => rows_mem h.subscribing hi, fun i hi => rows_mem h.unlinking hi, fun m st hm => ?_⟩
      have hmem := h.kept.mem m
      simp only [ManagedSubscriptions.stopAll] at hm
      simp only [awaited]
      grind
    · cases hs
  | drained =>
    simp only [OnvifRuntime.act] at hs
    split at hs
    · rename_i w hstage
      split at hs
      · rename_i hsettled
        cases hs
        have hat := h.stage
        rw [hstage] at hat
        obtain ⟨ha, hlinked, hd⟩ := hat
        have hidle := settled_idle hd hsettled
        refine { h with
          starting := h.starting.same (fun _ => rfl) rfl
          fresh := ⟨h.fresh.registrations, h.fresh.natives⟩
          owned := owned_of_eq h.owned (fun _ => rfl) rfl rfl
          served := ⟨h.served.registrations, h.served.natives⟩
          stage := ⟨ha, hidle.same rfl rfl rfl rfl rfl id, hlinked, fun n x hx => ?_⟩ }
        cases hstopped : x.stopped with
        | true => exact .inl (h.owned.confirmed n x hx hstopped)
        | false => exact .inr (.inl (mem_ownedEntries h hx hstopped))
      · cases hs
    · cases hs
  | entryStopped n ok =>
    simp only [OnvifRuntime.act] at hs
    split at hs
    · rename_i l hstage
      split at hs
      · rename_i hn
        cases hs
        have hat := h.stage
        rw [hstage] at hat
        obtain ⟨ha, hidle, hlinked, hc⟩ := hat
        refine { h with stage := ⟨ha, hidle.same rfl rfl rfl rfl rfl (quiet_failed (!ok)).failed, hlinked,
          fun n' x hx => ?_⟩ }
        have hold := hc n' x hx
        have hconf := hn.2
        simp only at hx ⊢
        cases ok <;> grind
      · cases hs
    · cases hs
  | eventsClosed =>
    simp only [OnvifRuntime.act] at hs
    split at hs
    · rename_i hstage
      cases hs
      have hat := h.stage
      rw [hstage] at hat
      obtain ⟨ha, hidle, hlinked, hc⟩ := hat
      refine { h with stage := ⟨ha, hidle.same rfl rfl rfl rfl rfl id, hc, fun o x hx => ?_⟩ }
      cases hu : x.unlinked with
      | true => exact .inl rfl
      | false => exact .inr (.inl (hlinked.mem_entries hx hu))
    · cases hs
  | entryUnlinked o ok =>
    simp only [OnvifRuntime.act] at hs
    split at hs
    · rename_i l hstage
      split at hs
      · cases hs
        have hat := h.stage
        rw [hstage] at hat
        obtain ⟨ha, hidle, hc, hu⟩ := hat
        have hq := quiet_failed (s := s) (!ok)
        have hrows : (if ok = true then s.http.release (some o) else s.http).subscribing = s.http.subscribing ∧
            (if ok = true then s.http.release (some o) else s.http).unlinking = s.http.unlinking ∧
            (if ok = true then s.http.release (some o) else s.http).subscribes = s.http.subscribes ∧
            (if ok = true then s.http.release (some o) else s.http).unlinks = s.http.unlinks := by
          cases ok <;> exact ⟨rfl, rfl, rfl, rfl⟩
        refine { h with
          subscribing := fun i hi => ?_
          unlinking := fun i hi => ?_
          stage := ⟨ha, hidle.same rfl rfl hrows.1 hrows.2.1 rfl hq.failed, hq.confirmed hidle [] hc, fun o' x hx => ?_⟩ }
        · simp only at hi ⊢
          rw [hrows.1]
          exact h.subscribing i (hrows.2.2.1 ▸ hi)
        · simp only at hi ⊢
          rw [hrows.2.1]
          exact h.unlinking i (hrows.2.2.2 ▸ hi)
        · cases ok with
          | false => exact .inr (.inr (by simp))
          | true =>
            cases hlive : x.unlinked with
            | true => exact .inl rfl
            | false =>
              have hx : (s.http.release (some o)).started o' = some x := hx
              obtain ⟨hx, hne⟩ := Multiplexer.release_live hx hlive
              rcases hu o' x hx with h' | h' | h'
              · exact absurd h' (by simp [hlive])
              · exact .inr (.inl ((List.mem_erase_of_ne fun ho => hne (congrArg some ho.symm)).mpr h'))
              · exact .inr (.inr (hq.failed h'))
      · cases hs
    · cases hs
  | factoriesClosed ok =>
    simp only [OnvifRuntime.act] at hs
    split at hs
    · rename_i hstage
      cases hs
      have hat := h.stage
      rw [hstage] at hat
      obtain ⟨ha, hidle, hc, hu⟩ := hat
      have hq := quiet_failed (s := s) (!ok)
      refine { h with stage := ⟨ha, hidle.same rfl rfl rfl rfl rfl hq.failed, hq.confirmed hidle [] hc,
        fun o x hx => ?_⟩ }
      exact (hu o x hx).imp_right (Or.imp_right hq.failed)
    · cases hs
  | servicesClosed ok =>
    simp only [OnvifRuntime.act] at hs
    split at hs
    · rename_i hstage
      cases hs
      have hat := h.stage.quiet (quiet_failed (!ok))
      rw [hstage] at hat
      obtain ⟨ha, hidle, hc, hu⟩ := hat
      exact { h with stage := ⟨⟨ha, hidle.same rfl rfl rfl rfl rfl id, hc, hu⟩, rfl⟩ }
    · cases hs
  | transportClosed ok =>
    simp only [OnvifRuntime.act] at hs
    split at hs
    · rename_i hstage
      cases hs
      have hat := h.stage.quiet (quiet_failed (!ok))
      rw [hstage] at hat
      obtain ⟨⟨ha, hidle, hc, hu⟩, ht⟩ := hat
      exact { h with stage := ⟨⟨ha, hidle.same rfl rfl rfl rfl rfl id, hc, hu⟩, ht⟩ }
    · cases hs

theorem Inv.step (h : Inv s) (hok : Careful s l) (hs : s.step l = some s') : Inv s' := by
  simp only [OnvifRuntime.step] at hs
  split at hs
  · cases hs
  · rename_i hopen
    obtain ⟨s₁, hact, rfl⟩ := Option.map_eq_some_iff.mp hs
    exact (h.act hok (fun ht => by simpa [ht] using hopen) hact).failed _

-- Capacity, and a resolved close

/-- The entries counted against the capacities: the starts in progress, and
what is not confirmed as stopped, each once. -/
structure Counted (s : OnvifRuntime) : Prop where
  starting : ∀ k name, name ∈ (s.events.clients k).starting ↔
    ∃ r g, s.events.registrations r = some g ∧ g.phase ≠ .entered ∧ g.client = k ∧ g.name = name
  startingOnce : ∀ k, (s.events.clients k).starting.Nodup
  owned : ∀ k n, n ∈ (s.events.clients k).owned ↔
    ∃ x, s.events.natives n = some x ∧ x.client = k ∧ x.stopped = false
  ownedOnce : ∀ k, (s.events.clients k).owned.Nodup
  managed : ∀ m, m ∈ s.managed.subscriptions ↔ ∃ st, s.managed.state m = some st ∧ st ≠ .closed
  managedOnce : s.managed.subscriptions.Nodup

/-- All that the runtime owned is cleaned up, nothing tracked is in progress,
and whatever happens later starts no transport request. -/
structure CleanedUp (s : OnvifRuntime) : Prop where
  events : ∀ n x, s.events.natives n = some x → x.confirmed = true
  managed : ∀ m st, s.managed.state m = some st → st = .closed
  http : ∀ o x, s.http.started o = some x → x.unlinked = true
  calls : ∀ i, s.calls i = none
  registrations : ∀ r, s.events.registrations r = none
  subscribing : ∀ i, s.http.subscribing i = none
  unlinking : ∀ i, s.http.unlinking i = none
  requests : ∀ labels s', system.Run s labels s' → s'.requests = s.requests

theorem Inv.counted (h : Inv s) : Counted s where
  starting k name := by
    rw [h.starting.mem]
    simp only [Keyed, NativeEvents.names, Option.bind_eq_some_iff, NativeEvents.started]
    grind
  startingOnce := h.starting.nodup
  owned k n := by
    have hknown := h.owned.known k n
    have hmem := h.owned.mem n
    constructor
    · intro hn
      obtain ⟨x, hx⟩ := Option.ne_none_iff_exists'.mp (hknown hn)
      exact ⟨x, hx, (hmem x hx k).mp hn⟩
    · rintro ⟨x, hx, hxk⟩
      exact (hmem x hx k).mpr hxk
  ownedOnce := h.owned.nodup
  managed m := by
    have hknown := h.kept.known m
    have hmem := h.kept.mem m
    constructor
    · intro hm
      obtain ⟨st, hst⟩ := Option.ne_none_iff_exists'.mp (hknown hm)
      exact ⟨st, hst, (hmem st hst).mp hm⟩
    · rintro ⟨st, hst, hne⟩
      exact (hmem st hst).mpr hne
  managedOnce := h.kept.nodup

theorem act_requests (h : s.transportClosing = true) (hs : s.act l = some s') :
    s'.transportClosing = true ∧ s'.requests = s.requests := by
  cases l with
  | call consume =>
    cases Option.some.inj hs
    exact ⟨h, rfl⟩
  | event l | http l | managed l =>
    obtain ⟨_, -, rfl⟩ := Option.map_eq_some_iff.mp hs
    exact ⟨h, rfl⟩
  | request => simp [OnvifRuntime.act, h] at hs
  | service | ended | close | eventsClosed | factoriesClosed | servicesClosed | transportClosed =>
    simp only [OnvifRuntime.act] at hs
    split at hs <;> cases hs
    exact ⟨by first | exact h | rfl, rfl⟩
  | drained | entryStopped | entryUnlinked =>
    simp only [OnvifRuntime.act] at hs
    split at hs
    · split at hs <;> cases hs
      exact ⟨h, rfl⟩
    · cases hs

theorem step_requests (h : s.transportClosing = true) (hs : s.step l = some s') :
    s'.transportClosing = true ∧ s'.requests = s.requests := by
  simp only [OnvifRuntime.step] at hs
  split at hs
  · cases hs
  · obtain ⟨s₁, hact, rfl⟩ := Option.map_eq_some_iff.mp hs
    obtain ⟨hclosing, hsame⟩ := act_requests h hact
    exact ⟨hclosing, hsame⟩

theorem Inv.cleanedUp (h : Inv s) (hc : s.Closed) : CleanedUp s := by
  obtain ⟨hdone, hfailed⟩ := hc
  have hat := h.stage
  rw [hdone] at hat
  obtain ⟨⟨-, hidle, hconfirmed, hunlinked⟩, htransport⟩ := hat
  refine ⟨fun n x hx => ?_, fun m st hm => ?_, fun o x hx => ?_, hidle.calls, hidle.registrations, hidle.subscribing,
    hidle.unlinking, fun labels s' hr => ?_⟩
  · simpa [hfailed] using hconfirmed n x hx
  · simpa [hfailed] using hidle.managed m st hm
  · simpa [hfailed] using hunlinked o x hx
  · have hkeeps := hr.keeps (P := fun t => t.transportClosing = true ∧ t.requests = s.requests)
      (fun t l t' ht hs => by
        obtain ⟨hclosing, hsame⟩ := step_requests ht.1 hs
        exact ⟨hclosing, hsame.trans ht.2⟩) ⟨htransport, rfl⟩
    exact hkeeps.2

end OnvifRuntime

open OnvifRuntime

theorem reachable_inv {s : OnvifRuntime} (h : (system.when Careful).Reachable s) : Inv s := by
  refine h.invariant (P := Inv) ?_ ?_
  · rintro s rfl
    exact Inv.initial
  · intro s l s' hinv hs
    have hs : Careful s l ∧ s.step l = some s' := hs
    exact hinv.step hs.1 hs.2

/-- In every state of a run whose ordinary subscriptions of one href do not
overlap and whose failed registrations are not confirmed as cleaned up, what is
counted is what is starting or not confirmed as stopped; and where `close` has
resolved, everything owned is cleaned up. -/
theorem close_confirms {s : OnvifRuntime} (h : (system.when Careful).Reachable s) :
    Counted s ∧ (s.Closed → CleanedUp s) :=
  ⟨(reachable_inv h).counted, (reachable_inv h).cleanedUp⟩

def carefulRun : List Label :=
  [.call true, .service 0, .ended 0 true, .event (.enter 0 "motion"), .event (.start 0), .event (.subscribe 0),
    .event (.create 0), .event (.complete 0), .managed .manage, .request, .close, .managed (.released 0 true), .drained,
    .event (.confirm 0), .event (.settle 0 true), .entryStopped 0 true, .eventsClosed, .factoriesClosed true,
    .servicesClosed true, .transportClosed true]

theorem close_confirms_both : ∃ s, (s.stage = .done ∧ s.failed = false ∧ s.events.natives 0 ≠ none ∧
    s.managed.state 0 ≠ none) ∧ Counted s ∧ CleanedUp s := by
  have hrun : ∃ s ∈ System.path OnvifRuntime.step .initial carefulRun, s.stage = .done ∧ s.failed = false ∧
      s.events.natives 0 ≠ none ∧ s.managed.state 0 ≠ none :=
    ⟨(System.path OnvifRuntime.step .initial carefulRun).get (by decide), Option.get_mem _, by decide⟩
  obtain ⟨s, hs, hdone⟩ := hrun
  have hr : (system.when Careful).Reachable s := by
    refine System.Reachable.path_when carefulRun ?_ _ s (.start rfl) hs
    simp [carefulRun, Careful, NativeEvents.Registers]
  obtain ⟨hcounted, hclosed⟩ := close_confirms hr
  exact ⟨s, hdone, hcounted, hclosed ⟨hdone.1, hdone.2.1⟩⟩

def overlappingRun : List Label :=
  [.call true, .service 0, .ended 0 true, .http (.subscribe 0 "http://camera/events"), .http (.subscribed 0 true),
    .http (.subscribe 0 "http://camera/events"), .http (.subscribed 1 true), .close, .drained, .eventsClosed,
    .entryUnlinked 1 true, .factoriesClosed true, .servicesClosed true, .transportClosed true]

def failedRun : List Label :=
  [.call true, .service 0, .ended 0 true, .event (.enter 0 "motion"), .event (.start 0), .event (.subscribe 0),
    .event (.create 0), .event (.fail 0), .event (.confirm 0), .event (.clean 0 true)]

theorem path_reachable {labels : List Label} {s : OnvifRuntime}
    (h : System.path OnvifRuntime.step .initial labels = some s) : system.Reachable s :=
  System.Reachable.path labels _ _ (.start rfl) h

theorem close_leaves_subscription : (¬ ∀ s, system.Reachable s → Counted s) ∧
    ¬ ∀ s, system.Reachable s → s.Closed → CleanedUp s := by
  constructor
  · intro h
    have hrun : ∃ s ∈ System.path OnvifRuntime.step .initial failedRun,
        0 ∈ (s.events.clients 0).owned ∧ (s.events.natives 0).any (·.stopped) :=
      ⟨(System.path OnvifRuntime.step .initial failedRun).get (by decide), Option.get_mem _, by decide⟩
    obtain ⟨s, hs, howned, hstopped⟩ := hrun
    obtain ⟨x, hx, -, hlive⟩ := ((h s (path_reachable hs)).owned 0 0).mp howned
    simp [hx, hlive] at hstopped
  · intro h
    have hrun : ∃ s ∈ System.path OnvifRuntime.step .initial overlappingRun,
        (s.stage = .done ∧ s.failed = false) ∧ ∃ x ∈ s.http.started 0, x.unlinked = false :=
      ⟨(System.path OnvifRuntime.step .initial overlappingRun).get (by decide), Option.get_mem _, by decide,
        ⟨0, "http://camera/events", false⟩, by decide, rfl⟩
    obtain ⟨s, hs, hclosed, x, hx, hlive⟩ := hrun
    have hgone := (h s (path_reachable hs) hclosed).http 0 x hx
    exact nomatch hlive.symm.trans hgone

end WotAv.Runtime
