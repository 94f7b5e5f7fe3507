import Mathlib.Data.List.Nodup
import WotAv.Lib.Keys
import WotAv.Lib.Transition

/-!
# Native event subscriptions

The `NativeEventClient`s of one runtime: what each counts against its capacity,
and where each registration stands. A step is what happens between two awaits;
what node-wot and the pull point answer is part of its label.
-/

namespace WotAv.Runtime

open WotAv.Lib

/-- Where a call of `subscribeEvent` stands. -/
inductive Phase
  /-- the tracked call has begun -/
  | entered
  /-- its name is in `starting`, and node-wot has been called -/
  | starting
  /-- node-wot has called `subscribeResource`, which is tracked as well -/
  | subscribing
  /-- the pull point has started -/
  | created (native : ℕ)
  /-- the registration failed, and the pull point is being stopped -/
  | cleaning (native : ℕ)
  deriving DecidableEq, Repr

structure Registration where
  client : ℕ
  name : String
  phase : Phase
  deriving DecidableEq, Repr

/-- A pull point. `confirmed`: its remote cleanup was; `stopped`: the promise
that its owner stops it by has resolved; `rejected`: it has been rejected. -/
structure Native where
  client : ℕ
  wrapped : Bool
  confirmed : Bool
  stopped : Bool
  rejected : Bool
  deriving DecidableEq, Repr

/-- `NativeEventClient`; a pull point and the `OwnedEvent` around it go by one
name in `owned`. -/
structure EventClient where
  owned : List ℕ
  starting : List String
  closing : Bool
  deriving DecidableEq, Repr

structure NativeEvents where
  clients : ℕ → EventClient
  services : ℕ
  natives : ℕ → Option Native
  created : ℕ
  registrations : ℕ → Option Registration
  begun : ℕ

def NativeEvents.empty : NativeEvents where
  clients _ := ⟨[], [], false⟩
  services := 0
  natives _ := none
  created := 0
  registrations _ := none
  begun := 0

inductive EventLabel
  /-- `subscribeEvent`, or the wrapped `thing.subscribeEvent` -/
  | enter (client : ℕ) (name : String)
  /-- the checks pass, and the name is added to `starting` -/
  | start (registration : ℕ)
  /-- node-wot calls the protocol client -/
  | subscribe (registration : ℕ)
  /-- `startPullPoint` resolves -/
  | create (registration : ℕ)
  /-- node-wot returns its subscription -/
  | complete (registration : ℕ)
  /-- a check, node-wot or the pull point throws -/
  | fail (registration : ℕ)
  /-- `await call.managed.stop()` settles -/
  | clean (registration : ℕ) (ok : Bool)
  /-- the remote cleanup of a pull point is confirmed -/
  | confirm (native : ℕ)
  /-- `stopPromise` of an `OwnedEvent` settles -/
  | settle (native : ℕ) (ok : Bool)
  deriving DecidableEq, Repr

namespace NativeEvents

def setClient (e : NativeEvents) (k : ℕ) (c : EventClient) : NativeEvents :=
  { e with clients := Function.update e.clients k c }

def setNative (e : NativeEvents) (n : ℕ) (x : Native) : NativeEvents :=
  { e with natives := Function.update e.natives n (some x) }

def setRegistration (e : NativeEvents) (r : ℕ) (g : Option Registration) : NativeEvents :=
  { e with registrations := Function.update e.registrations r g }

/-- The `finally` of `subscribeEvent`, and the end of the tracked call. -/
def finish (e : NativeEvents) (r : ℕ) (g : Registration) : NativeEvents :=
  let c := e.clients g.client
  (e.setClient g.client { c with starting := c.starting.erase g.name }).setRegistration r none

/-- The capacity check of `subscribeEvent`. -/
def admits (c : EventClient) (name : String) : Bool :=
  !c.closing && !c.starting.contains name && c.owned.length + c.starting.length < 64

def step (e : NativeEvents) : EventLabel → Option NativeEvents
  | .enter k name =>
    if k < e.services then
      some { e with registrations := Function.update e.registrations e.begun (some ⟨k, name, .entered⟩)
                    begun := e.begun + 1 }
    else none
  | .start r => do
    let g ← e.registrations r
    let c := e.clients g.client
    if g.phase = .entered ∧ admits c g.name then
      some ((e.setClient g.client { c with starting := g.name :: c.starting }).setRegistration r
        (some { g with phase := .starting }))
    else none
  | .subscribe r => do
    let g ← e.registrations r
    if g.phase = .starting ∧ (e.clients g.client).closing = false then
      some (e.setRegistration r (some { g with phase := .subscribing }))
    else none
  | .create r => do
    let g ← e.registrations r
    let c := e.clients g.client
    if g.phase = .subscribing then
      some { (e.setClient g.client { c with owned := e.created :: c.owned }).setNative e.created
               ⟨g.client, false, false, false, false⟩ with
             registrations := Function.update e.registrations r (some { g with phase := .created e.created })
             created := e.created + 1 }
    else none
  | .complete r => do
    let g ← e.registrations r
    match g.phase with
    | .created n => do
      let x ← e.natives n
      let c := e.clients g.client
      some (((e.setClient g.client { c with owned := n :: c.owned.erase n }).setNative n
        { x with wrapped := true }).finish r g)
    | _ => none
  | .fail r => do
    let g ← e.registrations r
    match g.phase with
    | .entered => some (e.setRegistration r none)
    | .starting | .subscribing => some (e.finish r g)
    | .created n => some (e.setRegistration r (some { g with phase := .cleaning n }))
    | .cleaning _ => none
  | .clean r ok => do
    let g ← e.registrations r
    match g.phase with
    | .cleaning n => do
      let x ← e.natives n
      if ok = true then
        if x.confirmed then some ((e.setNative n { x with stopped := true }).finish r g) else none
      else some (e.finish r g)
    | _ => none
  | .confirm n => do
    let x ← e.natives n
    some (e.setNative n { x with confirmed := true })
  | .settle n ok => do
    let x ← e.natives n
    let c := e.clients x.client
    if x.wrapped ∧ x.stopped = false ∧ x.rejected = false then
      if ok = true then
        if x.confirmed then
          some ((e.setNative n { x with stopped := true }).setClient x.client { c with owned := c.owned.erase n })
        else none
      else some (e.setNative n { x with rejected := true })
    else none


-- Names of the starts in progress

/-- What a registration past its checks has in `starting`. -/
def started (g : Registration) : Option (ℕ × String) :=
  if g.phase = .entered then none else some (g.client, g.name)

def names (e : NativeEvents) : ℕ → Option (ℕ × String) := fun r => (e.registrations r).bind started

/-- `starting` has the names of the registrations past their checks, once. -/
structure Starting (e : NativeEvents) : Prop where
  mem : ∀ k name, name ∈ (e.clients k).starting ↔ Keyed e.names (k, name)
  nodup : ∀ k, (e.clients k).starting.Nodup
  distinct : Distinct e.names

variable {e e' : NativeEvents} {r n k : ℕ} {name : String} {g : Registration} {ok : Bool}

theorem Starting.same (h : Starting e) (hc : ∀ k, (e'.clients k).starting = (e.clients k).starting)
    (ht : e'.names = e.names) : Starting e' where
  mem k name := by rw [hc, ht]; exact h.mem k name
  nodup k := by rw [hc]; exact h.nodup k
  distinct := by rw [ht]; exact h.distinct

theorem Starting.add (h : Starting e) (hr : e.names r = none) (hname : name ∉ (e.clients k).starting)
    (hk : (e'.clients k).starting = name :: (e.clients k).starting)
    (hc : ∀ k', k' ≠ k → (e'.clients k').starting = (e.clients k').starting)
    (ht : e'.names = Function.update e.names r (some (k, name))) : Starting e' where
  mem k' name' := by
    rw [ht, keyed_insert hr, ← h.mem]
    by_cases hkk : k' = k
    · subst hkk
      simp [hk]
    · simp [hc k' hkk, hkk]
  nodup k' := by
    by_cases hkk : k' = k
    · subst hkk
      rw [hk]
      exact (h.nodup k').cons hname
    · rw [hc k' hkk]
      exact h.nodup k'
  distinct := by
    rw [ht]
    exact h.distinct.insert fun hkeyed => hname ((h.mem k name).mpr hkeyed)

theorem Starting.remove (h : Starting e) (hr : e.names r = some (k, name))
    (hk : (e'.clients k).starting = (e.clients k).starting.erase name)
    (hc : ∀ k', k' ≠ k → (e'.clients k').starting = (e.clients k').starting)
    (ht : e'.names = Function.update e.names r none) : Starting e' where
  mem k' name' := by
    rw [ht, keyed_erase h.distinct hr, ← h.mem]
    by_cases hkk : k' = k
    · subst hkk
      simp [hk, (h.nodup k').mem_erase_iff]
    · simp [hc k' hkk, hkk]
  nodup k' := by
    by_cases hkk : k' = k
    · subst hkk
      rw [hk]
      exact (h.nodup k').erase name
    · rw [hc k' hkk]
      exact h.nodup k'
  distinct := by
    rw [ht]
    exact h.distinct.erase

/-- Identifiers not given out yet have no row. -/
structure Fresh (e : NativeEvents) : Prop where
  registrations : ∀ r, e.begun ≤ r → e.registrations r = none
  natives : ∀ n, e.created ≤ n → e.natives n = none

theorem step_some {α : Type} {x : Option α} {f : α → Option NativeEvents} :
    (x >>= f) = some e' ↔ ∃ a, x = some a ∧ f a = some e' := Option.bind_eq_some_iff

theorem enter_ok (h : e.step (.enter k name) = some e') : k < e.services ∧
    e' = { e with registrations := Function.update e.registrations e.begun (some ⟨k, name, .entered⟩)
                  begun := e.begun + 1 } := by
  simp only [step] at h
  split at h
  · rename_i hk
    exact ⟨hk, (Option.some.inj h).symm⟩
  · cases h

theorem start_ok (h : e.step (.start r) = some e') : ∃ g, e.registrations r = some g ∧ g.phase = .entered ∧
    admits (e.clients g.client) g.name = true ∧
      e' = (e.setClient g.client { e.clients g.client with starting := g.name :: (e.clients g.client).starting }
        ).setRegistration r (some { g with phase := .starting }) := by
  obtain ⟨g, hg, h⟩ := step_some.mp h
  dsimp only at h
  split at h
  · rename_i hc
    exact ⟨g, hg, hc.1, hc.2, (Option.some.inj h).symm⟩
  · cases h

theorem subscribe_ok (h : e.step (.subscribe r) = some e') : ∃ g, e.registrations r = some g ∧ g.phase = .starting ∧
    e' = e.setRegistration r (some { g with phase := .subscribing }) := by
  obtain ⟨g, hg, h⟩ := step_some.mp h
  split at h
  · rename_i hc
    exact ⟨g, hg, hc.1, (Option.some.inj h).symm⟩
  · cases h

theorem create_ok (h : e.step (.create r) = some e') : ∃ g, e.registrations r = some g ∧ g.phase = .subscribing ∧
    e' = { (e.setClient g.client { e.clients g.client with owned := e.created :: (e.clients g.client).owned }).setNative
             e.created ⟨g.client, false, false, false, false⟩ with
           registrations := Function.update e.registrations r (some { g with phase := .created e.created })
           created := e.created + 1 } := by
  obtain ⟨g, hg, h⟩ := step_some.mp h
  dsimp only at h
  split at h
  · rename_i hc
    exact ⟨g, hg, hc, (Option.some.inj h).symm⟩
  · cases h

theorem complete_ok (h : e.step (.complete r) = some e') : ∃ g n x, e.registrations r = some g ∧
    g.phase = .created n ∧ e.natives n = some x ∧
      e' = ((e.setClient g.client { e.clients g.client with owned := n :: (e.clients g.client).owned.erase n }
        ).setNative n { x with wrapped := true }).finish r g := by
  obtain ⟨g, hg, h⟩ := step_some.mp h
  dsimp only at h
  split at h
  · rename_i n hp
    obtain ⟨x, hx, h⟩ := step_some.mp h
    exact ⟨g, n, x, hg, hp, hx, (Option.some.inj h).symm⟩
  · cases h

theorem fail_ok (h : e.step (.fail r) = some e') : ∃ g, e.registrations r = some g ∧
    (g.phase = .entered ∧ e' = e.setRegistration r none ∨
      (g.phase = .starting ∨ g.phase = .subscribing) ∧ e' = e.finish r g ∨
      ∃ n, g.phase = .created n ∧ e' = e.setRegistration r (some { g with phase := .cleaning n })) := by
  obtain ⟨g, hg, h⟩ := step_some.mp h
  refine ⟨g, hg, ?_⟩
  split at h
  · rename_i hp
    exact .inl ⟨hp, (Option.some.inj h).symm⟩
  · rename_i hp
    exact .inr (.inl ⟨.inl hp, (Option.some.inj h).symm⟩)
  · rename_i hp
    exact .inr (.inl ⟨.inr hp, (Option.some.inj h).symm⟩)
  · rename_i n hp
    exact .inr (.inr ⟨n, hp, (Option.some.inj h).symm⟩)
  · cases h

theorem clean_ok (h : e.step (.clean r ok) = some e') : ∃ g n x, e.registrations r = some g ∧
    g.phase = .cleaning n ∧ e.natives n = some x ∧
      (ok = true ∧ x.confirmed = true ∧ e' = (e.setNative n { x with stopped := true }).finish r g ∨
        ok = false ∧ e' = e.finish r g) := by
  obtain ⟨g, hg, h⟩ := step_some.mp h
  split at h
  · rename_i n hp
    obtain ⟨x, hx, h⟩ := step_some.mp h
    refine ⟨g, n, x, hg, hp, hx, ?_⟩
    split at h
    · rename_i hok
      split at h
      · rename_i hc
        exact .inl ⟨hok, hc, (Option.some.inj h).symm⟩
      · cases h
    · rename_i hok
      exact .inr ⟨by simpa using hok, (Option.some.inj h).symm⟩
  · cases h

theorem confirm_ok (h : e.step (.confirm n) = some e') : ∃ x, e.natives n = some x ∧
    e' = e.setNative n { x with confirmed := true } := by
  obtain ⟨x, hx, h⟩ := step_some.mp h
  exact ⟨x, hx, (Option.some.inj h).symm⟩

theorem settle_ok (h : e.step (.settle n ok) = some e') : ∃ x, e.natives n = some x ∧ x.wrapped = true ∧
    x.stopped = false ∧
      (ok = true ∧ x.confirmed = true ∧ e' = (e.setNative n { x with stopped := true }).setClient x.client
          { e.clients x.client with owned := (e.clients x.client).owned.erase n } ∨
        ok = false ∧ e' = e.setNative n { x with rejected := true }) := by
  obtain ⟨x, hx, h⟩ := step_some.mp h
  dsimp only at h
  split at h
  · rename_i hc
    refine ⟨x, hx, hc.1, hc.2.1, ?_⟩
    split at h
    · rename_i hok
      split at h
      · rename_i hconf
        exact .inl ⟨hok, hconf, (Option.some.inj h).symm⟩
      · cases h
    · rename_i hok
      exact .inr ⟨by simpa using hok, (Option.some.inj h).symm⟩
  · cases h

theorem Fresh.step (h : Fresh e) {l : EventLabel} (hs : e.step l = some e') : Fresh e' := by
  obtain ⟨h₁, h₂⟩ := h
  cases l with
  | enter k name =>
    obtain ⟨-, rfl⟩ := enter_ok hs
    constructor <;> grind [Function.update_apply]
  | start r =>
    obtain ⟨g, hg, -, -, rfl⟩ := start_ok hs
    constructor <;> (simp only [setClient, setRegistration]; grind [Function.update_apply])
  | subscribe r =>
    obtain ⟨g, hg, -, rfl⟩ := subscribe_ok hs
    constructor <;> (simp only [setRegistration]; grind [Function.update_apply])
  | create r =>
    obtain ⟨g, hg, -, rfl⟩ := create_ok hs
    constructor <;> (simp only [setClient, setNative]; grind [Function.update_apply])
  | complete r =>
    obtain ⟨g, n, x, hg, -, hx, rfl⟩ := complete_ok hs
    constructor <;> (simp only [setClient, setNative, setRegistration, finish]; grind [Function.update_apply])
  | fail r =>
    obtain ⟨g, hg, ⟨-, rfl⟩ | ⟨-, rfl⟩ | ⟨n, -, rfl⟩⟩ := fail_ok hs <;>
      constructor <;> (simp only [setClient, setRegistration, finish]; grind [Function.update_apply])
  | clean r ok =>
    obtain ⟨g, n, x, hg, -, hx, ⟨-, -, rfl⟩ | ⟨-, rfl⟩⟩ := clean_ok hs <;>
      constructor <;> (simp only [setClient, setNative, setRegistration, finish]; grind [Function.update_apply])
  | confirm n =>
    obtain ⟨x, hx, rfl⟩ := confirm_ok hs
    constructor <;> (simp only [setNative]; grind [Function.update_apply])
  | settle n ok =>
    obtain ⟨x, hx, -, -, ⟨-, -, rfl⟩ | ⟨-, rfl⟩⟩ := settle_ok hs <;>
      constructor <;> (simp only [setClient, setNative]; grind [Function.update_apply])

theorem names_of (hg : e.registrations r = some g) : e.names r = started g := by simp [names, hg]

theorem names_set (o : Option Registration) : (e.setRegistration r o).names = Function.update e.names r (o.bind started) :=
  bind_update ..

theorem names_unchanged {g' : Registration} (hg : e.registrations r = some g) (hs : started g' = started g) :
    (e.setRegistration r (some g')).names = e.names := by
  rw [names_set, Option.bind_some, hs, ← names_of hg, update_self]

theorem Starting.finish (h : Starting e) (hg : e.registrations r = some g) (hp : g.phase ≠ .entered) :
    Starting (e.finish r g) := by
  have hr : e.names r = some (g.client, g.name) := by simp [names_of hg, started, hp]
  refine h.remove hr ?_ ?_ (names_set none)
  · simp [NativeEvents.finish, setRegistration, setClient]
  · intro k' hk
    simp [NativeEvents.finish, setRegistration, setClient, Function.update_of_ne hk]

theorem starting_setClient (c : EventClient) (h : c.starting = (e.clients k).starting) (k' : ℕ) :
    ((e.setClient k c).clients k').starting = (e.clients k').starting := by
  by_cases hk : k' = k
  · subst hk
    simp [setClient, h]
  · simp [setClient, Function.update_of_ne hk]

theorem Starting.step (h : Starting e) (hf : Fresh e) {l : EventLabel} (hs : e.step l = some e') : Starting e' := by
  cases l with
  | enter k name =>
    obtain ⟨-, rfl⟩ := enter_ok hs
    refine h.same (fun _ => rfl) ?_
    have hnone : e.names e.begun = none := by simp [names, hf.registrations _ (Nat.le_refl _)]
    exact (names_set _).trans ((congrArg _ hnone.symm).trans (update_self ..))
  | start r =>
    obtain ⟨g, hg, hp, ha, rfl⟩ := start_ok hs
    refine h.add (by rw [names_of hg]; simp [started, hp]) ?_ ?_ ?_ (names_set _)
    · simp only [admits, Bool.and_eq_true, Bool.not_eq_true', List.contains_eq_mem, decide_eq_false_iff_not] at ha
      exact ha.1.2
    · simp [setRegistration, setClient]
    · intro k' hk
      simp [setRegistration, setClient, Function.update_of_ne hk]
  | subscribe r =>
    obtain ⟨g, hg, hp, rfl⟩ := subscribe_ok hs
    exact h.same (fun _ => rfl) (names_unchanged hg (by simp [started, hp]))
  | create r =>
    obtain ⟨g, hg, hp, rfl⟩ := create_ok hs
    exact h.same (starting_setClient _ rfl) (names_unchanged hg (by simp [started, hp]))
  | complete r =>
    obtain ⟨g, n, x, hg, hp, -, rfl⟩ := complete_ok hs
    refine Starting.finish (h.same ?_ rfl) hg (by simp [hp])
    exact starting_setClient _ rfl
  | fail r =>
    obtain ⟨g, hg, ⟨hp, rfl⟩ | ⟨hp, rfl⟩ | ⟨n, hp, rfl⟩⟩ := fail_ok hs
    · refine h.same (fun _ => rfl) ?_
      have hnone : e.names r = none := by rw [names_of hg]; simp [started, hp]
      exact (names_set _).trans ((congrArg _ hnone.symm).trans (update_self ..))
    · exact h.finish hg (by rcases hp with hp | hp <;> simp [hp])
    · exact h.same (fun _ => rfl) (names_unchanged hg (by simp [started, hp]))
  | clean r ok =>
    obtain ⟨g, n, x, hg, hp, -, ⟨-, -, rfl⟩ | ⟨-, rfl⟩⟩ := clean_ok hs
    · exact Starting.finish (h.same (fun _ => rfl) rfl) hg (by simp [hp])
    · exact h.finish hg (by simp [hp])
  | confirm n =>
    obtain ⟨x, -, rfl⟩ := confirm_ok hs
    exact h.same (fun _ => rfl) rfl
  | settle n ok =>
    obtain ⟨x, -, -, -, ⟨-, -, rfl⟩ | ⟨-, rfl⟩⟩ := settle_ok hs
    · exact h.same (starting_setClient _ rfl) rfl
    · exact h.same (fun _ => rfl) rfl

-- Pull points that are owned

/-- `owned` has the pull points that are not confirmed as stopped, once. -/
structure Listed (e : NativeEvents) : Prop where
  known : ∀ k, ∀ n ∈ (e.clients k).owned, e.natives n ≠ none
  mem : ∀ n x, e.natives n = some x → ∀ k, n ∈ (e.clients k).owned ↔ x.client = k ∧ x.stopped = false
  nodup : ∀ k, (e.clients k).owned.Nodup
  confirmed : ∀ n x, e.natives n = some x → x.stopped = true → x.confirmed = true

theorem Listed.same (h : Listed e) (hc : ∀ k, (e'.clients k).owned = (e.clients k).owned)
    (hn : e'.natives = e.natives) : Listed e' where
  known k n hmem := by
    rw [hn]
    exact h.known k n (hc k ▸ hmem)
  mem n x hx k := by
    rw [hc k]
    exact h.mem n x (hn ▸ hx) k
  nodup k := hc k ▸ h.nodup k
  confirmed n x hx := h.confirmed n x (hn ▸ hx)

theorem Listed.add (h : Listed e) (hnew : e.natives n = none) {x : Native} (hx : x.stopped = false)
    (hn : e'.natives = Function.update e.natives n (some x))
    (hk : (e'.clients x.client).owned = n :: (e.clients x.client).owned)
    (hc : ∀ k, k ≠ x.client → (e'.clients k).owned = (e.clients k).owned) : Listed e' := by
  have hout : ∀ k, n ∉ (e.clients k).owned := fun k hmem => h.known k n hmem hnew
  have hrow : ∀ m, e'.natives m = if m = n then some x else e.natives m := by simp [hn, Function.update_apply]
  obtain ⟨h₁, h₂, h₃, h₄⟩ := h
  constructor <;> grind

theorem Listed.set (h : Listed e) {x y : Native} (hx : e.natives n = some x) (hclient : y.client = x.client)
    (hstopped : y.stopped = x.stopped) (hconfirmed : x.confirmed = true → y.confirmed = true)
    (hn : e'.natives = Function.update e.natives n (some y))
    (hc : ∀ k m, m ∈ (e'.clients k).owned ↔ m ∈ (e.clients k).owned) (hnodup : ∀ k, (e'.clients k).owned.Nodup) :
    Listed e' := by
  have hrow : ∀ m, e'.natives m = if m = n then some y else e.natives m := by simp [hn, Function.update_apply]
  obtain ⟨h₁, h₂, h₃, h₄⟩ := h
  constructor <;> grind

theorem Listed.stop (h : Listed e) {x y : Native} (hx : e.natives n = some x) (hclient : y.client = x.client)
    (hstopped : y.stopped = true) (hconfirmed : y.confirmed = true)
    (hn : e'.natives = Function.update e.natives n (some y))
    (hk : (e'.clients x.client).owned = (e.clients x.client).owned.erase n)
    (hc : ∀ k, k ≠ x.client → (e'.clients k).owned = (e.clients k).owned) : Listed e' := by
  obtain ⟨h₁, h₂, h₃, h₄⟩ := h
  have hrow : ∀ m, e'.natives m = if m = n then some y else e.natives m := by simp [hn, Function.update_apply]
  have hmem : ∀ m, m ∈ (e'.clients x.client).owned ↔ m ≠ n ∧ m ∈ (e.clients x.client).owned := by
    simp [hk, (h₃ x.client).mem_erase_iff]
  constructor <;> grind [List.Nodup.erase]

/-- The client and the pull point of a registration that has one. -/
def holds (g : Registration) : Option (ℕ × ℕ) :=
  match g.phase with
  | .created n | .cleaning n => some (g.client, n)
  | _ => none

def held (e : NativeEvents) : ℕ → Option (ℕ × ℕ) := fun r => (e.registrations r).bind holds

def Bare (e : NativeEvents) (k n : ℕ) : Prop :=
  ∃ x, e.natives n = some x ∧ x.client = k ∧ x.wrapped = false ∧ x.stopped = false

structure Held (e : NativeEvents) : Prop where
  bare : ∀ k n, Keyed e.held (k, n) → e.Bare k n
  distinct : Distinct e.held

theorem held_of (hg : e.registrations r = some g) : e.held r = holds g := by simp [held, hg]

theorem held_set (o : Option Registration) : (e.setRegistration r o).held = Function.update e.held r (o.bind holds) :=
  bind_update ..

theorem held_unchanged {g' : Registration} (hg : e.registrations r = some g) (hs : holds g' = holds g) :
    (e.setRegistration r (some g')).held = e.held := by
  rw [held_set, Option.bind_some, hs, ← held_of hg, update_self]

theorem held_none {e : NativeEvents} (hr : e.held r = none) : (e.setRegistration r none).held = e.held := by
  rw [held_set, Option.bind_none, ← hr, update_self]

theorem Bare.same {m : ℕ} (h : Bare e k m) {y : Native} (hn : e'.natives = Function.update e.natives n (some y))
    (hy : m = n → y.client = k ∧ y.wrapped = false ∧ y.stopped = false) : Bare e' k m := by
  obtain ⟨x, hx, hbare⟩ := h
  by_cases hmn : m = n
  · exact ⟨y, by rw [hn, hmn, Function.update_self], hy hmn⟩
  · exact ⟨x, by rw [hn, Function.update_of_ne hmn, hx], hbare⟩

theorem Held.same (h : Held e) (ht : e'.held = e.held) (hb : ∀ k n, Bare e k n → Bare e' k n) : Held e' where
  bare k n hkeyed := hb k n (h.bare k n (ht ▸ hkeyed))
  distinct := ht ▸ h.distinct

theorem Held.drop (h : Held e) (hr : e.held r = some (k, n)) (ht : e'.held = Function.update e.held r none)
    (hb : ∀ k' m, m ≠ n → Bare e k' m → Bare e' k' m) : Held e' where
  bare k' m hkeyed := by
    rw [ht, keyed_erase h.distinct hr] at hkeyed
    obtain ⟨hne, hkeyed⟩ := hkeyed
    have hbare := h.bare k' m hkeyed
    refine hb k' m ?_ hbare
    rintro rfl
    obtain ⟨x, hx, rfl, -⟩ := hbare
    obtain ⟨x', hx', rfl, -⟩ := h.bare k m ⟨r, hr⟩
    obtain rfl := Option.some.inj (hx.symm.trans hx')
    exact hne rfl
  distinct := by
    rw [ht]
    exact h.distinct.erase

structure Owned (e : NativeEvents) : Prop extends Listed e, Held e

/-- No cleanup of a failed registration is confirmed. -/
def Registers : EventLabel → Prop
  | .clean _ true => False
  | _ => True

theorem owned_setClient (c : EventClient) (h : c.owned = (e.clients k).owned) (k' : ℕ) :
    ((e.setClient k c).clients k').owned = (e.clients k').owned := by
  by_cases hk : k' = k
  · subst hk
    simp [setClient, h]
  · simp [setClient, Function.update_of_ne hk]

theorem Listed.finish (h : Listed e) (g : Registration) : Listed (e.finish r g) :=
  h.same (owned_setClient (e := e) (k := g.client) _ rfl) rfl

theorem Listed.step (h : Listed e) (hheld : Held e) (hf : Fresh e) {l : EventLabel} (hok : Registers l)
    (hs : e.step l = some e') : Listed e' := by
  cases l with
  | enter k name =>
    obtain ⟨-, rfl⟩ := enter_ok hs
    exact h.same (fun _ => rfl) rfl
  | start r =>
    obtain ⟨g, hg, -, -, rfl⟩ := start_ok hs
    exact h.same (owned_setClient (e := e) (k := g.client) _ rfl) rfl
  | subscribe r =>
    obtain ⟨g, hg, -, rfl⟩ := subscribe_ok hs
    exact h.same (fun _ => rfl) rfl
  | create r =>
    obtain ⟨g, hg, -, rfl⟩ := create_ok hs
    refine h.add (hf.natives _ (Nat.le_refl _)) rfl rfl ?_ fun k hk => ?_
    · simp [setClient, setNative]
    · simp [setClient, setNative, Function.update_of_ne hk]
  | complete r =>
    obtain ⟨g, n, x, hg, hp, hx, rfl⟩ := complete_ok hs
    obtain ⟨x', hx', hclient, -, hstopped⟩ := hheld.bare g.client n ⟨r, by simp [held_of hg, holds, hp]⟩
    obtain rfl := Option.some.inj (hx.symm.trans hx')
    have hn : n ∈ (e.clients g.client).owned := (h.mem n x hx _).mpr ⟨hclient, hstopped⟩
    refine Listed.finish (h.set hx (y := { x with wrapped := true }) rfl rfl id rfl (fun k m => ?_) fun k => ?_) g
    · by_cases hk : k = g.client
      · subst hk
        by_cases hm : m = n <;> simp [setClient, setNative, (h.nodup g.client).mem_erase_iff, hm, hn]
      · simp [setClient, setNative, Function.update_of_ne hk]
    · by_cases hk : k = g.client
      · subst hk
        simpa [setClient, setNative, (h.nodup g.client).mem_erase_iff] using (h.nodup g.client).erase n
      · simpa [setClient, setNative, Function.update_of_ne hk] using h.nodup k
  | fail r =>
    obtain ⟨g, hg, ⟨-, rfl⟩ | ⟨-, rfl⟩ | ⟨n, -, rfl⟩⟩ := fail_ok hs
    · exact h.same (fun _ => rfl) rfl
    · exact h.finish g
    · exact h.same (fun _ => rfl) rfl
  | clean r ok =>
    obtain ⟨g, n, x, hg, -, -, ⟨rfl, -⟩ | ⟨-, rfl⟩⟩ := clean_ok hs
    · exact hok.elim
    · exact h.finish g
  | confirm n =>
    obtain ⟨x, hx, rfl⟩ := confirm_ok hs
    exact h.set hx (y := { x with confirmed := true }) rfl rfl (fun _ => rfl) rfl (fun _ _ => Iff.rfl) h.nodup
  | settle n ok =>
    obtain ⟨x, hx, -, -, ⟨-, hconfirmed, rfl⟩ | ⟨-, rfl⟩⟩ := settle_ok hs
    · refine h.stop hx (y := { x with stopped := true }) rfl rfl hconfirmed rfl ?_ fun k hk => ?_
      · simp [setClient, setNative]
      · simp [setClient, setNative, Function.update_of_ne hk]
    · exact h.set hx (y := { x with rejected := true }) rfl rfl id rfl (fun _ _ => Iff.rfl) h.nodup

theorem Held.step (h : Held e) (hf : Fresh e) {l : EventLabel} (hok : Registers l) (hs : e.step l = some e') :
    Held e' := by
  cases l with
  | enter k name =>
    obtain ⟨-, rfl⟩ := enter_ok hs
    have hnone : e.held e.begun = none := by simp [held, hf.registrations _ (Nat.le_refl _)]
    exact h.same ((held_set _).trans ((congrArg _ hnone.symm).trans (update_self ..))) fun _ _ => id
  | start r =>
    obtain ⟨g, hg, hp, -, rfl⟩ := start_ok hs
    exact h.same (held_unchanged hg (by simp [holds, hp])) fun _ _ => id
  | subscribe r =>
    obtain ⟨g, hg, hp, rfl⟩ := subscribe_ok hs
    exact h.same (held_unchanged hg (by simp [holds, hp])) fun _ _ => id
  | create r =>
    obtain ⟨g, hg, hp, rfl⟩ := create_ok hs
    have hnew : e.natives e.created = none := hf.natives _ (Nat.le_refl _)
    have hout : ∀ k, ¬ Bare e k e.created := by
      rintro k ⟨x, hx, -⟩
      exact nomatch hnew.symm.trans hx
    have hr : e.held r = none := by simp [held_of hg, holds, hp]
    constructor
    · intro k m hkeyed
      replace hkeyed := (congrArg (Keyed · (k, m)) (held_set (e := e) (r := r) _)).mp hkeyed
      rcases (keyed_insert hr).mp hkeyed with heq | hkeyed
      · cases heq
        exact ⟨_, Function.update_self .., rfl, rfl, rfl⟩
      · refine (h.bare k m hkeyed).same rfl ?_
        rintro rfl
        exact absurd (h.bare k _ hkeyed) (hout k)
    · exact (congrArg Distinct (held_set (e := e) (r := r) _)).mpr
        (h.distinct.insert fun hkeyed => hout _ (h.bare _ _ hkeyed))
  | complete r =>
    obtain ⟨g, n, x, hg, hp, hx, rfl⟩ := complete_ok hs
    refine h.drop (r := r) (k := g.client) (n := n) (by simp [held_of hg, holds, hp]) (held_set none) ?_
    exact fun k m hm hbare => hbare.same rfl fun heq => absurd heq hm
  | fail r =>
    obtain ⟨g, hg, ⟨hp, rfl⟩ | ⟨hp, rfl⟩ | ⟨n, hp, rfl⟩⟩ := fail_ok hs
    · exact h.same (held_none (by simp [held_of hg, holds, hp])) fun _ _ => id
    · have hr : e.held r = none := by rcases hp with hp | hp <;> simp [held_of hg, holds, hp]
      exact h.same (held_none hr) fun _ _ => id
    · exact h.same (held_unchanged hg (by simp [holds, hp])) fun _ _ => id
  | clean r ok =>
    obtain ⟨g, n, x, hg, hp, -, ⟨rfl, -⟩ | ⟨-, rfl⟩⟩ := clean_ok hs
    · exact hok.elim
    · exact h.drop (r := r) (k := g.client) (n := n) (by simp [held_of hg, holds, hp]) (held_set none) fun _ _ _ => id
  | confirm n =>
    obtain ⟨x, hx, rfl⟩ := confirm_ok hs
    refine h.same rfl fun k m hbare => hbare.same rfl ?_
    rintro rfl
    obtain ⟨x', hx', hkeep⟩ := hbare
    obtain rfl := Option.some.inj (hx.symm.trans hx')
    exact hkeep
  | settle n ok =>
    obtain ⟨x, hx, hw, -, h'⟩ := settle_ok hs
    have hwrapped : ∀ k m, Bare e k m → m ≠ n := by
      rintro k m ⟨x', hx', -, hbare, -⟩ rfl
      obtain rfl := Option.some.inj (hx.symm.trans hx')
      exact nomatch hw.symm.trans hbare
    rcases h' with ⟨-, -, rfl⟩ | ⟨-, rfl⟩ <;>
      exact h.same rfl fun k m hbare => hbare.same rfl fun heq => absurd heq (hwrapped k m hbare)

theorem Owned.step (h : Owned e) (hf : Fresh e) {l : EventLabel} (hok : Registers l) (hs : e.step l = some e') :
    Owned e' :=
  ⟨h.toListed.step h.toHeld hf hok hs, h.toHeld.step hf hok hs⟩

/-- Every registration and pull point is of a service. -/
structure Served (e : NativeEvents) : Prop where
  registrations : ∀ r g, e.registrations r = some g → g.client < e.services
  natives : ∀ n x, e.natives n = some x → x.client < e.services

end NativeEvents

end WotAv.Runtime
