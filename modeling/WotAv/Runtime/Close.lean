import WotAv.Runtime.Multiplexer
import WotAv.Runtime.NativeEvents

/-!
# The runtime and its close

`OnvifRuntime`: what is tracked, and the stages of `shutdown`, each of which
waits for all that it has begun. Every order of the steps is a run.
-/

namespace WotAv.Runtime

structure Awaited where
  calls : List ℕ
  registrations : List ℕ
  subscribing : List ℕ
  unlinking : List ℕ
  managed : List ℕ
  deriving DecidableEq, Repr

inductive Stage
  | open
  | draining (awaited : Awaited)
  | events (entries : List ℕ)
  | factories (entries : List ℕ)
  | services
  | transport
  | done
  deriving DecidableEq, Repr

/-- `calls`: the other tracked operations in progress; `true` is a `consume`
that has not added its service yet. `failed`: a promise that `shutdown` waited
for was rejected. -/
structure OnvifRuntime where
  accepting : Bool
  calls : ℕ → Option Bool
  begun : ℕ
  events : NativeEvents
  http : Multiplexer
  managed : ManagedSubscriptions
  stage : Stage
  failed : Bool
  requests : ℕ
  transportClosing : Bool

def OnvifRuntime.initial : OnvifRuntime where
  accepting := true
  calls _ := none
  begun := 0
  events := .empty
  http := .empty
  managed := .empty
  stage := .open
  failed := false
  requests := 0
  transportClosing := false

inductive Label
  /-- a tracked operation begins -/
  | call (consume : Bool)
  /-- `consume` adds its service -/
  | service (call : ℕ)
  | ended (call : ℕ) (ok : Bool)
  | event (l : EventLabel)
  | http (l : HttpLabel)
  | managed (l : ManagedLabel)
  /-- a transport request starts -/
  | request
  | close
  /-- the first `allSettled` of `shutdown` settles -/
  | drained
  /-- `stop` of an entry of `owned` settles -/
  | entryStopped (native : ℕ) (ok : Bool)
  /-- `events.close()` of every service has settled -/
  | eventsClosed
  /-- `unlinkResource` of an entry of `subscriptions` settles -/
  | entryUnlinked (subscription : ℕ) (ok : Bool)
  /-- `close()` of every factory has settled -/
  | factoriesClosed (ok : Bool)
  /-- `shutdown()` of every servient has settled -/
  | servicesClosed (ok : Bool)
  /-- `close()` of the transport has settled -/
  | transportClosed (ok : Bool)
  deriving DecidableEq, Repr

namespace OnvifRuntime

/-- The steps that begin with `track`. -/
def tracks : Label → Bool
  | .call _ | .event (.enter ..) | .event (.subscribe _) | .http (.subscribe ..) | .http (.unlink ..)
  | .managed .manage => true
  | _ => false

/-- Whether a step rejects a promise that `shutdown` waits for. -/
def rejects (s : OnvifRuntime) (l : Label) : Bool :=
  match s.stage with
  | .draining awaited => match l with
    | .ended i false => awaited.calls.contains i
    | .event (.clean r _) => awaited.registrations.contains r
    | .event (.fail r) => awaited.registrations.contains r && (s.events.registrations r).any fun g =>
        g.phase = .entered || g.phase = .starting || g.phase = .subscribing
    | .http (.subscribed i false) => awaited.subscribing.contains i
    | .http (.unlinked i false) => awaited.unlinking.contains i
    | _ => false
  | _ => false

def rows {α : Type} (table : ℕ → Option α) (count : ℕ) : List ℕ := (List.range count).filter fun i => (table i).isSome

/-- The first snapshot of `shutdown`: `pending`, and `stop` of what is in
`subscriptions`. -/
def awaited (s : OnvifRuntime) : Awaited where
  calls := rows s.calls s.begun
  registrations := rows s.events.registrations s.events.begun
  subscribing := rows s.http.subscribing s.http.subscribes
  unlinking := rows s.http.unlinking s.http.unlinks
  managed := s.managed.subscriptions

def settled (s : OnvifRuntime) (w : Awaited) : Bool :=
  w.calls.all (fun i => (s.calls i).isNone) && w.registrations.all (fun r => (s.events.registrations r).isNone) &&
    w.subscribing.all (fun i => (s.http.subscribing i).isNone) && w.unlinking.all (fun i => (s.http.unlinking i).isNone) &&
    w.managed.all fun m => s.managed.state m ≠ some .closing

/-- The entries of `owned` of every service. -/
def ownedEntries (s : OnvifRuntime) : List ℕ := (List.range s.events.services).flatMap fun k => (s.events.clients k).owned

/-- The effects of a step, but for what it says of a closing runtime. -/
def act (s : OnvifRuntime) : Label → Option OnvifRuntime
  | .call consume => some { s with calls := Function.update s.calls s.begun (some consume), begun := s.begun + 1 }
  | .service i =>
    if s.calls i = some true then
      some { s with calls := Function.update s.calls i (some false)
                    events := { s.events with services := s.events.services + 1 } }
    else none
  | .ended i _ => if (s.calls i).isSome then some { s with calls := Function.update s.calls i none } else none
  | .event l => (s.events.step l).map fun events => { s with events }
  | .http l => (s.http.step l).map fun http => { s with http }
  | .managed l => (s.managed.step l).map fun managed => { s with managed }
  | .request => if s.transportClosing then none else some { s with requests := s.requests + 1 }
  | .close =>
    if s.stage = .open then
      some { s with accepting := false, managed := s.managed.stopAll, stage := .draining s.awaited }
    else none
  | .drained => match s.stage with
    | .draining w =>
      if s.settled w then
        some { s with
          stage := .events s.ownedEntries
          events := { s.events with clients := fun k => { s.events.clients k with closing := true } }
          failed := s.failed || w.managed.any fun m => s.managed.state m = some .uncertain }
      else none
    | _ => none
  | .entryStopped n ok => match s.stage with
    | .events l =>
      -- `stop` resolves only after the remote cleanup is confirmed.
      if n ∈ l ∧ (ok = true → (s.events.natives n).any (·.confirmed)) then
        some { s with stage := .events (l.erase n), failed := s.failed || !ok }
      else none
    | _ => none
  | .eventsClosed => if s.stage = .events [] then some { s with stage := .factories s.http.entries } else none
  | .entryUnlinked o ok => match s.stage with
    | .factories l =>
      if o ∈ l then
        some { s with stage := .factories (l.erase o), http := if ok then s.http.release (some o) else s.http
                      failed := s.failed || !ok }
      else none
    | _ => none
  | .factoriesClosed ok =>
    if s.stage = .factories [] then
      some { s with stage := .services, http := { s.http with subscriptions := fun _ => none }, failed := s.failed || !ok }
    else none
  | .servicesClosed ok =>
    if s.stage = .services then
      some { s with stage := .transport, transportClosing := true, failed := s.failed || !ok }
    else none
  | .transportClosed ok => if s.stage = .transport then some { s with stage := .done, failed := s.failed || !ok } else none

def step (s : OnvifRuntime) (l : Label) : Option OnvifRuntime :=
  if tracks l && !s.accepting then none
  else (s.act l).map fun s' => { s' with failed := s'.failed || s.rejects l }

/-- `close()` has resolved. -/
def Closed (s : OnvifRuntime) : Prop := s.stage = .done ∧ s.failed = false

end OnvifRuntime

def system : Lib.System OnvifRuntime Label := .ofPartial (· = .initial) OnvifRuntime.step

end WotAv.Runtime
