import Mathlib.Algebra.GroupWithZero.Nat
import Mathlib.Logic.Function.Basic
import WotAv.Binding.Errors

/-!
# The bounded media queue (`src/media/queue.ts`)

Slots are numbered in the order of their creation and publish calls in the
order of the calls: a call stands for its `references` variable, and an
entry's `release` closure is the call it came from and the callback `ρ` that
call was given. Callbacks, promise results and what becomes of each unit are
appended to `log`.

Callbacks run inside the operation and do not call back into the queue, as
those of the session do not. A loop over the subscriber set only ever deletes
the slot it is at, so it runs over the list the set was.
-/

namespace WotAv.Media

open WotAv.Binding

inductive MediaQueueMode
  | live
  | recorded
  deriving DecidableEq, Repr

structure MediaQueueOptions where
  maxBytes : Nat
  maxUnits : Nat
  maxSubscribers : Nat
  mode : MediaQueueMode
  deriving DecidableEq, Repr

structure Entry (α ρ : Type) where
  value : α
  bytes : Nat
  call : Nat
  release : ρ

structure Subscriber (α ρ : Type) where
  entries : List (Entry α ρ) := []
  bytes : Nat := 0
  claimed : Bool := false
  ended : Bool := false
  pending : Bool := false

inductive Route
  | yielded
  | evicted
  | discarded
  deriving DecidableEq, Repr

inductive QueueEvent (α ρ : Type)
  | created (slot : Nat)
  | detached (slot : Nat)
  /-- `publish` passed its byte check; `isOpen` when the queue had not ended. -/
  | published (call : Nat) (value : α) (isOpen : Bool)
  | handed (slot call : Nat) (value : α)
  | oversize (slot call : Nat)
  | queued (slot call : Nat)
  | left (slot : Nat) (route : Route) (call : Nat) (value : α)
  /-- `publish` threw before it had served these slots. -/
  | threw (unserved : List Nat)
  | gap (units : Nat)
  | released (call : Nat) (release : ρ)
  | done (slot : Nat)
  | failed (slot : Nat) (error : OnvifError)
  | busy (slot : Nat)

structure BoundedMediaQueue (α ρ : Type) where
  options : MediaQueueOptions
  slots : Nat → Subscriber α ρ := fun _ => {}
  created : Nat := 0
  subscribers : List Nat := []
  initial : Nat := 0
  ended : Bool := false
  draining : Bool := false
  failure : Option OnvifError := none
  peak : Nat := 0
  published : Nat := 0
  references : Nat → Int := fun _ => 0
  log : List (QueueEvent α ρ) := []

namespace BoundedMediaQueue

variable {α ρ : Type}

def emit (event : QueueEvent α ρ) (q : BoundedMediaQueue α ρ) : BoundedMediaQueue α ρ :=
  { q with log := q.log ++ [event] }

def update (slot : Nat) (f : Subscriber α ρ → Subscriber α ρ) (q : BoundedMediaQueue α ρ) :
    BoundedMediaQueue α ρ :=
  { q with slots := Function.update q.slots slot (f (q.slots slot)) }

def queuedBytes (q : BoundedMediaQueue α ρ) : Nat :=
  (q.subscribers.map fun slot => (q.slots slot).bytes).sum

def queuedUnits (q : BoundedMediaQueue α ρ) : Nat :=
  (q.subscribers.map fun slot => (q.slots slot).entries.length).sum

def add (q : BoundedMediaQueue α ρ) : Except OnvifError (BoundedMediaQueue α ρ × Nat) :=
  if q.subscribers.length ≥ q.options.maxSubscribers then
    .error ⟨.invalidValue, "Media subscriber capacity reached", .notSent⟩
  else
    let slot := q.created
    let closed := q.ended || q.draining
    let q := { q with created := slot + 1, slots := Function.update q.slots slot { ended := closed } }
    .ok (if closed then q else { q with subscribers := q.subscribers ++ [slot] }.emit (.created slot), slot)

def make (maxBytes maxUnits maxSubscribers : Number) (mode : MediaQueueMode) :
    Except OnvifError (BoundedMediaQueue α ρ) := do
  let maxBytes ← positiveInteger maxBytes "queue bytes" (128 * 1024 * 1024)
  let maxUnits ← positiveInteger maxUnits "queue units" 256
  let maxSubscribers ← positiveInteger maxSubscribers "queue subscribers" 16
  let (q, slot) ← add { options := { maxBytes, maxUnits, maxSubscribers, mode } }
  return { q with initial := slot }

def removeEntry (slot : Nat) (q : BoundedMediaQueue α ρ) :
    BoundedMediaQueue α ρ × Option (Entry α ρ) :=
  match (q.slots slot).entries with
  | [] => (q, none)
  | entry :: entries =>
    (q.update slot fun s => { s with entries, bytes := s.bytes - entry.bytes }, some entry)

/-- `relinquish`: `if (--references === 0) release()`. -/
def relinquish (call : Nat) (release : ρ) (q : BoundedMediaQueue α ρ) : BoundedMediaQueue α ρ :=
  let references := q.references call - 1
  let q := { q with references := Function.update q.references call references }
  if references = 0 then q.emit (.released call release) else q

/-- `removeEntry(slot)` and the `release()` of the entry it returns. -/
def removeAndRelease (slot : Nat) (route : Route) (q : BoundedMediaQueue α ρ) :
    BoundedMediaQueue α ρ × Option (Entry α ρ) :=
  match q.removeEntry slot with
  | (q, none) => (q, none)
  | (q, some entry) =>
    ((q.emit (.left slot route entry.call entry.value)).relinquish entry.call entry.release, some entry)

/-- The `while` loop of `publish`; `entries` is what the slot holds, so that
the loop is over when there is nothing left to remove. -/
def makeRoom (slot bytes : Nat) : List (Entry α ρ) → Nat → BoundedMediaQueue α ρ →
    BoundedMediaQueue α ρ × Except OnvifError Nat
  | entries, dropped, q =>
    if entries.length ≥ q.options.maxUnits ∨ (q.slots slot).bytes + bytes > q.options.maxBytes then
      if q.options.mode = .recorded then
        (q, .error ⟨.invalidValue, "Recorded media exceeded its outstanding consumer credits", .notSent⟩)
      else match entries with
        | [] => (q, .error ⟨.invalidValue, "Media queue accounting mismatch", .notSent⟩)
        | _ :: entries => makeRoom slot bytes entries (dropped + 1) (q.removeAndRelease slot .evicted).1
    else (q, .ok dropped)

/-- The rest of a turn of `publish`'s loop, when there is room. -/
def push (slot : Nat) (entry : Entry α ρ) (q : BoundedMediaQueue α ρ) : BoundedMediaQueue α ρ :=
  let bytes := (q.slots slot).bytes + entry.bytes
  let q := q.update slot fun s => { s with entries := s.entries ++ [entry], bytes }
  { q with
    references := Function.update q.references entry.call (q.references entry.call + 1)
    peak := max q.peak bytes }.emit (.queued slot entry.call)

def hand (slot : Nat) (entry : Entry α ρ) (q : BoundedMediaQueue α ρ) : BoundedMediaQueue α ρ :=
  (q.update slot fun s => { s with pending := false }).emit (.handed slot entry.call entry.value)

/-- The `for` loop of `publish` over `slots`. -/
def serve (entry : Entry α ρ) : List Nat → BoundedMediaQueue α ρ →
    BoundedMediaQueue α ρ × Option OnvifError
  | [], q => (q, none)
  | slot :: slots, q =>
    if (q.slots slot).pending then serve entry slots (q.hand slot entry)
    else if entry.bytes > q.options.maxBytes then
      if q.options.mode = .recorded then
        (q.emit (.threw (slot :: slots)),
          some ⟨.invalidValue, "Recorded media unit exceeds the consumer queue bound", .notSent⟩)
      else serve entry slots ((q.emit (.oversize slot entry.call)).emit (.gap 1))
    else match q.makeRoom slot entry.bytes (q.slots slot).entries 0 with
      | (q, .error e) => (q.emit (.threw (slot :: slots)), some e)
      | (q, .ok dropped) =>
        serve entry slots ((if dropped ≠ 0 then q.emit (.gap dropped) else q).push slot entry)

/-- What `publish` does before its loop. -/
def begin_ (value : α) (q : BoundedMediaQueue α ρ) : BoundedMediaQueue α ρ :=
  { q with
    published := q.published + 1
    references := Function.update q.references q.published 1 }.emit
    (.published q.published value !(q.ended || q.draining))

def publish (value : α) (bytes : Number) (release : ρ) (q : BoundedMediaQueue α ρ) :
    BoundedMediaQueue α ρ × Option OnvifError :=
  match positiveInteger bytes "media unit bytes" (128 * 1024 * 1024) with
  | .error e => (q, some e)
  | .ok bytes =>
    let entry := { value, bytes, call := q.published, release }
    let q := q.begin_ value
    let (q, thrown) := if q.ended || q.draining then (q, none) else serve entry q.subscribers q
    (q.relinquish entry.call release, thrown)

/-- The `while` loop of `discard` and `detach`: one turn for each entry of the slot. -/
def discardSlot (slot : Nat) (q : BoundedMediaQueue α ρ) : BoundedMediaQueue α ρ :=
  (q.slots slot).entries.foldl (fun q _ => (q.removeAndRelease slot .discarded).1) q

def discard (q : BoundedMediaQueue α ρ) : BoundedMediaQueue α ρ × Nat :=
  (q.subscribers.foldl (fun q slot => q.discardSlot slot) q, q.queuedUnits)

def terminal (slot : Nat) (q : BoundedMediaQueue α ρ) : QueueEvent α ρ :=
  match q.failure with
  | some e => .failed slot e
  | none => .done slot

def resolvePending (slot : Nat) (q : BoundedMediaQueue α ρ) : BoundedMediaQueue α ρ :=
  if (q.slots slot).pending then
    (q.update slot fun s => { s with pending := false }).emit (q.terminal slot)
  else q

def unregister (slot : Nat) (q : BoundedMediaQueue α ρ) : BoundedMediaQueue α ρ :=
  if slot ∈ q.subscribers then
    { q with subscribers := q.subscribers.erase slot }.emit (.detached slot)
  else q

def detach (slot : Nat) (q : BoundedMediaQueue α ρ) : BoundedMediaQueue α ρ :=
  (((q.update slot fun s => { s with ended := true }).discardSlot slot).resolvePending slot).unregister slot

def end_ (q : BoundedMediaQueue α ρ) : BoundedMediaQueue α ρ :=
  if q.ended || q.draining then q
  else q.subscribers.foldl
    (fun q slot => if (q.slots slot).entries.isEmpty then q.detach slot else q) { q with draining := true }

def detachAll (q : BoundedMediaQueue α ρ) : BoundedMediaQueue α ρ :=
  q.subscribers.foldl (fun q slot => q.detach slot) q

def resume (q : BoundedMediaQueue α ρ) : BoundedMediaQueue α ρ × Option OnvifError :=
  if q.ended then (q, some ⟨.runtimeClosed, "Media queue is closed", .notSent⟩)
  else if !q.draining then (q, none)
  else
    let q := { q.detachAll with draining := false }
    match q.add with
    | .error e => (q, some e)
    | .ok (q, slot) => ({ q with initial := slot }, none)

def finish (error : Option OnvifError) (q : BoundedMediaQueue α ρ) : BoundedMediaQueue α ρ :=
  if q.ended then q
  else { ({ q with ended := true, failure := error }.discard.1.detachAll) with subscribers := [] }

def asyncIterator (q : BoundedMediaQueue α ρ) : BoundedMediaQueue α ρ × Except OnvifError Nat :=
  match if (q.slots q.initial).claimed then q.add else .ok (q, q.initial) with
  | .error e => (q, .error e)
  | .ok (q, slot) => (q.update slot fun s => { s with claimed := true }, .ok slot)

def next (slot : Nat) (q : BoundedMediaQueue α ρ) : BoundedMediaQueue α ρ :=
  if (q.slots slot).ended || q.ended then q.emit (q.terminal slot)
  else match q.removeAndRelease slot .yielded with
    | (q, some _) => q
    | (q, none) =>
      if q.draining then (q.detach slot).emit (.done slot)
      else if (q.slots slot).pending then q.emit (.busy slot)
      else q.update slot fun s => { s with pending := true }

/-- An operation of the public interface; `next`, `return` and `throw` are
those of the iterator that claimed the slot. -/
inductive Op (α ρ : Type)
  | publish (value : α) (bytes : Number) (release : ρ)
  | discard
  | end_
  | resume
  | finish (error : Option OnvifError)
  | asyncIterator
  | next (slot : Nat)
  | return_ (slot : Nat)
  | throw_ (slot : Nat)

def apply (q : BoundedMediaQueue α ρ) : Op α ρ → BoundedMediaQueue α ρ
  | .publish value bytes release => (q.publish value bytes release).1
  | .discard => q.discard.1
  | .end_ => q.end_
  | .resume => q.resume.1
  | .finish error => q.finish error
  | .asyncIterator => q.asyncIterator.1
  | .next slot => if (q.slots slot).claimed then q.next slot else q
  | .return_ slot => if (q.slots slot).claimed then q.detach slot else q
  | .throw_ slot => if (q.slots slot).claimed then q.detach slot else q

end BoundedMediaQueue

end WotAv.Media
