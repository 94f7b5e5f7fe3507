import WotAv.Media.AccountsLaws
import WotAv.Media.QueueCredit

/-!
# The credit of a session

A unit that the session has taken from the data pipe is outstanding until its
credit is written. While the session runs it is in one of three places: staged,
held by the queue of its kind, or released and counted in the credit to
return. The bounds that `data` checks are those of the staging list and of the
queues, so that no unit is ever dropped or refused for want of room.
-/

namespace WotAv.Media.NativeSession

open WotAv.Lib WotAv.Lib.Throwing WotAv.Binding

structure Books where
  packets : BoundedMediaQueue NativeMediaUnit Nat
  metadata : BoundedMediaQueue MediaMetadataUnit Nat
  decoded : BoundedMediaQueue MediaDecodedFrame Nat
  staged : List StagedUnit
  stagedBytes : Nat
  creditBytes : Nat
  creditUnits : Nat
  outstandingBytes : Nat
  outstandingUnits : Nat

def books (s : NativeSession) : Books where
  packets := s.packetQueue
  metadata := s.metadataQueue
  decoded := s.decodedQueue
  staged := s.staged
  stagedBytes := s.stagedBytes
  creditBytes := s.creditBytes
  creditUnits := s.creditUnits
  outstandingBytes := s.outstandingBytes
  outstandingUnits := s.outstandingUnits

/-- The distinct units that the staging list or a slot of a queue holds. Each
unit is in one of the four places: a queue takes units of its own kind. -/
def heldUnits (s : NativeSession) : Nat :=
  s.staged.length + (s.packetQueue.heldUnits.card + s.metadataQueue.heldUnits.card + s.decodedQueue.heldUnits.card)

def heldBytes (s : NativeSession) : Nat :=
  (s.staged.map (·.bytes)).sum + (s.packetQueue.heldBytes + s.metadataQueue.heldBytes + s.decodedQueue.heldBytes)

def queueOptions (c : SessionContext) : MediaQueueOptions :=
  ⟨c.limits.queueBytes, c.limits.queueUnits, c.limits.maxSubscribers, c.mode⟩

structure Sound (c : SessionContext) (b : Books) : Prop where
  bound : c.limits.queueBytes ≤ 128 * 1024 * 1024
  packets : b.packets.InOrder (queueOptions c)
  metadata : b.metadata.InOrder (queueOptions c)
  decoded : b.decoded.InOrder (queueOptions c)
  staged : ∀ item ∈ b.staged, 0 < item.bytes
  stagedBytes : b.stagedBytes = (b.staged.map (·.bytes)).sum

/-- Every outstanding unit is accounted for; `loose` are the bytes of those
that a handler has in hand. -/
structure Level (c : SessionContext) (loose : List Nat) (b : Books) : Prop where
  units : b.outstandingUnits = loose.length + b.staged.length +
    (b.packets.heldUnits.card + b.metadata.heldUnits.card + b.decoded.heldUnits.card) + b.creditUnits
  bytes : b.outstandingBytes = loose.sum + (b.staged.map (·.bytes)).sum +
    (b.packets.heldBytes + b.metadata.heldBytes + b.decoded.heldBytes) + b.creditBytes
  maxUnits : b.outstandingUnits ≤ c.limits.queueUnits
  maxBytes : b.outstandingBytes ≤ c.limits.queueBytes

structure Balanced (c : SessionContext) (loose : List Nat) (s : NativeSession) : Prop where
  sound : Sound c s.books
  level : s.stopped = false → Level c loose s.books

variable {c : SessionContext} {s s' : NativeSession} {loose taken : List Nat}

def Untouched (s s' : NativeSession) : Prop := s'.books = s.books ∧ s'.stopped = s.stopped

theorem Untouched.refl (s : NativeSession) : Untouched s s := ⟨rfl, rfl⟩

instance : IsTrans NativeSession Untouched := ⟨fun _ _ _ h₁ h₂ => ⟨h₂.1.trans h₁.1, h₂.2.trans h₁.2⟩⟩

theorem Balanced.untouched (h : Balanced c loose s) (hu : Untouched s s') : Balanced c loose s' :=
  ⟨hu.1 ▸ h.sound, fun hr => hu.1 ▸ h.level (hu.2 ▸ hr)⟩

theorem Balanced.halt (h : Sound c s.books) (hs : s.stopped) : Balanced c loose s :=
  ⟨h, fun hr => absurd (hs.symm.trans hr) nofun⟩

-- Credits and queues

theorem Sound.credit (h : Sound c s.books) (bytes : Nat) : Sound c (s.credit bytes).books := by
  unfold NativeSession.credit
  split
  · exact h
  · exact ⟨h.bound, h.packets, h.metadata, h.decoded, h.staged, h.stagedBytes⟩

theorem Balanced.credit (h : Balanced c (bytes :: loose) s) : Balanced c loose (s.credit bytes) := by
  refine ⟨h.sound.credit bytes, fun hr => ?_⟩
  cases hs : s.stopped with
  | true => simp [NativeSession.credit, hs] at hr
  | false =>
    obtain ⟨hu, hb, hmu, hmb⟩ := h.level hs
    have hcredit : s.credit bytes = { s with creditBytes := s.creditBytes + bytes, creditUnits := s.creditUnits + 1 } := by
      simp [NativeSession.credit, hs]
    rw [hcredit]
    refine ⟨?_, ?_, hmu, hmb⟩
    · simp only [books, List.length_cons] at hu ⊢
      omega
    · simp only [books, List.sum_cons] at hb ⊢
      omega

theorem Balanced.credits (bytes : List Nat) : ∀ {s : NativeSession}, Balanced c (bytes ++ loose) s →
    Balanced c loose (s.credits bytes) := by
  induction bytes with
  | nil => intro s h; exact h
  | cons b bytes ih => intro s h; exact ih h.credit

theorem Level.settle {b b' : Books} {released : List Nat} (h : Level c (taken ++ loose) b)
    (hrest : b' = { b with packets := b'.packets, metadata := b'.metadata, decoded := b'.decoded })
    (hunits : b'.packets.heldUnits.card + b'.metadata.heldUnits.card + b'.decoded.heldUnits.card + released.length =
      b.packets.heldUnits.card + b.metadata.heldUnits.card + b.decoded.heldUnits.card + taken.length)
    (hbytes : b'.packets.heldBytes + b'.metadata.heldBytes + b'.decoded.heldBytes + released.sum =
      b.packets.heldBytes + b.metadata.heldBytes + b.decoded.heldBytes + taken.sum) : Level c (released ++ loose) b' := by
  obtain ⟨hu, hb, hmu, hmb⟩ := h
  rw [hrest]
  simp only [List.length_append] at hu
  simp only [List.sum_append] at hb
  refine ⟨?_, ?_, hmu, hmb⟩
  · simp only [List.length_append]
    omega
  · simp only [List.sum_append]
    omega

theorem Balanced.setPackets {q : BoundedMediaQueue NativeMediaUnit Nat} (taken : List Nat)
    (h : Balanced c (taken ++ loose) s) (hq : q.InOrder (queueOptions c)) (hs : s.packetQueue.Settles q taken) :
    Balanced c loose (s.setPackets q) := by
  refine .credits _ ⟨⟨h.sound.bound, hq, h.sound.metadata, h.sound.decoded, h.sound.staged, h.sound.stagedBytes⟩,
    fun hr => (h.level hr).settle rfl ?_ ?_⟩
  · have := hs.units
    simp only [books]
    omega
  · have := hs.bytes
    simp only [books]
    omega

theorem Balanced.setMetadata {q : BoundedMediaQueue MediaMetadataUnit Nat} (taken : List Nat)
    (h : Balanced c (taken ++ loose) s) (hq : q.InOrder (queueOptions c)) (hs : s.metadataQueue.Settles q taken) :
    Balanced c loose (s.setMetadata q) := by
  refine .credits _ ⟨⟨h.sound.bound, h.sound.packets, hq, h.sound.decoded, h.sound.staged, h.sound.stagedBytes⟩,
    fun hr => (h.level hr).settle rfl ?_ ?_⟩
  · have := hs.units
    simp only [books]
    omega
  · have := hs.bytes
    simp only [books]
    omega

theorem Balanced.setDecoded {q : BoundedMediaQueue MediaDecodedFrame Nat} (taken : List Nat)
    (h : Balanced c (taken ++ loose) s) (hq : q.InOrder (queueOptions c)) (hs : s.decodedQueue.Settles q taken) :
    Balanced c loose (s.setDecoded q) := by
  refine .credits _ ⟨⟨h.sound.bound, h.sound.packets, h.sound.metadata, hq, h.sound.staged, h.sound.stagedBytes⟩,
    fun hr => (h.level hr).settle rfl ?_ ?_⟩
  · have := hs.units
    simp only [books]
    omega
  · have := hs.bytes
    simp only [books]
    omega

section
variable (h : Balanced c loose s)
include h

theorem Balanced.applyPackets (op : BoundedMediaQueue.Op NativeMediaUnit Nat)
    (hop : op.publishes = false) : Balanced c loose (s.setPackets (s.packetQueue.apply op)) := by
  obtain ⟨horder, hsettles⟩ := h.sound.packets.apply op hop
  exact .setPackets [] h horder hsettles

theorem Balanced.applyMetadata (op : BoundedMediaQueue.Op MediaMetadataUnit Nat)
    (hop : op.publishes = false) : Balanced c loose (s.setMetadata (s.metadataQueue.apply op)) := by
  obtain ⟨horder, hsettles⟩ := h.sound.metadata.apply op hop
  exact .setMetadata [] h horder hsettles

theorem Balanced.applyDecoded (op : BoundedMediaQueue.Op MediaDecodedFrame Nat)
    (hop : op.publishes = false) : Balanced c loose (s.setDecoded (s.decodedQueue.apply op)) := by
  obtain ⟨horder, hsettles⟩ := h.sound.decoded.apply op hop
  exact .setDecoded [] h horder hsettles

theorem Balanced.onQueues (packets : BoundedMediaQueue.Op NativeMediaUnit Nat)
    (metadata : BoundedMediaQueue.Op MediaMetadataUnit Nat) (decoded : BoundedMediaQueue.Op MediaDecodedFrame Nat)
    (hp : packets.publishes = false) (hm : metadata.publishes = false) (hd : decoded.publishes = false) :
    Balanced c loose (s.onQueues (·.apply packets) (·.apply metadata) (·.apply decoded)) :=
  ((h.applyPackets packets hp).applyMetadata metadata hm).applyDecoded decoded hd

end

theorem stopped_of_same (h : Same s s') : s'.stopped = s.stopped := by
  have hstate : s'.currentState = s.currentState := congrArg Core.currentState h
  simp [NativeSession.stopped, hstate]

-- The end of a session

section
variable (h : Sound c s.books)
include h

theorem sound_finishReaders (hs : s.stopped) : Sound c s.finishReaders.books := by
  rw [run_finishReaders hs]
  exact ⟨h.bound, (h.packets.apply (.finish s.failure) rfl).1, (h.metadata.apply (.finish s.failure) rfl).1,
    (h.decoded.apply (.finish s.failure) rfl).1, nofun, rfl⟩

theorem sound_books (hp : s'.packetQueue = s.packetQueue) (hm : s'.metadataQueue = s.metadataQueue)
    (hd : s'.decodedQueue = s.decodedQueue) (hs : s'.staged = s.staged) (hb : s'.stagedBytes = s.stagedBytes) :
    Sound c s'.books := by
  have hbooks : s'.books = { s.books with
      creditBytes := s'.creditBytes, creditUnits := s'.creditUnits, outstandingBytes := s'.outstandingBytes
      outstandingUnits := s'.outstandingUnits } := by
    simp only [books, hp, hm, hd, hs, hb]
  rw [hbooks]
  exact ⟨h.bound, h.packets, h.metadata, h.decoded, h.staged, h.stagedBytes⟩

theorem sound_send (body : CommandBody) (sequence : Nat) (generation : Option Nat) :
    Sound c (s.send c body sequence generation).books := by
  unfold send
  dsimp only
  split <;> exact sound_books h rfl rfl rfl rfl rfl

theorem sound_beginClose : Sound c (s.beginClose c).books := by
  unfold beginClose
  split
  · exact h
  · have hhalted : Sound c s.halted.finishReaders.books :=
      sound_finishReaders (s := s.halted) (sound_books h rfl rfl rfl rfl rfl) rfl
    dsimp only
    generalize s.halted.finishReaders = s₁ at hhalted
    split
    · rw [run_allocate]
      by_cases hmax : s₁.commandSequence = 0xffffffff
      · rw [if_pos hmax]
        exact sound_books hhalted rfl rfl rfl rfl rfl
      · rw [if_neg hmax]
        dsimp only
        refine sound_send ?_ _ _ _
        exact sound_books hhalted rfl rfl rfl rfl rfl
    · exact sound_books hhalted rfl rfl rfl rfl rfl

theorem balanced_beginClose : Balanced c loose (s.beginClose c) := by
  refine .halt (sound_beginClose h) ?_
  cases hs : s.stopped with
  | true => rw [beginClose, if_pos hs]; exact hs
  | false => exact (beginClose_stopped hs).1

theorem balanced_fail (e : OnvifError) : Balanced c loose (s.fail c e) := by
  unfold fail
  split
  · rename_i hclosed
    exact .halt h (by simp [NativeSession.stopped, hclosed])
  · exact balanced_beginClose (s := { s with failure := some (s.failure.getD e) }) (sound_books h rfl rfl rfl rfl rfl)

end

def Leaves (c : SessionContext) (loose : List Nat) : Except OnvifError α × NativeSession → Prop
  | (.ok _, s) => Balanced c loose s
  | (.error _, s) => Sound c s.books

theorem balanced_caught {m : M Unit} (h : Leaves c [] (m s)) : Balanced c [] (caught c m s) := by
  unfold caught
  generalize m s = x at h
  obtain ⟨result, s'⟩ := x
  cases result with
  | ok _ => exact h
  | error e => exact balanced_fail h e

-- Data

structure Flows (c : SessionContext) (loose : List Nat) (s : NativeSession) : Prop where
  running : s.stopped = false
  sound : Sound c s.books
  level : Level c loose s.books

theorem Flows.balanced (h : Flows c loose s) : Balanced c loose s := ⟨h.sound, fun _ => h.level⟩

theorem Balanced.flows (h : Balanced c loose s) (hr : s.stopped = false) : Flows c loose s := ⟨hr, h.sound, h.level hr⟩

theorem Balanced.flows_of_same (h : Balanced c loose s') (hs : Same s s') (hr : s.stopped = false) : Flows c loose s' :=
  h.flows ((stopped_of_same hs).trans hr)

/-- A running session with `rest` in hand, or what a handler that throws leaves to `fail`. -/
def Ends (c : SessionContext) (rest : List Nat) : Except OnvifError α × NativeSession → Prop
  | (.ok _, s) => Flows c rest s
  | (.error _, s) => Sound c s.books

/-- From a running session with `loose` in hand, `m` ends with `rest` in hand, or throws. -/
def Passes (c : SessionContext) (loose rest : List Nat) (m : M α) : Prop := ∀ s, Flows c loose s → Ends c rest (m s)

theorem Passes.throw (e : OnvifError) : Passes c loose rest (.throw e : M α) := fun _ h => h.sound

theorem Passes.pure (a : α) : Passes c loose loose (Pure.pure a : M α) := fun _ h => h

theorem Passes.get : Passes c loose loose .get := fun _ h => h

theorem Passes.modify {f : NativeSession → NativeSession} (h : ∀ s, Flows c loose s → Flows c rest (f s)) :
    Passes c loose rest (.modify f) := h

theorem Passes.bind {m : M α} {f : α → M β} {rest last : List Nat} (hm : Passes c loose rest m)
    (hf : ∀ a, Passes c rest last (f a)) : Passes c loose last (m >>= f) := by
  intro s hs
  have h₁ := hm s hs
  rw [Throwing.run_bind]
  generalize m s = x at h₁
  obtain ⟨result, s'⟩ := x
  cases result with
  | ok a => exact hf a s' h₁
  | error e => exact h₁

theorem passes_credit (bytes : Nat) : Passes c (bytes :: loose) loose (.modify (credit bytes)) :=
  .modify fun s h => h.balanced.credit.flows_of_same (same_quiet.credit bytes s) h.running

theorem passes_deliverTo {rest : List Nat} {publish : NativeSession → Option OnvifError × NativeSession}
    (h : ∀ s, Flows c loose s → Flows c rest (publish s).2) : Passes c loose rest (deliverTo publish) := by
  intro s hs
  have hrest := h s hs
  unfold deliverTo
  simp only [Throwing.run_get_bind, Throwing.run_modify_bind]
  cases (publish s).1 with
  | none => exact hrest
  | some e => exact hrest.sound

theorem Flows.room (h : Flows c (bytes :: loose) s) : bytes ≤ 128 * 1024 * 1024 ∧
    (s.packetQueue.heldUnits.card + 1 ≤ c.limits.queueUnits ∧ s.packetQueue.heldBytes + bytes ≤ c.limits.queueBytes) ∧
    (s.metadataQueue.heldUnits.card + 1 ≤ c.limits.queueUnits ∧ s.metadataQueue.heldBytes + bytes ≤ c.limits.queueBytes) ∧
    s.decodedQueue.heldUnits.card + 1 ≤ c.limits.queueUnits ∧ s.decodedQueue.heldBytes + bytes ≤ c.limits.queueBytes := by
  obtain ⟨hu, hb, hmu, hmb⟩ := h.level
  have hbound := h.sound.bound
  simp only [books, List.length_cons, List.sum_cons] at hu hb hmu hmb
  omega

section
variable (item : StagedUnit)
include item

theorem flows_publishPacket (hi : 0 < item.bytes) (h : Flows c (item.bytes :: loose) s) :
    Flows c loose (publishPacket item s).2 := by
  obtain ⟨hmax, ⟨hu, hb⟩, _⟩ := h.room
  obtain ⟨_, hq, hs⟩ := h.sound.packets.publish item.value hi hmax hu hb
  exact (Balanced.setPackets [item.bytes] h.balanced hq hs).flows_of_same (same_quiet.setPackets _ s) h.running

theorem flows_publishMetadata (document : NativeMetadataDocument) (hi : 0 < item.bytes)
    (h : Flows c (item.bytes :: loose) s) : Flows c loose (publishMetadata item document s).2 := by
  obtain ⟨hmax, _, ⟨hu, hb⟩, _⟩ := h.room
  obtain ⟨_, hq, hs⟩ := h.sound.metadata.publish ⟨document, _⟩ hi hmax hu hb
  exact (Balanced.setMetadata [item.bytes] h.balanced hq hs).flows_of_same (same_quiet.setMetadata _ s) h.running

theorem flows_publishDecoded (frame : MediaDecodedFrame) (hi : 0 < item.bytes)
    (h : Flows c (item.bytes :: loose) s) : Flows c loose (publishDecoded item frame s).2 := by
  obtain ⟨hmax, _, _, hu, hb⟩ := h.room
  obtain ⟨_, hq, hs⟩ := h.sound.decoded.publish frame hi hmax hu hb
  exact (Balanced.setDecoded [item.bytes] h.balanced hq hs).flows_of_same (same_quiet.setDecoded _ s) h.running

theorem passes_deliverPacket (hi : 0 < item.bytes) :
    Passes c (item.bytes :: loose) loose (deliverPacket c item) := by
  unfold deliverPacket
  split
  · exact passes_deliverTo fun s => flows_publishPacket item hi
  · exact passes_credit item.bytes

theorem passes_deliverDocument (document : NativeMetadataDocument) (hi : 0 < item.bytes) :
    Passes c (item.bytes :: loose) loose (deliverDocument c item document) := by
  unfold deliverDocument
  split
  · split
    · exact passes_credit item.bytes
    · exact .throw _
  · exact .throw _
  · exact passes_deliverTo fun s => flows_publishMetadata item document hi

theorem passes_deliver (hi : 0 < item.bytes) :
    Passes c (item.bytes :: loose) loose (deliver c item) := by
  refine Passes.bind .get fun s => ?_
  split
  · exact .throw _
  · split
    · exact passes_deliverDocument item _ hi
    · exact passes_deliverTo fun s => flows_publishDecoded item _ hi
    · refine .bind (show Passes c _ (item.bytes :: loose) _ from .modify fun s h => ⟨h.running, h.sound, h.level⟩) fun _ => ?_
      exact passes_deliverPacket item hi
    · exact passes_deliverPacket item hi

end

theorem leaves_finishGeneration (h : Balanced c loose s) : Leaves c loose (finishGeneration s) := by
  unfold finishGeneration
  rw [Throwing.run_get_bind]
  cases hending : s.ending with
  | none => exact h
  | some ending =>
    dsimp only
    split
    · exact h
    · split
      · exact h.sound
      · split
        · exact h
        · have hb : Balanced c loose { s with ending := some { ending with complete := true } } := h.untouched ⟨rfl, rfl⟩
          exact hb.onQueues .end_ .end_ .end_ rfl rfl rfl

theorem passes_finishGeneration : Passes c loose loose finishGeneration := by
  intro s h
  have hleaves := leaves_finishGeneration h.balanced
  have hsame := same_finishGeneration s
  generalize finishGeneration s = x at hleaves hsame
  obtain ⟨result, s'⟩ := x
  cases result with
  | ok _ => exact Balanced.flows_of_same hleaves hsame h.running
  | error _ => exact hleaves

theorem passes_flushStaged : Passes c [] [] (flushStaged c) := by
  intro s h
  have hstart : Flows c (s.staged.map (·.bytes)) { s with staged := [], stagedBytes := 0 } := by
    refine ⟨h.running, ⟨h.sound.bound, h.sound.packets, h.sound.metadata, h.sound.decoded, nofun, rfl⟩, ?_⟩
    obtain ⟨hu, hb, hmu, hmb⟩ := h.level
    refine ⟨?_, ?_, hmu, hmb⟩
    · simpa [books] using hu
    · simpa [books] using hb
  have hitems : ∀ items : List StagedUnit, (∀ item ∈ items, 0 < item.bytes) →
      Passes c (items.map (·.bytes)) [] (items.forM (deliver c)) := by
    intro items
    induction items with
    | nil => exact fun _ => .pure _
    | cons item items ih =>
      intro hpos
      exact Passes.bind (passes_deliver item (hpos item List.mem_cons_self)) fun _ =>
        ih fun item hm => hpos item (List.mem_cons_of_mem _ hm)
  exact Passes.bind (hitems s.staged h.sound.staged) (fun _ => passes_finishGeneration) _ hstart

theorem Flows.uncrowded (h : Flows c (bytes :: loose) s) : s.crowded c bytes = false := by
  obtain ⟨hu, hb, hmu, hmb⟩ := h.level
  have hstaged := h.sound.stagedBytes
  simp only [books, List.length_cons, List.sum_cons] at hu hb hmu hmb hstaged
  simp only [crowded, Bool.or_eq_false_iff, decide_eq_false_iff_not]
  omega

theorem run_makeRoom (h : s.crowded c bytes = false) (staged : List StagedUnit) : makeRoom c bytes staged s = (.ok true, s) := by
  cases staged <;> simp [makeRoom, h]

theorem passes_accept (generation : Nat) (item : StagedUnit) (hi : 0 < item.bytes) :
    Passes c [item.bytes] [] (accept c generation item) := by
  intro s h
  unfold accept
  rw [Throwing.run_get_bind]
  split
  · exact Passes.bind (passes_credit item.bytes) (fun _ => passes_finishGeneration) s h
  · split
    · rw [Throwing.run_bind, run_makeRoom h.uncrowded]
      refine @Passes.bind _ _ _ _ _ _ [] _ (.modify fun s h => ?_) (fun _ => passes_finishGeneration) s h
      obtain ⟨hu, hb, hmu, hmb⟩ := h.level
      refine ⟨h.running, ⟨h.sound.bound, h.sound.packets, h.sound.metadata, h.sound.decoded, ?_, ?_⟩, ?_, ?_, hmu, hmb⟩
      · intro staged hm
        rcases List.mem_append.mp hm with hm | hm
        · exact h.sound.staged staged hm
        · rw [List.mem_singleton.mp hm]; exact hi
      · have := h.sound.stagedBytes
        simp only [books, List.map_append, List.sum_append] at this ⊢
        simp [this]
      · simp only [books, List.length_append, List.length_cons, List.length_nil] at hu ⊢
        omega
      · simp only [books, List.map_append, List.sum_append, List.sum_cons, List.sum_nil, List.map_cons, List.map_nil] at hb ⊢
        omega
    · exact Passes.bind (passes_deliver item hi) (fun _ => passes_finishGeneration) s h

theorem Ends.leaves {x : Except OnvifError α × NativeSession} (h : Ends c loose x) : Leaves c loose x := by
  obtain ⟨result, s⟩ := x
  cases result with
  | ok _ => exact h.balanced
  | error _ => exact h

theorem leaves_untouched {m : M α} (hm : Keeps Untouched m) (h : Balanced c loose s) : Leaves c loose (m s) := by
  have hu := hm s
  generalize m s = x at hu
  obtain ⟨result, s'⟩ := x
  have hb : Balanced c loose s' := h.untouched hu
  cases result with
  | ok _ => exact hb
  | error _ => exact hb.sound

def received (frame : IpcFrame) (s : NativeSession) : NativeSession :=
  { s with
    dataSequence := frame.sequence
    outstandingBytes := s.outstandingBytes + (frame.payload.length + 24), outstandingUnits := s.outstandingUnits + 1 }

theorem flows_received (frame : IpcFrame) (h : Balanced c [] s) (hr : s.stopped = false)
    (hbytes : (s.received frame).outstandingBytes ≤ c.limits.queueBytes)
    (hunits : (s.received frame).outstandingUnits ≤ c.limits.queueUnits) :
    Flows c [frame.payload.length + 24] (s.received frame) := by
  obtain ⟨hu, hb, _, _⟩ := h.level hr
  refine ⟨hr, sound_books h.sound rfl rfl rfl rfl rfl, ?_, ?_, hunits, hbytes⟩
  · simp only [books, received, List.length_cons, List.length_nil] at hu ⊢
    omega
  · simp only [books, received, List.sum_cons, List.sum_nil] at hb ⊢
    omega

theorem data_cases (frame : IpcFrame) (hr : s.stopped = false) :
    (∃ e s₁, data c frame s = (.error e, s₁) ∧ (Sound c s.books → Sound c s₁.books)) ∨
    ∃ value, data c frame s = accept c frame.generation ⟨value, frame.payload.length + 24⟩ (s.received frame) ∧
      (s.received frame).outstandingBytes ≤ c.limits.queueBytes ∧ (s.received frame).outstandingUnits ≤ c.limits.queueUnits := by
  unfold data
  rw [Throwing.run_get_bind, if_neg (by simp [hr])]
  split
  · exact .inl ⟨_, _, rfl, id⟩
  · split
    · exact .inl ⟨_, _, rfl, id⟩
    · rw [Throwing.run_modify_bind]
      cases hvalue : decodeMediaData frame c.limits with
      | error e => exact .inl ⟨e, _, rfl, fun h => sound_books h rfl rfl rfl rfl rfl⟩
      | ok value =>
        rw [Throwing.run_bind, Throwing.run_lift]
        dsimp only
        rw [Throwing.run_modify_bind, Throwing.run_get_bind]
        split
        · exact .inl ⟨_, _, rfl, fun h => sound_books h rfl rfl rfl rfl rfl⟩
        · rename_i hlimit
          rw [not_or, Nat.not_lt, Nat.not_lt] at hlimit
          exact .inr ⟨value, rfl, hlimit⟩

theorem leaves_data (frame : IpcFrame) (h : Balanced c [] s) : Leaves c [] (data c frame s) := by
  cases hr : s.stopped with
  | true =>
    unfold data
    rw [Throwing.run_get_bind, if_pos hr]
    exact h
  | false =>
    rcases data_cases (c := c) frame hr with ⟨e, s₁, hdata, hs⟩ | ⟨value, hdata, hbytes, hunits⟩
    · rw [hdata]
      exact hs h.sound
    · rw [hdata]
      exact (passes_accept _ _ (Nat.succ_pos _) _ (flows_received frame h hr hbytes hunits)).leaves

-- Control frames

section
variable (frame : ControlFrame)
include frame

theorem untouched_hello (controls : Option (List ControlKind)) :
    Keeps Untouched (hello c frame controls) := by
  refine .bind (.get .refl) fun s => ?_
  split
  · exact .throw .refl _
  · split
    · exact .throw .refl _
    · refine .bind (.modify fun s => .refl s) fun _ => ?_
      split
      · exact .pure .refl _
      · split
        · exact .modify fun s => .refl s
        · exact .modify fun s => .refl s
        · exact .modify fun s => .refl s

theorem leaves_ready (tracks : Option (List MediaTrack)) (h : Balanced c [] s) :
    Leaves c [] (ready c frame tracks s) := by
  unfold ready
  rw [Throwing.run_get_bind]
  dsimp only
  split
  · exact Throwing.lift_cases (P := Leaves c []) (fun _ _ => h) fun _ => h.sound
  · split
    · exact h.sound
    · rename_i hstate
      rw [not_or, not_not] at hstate
      have hr := opened_of_state (.inl hstate.1)
      refine Throwing.lift_cases (P := Leaves c []) (fun tracks _ => ?_) fun _ => h.sound
      rw [Throwing.run_modify_bind]
      refine Ends.leaves ?_
      exact passes_flushStaged _ ⟨rfl, h.sound, h.level hr⟩

theorem leaves_acknowledged (kind : ControlKind) (paused : Bool) (h : Balanced c [] s)
    (hi : s.Idle) : Leaves c [] (acknowledged c frame kind paused s) := by
  unfold acknowledged
  rw [Throwing.run_get_bind]
  cases hpending : (s.pending <|> if s.currentState = .closing then s.abandoned else none) with
  | none => exact h.sound
  | some pending =>
    dsimp only
    split
    · exact h.sound
    · split
      · exact h.untouched ⟨rfl, rfl⟩
      · rename_i hclosing
        have hr : s.stopped = false := by
          by_contra hs
          simp [hi (by simpa using hs), hclosing] at hpending
        rw [Throwing.run_modify_bind]
        refine Ends.leaves ?_
        have hmark : Passes c [] [] (.modify fun s => { s with pending := none }) :=
          .modify fun s h => ⟨h.running, h.sound, h.level⟩
        refine Passes.bind passes_flushStaged (fun _ => hmark.bind fun _ => passes_finishGeneration) _ ⟨?_, h.sound, h.level hr⟩
        · unfold NativeSession.stopped
          split <;> rfl

theorem leaves_closedFrame (remote : Option MediaRemote) (h : Balanced c [] s) :
    Leaves c [] (closedFrame c frame remote s) := by
  unfold closedFrame
  rw [Throwing.run_get_bind]
  split
  · exact h.sound
  · split
    · exact h.sound
    · rw [Throwing.run_modify_bind]
      split
      · exact h.untouched ⟨rfl, rfl⟩
      · exact balanced_beginClose (sound_books h.sound rfl rfl rfl rfl rfl)

theorem leaves_endFrame (watermark : Nat) (h : Balanced c [] s) :
    Leaves c [] (endFrame frame watermark s) := by
  unfold endFrame
  rw [Throwing.run_get_bind]
  split
  · exact h.sound
  · split
    · exact h
    · split
      · exact h.sound
      · exact leaves_finishGeneration (s := { s with ending := some ⟨frame.generation, watermark, false⟩ }) (h.untouched ⟨rfl, rfl⟩)

theorem leaves_control (h : Balanced c [] s) (hi : s.Idle) : Leaves c [] (control c frame s) := by
  by_cases hh : ∃ controls, frame.message = .hello controls
  · obtain ⟨controls, hm⟩ := hh
    simpa only [control, hm] using leaves_untouched (untouched_hello frame controls) h
  · rw [run_control frame fun controls hm => hh ⟨controls, hm⟩]
    split
    · exact h.sound
    · cases hm : frame.message with
      | hello controls => exact absurd ⟨controls, hm⟩ hh
      | error code =>
        simp only [owned, hm, nativeError]
        split
        · exact h.sound
        · exact balanced_fail h.sound _
      | ready tracks => simpa only [owned, hm] using leaves_ready frame tracks h
      | control kind paused => simpa only [owned, hm] using leaves_acknowledged frame kind paused h hi
      | closed remote => simpa only [owned, hm] using leaves_closedFrame frame remote h
      | end_ watermark => simpa only [owned, hm] using leaves_endFrame frame watermark h
      | response valid | gap valid | diagnostic valid =>
        simp only [owned, hm]
        split
        · exact h
        · exact h.sound

end

-- Credits, commands and the backchannel

theorem untouched_allocate : Keeps Untouched allocateSequence := by
  intro s
  rw [run_allocate]
  split
  · exact .refl s
  · exact ⟨rfl, rfl⟩

theorem untouched_send (body : CommandBody) (sequence : Nat) (generation : Option Nat) (s : NativeSession) :
    Untouched s (s.send c body sequence generation) := by
  unfold send
  dsimp only
  split <;> exact ⟨rfl, rfl⟩

theorem leaves_flushCredits (h : Balanced c [] s) : Leaves c [] (flushCredits c s) := by
  unfold flushCredits
  rw [Throwing.run_get_bind]
  split
  · exact h
  · split
    · exact h.sound
    · rename_i hreleased
      rw [not_or, Nat.not_lt, Nat.not_lt] at hreleased
      split
      · exact h.sound
      · rw [Throwing.run_modify_bind]
        have hsent : Keeps Untouched (allocateSequence >>= fun sequence =>
            .modify (send c (.credit s.creditBytes s.creditUnits) sequence)) :=
          .bind untouched_allocate fun sequence => .modify (untouched_send _ _ _)
        refine leaves_untouched hsent ⟨sound_books h.sound rfl rfl rfl rfl rfl, fun hr => ?_⟩
        obtain ⟨hu, hb, hmu, hmb⟩ := h.level hr
        simp only [books] at hu hb hmu hmb
        refine ⟨?_, ?_, ?_, ?_⟩ <;> simp only [books] <;> omega

theorem untouched_sendOpen : Keeps Untouched (sendOpen c) := by
  refine .bind (.modify fun s => .refl s) fun _ => .bind (.get .refl) fun s => ?_
  split
  · exact .throw .refl _
  · refine .bind (.lift .refl _) fun _ => .bind untouched_allocate fun sequence => .modify fun s => ?_
    exact untouched_send (s := { s with openSequence := sequence, openSent := true, opening := .sending }) _ _ _

theorem balanced_continueOpen (result : Except OnvifError Unit) (h : Balanced c [] s) : Balanced c [] (s.continueOpen c result) := by
  have hs : Balanced c [] { s with opening := .settled } := h.untouched ⟨rfl, rfl⟩
  unfold continueOpen
  split
  · exact balanced_fail hs.sound _
  · exact balanced_caught (leaves_untouched untouched_sendOpen hs)
  · exact balanced_fail hs.sound _
  · exact balanced_fail hs.sound _
  · exact hs
  · exact h

def Carries (c : SessionContext) (s s' : NativeSession) : Prop := Balanced c [] s → Balanced c [] s'

instance : IsTrans NativeSession (Carries c) := ⟨fun _ _ _ h₁ h₂ h => h₂ (h₁ h)⟩

theorem Carries.refl (s : NativeSession) : Carries c s s := id

theorem Carries.of_untouched (h : Untouched s s') : Carries c s s' := fun hb => hb.untouched h

theorem carries_deliverTo {publish : NativeSession → Option OnvifError × NativeSession} (h : ∀ s, Carries c s (publish s).2) :
    Keeps (Carries c) (deliverTo publish) := by
  refine .bind (.get .refl) fun s => .bind (.modify h) fun _ => ?_
  cases (publish s).1 with
  | none => exact .pure .refl _
  | some e => exact .throw .refl e

theorem carries_reopen (kind : ControlKind) : Keeps (Carries c) (reopen kind) := by
  unfold reopen
  split
  · exact .pure .refl _
  · refine .bind (.modify fun s => .of_untouched ⟨rfl, rfl⟩) fun _ => .bind ?_ fun _ => .bind ?_ fun _ => ?_
    · exact carries_deliverTo fun s h => h.applyPackets .resume rfl
    · exact carries_deliverTo fun s h => h.applyMetadata .resume rfl
    · exact carries_deliverTo fun s h => h.applyDecoded .resume rfl

theorem balanced_discard (generation : Nat) (pending : Option PendingControl) (h : Balanced c [] s) :
    Balanced c [] ({ s with expectedGeneration := generation, pending }.onQueues (·.discard.1) (·.discard.1) (·.discard.1)) := by
  have hb : Balanced c [] { s with expectedGeneration := generation, pending } := h.untouched ⟨rfl, rfl⟩
  exact hb.onQueues .discard .discard .discard rfl rfl rfl

theorem carries_command (kind : ControlKind) (range : Option (Nat × Nat)) : Keeps (Carries c) (command c kind range) := by
  refine .bind (.get .refl) fun s => ?_
  split
  · exact .throw .refl _
  · refine .bind (.lift .refl _) fun _ => ?_
    split
    · exact .throw .refl _
    · refine .bind (.modify fun s => .of_untouched ⟨rfl, rfl⟩) fun _ =>
        .bind (fun s => .of_untouched (untouched_allocate s)) fun sequence => .bind (.modify fun s h => ?_) fun _ =>
        .bind (carries_reopen kind) fun _ => .modify fun s => .of_untouched (untouched_send _ _ _ s)
      exact balanced_discard _ _ h

theorem untouched_destroyBackchannel (s : NativeSession) : Untouched s s.destroyBackchannel := by
  unfold destroyBackchannel
  split <;> exact ⟨rfl, rfl⟩

theorem untouched_finalBackchannel (s : NativeSession) : Untouched s s.finalBackchannel := by
  unfold finalBackchannel
  split
  · split <;> exact ⟨rfl, rfl⟩
  · exact .refl s

theorem untouched_writeChunk (chunk : Chunk) (w : BackchannelWritable) (s : NativeSession) :
    Untouched s (s.writeChunk c chunk w) := by
  unfold writeChunk
  split
  · exact untouched_destroyBackchannel (s.setBackchannel w)
  · exact ⟨rfl, rfl⟩

theorem untouched_writeBackchannel (chunk : Chunk) (s : NativeSession) : Untouched s (s.writeBackchannel c chunk) := by
  unfold writeBackchannel
  split
  · exact .refl s
  · split
    · exact .refl s
    · split
      · exact untouched_destroyBackchannel s
      · split
        · exact ⟨rfl, rfl⟩
        · exact untouched_writeChunk chunk _ s

theorem untouched_transmitted (result : Except OnvifError Unit) (s : NativeSession) : Untouched s (s.transmitted result) := by
  unfold transmitted
  split
  · exact .refl s
  · split
    · exact ⟨rfl, rfl⟩
    · exact untouched_destroyBackchannel s
    · exact .refl s

theorem untouched_paced (s : NativeSession) : Untouched s (s.paced c) := by
  unfold paced
  split
  · exact .refl s
  · rename_i w _
    split
    · exact untouched_finalBackchannel (s.setBackchannel { w with writing := none })
    · exact untouched_writeChunk _ _ s
    · exact .refl s

theorem untouched_endBackchannel (s : NativeSession) : Untouched s s.endBackchannel := by
  unfold endBackchannel
  split
  · exact .refl s
  · rename_i w _
    split
    · exact .refl s
    · exact untouched_finalBackchannel (s.setBackchannel { w with ending := true })

-- Steps

theorem balanced_failIf {p : Prop} [Decidable p] (e : OnvifError) (h : Balanced c [] s) :
    Balanced c [] (if p then s.fail c e else s) := by
  split
  · exact balanced_fail h.sound e
  · exact h

theorem balanced_exited (success : Bool) (h : Balanced c [] s) : Balanced c [] (s.exited c success) := by
  unfold exited
  split
  · exact h
  · extract_lets failure remote failure' s₁
    have hclose : Balanced c [] (s₁.beginClose c) :=
      balanced_beginClose (sound_books h.sound rfl rfl rfl rfl rfl)
    split
    · exact hclose
    · have hfinish : Sound c ({ s₁.beginClose c with currentState := .closed } : NativeSession).finishReaders.books :=
        sound_finishReaders (sound_books hclose.sound rfl rfl rfl rfl rfl) rfl
      unfold departed
      rw [run_finishReaders rfl] at hfinish ⊢
      exact .halt (sound_books hfinish rfl rfl rfl rfl rfl) rfl

theorem read_publishes (read : Read) : (read.op : BoundedMediaQueue.Op α Nat).publishes = false := by
  cases read <;> rfl

theorem balanced_readFrames (read : Read) (h : Balanced c [] s) : Balanced c [] (s.readFrames read) := by
  unfold readFrames
  split
  · split
    · exact h.applyDecoded .asyncIterator rfl
    · exact h
  · exact h.applyDecoded _ (read_publishes _)

theorem balanced_step (input : SessionInput) (h : Balanced c [] s) (hi : s.Idle) : Balanced c [] (s.step c input) := by
  cases input with
  | control frame => exact balanced_caught (leaves_control frame h hi)
  | controlEnded => exact balanced_failIf _ h
  | data frame => exact balanced_caught (leaves_data frame h)
  | dataEnded => exact balanced_failIf _ h
  | openSettled result => exact balanced_continueOpen result h
  | creditWritten result =>
    have hw : Balanced c [] { s with creditWriting := false } := h.untouched ⟨rfl, rfl⟩
    cases result with
    | ok _ => exact hw
    | error e =>
      change Balanced c [] (if _ then _ else _)
      split
      · exact hw
      · exact balanced_fail hw.sound e
  | writeFailed sequence e => exact balanced_failIf e h
  | watchdog incomplete ending =>
    exact balanced_caught (leaves_flushCredits (balanced_failIf _ (balanced_failIf _ h)))
  | openDeadline => exact balanced_failIf _ h
  | controlDeadline => exact balanced_failIf _ h
  | closeDeadline =>
    change Balanced c [] (closeDeadline s)
    unfold closeDeadline
    split
    · exact h.untouched ⟨rfl, rfl⟩
    · exact h
  | failed error => exact balanced_fail h.sound error
  | exited success => exact balanced_exited success h
  | packets read => exact h.applyPackets _ (read_publishes read)
  | metadata read => exact h.applyMetadata _ (read_publishes read)
  | frames read => exact balanced_readFrames read h
  | command kind range => exact carries_command kind range s h
  | close => exact balanced_beginClose h.sound
  | write chunk => exact h.untouched (untouched_writeBackchannel chunk s)
  | transmitted result => exact h.untouched (untouched_transmitted result s)
  | paced => exact h.untouched (untouched_paced s)
  | endWrites => exact h.untouched (untouched_endBackchannel s)
  | destroyWrites => exact h.untouched (untouched_destroyBackchannel s)

-- Runs

/-- The session as its constructor makes it: its queues have the limits that `data` checks. -/
def Constructed (c : SessionContext) (s : NativeSession) : Prop := ∃ packetQueue metadataQueue decodedQueue,
  BoundedMediaQueue.make c.limits.queueBytes c.limits.queueUnits c.limits.maxSubscribers c.mode = .ok packetQueue ∧
  BoundedMediaQueue.make c.limits.queueBytes c.limits.queueUnits c.limits.maxSubscribers c.mode = .ok metadataQueue ∧
  BoundedMediaQueue.make c.limits.queueBytes c.limits.queueUnits c.limits.maxSubscribers c.mode = .ok decodedQueue ∧
  s = { packetQueue, metadataQueue, decodedQueue }

def sessions (c : SessionContext) : System NativeSession SessionInput := .ofFun (Constructed c) (step c)

theorem inOrder_make {q : BoundedMediaQueue α Nat}
    (h : BoundedMediaQueue.make c.limits.queueBytes c.limits.queueUnits c.limits.maxSubscribers c.mode = .ok q) :
    q = .fresh (queueOptions c) ∧ q.InOrder (queueOptions c) ∧ c.limits.queueBytes ≤ 128 * 1024 * 1024 := by
  have howned := BoundedMediaQueue.owned_make h
  obtain ⟨o, hb, hu, hn, hm, rfl⟩ := BoundedMediaQueue.make_ok.mp h
  have hnat {n m : Nat} (he : Binding.Number.integer n = Binding.Number.integer m) : m = n := by
    have := Binding.Number.integer.inj he
    omega
  have hb := positiveInteger_ok.mp hb
  have hu := positiveInteger_ok.mp hu
  have hn := positiveInteger_ok.mp hn
  obtain rfl : o = queueOptions c := by
    obtain ⟨maxBytes, maxUnits, maxSubscribers, mode⟩ := o
    simp only [queueOptions, MediaQueueOptions.mk.injEq]
    exact ⟨hnat hb.1, hnat hu.1, hnat hn.1, hm⟩
  exact ⟨rfl, BoundedMediaQueue.inOrder_fresh howned, hb.2.2.1⟩

theorem heldUnits_fresh (o : MediaQueueOptions) : (BoundedMediaQueue.fresh o : BoundedMediaQueue α Nat).heldUnits = ∅ := rfl

theorem balanced_constructed (h : Constructed c s) : Balanced c [] s ∧ s.Idle := by
  obtain ⟨p, m, d, hp, hm, hd, rfl⟩ := h
  obtain ⟨rfl, hp, hbound⟩ := inOrder_make hp
  obtain ⟨rfl, hm, _⟩ := inOrder_make hm
  obtain ⟨rfl, hd, _⟩ := inOrder_make hd
  refine ⟨⟨⟨hbound, hp, hm, hd, nofun, rfl⟩, fun _ => ⟨?_, ?_, Nat.zero_le _, Nat.zero_le _⟩⟩, fun _ => rfl⟩
  · simp [books, heldUnits_fresh]
  · simp [books, BoundedMediaQueue.heldBytes, heldUnits_fresh]

theorem balanced_of_reachable (h : (sessions c).Reachable s) : Balanced c [] s ∧ s.Idle := by
  refine h.invariant (P := fun s => Balanced c [] s ∧ s.Idle) (fun s hs => balanced_constructed hs) ?_
  rintro s input _ ⟨hb, hi⟩ rfl
  exact ⟨balanced_step input hb hi, hi.move (step_move input hi)⟩

/-- Every outstanding unit is held or counted as credit while the session
runs, no queue has ever evicted, dropped or refused a unit, and a unit that
`data` accepts finds room in the staging list. -/
theorem units_accounted (h : (sessions c).Reachable s) :
    (s.stopped = false → s.outstandingUnits = s.heldUnits + s.creditUnits ∧
      s.outstandingBytes = s.heldBytes + s.creditBytes) ∧
    (s.packetQueue.Calm ∧ s.metadataQueue.Calm ∧ s.decodedQueue.Calm) ∧
    ∀ frame, s.stopped = false → (s.received frame).outstandingBytes ≤ c.limits.queueBytes →
      (s.received frame).outstandingUnits ≤ c.limits.queueUnits →
      (s.received frame).crowded c (frame.payload.length + 24) = false := by
  obtain ⟨hb, _⟩ := balanced_of_reachable h
  refine ⟨fun hr => ?_, ⟨hb.sound.packets.calm, hb.sound.metadata.calm, hb.sound.decoded.calm⟩, fun frame hr hbytes hunits => ?_⟩
  · obtain ⟨hu, hb, _, _⟩ := hb.level hr
    constructor
    · simpa [books, NativeSession.heldUnits] using hu
    · simpa [books, NativeSession.heldBytes] using hb
  · exact (flows_received frame hb hr hbytes hunits).uncrowded

def unread : List SessionInput :=
  [.control ⟨.hello (some [.pause, .play]), 0, 0, 0⟩, .openSettled (.ok ()), .openSettled (.ok ()),
   .control ⟨.ready (some [⟨3, false, 96, 90000⟩]), 7, 1, 1⟩,
   .data ⟨IpcKind.RTCP, 7, 1, 1, [0, 3, 0, 0] ++ .replicate 24 0 ++ [0, 1, 0x5f, 0x90, 0, 0, 0, 1]⟩]

theorem units_accounted_unread :
    let s := unread.foldl (step AccountedSession.watching) AccountedSession.opened.session
    (s.outstandingUnits = s.heldUnits + s.creditUnits ∧ s.outstandingBytes = s.heldBytes + s.creditBytes) ∧
      s.heldUnits = 1 ∧ s.heldBytes = 60 := by
  have hq {α : Type} : BoundedMediaQueue.make AccountedSession.watching.limits.queueBytes
      AccountedSession.watching.limits.queueUnits AccountedSession.watching.limits.maxSubscribers
      AccountedSession.watching.mode = .ok (.fresh ⟨65536, 16, 4, .live⟩ : BoundedMediaQueue α Nat) :=
    BoundedMediaQueue.make_ok.mpr ⟨_, rfl, rfl, rfl, rfl, rfl⟩
  have hr : (sessions AccountedSession.watching).Reachable
      (unread.foldl (step AccountedSession.watching) AccountedSession.opened.session) :=
    ⟨_, unread, ⟨_, _, _, hq, hq, hq, rfl⟩, System.run_ofFun.mpr rfl⟩
  exact ⟨(units_accounted hr).1 (by decide +kernel), by decide +kernel, by decide +kernel⟩

end WotAv.Media.NativeSession
