import WotAv.Media.Session

/-!
# What a step of the session does to its control state

Data, credits and queues leave the control state alone. `Stays` is what all
else does that neither opens a generation nor asks for one.
-/

namespace WotAv.Media.NativeSession

open WotAv.Lib WotAv.Lib.Throwing WotAv.Binding

-- The control state

/-- The session without its data, its credits and its queues. -/
structure Core where
  currentState : MediaSessionState
  currentGeneration : Nat
  expectedGeneration : Nat
  commandSequence : Nat
  openSequence : Nat
  closeSequence : Nat
  opening : Opening
  openSent : Bool
  inventory : Option (List ControlKind)
  failure : Option OnvifError
  receipt : Option MediaRemote
  pending : Option PendingControl
  abandoned : Option PendingControl
  negotiated : List MediaTrack
  backchannel : Option BackchannelWritable
  remote : Option MediaRemote
  writes : Nat
  commands : List Command
  commandsOpen : Bool
  secrets : List SecurityFrame
  secretsOpen : Bool
  audio : List BackchannelFrame
  audioOpen : Bool

def core (s : NativeSession) : Core where
  currentState := s.currentState
  currentGeneration := s.currentGeneration
  expectedGeneration := s.expectedGeneration
  commandSequence := s.commandSequence
  openSequence := s.openSequence
  closeSequence := s.closeSequence
  opening := s.opening
  openSent := s.openSent
  inventory := s.inventory
  failure := s.failure
  receipt := s.receipt
  pending := s.pending
  abandoned := s.abandoned
  negotiated := s.negotiated
  backchannel := s.backchannel
  remote := s.remote
  writes := s.writes
  commands := s.commands
  commandsOpen := s.commandsOpen
  secrets := s.secrets
  secretsOpen := s.secretsOpen
  audio := s.audio
  audioOpen := s.audioOpen

def Same (s s' : NativeSession) : Prop := s'.core = s.core

instance : IsTrans NativeSession Same := ⟨fun _ _ _ h₁ h₂ => Eq.trans h₂ h₁⟩

theorem Same.refl (s : NativeSession) : Same s s := rfl

/-- A relation that credits, the queues and the sender reports are no concern of. -/
structure Quiet (r : NativeSession → NativeSession → Prop) : Prop where
  refl : ∀ s, r s s
  trans : ∀ s s' s'', r s s' → r s' s'' → r s s''
  credited : ∀ (s : NativeSession) bytes units, r s { s with creditBytes := bytes, creditUnits := units }
  packets : ∀ (s : NativeSession) q, r s { s with packetQueue := q }
  metadata : ∀ (s : NativeSession) q, r s { s with metadataQueue := q }
  decoded : ∀ (s : NativeSession) q, r s { s with decodedQueue := q }
  reports : ∀ (s : NativeSession) f, r s { s with senderReports := f }

namespace Quiet

variable {r : NativeSession → NativeSession → Prop} {c : SessionContext}

section
variable (h : Quiet r)
include h

theorem credit (bytes : Nat) (s : NativeSession) : r s (s.credit bytes) := by
  unfold NativeSession.credit
  split
  · exact h.refl s
  · exact h.credited s _ _

theorem credits (bytes : List Nat) (s : NativeSession) : r s (s.credits bytes) := by
  induction bytes generalizing s with
  | nil => exact h.refl s
  | cons b bytes ih => exact h.trans _ _ _ (h.credit b s) (ih (s.credit b))

theorem setPackets (q : BoundedMediaQueue NativeMediaUnit Nat) (s : NativeSession) :
    r s (s.setPackets q) :=
  h.trans _ _ _ (h.packets s q) (h.credits _ _)

theorem setMetadata (q : BoundedMediaQueue MediaMetadataUnit Nat) (s : NativeSession) :
    r s (s.setMetadata q) :=
  h.trans _ _ _ (h.metadata s q) (h.credits _ _)

theorem setDecoded (q : BoundedMediaQueue MediaDecodedFrame Nat) (s : NativeSession) :
    r s (s.setDecoded q) :=
  h.trans _ _ _ (h.decoded s q) (h.credits _ _)

theorem deliverTo {publish : NativeSession → Option OnvifError × NativeSession}
    (hp : ∀ s, r s (publish s).2) : Keeps r (deliverTo publish) := by
  have : IsTrans NativeSession r := ⟨h.trans⟩
  refine .bind (.get h.refl) fun s => .bind (.modify hp) fun _ => ?_
  cases (publish s).1 with
  | none => exact .pure h.refl _
  | some e => exact .throw h.refl e

theorem deliverPacket (item : StagedUnit) : Keeps r (deliverPacket c item) := by
  unfold NativeSession.deliverPacket
  split
  · exact h.deliverTo fun s => h.setPackets _ s
  · exact .modify (h.credit _)

theorem deliverDocument (item : StagedUnit) (document : NativeMetadataDocument) :
    Keeps r (deliverDocument c item document) := by
  unfold NativeSession.deliverDocument
  split
  · split
    · exact .modify (h.credit _)
    · exact .throw h.refl _
  · exact .throw h.refl _
  · exact h.deliverTo fun s => h.setMetadata _ s

theorem deliver (item : StagedUnit) : Keeps r (deliver c item) := by
  have : IsTrans NativeSession r := ⟨h.trans⟩
  refine .bind (.get h.refl) fun s => ?_
  split
  · exact .throw h.refl _
  · split
    · exact h.deliverDocument item _
    · exact h.deliverTo fun s => h.setDecoded _ s
    · exact .bind (.modify fun s => h.reports s _) fun _ => h.deliverPacket item
    · exact h.deliverPacket item

theorem forM {α : Type} {f : α → M Unit} (hf : ∀ a, Keeps r (f a)) (l : List α) : Keeps r (l.forM f) := by
  have : IsTrans NativeSession r := ⟨h.trans⟩
  induction l with
  | nil => exact .pure h.refl _
  | cons a l ih => exact .bind (hf a) fun _ => ih

end

end Quiet

theorem same_quiet : Quiet Same where
  refl := .refl
  trans _ _ _ := trans_of Same
  credited _ _ _ := rfl
  packets _ _ := rfl
  metadata _ _ := rfl
  decoded _ _ := rfl
  reports _ _ := rfl

theorem same_onQueues {s s' : NativeSession} (h : Same s s') : Same s (s'.onQueues packets metadata decoded) :=
  trans_of Same h (trans_of Same (same_quiet.setPackets _ s')
    (trans_of Same (same_quiet.setMetadata _ _) (same_quiet.setDecoded _ _)))

-- Data

variable {c : SessionContext} {s s' s'' : NativeSession}

theorem same_finishGeneration : Keeps Same finishGeneration := by
  refine .bind (.get .refl) fun s => ?_
  split
  · exact .pure .refl _
  · split
    · exact .pure .refl _
    · split
      · exact .throw .refl _
      · split
        · exact .pure .refl _
        · exact .modify fun _ => same_onQueues rfl

theorem same_flushStaged : Keeps Same (flushStaged c) :=
  .bind (.get .refl) fun _ => .bind (.modify fun _ => rfl) fun _ => .bind (same_quiet.forM same_quiet.deliver _) fun _ =>
    same_finishGeneration

theorem same_makeRoom (bytes : Nat) (staged : List StagedUnit) : Keeps Same (makeRoom c bytes staged) := by
  induction staged with
  | nil =>
    intro s
    unfold makeRoom
    split
    · exact .refl s
    · split <;> exact .refl s
  | cons dropped staged ih =>
    intro s
    unfold makeRoom
    split
    · exact .refl s
    · split
      · exact .refl s
      · exact trans_of Same (same_quiet.credit _ { s with staged, stagedBytes := s.stagedBytes - dropped.bytes }) (ih _)

theorem same_accept (generation : Nat) (item : StagedUnit) : Keeps Same (accept c generation item) := by
  refine .bind (.get .refl) fun s => ?_
  split
  · exact .bind (.modify (same_quiet.credit _)) fun _ => same_finishGeneration
  · split
    · refine .bind (same_makeRoom _ _) fun room => ?_
      split
      · exact .bind (.modify fun _ => rfl) fun _ => same_finishGeneration
      · exact .modify (same_quiet.credit _)
    · exact .bind (same_quiet.deliver item) fun _ => same_finishGeneration

theorem same_data (frame : IpcFrame) : Keeps Same (data c frame) := by
  refine .bind (.get .refl) fun s => ?_
  split
  · exact .pure .refl _
  · split
    · exact .throw .refl _
    · split
      · exact .throw .refl _
      · refine .bind (.modify fun _ => rfl) fun _ => .bind (.lift .refl _) fun value => ?_
        refine .bind (.modify fun _ => rfl) fun _ => .bind (.get .refl) fun s => ?_
        split
        · exact .throw .refl _
        · exact same_accept _ _

theorem same_resumeQueues : Keeps Same resumeQueues :=
  .bind (same_quiet.deliverTo fun s => same_quiet.setPackets _ s) fun _ =>
    .bind (same_quiet.deliverTo fun s => same_quiet.setMetadata _ s) fun _ => same_quiet.deliverTo fun s => same_quiet.setDecoded _ s

theorem same_reopen (kind : ControlKind) : Keeps Same (reopen kind) := by
  unfold reopen
  split
  · exact .pure .refl _
  · exact .bind (.modify fun _ => rfl) fun _ => same_resumeQueues

theorem same_finished (h : Same s s') :
    ({ s' with backchannel := s'.backchannel.map BackchannelWritable.destroy, creditBytes := 0, creditUnits := 0 } :
      NativeSession).core = { s.core with backchannel := s.backchannel.map BackchannelWritable.destroy } := by
  change { s'.core with backchannel := s'.core.backchannel.map BackchannelWritable.destroy } = _
  rw [h]
  rfl

theorem core_finishReaders (s : NativeSession) :
    s.finishReaders.core = { s.core with backchannel := s.backchannel.map BackchannelWritable.destroy } :=
  same_finished (same_onQueues (same_quiet.credits (s.staged.map (·.bytes)) s))

-- Steps that neither open a generation nor ask for one

def Command.isControl (command : Command) : Bool :=
  match command.body with
  | .control _ _ => true
  | _ => false

structure Plain (c : SessionContext) (command : Command) : Prop where
  session : command.session = c.id
  body : command.body = .close ∨ ∃ bytes units, command.body = .credit bytes units

structure Stays (c : SessionContext) (s s' : NativeSession) : Prop where
  state : s'.currentState = s.currentState ∨ s'.stopped ∧ s'.pending = none
  stopped : s.stopped → s'.stopped
  closed : s'.currentState = .closed ↔ s.currentState = .closed
  pending : s'.pending = s.pending ∨ s'.stopped ∧ s'.pending = none
  generation : s'.currentGeneration = s.currentGeneration
  expected : s'.expectedGeneration = s.expectedGeneration
  sequence : s.commandSequence ≤ s'.commandSequence
  openSent : s'.openSent = s.openSent
  audio : s'.audio = s.audio
  backchannel : s'.backchannel.map (·.sequence) = s.backchannel.map (·.sequence)
  commands : ∃ written, s'.commands = s.commands ++ written ∧ ∀ x ∈ written, Plain c x
  receipt : s'.receipt = s.receipt
  remote : s'.remote = s.remote
  closing : s'.closeSequence = s.closeSequence ∨ s.stopped = false ∧ s'.stopped
  closes : ∀ x ∈ s'.commands, x.body = .close → x ∈ s.commands ∨
    s.stopped = false ∧ s'.stopped ∧ x.sequence = s'.closeSequence ∧ x.sequence ≤ s'.commandSequence

theorem Stays.of_same (h : Same s s') : Stays c s s' where
  state := .inl (congrArg Core.currentState h)
  stopped := fun hs => by
    have hst : s'.currentState = s.currentState := congrArg Core.currentState h
    unfold NativeSession.stopped at hs ⊢
    rwa [hst]
  closed := Eq.congr_left (congrArg Core.currentState h)
  pending := .inl (congrArg Core.pending h)
  generation := congrArg Core.currentGeneration h
  expected := congrArg Core.expectedGeneration h
  sequence := (congrArg Core.commandSequence h).ge
  openSent := congrArg Core.openSent h
  audio := congrArg Core.audio h
  backchannel := congrArg (·.map (·.sequence)) (congrArg Core.backchannel h)
  commands := ⟨[], (congrArg Core.commands h).trans (List.append_nil _).symm, fun _ hx => nomatch hx⟩
  receipt := congrArg Core.receipt h
  remote := congrArg Core.remote h
  closing := .inl (congrArg Core.closeSequence h)
  closes x hx _ := .inl ((show s'.commands = s.commands from congrArg Core.commands h) ▸ hx)

theorem Stays.refl (s : NativeSession) : Stays c s s := .of_same rfl

theorem running_of {s s' : NativeSession} (h : s'.stopped = false) (hs : s.stopped → s'.stopped) :
    s.stopped = false := by
  cases hr : s.stopped with
  | false => rfl
  | true =>
    rw [hs hr] at h
    cases h

theorem Stays.trans (h₁ : Stays c s s') (h₂ : Stays c s' s'') : Stays c s s'' where
  state := by
    rcases h₂.state with h | h
    · rcases h₁.state with h' | ⟨hs, hp⟩
      · exact .inl (h.trans h')
      · refine .inr ⟨h₂.stopped hs, ?_⟩
        rcases h₂.pending with hp' | hp'
        · exact hp'.trans hp
        · exact hp'.2
    · exact .inr h
  stopped := fun hs => h₂.stopped (h₁.stopped hs)
  closed := h₂.closed.trans h₁.closed
  pending := by
    rcases h₂.pending with h | h
    · rcases h₁.pending with h' | h'
      · exact .inl (h.trans h')
      · exact .inr ⟨h₂.stopped h'.1, h.trans h'.2⟩
    · exact .inr h
  generation := h₂.generation.trans h₁.generation
  expected := h₂.expected.trans h₁.expected
  sequence := h₁.sequence.trans h₂.sequence
  openSent := h₂.openSent.trans h₁.openSent
  audio := h₂.audio.trans h₁.audio
  backchannel := h₂.backchannel.trans h₁.backchannel
  commands := by
    obtain ⟨l₁, he₁, hp₁⟩ := h₁.commands
    obtain ⟨l₂, he₂, hp₂⟩ := h₂.commands
    refine ⟨l₁ ++ l₂, by rw [he₂, he₁, List.append_assoc], fun x hx => ?_⟩
    exact (List.mem_append.mp hx).elim (hp₁ x) (hp₂ x)
  receipt := h₂.receipt.trans h₁.receipt
  remote := h₂.remote.trans h₁.remote
  closing := by
    rcases h₂.closing with h | ⟨hr, hs⟩
    · rcases h₁.closing with h' | ⟨hr', hs'⟩
      · exact .inl (h.trans h')
      · exact .inr ⟨hr', h₂.stopped hs'⟩
    · exact .inr ⟨running_of hr h₁.stopped, hs⟩
  closes x hx hb := by
    rcases h₂.closes x hx hb with h | ⟨hr, hs, he, hle⟩
    · rcases h₁.closes x h hb with h | ⟨hr, hs, he, hle⟩
      · exact .inl h
      · refine .inr ⟨hr, h₂.stopped hs, he.trans ?_, hle.trans h₂.sequence⟩
        rcases h₂.closing with h' | ⟨hr', -⟩
        · exact h'.symm
        · rw [hs] at hr'
          cases hr'
    · exact .inr ⟨running_of hr h₁.stopped, hs, he, hle⟩

instance : IsTrans NativeSession (Stays c) := ⟨fun _ _ _ => Stays.trans⟩

theorem stays_allocate : Keeps (Stays c) allocateSequence := by
  refine .bind (.get .refl) fun s => ?_
  split
  · exact .throw .refl _
  · refine .bind (.modify fun s => ?_) fun _ => .pure .refl _
    exact { Stays.refl (c := c) s with sequence := Nat.le_succ _, closes := fun _ hx _ => .inl hx }

theorem run_allocate (s : NativeSession) : allocateSequence s =
    if s.commandSequence = 0xffffffff then
      (.error ⟨.invalidValue, "Native media command sequence exhausted", .notSent⟩, s)
    else (.ok (s.commandSequence + 1), { s with commandSequence := s.commandSequence + 1 }) := by
  simp only [allocateSequence, run_get_bind]
  split <;> rfl

theorem stays_sendCredit (bytes units sequence : Nat) (s : NativeSession) :
    Stays c s (s.send c (.credit bytes units) sequence) := by
  unfold send
  dsimp only
  split
  · refine { Stays.refl (c := c) s with
      commands := ⟨[_], rfl, fun x hx => ?_⟩
      closes := fun x hx hb => .inl ?_ }
    · rw [List.mem_singleton.mp hx]
      exact ⟨rfl, .inr ⟨_, _, rfl⟩⟩
    · rcases List.mem_append.mp hx with hx | hx
      · exact hx
      · rw [List.mem_singleton.mp hx] at hb
        cases hb
  · exact { Stays.refl (c := c) s with }

theorem stays_flushCredits : Keeps (Stays c) (flushCredits c) := by
  refine .bind (.get .refl) fun s => ?_
  split
  · exact .pure .refl _
  · split
    · exact .throw .refl _
    · split
      · exact .throw .refl _
      · refine .bind (.modify fun s => .of_same rfl) fun _ => .bind stays_allocate fun sequence => ?_
        exact .modify fun s => stays_sendCredit _ _ _ s

theorem map_destroy (b : Option BackchannelWritable) :
    (b.map BackchannelWritable.destroy).map (·.sequence) = b.map (·.sequence) := by
  cases b <;> rfl

theorem stays_finishReaders (s : NativeSession) : Stays c s s.finishReaders := by
  have h := core_finishReaders s
  have hs : Stays c s { s with backchannel := s.backchannel.map BackchannelWritable.destroy } :=
    { Stays.refl (c := c) s with backchannel := map_destroy _ }
  exact hs.trans (.of_same h)

theorem stays_halted (h : s.stopped = false) : Stays c s s.halted :=
  { Stays.refl (c := c) s with
    state := .inr ⟨rfl, rfl⟩, stopped := fun _ => rfl, pending := .inr ⟨rfl, rfl⟩, closing := .inl rfl
    closed := ⟨nofun, fun hc => by simp [NativeSession.stopped, hc] at h⟩
    closes := fun _ hx _ => .inl hx }

theorem beginClose_running (h : s.stopped = false) :
    Stays c s (s.beginClose c) ∧ (s.beginClose c).stopped ∧ (s.beginClose c).pending = none := by
  unfold beginClose
  rw [if_neg (by rw [h]; exact Bool.false_ne_true)]
  dsimp only
  have hcore := core_finishReaders s.halted
  have h₁ : Stays c s s.halted.finishReaders := (stays_halted h).trans (stays_finishReaders _)
  generalize s.halted.finishReaders = s₁ at h₁ hcore
  have hstate : s₁.currentState = .closing := congrArg Core.currentState hcore
  have hpending : s₁.pending = none := congrArg Core.pending hcore
  have hcommands : s₁.commands = s.commands := congrArg Core.commands hcore
  have hstopped : s₁.stopped = true := by simp [NativeSession.stopped, hstate]
  have h₂ : Stays c s { s₁ with secretsOpen := false, audioOpen := false } := { h₁ with }
  split
  · rw [run_allocate]
    by_cases hmax : s₁.commandSequence = 0xffffffff
    · rw [if_pos hmax]
      exact ⟨h₂, hstopped, hpending⟩
    · rw [if_neg hmax]
      dsimp only
      unfold send
      dsimp only
      split
      · refine ⟨{ h₂ with
          sequence := h₁.sequence.trans (Nat.le_succ _)
          commands := ⟨[_], congrArg (· ++ _) hcommands, fun x hx => ?_⟩
          closing := .inr ⟨h, hstopped⟩
          closes := fun x hx _ => ?_ }, hstopped, hpending⟩
        · rw [List.mem_singleton.mp hx]
          exact ⟨rfl, .inl rfl⟩
        · rcases List.mem_append.mp hx with hx | hx
          · exact .inl (hcommands ▸ hx)
          · rw [List.mem_singleton.mp hx]
            exact .inr ⟨h, hstopped, rfl, le_rfl⟩
      · refine ⟨{ h₂ with
          sequence := h₁.sequence.trans (Nat.le_succ _)
          closing := .inr ⟨h, hstopped⟩
          closes := fun x hx _ => .inl (hcommands ▸ hx) }, hstopped, hpending⟩
  · exact ⟨{ h₂ with }, hstopped, hpending⟩

theorem stays_beginClose (s : NativeSession) : Stays c s (s.beginClose c) := by
  cases h : s.stopped with
  | true =>
    unfold beginClose
    rw [if_pos h]
    exact .refl s
  | false => exact (beginClose_running h).1

theorem beginClose_stopped (h : s.stopped = false) : (s.beginClose c).stopped ∧ (s.beginClose c).pending = none :=
  (beginClose_running h).2

theorem stays_fail (e : OnvifError) (s : NativeSession) : Stays c s (s.fail c e) := by
  unfold fail
  split
  · exact .refl s
  · have h : Stays c s { s with failure := some (s.failure.getD e) } := { Stays.refl (c := c) s with }
    exact h.trans (stays_beginClose _)

theorem stays_caught {m : M Unit} (h : Keeps (Stays c) m) (s : NativeSession) : Stays c s (caught c m s) := by
  have hm := h s
  unfold caught
  generalize m s = r at hm
  obtain ⟨r, s'⟩ := r
  cases r with
  | ok => exact hm
  | error e => exact hm.trans (stays_fail e s')

theorem Stays.keeps {α : Type} {m : M α} (h : Keeps Same m) : Keeps (Stays c) m := fun s => .of_same (h s)

-- Steps that open a generation or ask for one

structure OpenSent (c : SessionContext) (s s₁ : NativeSession) : Prop where
  encoded : c.encodeOpen = .ok ()
  opening : s.currentState = .opening
  state : s₁.currentState = .opening
  pending : s₁.pending = s.pending
  generation : s₁.currentGeneration = s.currentGeneration
  expected : s₁.expectedGeneration = s.expectedGeneration
  sequence : s₁.commandSequence = s.commandSequence + 1
  openSent : s₁.openSent = true
  correlated : s₁.openSequence = s₁.commandSequence
  audio : s₁.audio = s.audio
  backchannel : s₁.backchannel = s.backchannel
  commands : s₁.commands = s.commands ∨ s₁.commands = s.commands ++ [⟨.open_, c.id, 0, s₁.commandSequence⟩]
  receipt : s₁.receipt = s.receipt
  remote : s₁.remote = s.remote
  closeSequence : s₁.closeSequence = s.closeSequence

structure Readied (frame : ControlFrame) (tracks : List MediaTrack) (s s₁ : NativeSession) : Prop where
  opening : s.currentState = .opening
  correlated : s.openSent ∧ frame.generation = 1 ∧ frame.sequence = s.openSequence
  state : s₁.currentState = .playing
  pending : s₁.pending = s.pending
  generation : s₁.currentGeneration = 1
  expected : s₁.expectedGeneration = s.expectedGeneration
  sequence : s₁.commandSequence = s.commandSequence
  openSent : s₁.openSent = s.openSent
  audio : s₁.audio = s.audio
  backchannel : s₁.backchannel = if tracks.any (·.id = 4) then some {} else s.backchannel
  commands : s₁.commands = s.commands
  receipt : s₁.receipt = s.receipt
  remote : s₁.remote = s.remote
  closeSequence : s₁.closeSequence = s.closeSequence

structure Acknowledged (frame : ControlFrame) (kind : ControlKind) (paused : Bool) (asked : PendingControl)
    (s s₁ : NativeSession) : Prop where
  pending : s.pending = some asked
  running : s.stopped = false
  agrees : acknowledges asked frame kind paused
  state : s₁.currentState = if asked.kind = .pause then .paused else .playing
  cleared : s₁.pending = none
  generation : s₁.currentGeneration = frame.generation
  expected : s₁.expectedGeneration = s.expectedGeneration
  sequence : s₁.commandSequence = s.commandSequence
  openSent : s₁.openSent = s.openSent
  audio : s₁.audio = s.audio
  backchannel : s₁.backchannel = s.backchannel
  commands : s₁.commands = s.commands
  receipt : s₁.receipt = s.receipt
  remote : s₁.remote = s.remote
  closeSequence : s₁.closeSequence = s.closeSequence

/-- A control is pending, and its command written unless its pipe is full. -/
structure Commanded (c : SessionContext) (kind : ControlKind) (range : Option (Nat × Nat)) (s s₁ : NativeSession) :
    Prop where
  accepted : s.refusal kind c = none
  state : s₁.currentState = s.currentState
  pending : s₁.pending = some ⟨kind, s₁.commandSequence, s₁.expectedGeneration⟩
  generation : s₁.currentGeneration = s.currentGeneration
  expected : s₁.expectedGeneration = s.currentGeneration + if kind = .pause then 0 else 1
  sequence : s₁.commandSequence = s.commandSequence + 1
  openSent : s₁.openSent = s.openSent
  audio : s₁.audio = s.audio
  backchannel : s₁.backchannel = s.backchannel
  commands : s₁.commands = s.commands ∨
    s₁.commands = s.commands ++ [⟨.control kind range, c.id, s.currentGeneration, s₁.commandSequence⟩]
  receipt : s₁.receipt = s.receipt
  remote : s₁.remote = s.remote
  closeSequence : s₁.closeSequence = s.closeSequence

structure Written (c : SessionContext) (s s₁ : NativeSession) : Prop where
  writable : s.canWrite
  state : s₁.currentState = s.currentState
  pending : s₁.pending = s.pending
  generation : s₁.currentGeneration = s.currentGeneration
  expected : s₁.expectedGeneration = s.expectedGeneration
  sequence : s₁.commandSequence = s.commandSequence
  openSent : s₁.openSent = s.openSent
  commands : s₁.commands = s.commands
  audio : ∃ w w₁ samples, s.backchannel = some w ∧ s₁.backchannel = some w₁ ∧ w₁.sequence = w.sequence + 1 ∧
    (s₁.audio = s.audio ∨ s₁.audio = s.audio ++ [⟨c.id, s.currentGeneration, w₁.sequence, samples⟩])
  receipt : s₁.receipt = s.receipt
  remote : s₁.remote = s.remote
  closeSequence : s₁.closeSequence = s.closeSequence

structure Received (frame : ControlFrame) (s : NativeSession) : Prop where
  first : s.receipt = none
  current : s.currentGeneration ≤ frame.generation
  correlated : frame.sequence = 0 ∨ frame.sequence = s.closeSequence

-- Control frames

theorem stays_hello (frame : ControlFrame) (controls : Option (List ControlKind)) :
    Keeps (Stays c) (hello c frame controls) := by
  refine .bind (.get .refl) fun s => ?_
  split
  · exact .throw .refl _
  · split
    · exact .throw .refl _
    · refine .bind (.modify fun s => { Stays.refl (c := c) s with }) fun _ => ?_
      split
      · exact .pure .refl _
      · split
        · exact .modify fun s => { Stays.refl (c := c) s with }
        · exact .modify fun s => { Stays.refl (c := c) s with }
        · exact .modify fun s => { Stays.refl (c := c) s with }

theorem stays_nativeError (code : String) : Keeps (Stays c) (nativeError c code) := by
  unfold nativeError
  split
  · exact .throw .refl _
  · exact .modify fun s => stays_fail _ s

theorem stays_endFrame (frame : ControlFrame) (watermark : Nat) : Keeps (Stays c) (endFrame frame watermark) := by
  refine .bind (.get .refl) fun s => ?_
  split
  · exact .throw .refl _
  · split
    · exact .pure .refl _
    · split
      · exact .throw .refl _
      · exact .bind (.modify fun s => .of_same rfl) fun _ => .keeps same_finishGeneration

theorem caught_congr {m : M Unit} (m' : M Unit) (h : m s = m' s) : caught c m s = caught c m' s := by
  unfold caught
  rw [h]

theorem not_received (frame : ControlFrame) (s : NativeSession) : ¬Received frame s ↔
    s.receipt.isSome ∨ frame.generation < s.currentGeneration ∨
      (frame.sequence ≠ 0 ∧ frame.sequence ≠ s.closeSequence) := by
  rw [← not_iff_not, not_not]
  simp only [not_or, not_lt, Bool.not_eq_true, Option.isSome_eq_false_iff, Option.isNone_iff_eq_none]
  exact ⟨fun h => ⟨h.first, h.current, by have := h.correlated; tauto⟩, fun ⟨h₁, h₂, h₃⟩ => ⟨h₁, h₂, by tauto⟩⟩

theorem closedFrame_received (remote : MediaRemote) (hr : Received frame s) :
    Stays c { s with receipt := some remote } (caught c (closedFrame c frame (some remote)) s) := by
  have h := not_not.mpr hr
  rw [not_received] at h
  unfold caught
  simp only [closedFrame, run_get_bind]
  rw [if_neg h]
  simp only [run_modify_bind]
  split
  · rename_i hrun
    split at hrun
    · rw [← (Prod.mk.inj hrun).2]
      exact .refl _
    · rw [← (Prod.mk.inj hrun).2]
      refine Stays.trans ?_ (stays_beginClose _)
      exact { Stays.refl (c := c) { s with receipt := some remote } with }
  · rename_i hrun
    split at hrun <;> cases hrun

theorem closedFrame_cases (frame : ControlFrame) (remote : Option MediaRemote) (s : NativeSession) :
    Stays c s (caught c (closedFrame c frame remote) s) ∨
      ∃ remote', remote = some remote' ∧ Received frame s ∧
        Stays c { s with receipt := some remote' } (caught c (closedFrame c frame remote) s) := by
  by_cases hr : Received frame s
  · cases remote with
    | none =>
      have h := not_not.mpr hr
      rw [not_received] at h
      rw [caught_congr (c := c) (s := s) (.throw _) (by simp only [closedFrame, run_get_bind]; rw [if_neg h])]
      exact .inl (stays_caught (.throw .refl _) s)
    | some remote => exact .inr ⟨remote, rfl, hr, closedFrame_received remote hr⟩
  · have h := (not_received frame s).mp hr
    rw [caught_congr (c := c) (s := s) (.throw _) (by simp only [closedFrame, run_get_bind]; rw [if_pos h])]
    exact .inl (stays_caught (.throw .refl _) s)

theorem ready_cases (frame : ControlFrame) (tracks : Option (List MediaTrack)) (s : NativeSession) :
    Stays c s (caught c (ready c frame tracks) s) ∨
      ∃ tracks' s₁, tracks = some tracks' ∧ Readied frame tracks' s s₁ ∧
      Stays c s₁ (caught c (ready c frame tracks) s) := by
  by_cases hc : s.currentState = .closing ∧ s.openSent ∧ frame.generation = 1 ∧ frame.sequence = s.openSequence
  · rw [caught_congr (c := c) (s := s) (do let _ ← .lift _) (by simp only [ready, run_get_bind]; rw [if_pos hc])]
    exact .inl (stays_caught (.bind (.lift .refl _) fun _ => .pure .refl _) s)
  · by_cases ho : s.currentState ≠ .opening ∨ ¬(s.openSent ∧ frame.generation = 1 ∧ frame.sequence = s.openSequence)
    · rw [caught_congr (c := c) (s := s) (.throw _) (by simp only [ready, run_get_bind]; rw [if_neg hc, if_pos ho])]
      exact .inl (stays_caught (.throw .refl _) s)
    · rw [not_or, not_not, not_not] at ho
      cases tracks with
      | none =>
        rw [caught_congr (c := c) (s := s) (.throw _) (by
          simp only [ready, run_get_bind]
          rw [if_neg hc, if_neg (by rw [not_or, not_not, not_not]; exact ho)]
          rfl)]
        exact .inl (stays_caught (.throw .refl _) s)
      | some tracks =>
        refine .inr ⟨tracks, { s with
          negotiated := tracks, currentGeneration := 1, currentState := .playing
          backchannel := if tracks.any (·.id = 4) then some {} else s.backchannel
          audioOpen := s.audioOpen && tracks.any (·.id = 4) }, rfl,
          ⟨ho.1, ho.2, rfl, rfl, rfl, rfl, rfl, rfl, rfl, rfl, rfl, rfl, rfl, rfl⟩, ?_⟩
        rw [caught_congr (c := c) (s := s) (fun _ => flushStaged c { s with
          negotiated := tracks, currentGeneration := 1, currentState := .playing
          backchannel := if tracks.any (·.id = 4) then some {} else s.backchannel
          audioOpen := s.audioOpen && tracks.any (·.id = 4) }) (by
            simp only [ready, run_get_bind]
            rw [if_neg hc, if_neg (by rw [not_or, not_not, not_not]; exact ho)]
            rfl)]
        exact stays_caught (.keeps same_flushStaged) _

theorem Stays.cleared (h : Stays c s s') : Stays c { s with pending := none } { s' with pending := none } :=
  { h with state := h.state.imp_right fun hs => ⟨hs.1, rfl⟩, pending := .inl rfl }

theorem fail_stopped (e : OnvifError) (h : s.stopped = false) : (s.fail c e).stopped ∧
    (s.fail c e).pending = none := by
  unfold fail
  rw [if_neg fun hc => by simp [NativeSession.stopped, hc] at h]
  exact beginClose_stopped (s := { s with failure := some (s.failure.getD e) }) h

theorem stays_settle (hr : s.stopped = false) : Stays c { s with pending := none } (caught c (do
    flushStaged c
    .modify fun s => { s with pending := none }
    finishGeneration) s) := by
  have hflush : Same s (flushStaged c s).2 := same_flushStaged s
  unfold caught
  rw [run_bind]
  generalize flushStaged c s = r at hflush
  obtain ⟨r, s₂⟩ := r
  have hstays : Stays c s s₂ := .of_same hflush
  cases r with
  | ok =>
    refine hstays.cleared.trans ?_
    exact stays_caught (m := finishGeneration) (.keeps same_finishGeneration) { s₂ with pending := none }
  | error e =>
    have hr₂ : s₂.stopped = false := by
      have hst : s₂.currentState = s.currentState := congrArg Core.currentState hflush
      unfold NativeSession.stopped at hr ⊢
      rwa [hst]
    have hstop := fail_stopped (c := c) e hr₂
    exact { hstays.trans (stays_fail e s₂) with state := .inr hstop, pending := .inr hstop }

theorem acknowledged_cases (frame : ControlFrame) (kind : ControlKind) (paused : Bool)
    (hr : s.pending.isSome → s.stopped = false) :
    Stays c s (caught c (acknowledged c frame kind paused) s) ∨
      ∃ asked s₁, Acknowledged frame kind paused asked s s₁ ∧
      Stays c s₁ (caught c (acknowledged c frame kind paused) s) := by
  cases hp : (s.pending <|> if s.currentState = .closing then s.abandoned else none) with
  | none =>
    rw [caught_congr (c := c) (s := s) (.throw _) (by simp only [acknowledged, run_get_bind, hp]; rfl)]
    exact .inl (stays_caught (.throw .refl _) s)
  | some asked =>
    by_cases ha : acknowledges asked frame kind paused
    · by_cases hc : s.currentState = .closing
      · have hstays : Stays c s { s with abandoned := none } := { Stays.refl (c := c) s with }
        left
        unfold caught
        simp only [acknowledged, run_get_bind, hp]
        rw [if_neg (not_not.mpr ha), if_pos hc]
        exact hstays
      · have hpending : s.pending = some asked := by
          rw [if_neg hc] at hp
          cases hs : s.pending with
          | none => rw [hs] at hp; cases hp
          | some p => rw [hs] at hp; exact hp
        have hrun := hr (by rw [hpending]; rfl)
        refine .inr ⟨asked, { s with
          currentGeneration := frame.generation, currentState := if asked.kind = .pause then .paused else .playing
          pending := none }, ⟨hpending, hrun, ha, rfl, rfl, rfl, rfl, rfl, rfl, rfl, rfl, rfl,
            rfl, rfl, rfl⟩, ?_⟩
        have heq : caught c (acknowledged c frame kind paused) s = caught c (do
            flushStaged c
            .modify fun s => { s with pending := none }
            finishGeneration) { s with
              currentGeneration := frame.generation, currentState := if asked.kind = .pause then .paused else .playing } := by
          unfold caught
          simp only [acknowledged, run_get_bind, hp]
          rw [if_neg (not_not.mpr ha), if_neg hc]
          rfl
        rw [heq]
        refine stays_settle (s := { s with
          currentGeneration := frame.generation, currentState := if asked.kind = .pause then .paused else .playing }) ?_
        unfold NativeSession.stopped
        dsimp only
        split <;> rfl
    · rw [caught_congr (c := c) (s := s) (.throw _) (by
        simp only [acknowledged, run_get_bind, hp]
        rw [if_pos ha])]
      exact .inl (stays_caught (.throw .refl _) s)

-- The other inputs

theorem sendOpen_cases (s : NativeSession) :
    Stays c s (caught c (sendOpen c) s) ∨ ∃ s₁, OpenSent c s s₁ ∧ Stays c s₁ (caught c (sendOpen c) s) := by
  have h₀ : Stays c s { s with secretsOpen := false } := { Stays.refl (c := c) s with }
  by_cases hs : s.currentState = .opening
  · cases he : c.encodeOpen with
    | error e =>
      left
      rw [caught_congr (c := c) (s := s) (fun _ => (.error e, { s with secretsOpen := false })) (by
        simp only [sendOpen, run_modify_bind, run_get_bind, he]
        rw [if_neg (not_not.mpr hs)]
        rfl)]
      exact h₀.trans (stays_fail e _)
    | ok =>
      by_cases hmax : s.commandSequence = 0xffffffff
      · left
        rw [caught_congr (c := c) (s := s) (fun _ => (.error
            ⟨.invalidValue, "Native media command sequence exhausted", .notSent⟩, { s with secretsOpen := false })) (by
          simp only [sendOpen, allocateSequence, run_modify_bind, run_get_bind, he]
          rw [if_neg (not_not.mpr hs)]
          simp only [run_bind, run_lift, run_get]
          rw [if_pos hmax]
          rfl)]
        exact h₀.trans (stays_fail _ _)
      · right
        refine ⟨{ s with
          secretsOpen := false, commandSequence := s.commandSequence + 1
          openSequence := s.commandSequence + 1, openSent := true, opening := .sending }.send c .open_
            (s.commandSequence + 1) (some 0), ?_, ?_⟩
        · unfold send
          dsimp only
          split
          · exact ⟨he, hs, hs, rfl, rfl, rfl, rfl, rfl, rfl, rfl, rfl, .inr rfl, rfl, rfl, rfl⟩
          · exact ⟨he, hs, hs, rfl, rfl, rfl, rfl, rfl, rfl, rfl, rfl, .inl rfl, rfl, rfl, rfl⟩
        · rw [caught_congr (c := c) (s := s) (fun _ => (.ok (), { s with
            secretsOpen := false, commandSequence := s.commandSequence + 1
            openSequence := s.commandSequence + 1, openSent := true, opening := .sending }.send c .open_
              (s.commandSequence + 1) (some 0))) (by
            simp only [sendOpen, allocateSequence, run_modify_bind, run_get_bind, he]
            rw [if_neg (not_not.mpr hs)]
            simp only [run_bind, run_lift, run_get]
            rw [if_neg hmax]
            rfl)]
          exact .refl _
  · left
    rw [caught_congr (c := c) (s := s) (fun _ => (.error
        ⟨.transportError, "Media operation was aborted", .notSent⟩, { s with secretsOpen := false })) (by
      simp only [sendOpen, run_modify_bind, run_get_bind]
      rw [if_pos hs]
      rfl)]
    exact h₀.trans (stays_fail _ _)

theorem continueOpen_cases (result : Except OnvifError Unit) (s : NativeSession) :
    Stays c s (s.continueOpen c result) ∨
      result = .ok () ∧ s.opening = .securing ∧ ∃ s₁, OpenSent c s s₁ ∧ Stays c s₁ (s.continueOpen c result) := by
  have h₀ : Stays c s { s with opening := .settled } := { Stays.refl (c := c) s with }
  unfold continueOpen
  split
  · exact .inl (h₀.trans (stays_fail _ _))
  · rename_i hs
    rcases sendOpen_cases (c := c) { s with opening := .settled } with h | ⟨s₁, ho, h⟩
    · exact .inl (h₀.trans h)
    · exact .inr ⟨rfl, hs, s₁, { ho with }, h⟩
  · exact .inl (h₀.trans (stays_fail _ _))
  · exact .inl (h₀.trans (stays_fail _ _))
  · exact .inl h₀
  · exact .inl (.refl s)

def asking (kind : ControlKind) (s : NativeSession) : NativeSession :=
  let generation := s.currentGeneration + if kind = .pause then 0 else 1
  { s with
    senderReports := fun _ => none, commandSequence := s.commandSequence + 1, expectedGeneration := generation
    pending := some ⟨kind, s.commandSequence + 1, generation⟩ }

theorem commanded_of_same (range : Option (Nat × Nat)) (hr : s.refusal kind c = none)
    (h : Same (s.asking kind) s') :
    Commanded c kind range s s' where
  accepted := hr
  state := congrArg Core.currentState h
  pending := by
    rw [show s'.pending = _ from congrArg Core.pending h, show s'.commandSequence = _ from congrArg Core.commandSequence h,
      show s'.expectedGeneration = _ from congrArg Core.expectedGeneration h]
    rfl
  generation := congrArg Core.currentGeneration h
  expected := congrArg Core.expectedGeneration h
  sequence := congrArg Core.commandSequence h
  openSent := congrArg Core.openSent h
  audio := congrArg Core.audio h
  backchannel := congrArg Core.backchannel h
  commands := .inl (congrArg Core.commands h)
  receipt := congrArg Core.receipt h
  remote := congrArg Core.remote h
  closeSequence := congrArg Core.closeSequence h

theorem commanded_send {sequence : Nat} (range : Option (Nat × Nat)) (h : Commanded c kind range s s')
    (hs : s'.commands = s.commands)
    (hn : sequence = s'.commandSequence) :
    Commanded c kind range s (s'.send c (.control kind range) sequence) := by
  unfold send
  dsimp only
  split
  · refine { h with commands := .inr ?_ }
    rw [hn, ← h.generation, hs]
    rfl
  · exact { h with }

theorem command_cases (kind : ControlKind) (range : Option (Nat × Nat)) (s : NativeSession) :
    Stays c s (command c kind range s).2 ∨ Commanded c kind range s (command c kind range s).2 := by
  cases hr : s.refusal kind c with
  | some e =>
    left
    simp only [command, run_get_bind, hr]
    exact .refl s
  | none =>
    simp only [command, run_get_bind, hr]
    cases hv : range.elim (.ok ()) c.validateReplayRange with
    | error e => exact .inl (.refl s)
    | ok =>
      by_cases hg : kind ≠ .pause ∧ s.currentGeneration = 0xffffffff
      · left
        simp only [run_bind, run_lift]
        rw [if_pos hg]
        exact .refl s
      · by_cases hmax : s.commandSequence = 0xffffffff
        · left
          simp only [run_bind, run_lift]
          rw [if_neg hg]
          simp only [run_bind, run_modify, run_allocate]
          rw [if_pos hmax]
          exact .of_same rfl
        · right
          simp only [run_bind, run_lift]
          rw [if_neg hg]
          simp only [run_bind, run_modify, run_allocate]
          rw [if_neg hmax]
          have hqueues : Same (s.asking kind) ((s.asking kind).onQueues (·.discard.1) (·.discard.1) (·.discard.1)) :=
            same_onQueues rfl
          have hsame := trans_of Same hqueues (same_reopen kind _)
          change Commanded c kind range s ((do
            reopen kind
            .modify (send c (.control kind range) (s.commandSequence + 1)) : M Unit)
              ((s.asking kind).onQueues (·.discard.1) (·.discard.1) (·.discard.1))).2
          rw [run_bind]
          generalize reopen kind _ = r at hsame
          obtain ⟨r, s'⟩ := r
          have h := commanded_of_same range hr hsame
          cases r with
          | ok => exact commanded_send range h (congrArg Core.commands hsame) h.sequence.symm
          | error => exact h

theorem stays_setBackchannel {w w' : BackchannelWritable} (hb : s.backchannel = some w)
    (h : w'.sequence = w.sequence) :
    Stays c s (s.setBackchannel w') :=
  { Stays.refl (c := c) s with backchannel := by simp [setBackchannel, hb, h] }

theorem stays_destroyBackchannel (s : NativeSession) : Stays c s s.destroyBackchannel := by
  unfold destroyBackchannel
  split
  · rename_i w hw
    exact { Stays.refl (c := c) s with backchannel := by simp [hw, BackchannelWritable.destroy] }
  · exact .refl s

theorem stays_finalBackchannel (s : NativeSession) : Stays c s s.finalBackchannel := by
  unfold finalBackchannel
  split
  · split
    · exact { Stays.refl (c := c) s with }
    · exact .refl s
  · exact .refl s

theorem writeChunk_cases {w w' : BackchannelWritable} (chunk : Chunk) (hb : s.backchannel = some w)
    (h : w'.sequence = w.sequence) : Stays c s (s.writeChunk c chunk w') ∨
    Written c s (s.writeChunk c chunk w') := by
  unfold writeChunk
  split
  · exact .inl ((stays_setBackchannel hb h).trans (stays_destroyBackchannel _))
  · rename_i hno
    rw [not_or, not_not] at hno
    right
    refine ⟨hno.1, rfl, rfl, rfl, rfl, rfl, rfl, rfl, ⟨w, _, chunk.samples, hb, rfl, by rw [h], ?_⟩, rfl, rfl, rfl⟩
    dsimp only [setBackchannel]
    split
    · exact .inr rfl
    · exact .inl rfl

theorem writeBackchannel_cases (chunk : Chunk) (s : NativeSession) :
    Stays c s (s.writeBackchannel c chunk) ∨ Written c s (s.writeBackchannel c chunk) := by
  unfold writeBackchannel
  split
  · exact .inl (.refl s)
  · rename_i w hb
    split
    · exact .inl (.refl s)
    · split
      · exact .inl (stays_destroyBackchannel s)
      · split
        · exact .inl (stays_setBackchannel hb rfl)
        · exact writeChunk_cases chunk hb rfl

theorem stays_transmitted (result : Except OnvifError Unit) (s : NativeSession) :
    Stays c s (s.transmitted result) := by
  unfold transmitted
  split
  · exact .refl s
  · rename_i w hb
    split
    · exact stays_setBackchannel hb rfl
    · exact stays_destroyBackchannel s
    · exact .refl s

theorem paced_cases (s : NativeSession) : Stays c s (s.paced c) ∨ Written c s (s.paced c) := by
  unfold paced
  split
  · exact .inl (.refl s)
  · rename_i w hb
    split
    · have h : Stays c s (s.setBackchannel { w with writing := none }) := stays_setBackchannel hb rfl
      exact .inl (h.trans (stays_finalBackchannel _))
    · exact writeChunk_cases _ hb rfl
    · exact .inl (.refl s)

theorem stays_endBackchannel (s : NativeSession) : Stays c s s.endBackchannel := by
  unfold endBackchannel
  split
  · exact .refl s
  · rename_i w hb
    split
    · exact .refl s
    · have h : Stays c s (s.setBackchannel { w with ending := true }) := stays_setBackchannel hb rfl
      exact h.trans (stays_finalBackchannel _)

theorem stays_failIf (p : Prop) [Decidable p] (e : OnvifError) (s : NativeSession) :
    Stays c s (if p then s.fail c e else s) := by
  split
  · exact stays_fail e s
  · exact .refl s

theorem stays_watchdog (incomplete ending : Bool) (s : NativeSession) :
    Stays c s (s.watchdog c incomplete ending) := by
  have hcredits : Keeps (Stays c) (flushCredits c) := stays_flushCredits
  unfold watchdog
  exact (stays_failIf _ _ s).trans ((stays_failIf _ _ _).trans (stays_caught hcredits _))

theorem credits_stopped (bytes : List Nat) (h : s.stopped) : s.credits bytes = s := by
  induction bytes with
  | nil => rfl
  | cons b bytes ih =>
    have hb : s.credit b = s := by
      unfold credit
      rw [if_pos h]
    change (s.credit b).credits bytes = s
    rw [hb, ih]

theorem onQueues_stopped (packets : BoundedMediaQueue NativeMediaUnit Nat → BoundedMediaQueue NativeMediaUnit Nat)
    (metadata : BoundedMediaQueue MediaMetadataUnit Nat → BoundedMediaQueue MediaMetadataUnit Nat)
    (decoded : BoundedMediaQueue MediaDecodedFrame Nat → BoundedMediaQueue MediaDecodedFrame Nat) (h : s.stopped) :
    s.onQueues packets metadata decoded = { s with
      packetQueue := packets s.packetQueue, metadataQueue := metadata s.metadataQueue
      decodedQueue := decoded s.decodedQueue } := by
  have hp : s.setPackets (packets s.packetQueue) = { s with packetQueue := packets s.packetQueue } :=
    credits_stopped _ h
  have hm (s : NativeSession) (h : s.stopped) :
      s.setMetadata (metadata s.metadataQueue) = { s with metadataQueue := metadata s.metadataQueue } :=
    credits_stopped _ h
  have hd (s : NativeSession) (h : s.stopped) :
      s.setDecoded (decoded s.decodedQueue) = { s with decodedQueue := decoded s.decodedQueue } :=
    credits_stopped _ h
  unfold onQueues
  rw [hp]
  have hs := hm { s with packetQueue := packets s.packetQueue } h
  exact (congrArg (fun s => s.setDecoded (decoded s.decodedQueue)) hs).trans (hd _ (by exact h))

theorem run_finishReaders (h : s.stopped) : s.finishReaders = { s with
    staged := [], stagedBytes := 0
    packetQueue := s.packetQueue.finish s.failure, metadataQueue := s.metadataQueue.finish s.failure
    decodedQueue := s.decodedQueue.finish s.failure
    backchannel := s.backchannel.map BackchannelWritable.destroy, creditBytes := 0, creditUnits := 0 } := by
  have hq := onQueues_stopped (s := { s with staged := [], stagedBytes := 0 })
    (·.finish s.failure) (·.finish s.failure) (·.finish s.failure) h
  unfold finishReaders
  rw [credits_stopped _ h]
  exact congrArg (fun s => ({ s with
    backchannel := s.backchannel.map BackchannelWritable.destroy, creditBytes := 0, creditUnits := 0 } : NativeSession)) hq

theorem finishReaders_closed (h : s.stopped) : ({ s with currentState := .closed } : NativeSession).finishReaders =
    { s.finishReaders with currentState := .closed } := by
  rw [run_finishReaders rfl, run_finishReaders h]

theorem departed_cases (remote : MediaRemote) (h : s.stopped) :
    ∃ s₁, Stays c s s₁ ∧ s.departed remote = { s₁ with currentState := .closed, remote := some remote } := by
  have hf : Stays c s s.finishReaders := stays_finishReaders s
  unfold departed
  rw [finishReaders_closed h]
  generalize s.finishReaders = s₁ at hf
  exact ⟨{ s₁ with commandsOpen := false, secretsOpen := false, audioOpen := false }, { hf with }, rfl⟩

theorem exits (failure : Option OnvifError) (s : NativeSession) :
    Stays c s ({ s with failure }.beginClose c) ∧
      ∃ s₁, Stays c s s₁ ∧ s₁.stopped ∧ ({ s with failure }.beginClose c).departed s.outcome =
        { s₁ with currentState := .closed, remote := some s.outcome } := by
  have hf : Stays c s { s with failure } := { Stays.refl (c := c) s with }
  have hclose := hf.trans (stays_beginClose { s with failure })
  have hstop : ({ s with failure }.beginClose c).stopped := by
    cases hs : ({ s with failure } : NativeSession).stopped with
    | true => exact (stays_beginClose { s with failure }).stopped hs
    | false => exact (beginClose_stopped hs).1
  obtain ⟨s₁, hs₁, he⟩ := departed_cases (c := c) s.outcome hstop
  exact ⟨hclose, s₁, hclose.trans hs₁, hs₁.stopped hstop, he⟩

theorem exited_cases (success : Bool) (s : NativeSession) :
    Stays c s (s.exited c success) ∨
      ∃ s₁, Stays c s s₁ ∧ s₁.stopped ∧
        s.exited c success = { s₁ with currentState := .closed, remote := some s.outcome } := by
  unfold exited
  split
  · exact .inl (.refl s)
  · extract_lets failure remote failure' s₁
    obtain ⟨hclose, hdeparted⟩ := exits (c := c) failure' s
    split
    · exact .inl hclose
    · exact .inr hdeparted

theorem stays_controlEnded (s : NativeSession) : Stays c s (s.controlEnded c) := by
  unfold controlEnded
  split
  · exact stays_fail _ s
  · exact .refl s

theorem stays_dataEnded (s : NativeSession) : Stays c s (s.dataEnded c) := by
  unfold dataEnded
  split
  · exact stays_fail _ s
  · exact .refl s

theorem stays_readFrames (read : Read) (s : NativeSession) : Stays c s (s.readFrames read) := by
  unfold readFrames
  split
  · split
    · exact .of_same (same_quiet.setDecoded _ s)
    · exact .refl s
  · exact .of_same (same_quiet.setDecoded _ s)

theorem run_control (frame : ControlFrame) (h : ∀ controls, frame.message ≠ .hello controls) (s : NativeSession) :
    control c frame s = (if ¬s.owns c frame then
      .throw ⟨.invalidValue, "Native control session, generation or correlation does not belong to this owner", .notSent⟩
    else owned c frame) s := by
  cases hm : frame.message with
  | hello controls => exact absurd hm (h controls)
  | _ => simp only [control, hm, run_get_bind]

theorem control_cases (frame : ControlFrame) (hr : s.pending.isSome → s.stopped = false) :
    Stays c s (caught c (control c frame) s) ∨
      (∃ tracks s₁, frame.message = .ready (some tracks) ∧ Readied frame tracks s s₁ ∧
        Stays c s₁ (caught c (control c frame) s)) ∨
      (∃ kind paused asked s₁, frame.message = .control kind paused ∧ Acknowledged frame kind paused asked s s₁ ∧
        Stays c s₁ (caught c (control c frame) s)) ∨
      ∃ remote, frame.message = .closed (some remote) ∧ s.owns c frame ∧ Received frame s ∧
        Stays c { s with receipt := some remote } (caught c (control c frame) s) := by
  by_cases hh : ∃ controls, frame.message = .hello controls
  · obtain ⟨controls, hm⟩ := hh
    left
    rw [caught_congr (c := c) (s := s) (hello c frame controls) (by simp only [control, hm])]
    exact stays_caught (stays_hello frame controls) s
  · by_cases ho : s.owns c frame
    · rw [caught_congr (c := c) (s := s) (owned c frame) (by
        rw [run_control frame fun controls hm => hh ⟨controls, hm⟩, if_neg (not_not.mpr ho)])]
      cases hm : frame.message with
      | hello controls => exact absurd ⟨controls, hm⟩ hh
      | error code =>
        rw [caught_congr (c := c) (s := s) (nativeError c code) (by simp only [owned, hm])]
        exact .inl (stays_caught (stays_nativeError code) s)
      | ready tracks =>
        rw [caught_congr (c := c) (s := s) (ready c frame tracks) (by simp only [owned, hm])]
        rcases ready_cases (c := c) frame tracks s with h | ⟨tracks', s₁, rfl, h⟩
        · exact .inl h
        · exact .inr (.inl ⟨tracks', s₁, rfl, h⟩)
      | control kind paused =>
        rw [caught_congr (c := c) (s := s) (acknowledged c frame kind paused) (by simp only [owned, hm])]
        rcases acknowledged_cases (c := c) frame kind paused hr with h | ⟨asked, s₁, h⟩
        · exact .inl h
        · exact .inr (.inr (.inl ⟨kind, paused, asked, s₁, rfl, h⟩))
      | closed remote =>
        rw [caught_congr (c := c) (s := s) (closedFrame c frame remote) (by simp only [owned, hm])]
        rcases closedFrame_cases (c := c) frame remote s with h | ⟨remote, rfl, hr, h⟩
        · exact .inl h
        · exact .inr (.inr (.inr ⟨remote, rfl, ho, hr, h⟩))
      | end_ watermark =>
        rw [caught_congr (c := c) (s := s) (endFrame frame watermark) (by simp only [owned, hm])]
        exact .inl (stays_caught (stays_endFrame frame watermark) s)
      | response valid | gap valid | diagnostic valid =>
        left
        refine stays_caught (m := owned c frame) ?_ s
        simp only [owned, hm]
        split
        · exact .pure .refl _
        · exact .throw .refl _
    · left
      rw [caught_congr (c := c) (s := s) (.throw _) (by
        rw [run_control frame fun controls hm => hh ⟨controls, hm⟩, if_pos ho])]
      exact stays_caught (.throw .refl _) s

theorem control_received {frame : ControlFrame} {remote : MediaRemote} (ho : s.owns c frame)
    (hm : frame.message = .closed (some remote))
    (hr : Received frame s) : Stays c { s with receipt := some remote } (s.step c (.control frame)) := by
  change Stays c _ (caught c (control c frame) s)
  rw [caught_congr (c := c) (s := s) (closedFrame c frame (some remote)) (by
    rw [run_control frame (fun controls h => ControlMessage.noConfusion (hm.symm.trans h)), if_neg (not_not.mpr ho)]
    simp only [owned, hm])]
  exact closedFrame_received remote hr

-- Every step

theorem stays_creditWritten (result : Except OnvifError Unit) (s : NativeSession) :
    Stays c s (s.creditWritten c result) := by
  have h : Stays c s { s with creditWriting := false } := { Stays.refl (c := c) s with }
  unfold creditWritten
  dsimp only
  split
  · exact h
  · split
    · exact h
    · exact h.trans (stays_fail _ _)

theorem stays_closeDeadline (s : NativeSession) : Stays c s s.closeDeadline := by
  unfold closeDeadline
  split
  · exact { Stays.refl (c := c) s with }
  · exact .refl s

inductive Move (c : SessionContext) (s : NativeSession) : SessionInput → NativeSession → Prop
  | stays (h : Stays c s t) : Move c s input t
  | openSent (hs : s.opening = .securing) (ho : OpenSent c s u) (h : Stays c u t) :
      Move c s (.openSettled (.ok ())) t
  | readied (hm : frame.message = .ready (some tracks)) (hr : Readied frame tracks s u) (h : Stays c u t) :
      Move c s (.control frame) t
  | acknowledged (hm : frame.message = .control kind paused) (ha : Acknowledged frame kind paused asked s u)
      (h : Stays c u t) : Move c s (.control frame) t
  | closed {remote : MediaRemote} (hm : frame.message = .closed (some remote)) (ho : s.owns c frame)
      (hr : Received frame s) (h : Stays c { s with receipt := some remote } t) : Move c s (.control frame) t
  | exited (h : Stays c s u) (hu : u.stopped) :
      Move c s (.exited success) { u with currentState := .closed, remote := some s.outcome }
  | commanded (h : Commanded c kind range s t) : Move c s (.command kind range) t
  | written (h : Written c s t) : Move c s input t

theorem step_move (input : SessionInput) (h : s.stopped → s.pending = none) : Move c s input (s.step c input) := by
  cases input with
  | control frame =>
    have hr : s.pending.isSome → s.stopped = false := by
      intro hp
      cases hs : s.stopped with
      | true => rw [h hs] at hp; cases hp
      | false => rfl
    rcases control_cases (c := c) frame hr with hk | ⟨tracks, s₁, hm, hy, hk⟩ |
      ⟨kind, paused, asked, s₁, hm, ha, hk⟩ | ⟨remote, hm, ho, hy, hk⟩
    · exact .stays hk
    · exact .readied hm hy hk
    · exact .acknowledged hm ha hk
    · exact .closed hm ho hy hk
  | controlEnded => exact .stays (stays_controlEnded s)
  | data frame => exact .stays (stays_caught (.keeps (same_data frame)) s)
  | dataEnded => exact .stays (stays_dataEnded s)
  | openSettled result =>
    rcases continueOpen_cases (c := c) result s with hk | ⟨rfl, hs, s₁, ho, hk⟩
    · exact .stays hk
    · exact .openSent hs ho hk
  | creditWritten result => exact .stays (stays_creditWritten result s)
  | writeFailed sequence e => exact .stays (stays_failIf _ e s)
  | watchdog incomplete ending => exact .stays (stays_watchdog incomplete ending s)
  | openDeadline => exact .stays (stays_failIf _ _ s)
  | controlDeadline => exact .stays (stays_failIf _ _ s)
  | closeDeadline => exact .stays (stays_closeDeadline s)
  | failed error => exact .stays (stays_fail error s)
  | exited success =>
    rcases exited_cases (c := c) success s with hk | ⟨s₁, hk, hu, he⟩
    · exact .stays hk
    · rw [NativeSession.step, he]
      exact .exited hk hu
  | packets => exact .stays (.of_same (same_quiet.setPackets _ s))
  | metadata => exact .stays (.of_same (same_quiet.setMetadata _ s))
  | frames read => exact .stays (stays_readFrames read s)
  | command kind range =>
    rcases command_cases (c := c) kind range s with hk | hk
    · exact .stays hk
    · exact .commanded hk
  | close => exact .stays (stays_beginClose s)
  | write chunk =>
    rcases writeBackchannel_cases (c := c) chunk s with hk | hk
    · exact .stays hk
    · exact .written hk
  | transmitted result => exact .stays (stays_transmitted result s)
  | paced =>
    rcases paced_cases (c := c) s with hk | hk
    · exact .stays hk
    · exact .written hk
  | endWrites => exact .stays (stays_endBackchannel s)
  | destroyWrites => exact .stays (stays_destroyBackchannel s)

end WotAv.Media.NativeSession
