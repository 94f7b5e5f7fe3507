import Mathlib.Algebra.Order.BigOperators.Group.List
import WotAv.Media.Owed
import WotAv.System.Backchannel

/-!
# Data and credits over whole runs

`Acts` is what a step of the worker does to its data queue and to the data
pipe. The order of the frames and the balance of the credits follow.
-/

namespace WotAv.Native

open WotAv.Lib WotAv.Media
open WotAv.Media.NativeSession (cost credited owed)

theorem guintAdd_of_lt (h : a + b < 2 ^ 32) : guintAdd a b = a + b := Nat.mod_eq_of_lt h

theorem guintAdd_le (a b : Nat) : guintAdd a b ≤ a + b := Nat.mod_le _ _

namespace MediaIpc

def popped (ipc : MediaIpc) : List IpcFrame :=
  match ipc.writer with
  | .popped item => [item]
  | _ => []

/-- What is still to be written to the pipe. -/
def unwritten (ipc : MediaIpc) : List IpcFrame := ipc.popped ++ ipc.frames

/-- The credit left, with what it was spent on. -/
def lent (ipc : MediaIpc) (pipe : List IpcFrame) : Nat × Nat :=
  (ipc.creditsBytes, ipc.creditsFrames) + ((pipe ++ ipc.unwritten).map cost).sum

/-- What a step that is given a credit does to the data queue and to what is in
the data pipe. -/
inductive Acts (c : WorkerContext) (opens : Prop) (given : Nat × Nat) :
    MediaIpc → List IpcFrame → MediaIpc → List IpcFrame → Prop
  | rests : Acts c opens given ipc pipe ipc pipe
  | limits (h : opens) (replay : Bool) : Acts c opens given ipc pipe (ipc.limits c.queueBytes c.queueFrames replay) pipe
  | data (kind session generation : Nat) (payload : Bytes) :
    Acts c opens given ipc pipe (ipc.data kind session generation payload).1 pipe
  | credit : Acts c opens given ipc pipe (ipc.credit given.1 given.2).1 pipe
  | suspend (suspended flush : Bool) : Acts c opens given ipc pipe (ipc.suspend suspended flush) pipe
  | cancel : Acts c opens given ipc pipe ipc.cancel pipe
  | pop : Acts c opens given ipc pipe ipc.pop pipe
  | write : Acts c opens given ipc pipe ipc.write.1 (pipe ++ ipc.write.2.toList)
  | finish : Acts c opens given ipc pipe ipc.finishWrite pipe

variable {c : WorkerContext} {ipc ipc' : MediaIpc}

theorem cost_eq (frame : IpcFrame) : cost frame = (frameSize frame, 1) := by
  simp [cost, frameSize, MEDIA_HEADER_BYTES, add_comm]

theorem foldl_flushFrame (frames : List IpcFrame) (ipc : MediaIpc) :
    (frames.foldl flushFrame ipc).writer = ipc.writer ∧ (frames.foldl flushFrame ipc).sequence = ipc.sequence ∧
      ((frames.foldl flushFrame ipc).creditsBytes, (frames.foldl flushFrame ipc).creditsFrames) ≤
        (ipc.creditsBytes, ipc.creditsFrames) + (frames.map cost).sum := by
  induction frames generalizing ipc with
  | nil => exact ⟨rfl, rfl, le_self_add⟩
  | cons item frames ih =>
    have h : ((ipc.flushFrame item).creditsBytes, (ipc.flushFrame item).creditsFrames) ≤
        (ipc.creditsBytes, ipc.creditsFrames) + cost item := by
      rw [cost_eq, Prod.mk_add_mk, Prod.mk_le_mk]
      simp only [flushFrame]
      exact ⟨guintAdd_le _ _, guintAdd_le _ _⟩
    have hw : (ipc.flushFrame item).writer = ipc.writer ∧ (ipc.flushFrame item).sequence = ipc.sequence := by
      unfold flushFrame
      dsimp only
      exact ⟨rfl, rfl⟩
    rw [List.foldl_cons, List.map_cons, List.sum_cons, ← add_assoc, ← hw.1, ← hw.2]
    exact (ih (ipc.flushFrame item)).imp_right fun hs => hs.imp_right fun hle => hle.trans (add_le_add_left h _)

theorem lent_cons (frame : IpcFrame) (pipe : List IpcFrame) (ipc : MediaIpc) :
    ipc.lent (frame :: pipe) = ipc.lent pipe + cost frame := by
  rw [lent, List.cons_append, List.map_cons, List.sum_cons, add_comm (cost frame), ← add_assoc]
  rfl

/-- Frames leave, or the next one is queued. The balance grows by no more than
the credit that is given, but where the limits are set. -/
structure Effect (c : WorkerContext) (opens : Prop) (given : Nat × Nat)
    (ipc : MediaIpc) (pipe : List IpcFrame) (ipc' : MediaIpc) (pipe' : List IpcFrame) : Prop where
  numbers : (pipe' ++ ipc'.unwritten).Sublist (pipe ++ ipc.unwritten) ∧ ipc'.sequence = ipc.sequence ∨
    ∃ frame, pipe' ++ ipc'.unwritten = pipe ++ ipc.unwritten ++ [frame] ∧
      frame.sequence = guintAdd ipc.sequence 1 ∧ ipc'.sequence = frame.sequence
  lends : ipc'.lent pipe' ≤ ipc.lent pipe + given ∨
    opens ∧ ipc'.lent pipe' ≤ ipc.lent pipe + (c.queueBytes, c.queueFrames)

theorem lent_le {n : Nat × Nat}
    (hc : (ipc'.creditsBytes, ipc'.creditsFrames) ≤ (ipc.creditsBytes, ipc.creditsFrames) + n)
    (hs : (pipe' ++ ipc'.unwritten).Sublist (pipe ++ ipc.unwritten)) : ipc'.lent pipe' ≤ ipc.lent pipe + n := by
  rw [lent, lent, add_right_comm]
  exact add_le_add hc (List.Sublist.sum_le_sum (hs.map cost) fun _ _ => zero_le)

theorem Effect.leaves (hc : (ipc'.creditsBytes, ipc'.creditsFrames) ≤ (ipc.creditsBytes, ipc.creditsFrames) + given)
    (hs : (pipe' ++ ipc'.unwritten).Sublist (pipe ++ ipc.unwritten)) (hn : ipc'.sequence = ipc.sequence) :
    Effect c opens given ipc pipe ipc' pipe' :=
  ⟨.inl ⟨hs, hn⟩, .inl (lent_le hc hs)⟩

theorem effect_rests : Effect c opens given ipc pipe ipc pipe := .leaves le_self_add (.refl _) rfl

theorem effect_suspend (suspended flush : Bool) (ipc : MediaIpc) (pipe : List IpcFrame) :
    Effect c opens given ipc pipe (ipc.suspend suspended flush) pipe := by
  unfold MediaIpc.suspend
  dsimp only
  split
  · obtain ⟨hw, hn, hle⟩ := foldl_flushFrame ipc.frames { ipc with suspended }
    have hu : ({ ipc.frames.foldl flushFrame { ipc with suspended } with frames := [] } : MediaIpc).unwritten =
        ipc.popped := by
      rw [unwritten, List.append_nil, popped, hw, popped]
    have hsum : ((pipe ++ ipc.unwritten).map cost).sum = (ipc.frames.map cost).sum + ((pipe ++ ipc.popped).map cost).sum := by
      simp [unwritten, add_comm, add_left_comm]
    refine ⟨.inl ⟨?_, hn⟩, .inl (le_trans ?_ le_self_add)⟩
    · rw [hu]
      exact List.Sublist.append_left (List.sublist_append_left _ _) pipe
    · rw [lent, hu, lent, hsum, ← add_assoc]
      exact add_le_add_left hle _
  · exact .leaves le_self_add (.refl _) rfl

theorem effect_data (kind session generation : Nat) (payload : Bytes) (ipc : MediaIpc) :
    Effect c opens given ipc pipe (ipc.data kind session generation payload).1 pipe := by
  unfold MediaIpc.data
  dsimp only
  split
  · exact effect_rests
  split
  · exact effect_rests
  split
  · split <;> exact .leaves le_self_add (.refl _) rfl
  rename_i hroom
  generalize hframe : (⟨kind, session, generation, guintAdd ipc.sequence 1, payload⟩ : IpcFrame) = frame
  have hu : pipe ++ (ipc.enqueue frame).unwritten = pipe ++ ipc.unwritten ++ [frame] := by
    simp [unwritten, popped, enqueue]
  refine ⟨.inr ⟨frame, hu, hframe ▸ rfl, rfl⟩, .inl (le_trans (le_of_eq ?_) le_self_add)⟩
  have hsize : MEDIA_HEADER_BYTES + payload.length = frameSize frame := hframe ▸ rfl
  rw [hsize, full] at hroom
  simp only [Bool.or_eq_true, decide_eq_true_eq, not_or, not_lt] at hroom
  rw [lent, hu, List.map_append, List.sum_append, List.map_singleton, List.sum_singleton, ← add_assoc, add_right_comm,
    cost_eq]
  exact congrArg (· + _) (Prod.ext (Nat.sub_add_cancel hroom.2) (Nat.sub_add_cancel (by omega)))

theorem Acts.effect (ha : Acts c opens given ipc pipe ipc' pipe') : Effect c opens given ipc pipe ipc' pipe' := by
  cases ha with
  | rests => exact effect_rests
  | limits h replay => exact ⟨.inl ⟨.refl _, rfl⟩, .inr ⟨h, lent_le le_add_self (.refl _)⟩⟩
  | data kind session generation payload => exact effect_data kind session generation payload ipc
  | credit =>
    unfold MediaIpc.credit
    split
    · exact .leaves ⟨guintAdd_le _ _, guintAdd_le _ _⟩ (.refl _) rfl
    · exact effect_rests
  | suspend suspended flush => exact effect_suspend suspended flush ipc pipe
  | cancel =>
    have h : Effect c opens given { ipc with stopping := true } pipe ipc.cancel pipe := effect_suspend true true _ pipe
    exact ⟨h.numbers, h.lends⟩
  | pop =>
    unfold MediaIpc.pop
    split
    · rename_i hw hf
      split
      · exact effect_rests
      · exact .leaves le_self_add (by simp [unwritten, popped, hw, hf]) rfl
    · exact effect_rests
  | write =>
    unfold MediaIpc.write
    split
    · rename_i hw
      exact .leaves le_self_add (by simp [unwritten, popped, hw]) rfl
    · exact .leaves le_self_add (by simp) rfl
  | finish =>
    unfold MediaIpc.finishWrite
    split
    all_goals
      first
        | exact effect_rests
        | rename_i hw
          exact .leaves le_self_add (by simp [unwritten, popped, hw, MediaIpc.settle]) rfl

end MediaIpc

-- The steps of the worker

namespace Worker

open MediaIpc (Acts)

variable {c : WorkerContext} {w : Worker}

/-- OPEN has led to limits, or to a failure. -/
def started (w : Worker) : Bool := w.failure.isSome || w.pipeline

/-- The data is left alone. -/
def Still (w w' : Worker) : Prop := w'.ipc = w.ipc ∧ w'.data = w.data ∧ (w.started → w'.started)

def Serves (c : WorkerContext) (given : Nat × Nat) (w w' : Worker) : Prop :=
  Acts c (w.started = false ∧ w'.started) given w.ipc w.data w'.ipc w'.data ∧ (w.started → w'.started)

theorem still_refl (w : Worker) : Still w w := ⟨rfl, rfl, id⟩

theorem Still.trans {w' w'' : Worker} (h : Still w w') (h' : Still w' w'') : Still w w'' :=
  ⟨h'.1.trans h.1, h'.2.1.trans h.2.1, h'.2.2 ∘ h.2.2⟩

theorem Still.serves {w' : Worker} (h : Still w w') : Serves c given w w' := by
  refine ⟨?_, h.2.2⟩
  rw [h.1, h.2.1]
  exact .rests

theorem still_fail (code : String) (w : Worker) : Still w (w.fail code) := ⟨rfl, rfl, fun _ => rfl⟩

theorem still_event (message : ControlMessage) (w : Worker) : Still w (w.event message) := by
  unfold event
  split
  · exact still_fail _ w
  · exact still_refl w

theorem Still.ite {p : Prop} [Decidable p] {a b : Worker} (ha : Still w a) (hb : Still w b) :
    Still w (if p then a else b) := by
  split <;> assumption

theorem still_readSecrets (t : Turn) (frame : Option SecurityFrame) (w : Worker) :
    Still w (w.joinControl.readSecrets t frame) := by
  simp only [joinControl, readSecrets]
  repeat' split
  all_goals first | exact still_refl w | exact still_fail _ w

theorem still_readAudio (t : Turn) (frame : Option BackchannelFrame) (w : Worker) : Still w (w.readAudio c t frame) := by
  simp only [readAudio, backchannelInput]
  repeat' split
  all_goals first | exact still_refl w | exact still_fail _ w

theorem still_busMessage (message : BusMessage) (w : Worker) : Still w (w.busMessage message) := by
  have h (message : ControlMessage) := still_event message w
  cases message with
  | error code => exact (h (.diagnostic true)).trans ⟨rfl, rfl, fun _ => rfl⟩
  | eos => exact still_refl w
  | warning reported gap =>
    cases reported <;> cases gap
    · exact still_refl w
    · exact h _
    · exact h _
    · exact (h _).trans (still_event _ _)

theorem still_deadlines (t : Turn) (w : Worker) : Still w (w.deadlines t) := by
  unfold deadlines
  extract_lets w₁ w₂
  have h₁ : Still w w₁ := .ite (still_fail _ w) (still_refl w)
  have h₂ : Still w w₂ := .ite (h₁.trans (still_fail _ w₁)) h₁
  exact .ite (h₂.trans (still_event _ w₂)) h₂

theorem still_reports (w : Worker) :
    Still w w.reportFailure ∧ Still w w.drainEvent ∧ Still w w.acknowledge ∧ Still w w.reportDropped := by
  simp only [reportFailure, drainEvent, acknowledge, reportDropped]
  refine ⟨?_, ?_, ?_, ?_⟩ <;> repeat' split
  all_goals first | exact still_refl w | exact still_event _ w

theorem still_sendReady (t : Turn) (w : Worker) : Still w (w.sendReady c t) := by
  simp only [sendReady]
  repeat' split
  all_goals first | exact still_refl w | exact still_fail _ w

theorem still_responded (method : RtspMethod) (status : Nat) (w : Worker) : Still w (w.responded method status) := by
  unfold responded
  extract_lets w₁ ok w₂ w₃ w₄ w₅
  have h₁ : Still w w₁ := still_event _ w
  have h₂ : Still w w₂ := .ite h₁ h₁
  have h₃ : Still w w₃ := .ite h₂ h₂
  have h₄ : Still w w₄ := .ite (.ite (h₃.trans (still_fail _ w₃)) h₃) h₃
  have h₅ : Still w w₅ := .ite h₄ h₄
  exact .ite (h₅.trans (still_fail _ w₅)) h₅

theorem still_select (track : MediaTrack) (w : Worker) : Still w (w.select c track) := .ite (still_refl w) (still_refl w)

theorem still_beginSend (kind : Nat) (payload : Bytes) (w : Worker) : Still w (w.beginSend kind payload) :=
  .ite (still_refl w) (still_refl w)

-- The steps that do

/-- The credit that is read in a turn. -/
def creditRead (t : Turn) (pipes : Pipes) (w : Worker) : Nat × Nat :=
  if t.read ∧ w.phase = .command then pipes.command.elim 0 fun command => credited command.body else 0

theorem serves_readCommand (t : Turn) (command : Option Command) (w : Worker) :
    Serves c (if t.read then command.elim 0 fun command => credited command.body else 0) w (w.readCommand c t command) := by
  have hcontrol {given : Nat × Nat} (kind : ControlKind) (sequence : Nat) :
      Serves c given w (w.startControl kind sequence) := by
    unfold startControl
    dsimp only
    repeat' split
    all_goals first | exact ⟨.suspend true true, id⟩ | exact ⟨.suspend true true, fun _ => rfl⟩
  simp only [readCommand, dispatch, takeControl]
  repeat' split
  all_goals first | exact (still_refl w).serves | exact (still_fail _ w).serves | exact hcontrol _ _ | skip
  rename_i bytes units hbody _ _ _ _ ipc hc
  obtain rfl : (w.ipc.credit bytes units).1 = ipc := congrArg Prod.fst hc
  refine ⟨?_, id⟩
  rw [Option.elim_some, hbody]
  exact .credit

theorem serves_openNative (t : Turn) (w : Worker) : Serves c given w (w.openNative c t) := by
  unfold openNative
  split
  · exact (still_refl w).serves
  · rename_i h
    have hs : w.started = false := by
      unfold started
      simp only [not_or] at h
      simp [h]
    repeat' split
    all_goals first
      | exact (still_fail _ w).serves
      | exact ⟨.limits ⟨hs, rfl⟩ c.replay, fun _ => rfl⟩
      | exact ⟨.limits ⟨hs, Bool.or_true _⟩ c.replay, fun _ => Bool.or_true _⟩

theorem serves_turn (t : Turn) (pipes : Pipes) (w : Worker) : Serves c (w.creditRead t pipes) w (w.turn c t pipes) := by
  unfold turn
  split
  · exact (still_readSecrets t pipes.secrets w).serves
  · rename_i hp
    have h : w.creditRead t pipes = if t.read then pipes.command.elim 0 fun command => credited command.body else 0 := by
      simp [creditRead, hp]
    rw [h]
    exact serves_readCommand t pipes.command w
  · exact serves_openNative t w
  · exact (still_readAudio t pipes.audio w).serves
  · split
    · exact (still_busMessage _ w).serves
    · exact (still_refl w).serves
  · exact (still_event _ w).serves
  · exact (still_deadlines t w).serves
  · exact (still_reports w).1.serves
  · split
    · exact (still_reports w).2.1.serves
    · exact (still_refl w).serves
  · exact (still_sendReady t w).serves
  · exact (still_reports w).2.2.1.serves
  · exact (still_reports w).2.2.2.serves
  · exact ⟨.cancel, id⟩
  · split
    · exact (still_reports w).2.1.serves
    · exact (still_refl w).serves
  · exact (still_refl w).serves
  · exact (still_refl w).serves

theorem serves_sendData (i : Nat) (w : Worker) : Serves c given w (w.sendData i) := by
  unfold sendData
  split
  · exact (still_refl w).serves
  · rename_i item _
    have h {opens : Prop} : Acts c opens given w.ipc w.data
      (w.ipc.data item.kind w.session item.generation item.payload).1 w.data := .data _ _ _ _
    generalize w.ipc.data item.kind w.session item.generation item.payload = r at h ⊢
    obtain ⟨ipc, _ | _ | _ | _⟩ := r
    all_goals first | exact ⟨h, id⟩ | exact ⟨h, fun _ => rfl⟩

theorem serves_writeData (w : Worker) : Serves c given w w.writeData := by
  have h {opens : Prop} : Acts c opens given w.ipc w.data w.ipc.write.1 (w.data ++ w.ipc.write.2.toList) := .write
  unfold writeData
  generalize w.ipc.write = r at h ⊢
  obtain ⟨ipc, _ | frame⟩ := r
  · rw [Option.toList_none, List.append_nil] at h
    exact ⟨h, id⟩
  · exact ⟨h, id⟩

theorem serves_thread (input : WorkerInput) (w : Worker) : Serves c given w (w.thread c input) := by
  have hr := still_refl w
  cases input with
  | turn | controlReturned => exact hr.serves
  | setup | responded | select | fault =>
    unfold thread
    dsimp only
    split
    · first
        | exact hr.serves
        | exact (still_responded _ _ w).serves
        | exact (still_select _ w).serves
        | exact (still_fail _ w).serves
    · exact hr.serves
  | resume =>
    unfold thread
    dsimp only
    split
    · exact ⟨.suspend false false, id⟩
    · exact hr.serves
  | gap | diagnostic => exact (still_event _ w).serves
  | beginSend kind payload => exact (still_beginSend kind payload w).serves
  | sendData i => exact serves_sendData i w
  | pop => exact ⟨.pop, id⟩
  | write => exact serves_writeData w
  | settle => exact ⟨.finish, id⟩

end Worker

end WotAv.Native

namespace WotAv.System.MediaSystem

open WotAv.Lib WotAv.Media WotAv.Native
open WotAv.Native.MediaIpc (unwritten popped lent)
open WotAv.Media.NativeSession (cost credited owed)

variable {c : MediaContext} {m : MediaSystem}

/-- What a step does to the data: the worker works on it, given some credit by
the session, or the session takes a frame from the pipe. -/
inductive Moves (c : MediaContext) (m m' : MediaSystem) : Prop
  | serves (given : Nat × Nat) (h : Worker.Serves c.worker given m.worker m'.worker)
      (hs : m'.session.dataSequence = m.session.dataSequence) (ho : m'.session.owed + given ≤ m.session.owed)
  | takes (hd : m.worker.data = frame :: m'.worker.data) (hi : m'.worker.ipc = m.worker.ipc)
      (hs : m'.worker.started = m.worker.started) (h : NativeSession.Takes frame m.session m'.session)

theorem Moves.owes (h : NativeSession.Owes m.session s) (hw : Worker.Still m.worker w) : Moves c m ⟨s, w⟩ :=
  .serves 0 hw.serves h.1 ((add_zero _).trans_le h.2)

theorem owed_taken (t : Turn) (m : MediaSystem) : (m.taken t).dataSequence = m.session.dataSequence ∧
    (m.taken t).owed + m.worker.creditRead t m.pipes ≤ m.session.owed := by
  unfold Worker.creditRead taken
  by_cases hp : t.read ∧ m.worker.phase = .command
  · rw [if_pos hp, if_neg (not_not.mpr hp.1), hp.2]
    refine ⟨rfl, ?_⟩
    cases hc : m.session.commands with
    | nil => simp [pipes, owed, hc]
    | cons command commands =>
      simp only [pipes, owed, hc, List.head?_cons, Option.elim_some, List.tail_cons, List.map_cons, List.sum_cons]
      rw [add_assoc, add_comm (List.sum _)]
  · rw [if_neg hp, add_zero]
    split
    · exact ⟨rfl, le_rfl⟩
    · rename_i hr
      split
      · split <;> exact ⟨rfl, le_rfl⟩
      · rename_i hc
        exact absurd ⟨not_not.mp hr, hc⟩ hp
      · split <;> exact ⟨rfl, le_rfl⟩
      · exact ⟨rfl, le_rfl⟩

theorem step_moves (m : MediaSystem) (label : MediaLabel) : Moves c m (step c m label) := by
  have hstay : Moves c m m := .owes (NativeSession.owes_refl _) (Worker.still_refl _)
  have howes {input : SessionInput} (h : ∀ frame, input ≠ .data frame) :
      Moves c m { m with session := m.session.step c.session input } :=
    .owes (NativeSession.owes_step input h _) (Worker.still_refl _)
  cases label with
  | session input =>
    unfold step
    dsimp only
    split
    · rename_i hi
      refine howes fun frame h => ?_
      rw [h] at hi
      cases hi
    · exact hstay
  | control =>
    unfold step
    dsimp only
    split
    · exact .owes (NativeSession.owes_step _ (by simp) _) ⟨rfl, rfl, id⟩
    · exact hstay
  | data =>
    unfold step
    dsimp only
    split
    · rename_i hd
      exact .takes hd rfl rfl (NativeSession.takes_step _ _)
    · exact hstay
  | worker input =>
    cases input with
    | turn t =>
      unfold step
      dsimp only
      split
      · exact .serves _ (Worker.serves_turn t m.pipes m.worker) (owed_taken t m).1 (owed_taken t m).2
      · exact hstay
    | _ =>
      unfold step
      dsimp only
      split
      · exact hstay
      · exact .serves 0 (Worker.serves_thread _ m.worker) rfl (add_zero _).le
  | kill =>
    unfold step
    dsimp only
    split
    · exact .owes (NativeSession.owes_refl _) ⟨rfl, rfl, id⟩
    · exact hstay
  | _ =>
    unfold step
    dsimp only
    split
    · exact howes (by simp)
    · exact hstay

/-- A frame is in the pipe and not settled yet, another one is queued. -/
def streamed : List MediaLabel :=
  talks ++ [.worker (.beginSend IpcKind.RTCP [1]), .worker (.sendData 0), .worker (.beginSend IpcKind.RTCP [2, 3]),
    .worker (.sendData 0), .worker .pop, .worker .write]

/-- The data sequence has not come to its end. -/
def unexhausted (m : MediaSystem) (_ : MediaLabel) : Prop := m.worker.ipc.sequence + 1 < 2 ^ 32

instance (label : MediaLabel) : Decidable (unexhausted m label) := by
  unfold unexhausted
  infer_instance

/-- The last sequence number that the session has taken, and those of the frames
on their way to it. -/
def numbers (m : MediaSystem) : List Nat :=
  m.session.dataSequence :: (m.worker.data ++ m.worker.ipc.unwritten).map (·.sequence)

/-- The frames come to the session in the order in which they were numbered. -/
theorem data_ordered (h : ((system c).when unexhausted).Reachable m) :
    (numbers m).Pairwise (· < ·) ∧ ∀ n ∈ numbers m, n ≤ m.worker.ipc.sequence := by
  refine h.invariant (P := fun m => (numbers m).Pairwise (· < ·) ∧ ∀ n ∈ numbers m, n ≤ m.worker.ipc.sequence)
    (fun m hm => ?_) ?_
  · cases hm <;> simp [numbers, unwritten, popped]
  · rintro m label _ ⟨hordered, hlast⟩ ⟨hok, rfl⟩
    have hok : guintAdd m.worker.ipc.sequence 1 = m.worker.ipc.sequence + 1 := guintAdd_of_lt hok
    rcases step_moves (c := c) m label with ⟨_, h, hd, -⟩ | ⟨hd, hi, -, htakes⟩
    · rcases h.1.effect.numbers with ⟨hsub, hs⟩ | ⟨frame, he, hf, hs⟩
      · have hsub : (numbers (step c m label)).Sublist (numbers m) := by
          rw [numbers, hd]
          exact (hsub.map _).cons_cons _
        rw [hs]
        exact ⟨hordered.sublist hsub, fun n hn => hlast n (hsub.subset hn)⟩
      · have he : numbers (step c m label) = numbers m ++ [m.worker.ipc.sequence + 1] := by
          rw [numbers, hd, he, List.map_append, List.map_singleton, hf, hok, numbers, List.cons_append]
        rw [he, hs, hf, hok]
        refine ⟨List.pairwise_append.mpr ⟨hordered, List.pairwise_singleton _ _, fun n hn k hk => ?_⟩, fun n hn => ?_⟩
        · rw [List.mem_singleton.mp hk]
          exact Nat.lt_succ_of_le (hlast n hn)
        · rcases List.mem_append.mp hn with hn | hn
          · exact (hlast n hn).trans (Nat.le_succ _)
          · exact (List.mem_singleton.mp hn).le
    · have hsub : (numbers (step c m label)).Sublist (numbers m) := by
        rw [numbers, numbers, hd, hi]
        rcases htakes.1 with h | h <;> rw [h]
        · exact (List.sublist_cons_self _ _).cons_cons _
        · exact List.sublist_cons_self _ _
      rw [hi]
      exact ⟨hordered.sublist hsub, fun n hn => hlast n (hsub.subset hn)⟩

theorem data_ordered_streamed :
    let m := streamed.foldl (step talking) started
    numbers m = [0, 1, 2] ∧ (numbers m).Pairwise (· < ·) :=
  ⟨by decide +kernel, (data_ordered (System.Reachable.follows streamed _ (.start started_initial) (by decide +kernel))).1⟩

/-- What the credits of OPEN have become: the worker has them left, or has spent
them on data that waits, is in the pipe or is held by the session, or the
session has written them and the worker has not read them. -/
def account (m : MediaSystem) : Nat × Nat := m.worker.ipc.lent m.worker.data + m.session.owed

theorem account_le (h : (system c).Reachable m) : account m ≤ (c.worker.queueBytes, c.worker.queueFrames) := by
  refine (h.invariant (P := fun m => account m ≤ (c.worker.queueBytes, c.worker.queueFrames) ∧
    (m.worker.started = false → account m = 0)) (fun m hm => ?_) fun m label m' hm hs => ?_).1
  · have h : account m = 0 := by cases hm <;> simp [account, lent, unwritten, popped, owed]
    exact ⟨h ▸ zero_le, fun _ => h⟩
  · obtain rfl := hs
    obtain ⟨hle, hzero⟩ := hm
    have hless (h : account (step c m label) ≤ account m) (hs : m.worker.started → (step c m label).worker.started) :
        account (step c m label) ≤ (c.worker.queueBytes, c.worker.queueFrames) ∧
          ((step c m label).worker.started = false → account (step c m label) = 0) := by
      refine ⟨h.trans hle, fun hf => nonpos_iff_eq_zero.mp (h.trans_eq (hzero ?_))⟩
      exact Bool.eq_false_iff.mpr fun ht => Bool.false_ne_true (hf.symm.trans (hs ht))
    rcases step_moves (c := c) m label with ⟨given, ⟨ha, hs⟩, -, ho⟩ | ⟨hd, hi, hs, htakes⟩
    · rcases ha.effect.lends with h | ⟨⟨hs, hs'⟩, h⟩
      · refine hless ?_ ‹_›
        calc account (step c m label)
            ≤ m.worker.ipc.lent m.worker.data + given + (step c m label).session.owed := add_le_add_left h _
          _ = m.worker.ipc.lent m.worker.data + ((step c m label).session.owed + given) := by rw [add_assoc, add_comm given]
          _ ≤ account m := add_le_add_right ho _
      · refine ⟨?_, fun hf => absurd (hf.symm.trans hs') Bool.false_ne_true⟩
        calc account (step c m label)
            ≤ m.worker.ipc.lent m.worker.data + (c.worker.queueBytes, c.worker.queueFrames) + m.session.owed :=
              add_le_add h (le_self_add.trans ho)
          _ = account m + (c.worker.queueBytes, c.worker.queueFrames) := add_right_comm _ _ _
          _ = _ := by rw [hzero hs, zero_add]
    · refine hless ?_ fun h => hs ▸ h
      calc account (step c m label)
          = m.worker.ipc.lent (step c m label).worker.data + (step c m label).session.owed := by rw [account, hi]
        _ ≤ m.worker.ipc.lent (step c m label).worker.data + (m.session.owed + cost _) := add_le_add_right htakes.2 _
        _ = account m := by rw [account, hd, MediaIpc.lent_cons, add_assoc, add_comm (cost _)]

/-- No credit is made but by OPEN. So the data in the pipe never exceeds the
credits that the session counts as outstanding, and the worker has room for
every CREDIT on its way. -/
theorem credits_bounded (h : (system c).Reachable m) :
    account m ≤ (c.worker.queueBytes, c.worker.queueFrames) ∧
      (∀ frame ∈ m.worker.data, (m.session.outstandingBytes, m.session.outstandingUnits) + cost frame ≤
        (c.worker.queueBytes, c.worker.queueFrames)) ∧
      ∀ command ∈ m.session.commands, (m.worker.ipc.creditsBytes, m.worker.ipc.creditsFrames) + credited command.body ≤
        (c.worker.queueBytes, c.worker.queueFrames) := by
  have hle := account_le h
  refine ⟨hle, fun frame hf => le_trans ?_ hle, fun command hc => le_trans ?_ hle⟩
  · rw [add_comm]
    have hf : cost frame ∈ (m.worker.data ++ m.worker.ipc.unwritten).map cost :=
      List.mem_map_of_mem (List.mem_append_left _ hf)
    exact add_le_add ((List.single_le_sum (fun _ _ => zero_le) _ hf).trans le_add_self) le_self_add
  · have hc : credited command.body ∈ m.session.commands.map (credited ·.body) := List.mem_map_of_mem hc
    exact add_le_add le_self_add ((List.single_le_sum (fun _ _ => zero_le) _ hc).trans le_add_self)

theorem credits_bounded_streamed :
    let m := streamed.foldl (step talking) started
    (m.worker.ipc.creditsBytes, m.worker.ipc.creditsFrames) = (65485, 14) ∧ account m ≤ (65536, 16) :=
  ⟨by decide +kernel, (credits_bounded ⟨started, streamed, started_initial, System.run_ofFun.mpr rfl⟩).1⟩

end WotAv.System.MediaSystem
