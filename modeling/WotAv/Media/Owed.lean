import Mathlib.Algebra.Order.Monoid.Prod
import WotAv.Media.SessionSteps

/-!
# What a session owes its worker

The data that it has taken and not given back, and the CREDITs that the worker
has not read. Only `data` adds to it, and only `data` moves `dataSequence`.
-/

namespace WotAv.Media.NativeSession

open WotAv.Lib WotAv.Lib.Throwing WotAv.Binding

-- Bytes and frames are counted side by side.

def credited : CommandBody → Nat × Nat
  | .credit bytes units => (bytes, units)
  | _ => 0

def cost (frame : IpcFrame) : Nat × Nat := (frame.payload.length + 24, 1)

def owed (s : NativeSession) : Nat × Nat :=
  (s.outstandingBytes, s.outstandingUnits) + (s.commands.map (credited ·.body)).sum

def Owes (s s' : NativeSession) : Prop := s'.dataSequence = s.dataSequence ∧ s'.owed ≤ s.owed

theorem owes_refl (s : NativeSession) : Owes s s := ⟨rfl, le_rfl⟩

instance : IsTrans NativeSession Owes := ⟨fun _ _ _ h₁ h₂ => ⟨h₂.1.trans h₁.1, h₂.2.trans h₁.2⟩⟩

theorem owes_quiet : Quiet Owes where
  refl := owes_refl
  trans _ _ _ := trans_of Owes
  credited _ _ _ := ⟨rfl, le_rfl⟩
  packets _ _ := ⟨rfl, le_rfl⟩
  metadata _ _ := ⟨rfl, le_rfl⟩
  decoded _ _ := ⟨rfl, le_rfl⟩
  reports _ _ := ⟨rfl, le_rfl⟩

variable {c : SessionContext} {s s' : NativeSession}

theorem owes_onQueues (h : Owes s s') : Owes s (s'.onQueues packets metadata decoded) :=
  trans_of Owes h (trans_of Owes (owes_quiet.setPackets _ s')
    (trans_of Owes (owes_quiet.setMetadata _ _) (owes_quiet.setDecoded _ _)))

theorem owes_allocate : Keeps Owes allocateSequence := by
  refine .bind (.get owes_refl) fun s => ?_
  split
  · exact .throw owes_refl _
  · exact .bind (.modify fun _ => ⟨rfl, le_rfl⟩) fun _ => .pure owes_refl _

theorem owed_send (body : CommandBody) (sequence : Nat) (generation : Option Nat) (s : NativeSession) :
    (s.send c body sequence generation).owed ≤ s.owed + credited body := by
  unfold send
  dsimp only
  split
  · simp [owed, add_assoc]
  · exact le_self_add

theorem owes_send (body : CommandBody) (h : credited body = 0) (sequence : Nat) (generation : Option Nat)
    (s : NativeSession) : Owes s (s.send c body sequence generation) := by
  refine ⟨?_, (owed_send body sequence generation s).trans_eq (by rw [h, add_zero])⟩
  unfold send
  dsimp only
  split <;> rfl

-- Closing

theorem Owes.unstaged (h : Owes s s') : Owes s { s' with staged := [], stagedBytes := 0 } := h

theorem Owes.finished (h : Owes s s') : Owes s { s' with
    backchannel := s'.backchannel.map BackchannelWritable.destroy, creditBytes := 0, creditUnits := 0 } := h

theorem owes_finishReaders (s : NativeSession) : Owes s s.finishReaders :=
  Owes.finished (owes_onQueues (Owes.unstaged (owes_quiet.credits (s.staged.map (·.bytes)) s)))

theorem owes_beginClose (s : NativeSession) : Owes s (s.beginClose c) := by
  unfold beginClose
  split
  · exact owes_refl s
  · have h : Owes s s.halted := ⟨rfl, le_rfl⟩
    have h := trans_of Owes h (owes_finishReaders s.halted)
    generalize s.halted.finishReaders = s₁ at h ⊢
    have h : Owes s { s₁ with secretsOpen := false, audioOpen := false } := h
    dsimp only
    split
    · split
      · rename_i sequence s' ha
        exact trans_of Owes h (trans_of Owes (owes_allocate.ok ha)
          (owes_send .close rfl sequence none { s' with closeSequence := sequence }))
      · rename_i ha
        exact trans_of Owes h (owes_allocate.ok ha)
    · exact h

theorem owes_failed (failure : Option OnvifError) (s : NativeSession) :
    Owes s (({ s with failure } : NativeSession).beginClose c) := by
  have h : Owes s { s with failure } := ⟨rfl, le_rfl⟩
  exact trans_of Owes h (owes_beginClose _)

theorem owes_fail (e : OnvifError) (s : NativeSession) : Owes s (s.fail c e) := by
  unfold fail
  split
  · exact owes_refl s
  · exact owes_failed _ s

theorem owes_caught {m : M Unit} (h : Keeps Owes m) (s : NativeSession) : Owes s (caught c m s) := by
  unfold caught
  split
  · rename_i hm
    exact h.ok hm
  · rename_i hm
    exact trans_of Owes (h.ok hm) (owes_fail _ _)

-- Credits

theorem owes_flushCredits : Keeps Owes (flushCredits c) := by
  intro s
  unfold flushCredits
  rw [run_get_bind]
  split
  · exact owes_refl s
  · split
    · exact owes_refl s
    · rename_i hl
      split
      · exact owes_refl s
      · rw [run_modify_bind]
        generalize hs : ({ s with
          outstandingBytes := _, outstandingUnits := _, creditBytes := 0, creditUnits := 0, creditWriting := true } :
            NativeSession) = s₁
        have h₁ : s₁.owed + (s.creditBytes, s.creditUnits) = s.owed := by
          subst hs
          ext <;> simp [owed] <;> omega
        have h₂ : Owes s s₁ := ⟨by subst hs; rfl, h₁ ▸ le_self_add⟩
        refine bind_cases (P := fun x => Owes s x.2) (fun sequence s' ha => ?_) fun e s' ha => ?_
        · have h := owes_allocate.ok ha
          refine ⟨?_, (owed_send _ sequence none s').trans ((add_le_add_left h.2 _).trans_eq h₁)⟩
          rw [← h₂.1, ← h.1]
          simp only [run_modify, send]
          split <;> rfl
        · exact trans_of Owes h₂ (owes_allocate.ok ha)

-- Data

theorem owes_finishGeneration : Keeps Owes finishGeneration := by
  refine .bind (.get owes_refl) fun s => ?_
  repeat' split
  all_goals first
    | exact .pure owes_refl _
    | exact .throw owes_refl _
    | exact .modify fun s => owes_onQueues ⟨rfl, le_rfl⟩

theorem owes_flushStaged : Keeps Owes (flushStaged c) :=
  .bind (.get owes_refl) fun _ => .bind (.modify fun _ => ⟨rfl, le_rfl⟩) fun _ =>
    .bind (owes_quiet.forM owes_quiet.deliver _) fun _ => owes_finishGeneration

theorem owes_makeRoom (bytes : Nat) (staged : List StagedUnit) : Keeps Owes (makeRoom c bytes staged) := by
  intro s
  induction staged generalizing s with
  | nil =>
    unfold makeRoom
    repeat' split
    all_goals exact owes_refl s
  | cons dropped staged ih =>
    unfold makeRoom
    split
    · exact owes_refl s
    · split
      · exact owes_refl s
      · have h : Owes s { s with staged, stagedBytes := s.stagedBytes - dropped.bytes } := ⟨rfl, le_rfl⟩
        exact trans_of Owes h (trans_of Owes (owes_quiet.credit _ _) (ih _))

theorem owes_accept (generation : Nat) (item : StagedUnit) : Keeps Owes (accept c generation item) := by
  refine .bind (.get owes_refl) fun s => ?_
  split
  · exact .bind (.modify (owes_quiet.credit _)) fun _ => owes_finishGeneration
  · split
    · refine .bind (owes_makeRoom _ _) fun room => ?_
      split
      · exact .bind (.modify fun _ => ⟨rfl, le_rfl⟩) fun _ => owes_finishGeneration
      · exact .modify (owes_quiet.credit _)
    · exact .bind (owes_quiet.deliver item) fun _ => owes_finishGeneration

/-- A frame is owed at most once, and is the last one if it is. -/
def Takes (frame : IpcFrame) (s s' : NativeSession) : Prop :=
  (s'.dataSequence = s.dataSequence ∨ s'.dataSequence = frame.sequence) ∧ s'.owed ≤ s.owed + cost frame

theorem Takes.owes {frame : IpcFrame} (h : Takes frame s s') (h' : Owes s' s'') : Takes frame s s'' :=
  ⟨h.1.imp h'.1.trans h'.1.trans, h'.2.trans h.2⟩

theorem takes_data (frame : IpcFrame) (s : NativeSession) : Takes frame s (data c frame s).2 := by
  have h : Takes frame s s := ⟨.inl rfl, le_self_add⟩
  unfold data
  rw [run_get_bind]
  split
  · exact h
  · split
    · exact h
    · split
      · exact h
      · have h : Takes frame s { s with dataSequence := frame.sequence } := ⟨.inr rfl, le_self_add⟩
        rw [run_modify_bind]
        refine lift_cases (P := fun x => Takes frame s x.2) (fun value _ => ?_) fun e => h
        have h : Takes frame s { s with
            dataSequence := frame.sequence
            outstandingBytes := s.outstandingBytes + (frame.payload.length + 24)
            outstandingUnits := s.outstandingUnits + 1 } :=
          ⟨.inr rfl, (add_right_comm (s.outstandingBytes, s.outstandingUnits) (cost frame) _).le⟩
        rw [run_modify_bind, run_get_bind]
        split
        · exact h
        · exact h.owes (owes_accept _ _ _)

-- Control frames and commands

theorem owes_continueOpen (result : Except OnvifError Unit) (s : NativeSession) : Owes s (s.continueOpen c result) := by
  have h : Owes s { s with opening := .settled } := ⟨rfl, le_rfl⟩
  unfold continueOpen
  split
  · exact trans_of Owes h (owes_fail _ _)
  · refine trans_of Owes h (owes_caught ?_ _)
    refine .bind (.modify fun _ => ⟨rfl, le_rfl⟩) fun _ => .bind (.get owes_refl) fun s => ?_
    split
    · exact .throw owes_refl _
    · refine .bind (.lift owes_refl _) fun _ => .bind owes_allocate fun sequence => .modify fun s => ?_
      exact owes_send .open_ rfl sequence (some 0) { s with openSequence := sequence, openSent := true, opening := .sending }
  · exact trans_of Owes h (owes_fail _ _)
  · exact trans_of Owes h (owes_fail _ _)
  · exact h
  · exact owes_refl s

theorem owes_nativeError (code : String) : Keeps Owes (nativeError c code) := by
  unfold nativeError
  split
  · exact .throw owes_refl _
  · exact .modify fun s => owes_fail _ s

theorem owes_closedFrame (frame : ControlFrame) (remote : Option MediaRemote) : Keeps Owes (closedFrame c frame remote) := by
  refine .bind (.get owes_refl) fun s => ?_
  split
  · exact .throw owes_refl _
  · split
    · exact .throw owes_refl _
    · refine .bind (.modify fun _ => ⟨rfl, le_rfl⟩) fun _ => ?_
      split
      · exact .pure owes_refl _
      · exact .modify fun s => owes_failed _ s

theorem owes_control (frame : ControlFrame) : Keeps Owes (control c frame) := by
  unfold control hello owned ready acknowledged endFrame
  repeat' first
    | exact owes_nativeError _
    | exact owes_closedFrame _ _
    | exact owes_flushStaged
    | exact owes_finishGeneration
    | exact .pure owes_refl _
    | exact .throw owes_refl _
    | exact .get owes_refl
    | exact .lift owes_refl _
    | exact .modify fun _ => ⟨rfl, le_rfl⟩
    | refine .bind ?_ fun _ => ?_
    | split
    | dsimp only

theorem owes_reopen (kind : ControlKind) : Keeps Owes (reopen kind) := by
  unfold reopen resumeQueues
  split
  · exact .pure owes_refl _
  · refine .bind (.modify fun _ => ⟨rfl, le_rfl⟩) fun _ => .bind (owes_quiet.deliverTo fun s => ?_) fun _ =>
      .bind (owes_quiet.deliverTo fun s => ?_) fun _ => owes_quiet.deliverTo fun s => ?_
    · exact owes_quiet.setPackets _ s
    · exact owes_quiet.setMetadata _ s
    · exact owes_quiet.setDecoded _ s

theorem owes_command (kind : ControlKind) (range : Option (Nat × Nat)) : Keeps Owes (command c kind range) := by
  refine .bind (.get owes_refl) fun s => ?_
  split
  · exact .throw owes_refl _
  · refine .bind (.lift owes_refl _) fun _ => ?_
    split
    · exact .throw owes_refl _
    · refine .bind (.modify fun _ => ⟨rfl, le_rfl⟩) fun _ => .bind owes_allocate fun sequence =>
        .bind (.modify fun s => ?_) fun _ => .bind (owes_reopen kind) fun _ => .modify (owes_send _ rfl _ _)
      exact owes_onQueues ⟨rfl, le_rfl⟩

-- A step

theorem owes_departed (remote : MediaRemote) (s : NativeSession) : Owes s (s.departed remote) := by
  have h : Owes s { s with currentState := .closed } := ⟨rfl, le_rfl⟩
  have h := trans_of Owes h (owes_finishReaders _)
  unfold departed
  generalize NativeSession.finishReaders _ = s₁ at h ⊢
  exact h

theorem owes_exited (success : Bool) (s : NativeSession) : Owes s (s.exited c success) := by
  unfold exited
  split
  · exact owes_refl s
  · extract_lets
    split
    · exact owes_failed _ s
    · exact trans_of Owes (owes_failed _ s) (owes_departed _ _)

theorem owes_failIf {p : Prop} [Decidable p] (e : OnvifError) (s : NativeSession) : Owes s (if p then s.fail c e else s) := by
  split
  · exact owes_fail e s
  · exact owes_refl s

theorem owes_step (input : SessionInput) (hi : ∀ frame, input ≠ .data frame) (s : NativeSession) :
    Owes s (s.step c input) := by
  unfold step
  cases input with
  | data frame => exact absurd rfl (hi frame)
  | control frame => exact owes_caught (owes_control frame) s
  | openSettled result => exact owes_continueOpen result s
  | watchdog incomplete ending =>
    refine trans_of Owes ?_ (owes_caught owes_flushCredits _)
    exact trans_of Owes (owes_failIf _ s) (owes_failIf _ _)
  | exited success => exact owes_exited success s
  | failed e => exact owes_fail e s
  | close => exact owes_beginClose s
  | command kind range => exact owes_command kind range s
  | packets read => exact owes_quiet.setPackets _ s
  | metadata read => exact owes_quiet.setMetadata _ s
  | frames read =>
    dsimp only
    unfold readFrames
    repeat' split
    all_goals first | exact owes_refl s | exact owes_quiet.setDecoded _ s
  | creditWritten result =>
    have h : Owes s { s with creditWriting := false } := ⟨rfl, le_rfl⟩
    dsimp only [creditWritten]
    repeat' split
    all_goals first | exact h | exact trans_of Owes h (owes_fail _ _)
  | controlEnded | dataEnded | writeFailed | openDeadline | controlDeadline => exact owes_failIf _ s
  | closeDeadline =>
    dsimp only [closeDeadline]
    split <;> exact ⟨rfl, le_rfl⟩
  | write | transmitted | paced | endWrites | destroyWrites =>
    dsimp only [writeBackchannel, transmitted, paced, endBackchannel, writeChunk, finalBackchannel, destroyBackchannel]
    repeat' split
    all_goals exact ⟨rfl, le_rfl⟩

theorem takes_step (frame : IpcFrame) (s : NativeSession) : Takes frame s (s.step c (.data frame)) := by
  have h := takes_data (c := c) frame s
  simp only [step, caught]
  split
  · rename_i hm
    rwa [hm] at h
  · rename_i hm
    rw [hm] at h
    exact h.owes (owes_fail _ _)

end WotAv.Media.NativeSession
