import WotAv.Media.SessionSteps
import WotAv.System.Media

/-!
# What a worker stamps its frames with

A control frame carries the session, the generation and the sequence of the
last command that the worker has taken. The session has allocated all of
them, so a frame of a worker that has read OPEN passes the owner check. One
that has not stamps nothing, and passes it until OPEN is sent.
-/

namespace WotAv.System.MediaSystem

open WotAv.Lib WotAv.Media WotAv.Native
open WotAv.Media.NativeSession (Stays OpenSent Readied Acknowledged Commanded Written Received Move)

def terminal : ControlMessage → Bool
  | .error _ | .closed _ => true
  | _ => false

def isClosed (frame : ControlFrame) : Bool :=
  match frame.message with
  | .closed _ => true
  | _ => false

structure Issued (c : SessionContext) (s : NativeSession) (command : Command) : Prop where
  session : command.session = c.id
  open_ : command.body = .open_ → command.sequence ≤ s.commandSequence
  control : ∀ kind range, command.body = .control kind range →
    command.sequence ≤ s.commandSequence ∧ (kind ≠ .pause → command.generation < s.expectedGeneration)
  close : command.body = .close →
    s.stopped ∧ command.sequence = s.closeSequence ∧ command.sequence ≤ s.commandSequence

/-- The generation follows the one that the session expects. -/
structure Followed (c : SessionContext) (s : NativeSession) : Prop where
  opening : s.currentState = .opening → s.currentGeneration = 0 ∧ s.expectedGeneration = 1 ∧ s.pending = none
  settled : s.stopped = false → s.pending = none → s.currentState ≠ .opening →
    s.currentGeneration = s.expectedGeneration
  asked : ∀ asked, s.pending = some asked → asked.generation = s.expectedGeneration
  stopped : s.stopped → s.pending = none
  positive : 1 ≤ s.expectedGeneration
  commands : ∀ command ∈ s.commands, Issued c s command

/-- What the worker has taken, and what it has written with it; one that runs
has not written CLOSED. -/
structure Stamped (c : SessionContext) (running : Prop) (s : NativeSession) (w : Worker) : Prop where
  session : w.openReceived → w.session = c.id
  unopened : w.openReceived = false → w.session = 0 ∧ w.generation = 0 ∧ w.request = 0 ∧ w.closeRequest = 0
  bound : w.pipeline → w.openReceived
  unbound : w.pipeline = false → w.generation ≤ 1
  generation : w.generation ≤ s.expectedGeneration
  pending : w.pendingGeneration ≤ s.expectedGeneration
  next : w.pendingGeneration = 0 ∨ w.generation ≤ w.pendingGeneration
  request : w.request ≤ s.commandSequence
  close : w.closeRequest = 0 ∨
    s.stopped ∧ w.closeRequest = s.closeSequence ∧ w.closeRequest ≤ s.commandSequence
  current : s.currentGeneration ≤ w.generation
  events : ∀ e ∈ w.events, terminal e.message = false ∧ e.generation ≤ w.generation
  frames : ∀ f ∈ w.control, f.generation ≤ w.generation
  attributed : ∀ f ∈ w.control, terminal f.message → s.owns c f
  unclosed : running → s.receipt = none ∧ ∀ f ∈ w.control, isClosed f = false

variable {c : SessionContext} {running : Prop} {s s' : NativeSession} {w : Worker}

-- The main thread

variable {f : ControlFrame}

theorem isClosed_of_terminal (h : terminal f.message = false) : isClosed f = false := by
  unfold isClosed
  split
  · rename_i hm
    rw [hm] at h
    cases h
  · rfl

section
variable (h : Stamped c running s w)
include h

theorem Stamped.fail (code : String) : Stamped c running s (w.fail code) := { h with }

theorem Stamped.into (phase : Phase) : Stamped c running s { w with phase } := { h with }

theorem Stamped.event (message : ControlMessage) (hm : terminal message = false) :
    Stamped c running s (w.event message) := by
  unfold Worker.event
  split
  · exact h.fail _
  · refine { h with events := fun e he => ?_ }
    rcases List.mem_append.mp he with he | he
    · exact h.events e he
    · rw [List.mem_singleton.mp he]
      exact ⟨hm, le_rfl⟩

theorem Stamped.append {running' : Prop} {frame : ControlFrame}
    (hg : frame.generation ≤ w.generation)
    (ho : terminal frame.message → s.owns c frame)
    (hr : running' → running ∧ isClosed frame = false) :
    Stamped c running' s { w with control := w.control ++ [frame] } := by
  refine { h with
    frames := fun f hf => ?_
    attributed := fun f hf ht => ?_
    unclosed := fun hrun => ⟨(h.unclosed (hr hrun).1).1, fun f hf => ?_⟩ }
  all_goals rcases List.mem_append.mp hf with hf | hf
  · exact h.frames f hf
  · rw [List.mem_singleton.mp hf]
    exact hg
  · exact h.attributed f hf ht
  · rw [List.mem_singleton.mp hf] at ht ⊢
    exact ho ht
  · exact (h.unclosed (hr hrun).1).2 f hf
  · rw [List.mem_singleton.mp hf]
    exact (hr hrun).2

theorem Stamped.write (message : ControlMessage) {generation : Nat}
    (hm : terminal message = false)
    (hg : generation ≤ w.generation) (sequence : Nat) :
    Stamped c running s (w.write message generation sequence) := by
  refine h.append hg (fun ht => ?_) fun hr => ⟨hr, isClosed_of_terminal hm⟩
  rw [show terminal message = true from ht] at hm
  cases hm

theorem Stamped.readSecrets (t : Turn) (frame : Option SecurityFrame) :
    Stamped c running s (w.readSecrets t frame) := by
  unfold Worker.readSecrets
  split
  · exact h
  · split
    · exact { h with }
    · split
      · split
        · exact h
        · split
          · exact h.fail _
          · exact { h with }
      · split
        · exact h
        · split
          · exact { h with }
          · exact { h with }

theorem Stamped.joinControl : Stamped c running s w.joinControl := by
  unfold Worker.joinControl
  split
  · exact { h with }
  · exact h

end

variable {k : WorkerContext} {kind : ControlKind}

section
variable (h : Stamped c running s w)
include h

theorem Stamped.takeControl {sequence : Nat}
    (range : Option (Nat × Nat)) (hp : w.pipeline)
    (hs : sequence ≤ s.commandSequence) (hg : kind ≠ .pause → w.generation < s.expectedGeneration) :
    Stamped c running s (w.takeControl k kind range sequence) := by
  have hopened := h.bound hp
  have hno : ¬w.openReceived = false := by rw [hopened]; exact Bool.noConfusion
  unfold Worker.takeControl
  split
  · exact h.fail _
  · split
    · exact h.fail _
    · unfold Worker.startControl
      dsimp only
      split
      · exact { h with request := hs, unopened := fun ho => absurd ho hno }
      · rename_i hkind
        split
        · refine Stamped.fail ?_ _
          exact { h with request := hs, unopened := fun ho => absurd ho hno }
        · exact { h with
            request := hs, unopened := fun ho => absurd ho hno, pending := hg hkind, next := .inr (Nat.le_succ _) }

theorem Stamped.dispatch {command : Command} (hi : Issued c s command)
    (t : Turn) :
    Stamped c running s (w.dispatch k t command) := by
  unfold Worker.dispatch
  split
  · rename_i ho
    have hopened : Stamped c running s
        { w with session := command.session, request := command.sequence, openReceived := true } :=
      { h with session := fun _ => hi.session, unopened := nofun, bound := fun _ => rfl, request := hi.open_ ho.1 }
    dsimp only
    split
    · exact hopened
    · exact hopened.fail _
  · split
    · split
      · exact h.fail _
      · split
        · exact h.fail _
        · split
          · exact h.fail _
          · split
            · exact { h with }
            · exact h.fail _
    · rename_i hb
      split
      · exact h.fail _
      · split
        · rename_i hopened
          exact { h with close := .inr (hi.close hb), unopened := fun hn => by rw [hopened] at hn; cases hn }
        · exact h.fail _
    · rename_i kind range hb
      split
      · exact h.fail _
      · rename_i hno
        rw [not_or, not_not, not_not] at hno
        obtain ⟨hseq, hgen⟩ := hi.control kind range hb
        split
        · rename_i hp
          exact h.takeControl range hp hseq (hno.2 ▸ hgen)
        · exact h.fail _
    · split
      · exact h.fail _
      · exact h.fail _

theorem Stamped.readCommand {command : Option Command}
    (hi : ∀ x, command = some x → Issued c s x) (t : Turn) :
    Stamped c running s (w.readCommand k t command) := by
  unfold Worker.readCommand
  split
  · exact { h with }
  · split
    · split
      · exact h
      · split
        · exact { h with }
        · exact { h.dispatch (hi _ rfl) t with }
    · split
      · exact { h with }
      · exact h

theorem Stamped.openNative (hpos : 1 ≤ s.expectedGeneration)
    (t : Turn) : Stamped c running s (w.openNative k t) := by
  unfold Worker.openNative
  split
  · exact h
  · rename_i hno
    rw [not_or, not_or, not_or, not_or, not_not, not_not, Bool.not_eq_true] at hno
    obtain ⟨_, _, hreceived, _, hpipeline⟩ := hno
    have hone : w.generation ≤ 1 := h.unbound (Bool.eq_false_iff.mpr hpipeline)
    have hopened (pipeline : Bool) (ipc : MediaIpc) : Stamped c running s { w with generation := 1, pipeline, ipc } :=
      { h with
        unopened := fun ho => by rw [hreceived] at ho; cases ho
        bound := fun _ => hreceived
        unbound := fun _ => le_rfl
        generation := hpos
        next := by
          rcases Nat.eq_zero_or_pos w.pendingGeneration with hp | hp
          · exact .inl hp
          · exact .inr hp
        current := h.current.trans hone
        events := fun e he => ⟨(h.events e he).1, (h.events e he).2.trans hone⟩
        frames := fun f hf => (h.frames f hf).trans hone }
    split
    · exact h.fail _
    · split
      · exact h.fail _
      · exact (hopened _ _).fail _
      · exact hopened _ _

theorem Stamped.backchannelInput (t : Turn) (frame : BackchannelFrame) :
    Stamped c running s (w.backchannelInput k t frame) := by
  unfold Worker.backchannelInput
  split
  · exact h.fail _
  · split
    · exact h.fail _
    · split
      · exact h.fail _
      · split
        · exact h.fail _
        · split
          · exact h.fail _
          · dsimp only
            split
            · exact { h with }
            · exact { h with }

theorem Stamped.readAudio (t : Turn) (frame : Option BackchannelFrame) :
    Stamped c running s (w.readAudio k t frame) := by
  unfold Worker.readAudio
  split
  · exact h
  · split
    · split
      · exact h.backchannelInput t _
      · exact h
    · split
      · exact { h with }
      · exact h

theorem Stamped.busMessage (message : BusMessage) :
    Stamped c running s (w.busMessage message) := by
  have hwarned (reported : Bool) : Stamped c running s (if reported then w.event (.diagnostic true) else w) := by
    split
    · exact h.event _ rfl
    · exact h
  cases message with
  | error code => exact ((h.event (.diagnostic true) rfl).fail _).into _
  | eos => exact h.into _
  | warning reported gap =>
    unfold Worker.busMessage
    dsimp only
    split
    · exact ((hwarned reported).event (.gap true) rfl).into _
    · exact (hwarned reported).into _

theorem Stamped.deadlines (t : Turn) : Stamped c running s (w.deadlines t) := by
  have hfailIf (p : Prop) [Decidable p] (code : String) {w : Worker} (h : Stamped c running s w) :
      Stamped c running s (if p then w.fail code else w) := by
    split
    · exact h.fail _
    · exact h
  unfold Worker.deadlines
  dsimp only
  split
  · exact (hfailIf _ _ (hfailIf _ _ h)).event _ rfl
  · exact hfailIf _ _ (hfailIf _ _ h)

theorem Stamped.drainEvent : Stamped c running s w.drainEvent := by
  unfold Worker.drainEvent
  split
  · rename_i item events he
    have hitem := h.events item (by rw [he]; exact List.mem_cons_self)
    have hrest : Stamped c running s { w with events } :=
      { h with events := fun e hm => h.events e (by rw [he]; exact List.mem_cons_of_mem _ hm) }
    exact hrest.write _ hitem.1 hitem.2 _
  · exact h

theorem Stamped.sendReady (t : Turn) :
    Stamped c running s (w.sendReady k t) := by
  unfold Worker.sendReady
  split
  · exact h
  · have hmissing : Stamped c running s
        (if k.tracks.all fun id => w.selected.any (·.id = id) then w else w.fail "MissingRequiredTrack") := by
      split
      · exact h
      · exact h.fail _
    dsimp only
    generalize (if k.tracks.all fun id => w.selected.any (·.id = id) then w
      else w.fail "MissingRequiredTrack") = w' at hmissing ⊢
    split
    · exact { hmissing with }
    · exact { hmissing.write (.ready _) rfl le_rfl w'.request with }

theorem Stamped.acknowledge : Stamped c running s w.acknowledge := by
  unfold Worker.acknowledge
  split
  · split
    · exact h
    · exact { h.write (.control _ _) rfl le_rfl w.request with }
  · exact h

theorem Stamped.reportDropped : Stamped c running s w.reportDropped := by
  unfold Worker.reportDropped
  split
  · exact { h.event (.gap true) rfl with }
  · exact h

theorem Stamped.cancel : Stamped c running s w.cancel := { h with }

theorem Stamped.owns (ho : s.openSent → w.openReceived) (message : ControlMessage)
    {sequence : Nat}
    (hs : sequence = w.request ∨ sequence = w.closeRequest) :
    s.owns c ⟨message, w.session, w.generation, sequence⟩ := by
  unfold NativeSession.owns
  rw [Bool.or_eq_true]
  cases hopened : w.openReceived with
  | true =>
    right
    have hle : sequence ≤ s.commandSequence := by
      rcases hs with rfl | rfl
      · exact h.request
      · rcases h.close with hz | ⟨-, -, hle⟩
        · rw [hz]
          exact Nat.zero_le _
        · exact hle
    simp only [Bool.and_eq_true, decide_eq_true_eq]
    exact ⟨⟨h.session hopened, h.generation⟩, hle⟩
  | false =>
    left
    have hsent : s.openSent = false := by
      cases hsent : s.openSent with
      | true =>
        rw [ho hsent] at hopened
        cases hopened
      | false => rfl
    obtain ⟨hsession, hgeneration, hrequest, hclose⟩ := h.unopened hopened
    have hzero : sequence = 0 := by
      rcases hs with rfl | rfl
      · exact hrequest
      · exact hclose
    simp [NativeSession.startup, hsent, hsession, hgeneration, hzero]

theorem Stamped.reportFailure
    (ho : w.failure.isSome → s.openSent → w.openReceived) :
    Stamped c running s w.reportFailure := by
  unfold Worker.reportFailure
  split
  · rename_i code hf
    have howns := h.owns (ho (by rw [hf]; rfl)) (.error code) (.inl rfl)
    have hwritten : Stamped c running s (w.write (.error code) w.generation w.request) :=
      h.append le_rfl (fun _ => howns) fun hr => ⟨hr, rfl⟩
    exact { hwritten with }
  · exact h

theorem Stamped.reportClosed (ho : s.openSent → w.openReceived) :
    Stamped c False s { w.reportClosed with phase := .exited } := by
  have howns := h.owns ho (.closed (some w.remote)) (.inr rfl)
  have hwritten : Stamped c False s w.reportClosed := h.append le_rfl (fun _ => howns) False.elim
  exact hwritten.into _

end

-- The other threads

theorem pipeline_event (message : ControlMessage) (w : Worker) : (w.event message).pipeline = w.pipeline := by
  unfold Worker.event
  split <;> rfl

theorem Stamped.played (h : Stamped c running s w) (hp : w.pipeline) : Stamped c running s { w with
    generation := if w.pendingGeneration ≠ 0 then w.pendingGeneration else w.generation
    pendingGeneration := 0, paused := false, controlReady := w.pendingControl, pendingControl := none
    ready := true, acceptingData := true, resuming := true } := by
  have hle : w.generation ≤ if w.pendingGeneration ≠ 0 then w.pendingGeneration else w.generation := by
    split
    · rename_i hne
      exact h.next.resolve_left hne
    · exact le_rfl
  exact { h with
    unopened := fun ho => by rw [show w.openReceived = true from h.bound hp] at ho; cases ho
    unbound := fun hn => by rw [show w.pipeline = true from hp] at hn; cases hn
    generation := by
      dsimp only
      split
      · exact h.pending
      · exact h.generation
    pending := Nat.zero_le _
    next := .inl rfl
    current := h.current.trans hle
    events := fun e he => ⟨(h.events e he).1, (h.events e he).2.trans hle⟩
    frames := fun f hf => (h.frames f hf).trans hle }

theorem Stamped.responded (h : Stamped c running s w) (hp : w.pipeline) (method : RtspMethod) (status : Nat) :
    Stamped c running s (w.responded method status) := by
  unfold Worker.responded
  extract_lets w₁ ok w₂ w₃ w₄ w₅
  have hp₁ : w₁.pipeline := (pipeline_event _ w).trans hp
  have h₁ : Stamped c running s w₁ := h.event _ rfl
  have h₂ : Stamped c running s w₂ ∧ w₂.pipeline := by
    unfold w₂
    split
    · exact ⟨{ h₁ with }, hp₁⟩
    · exact ⟨h₁, hp₁⟩
  have h₃ : Stamped c running s w₃ ∧ w₃.pipeline := by
    unfold w₃
    split
    · exact ⟨{ h₂.1 with }, h₂.2⟩
    · exact h₂
  have h₄ : Stamped c running s w₄ := by
    unfold w₄
    split
    · split
      · exact h₃.1.fail _
      · exact h₃.1.played h₃.2
    · exact h₃.1
  have h₅ : Stamped c running s w₅ := by
    unfold w₅
    split
    · exact { h₄ with }
    · exact h₄
  split
  · exact h₅.fail _
  · exact h₅

theorem Stamped.thread (h : Stamped c running s w) (input : WorkerInput) :
    Stamped c running s (w.thread k input) := by
  cases input with
  | turn => exact h
  | setup =>
    unfold Worker.thread
    dsimp only
    split
    · exact { h with }
    · exact h
  | responded method status =>
    unfold Worker.thread
    dsimp only
    split
    · rename_i hp
      exact h.responded hp method status
    · exact h
  | resume =>
    unfold Worker.thread
    dsimp only
    split
    · exact { h with }
    · exact h
  | controlReturned => exact { h with }
  | select track =>
    unfold Worker.thread Worker.select
    dsimp only
    split
    · split
      · exact { h with }
      · exact h
    · exact h
  | fault code =>
    unfold Worker.thread
    dsimp only
    split
    · exact h.fail _
    · exact h
  | gap => exact h.event _ rfl
  | diagnostic => exact h.event _ rfl
  | beginSend kind payload =>
    unfold Worker.thread Worker.beginSend
    dsimp only
    split
    · exact h
    · exact { h with }
  | sendData i =>
    unfold Worker.thread Worker.sendData
    dsimp only
    split
    · exact h
    · split
      · exact { h with }
      · exact { h with }
      · exact { h with }
  | pop => exact { h with }
  | write =>
    unfold Worker.thread Worker.writeData
    dsimp only
    split
    · exact { h with }
    · exact { h with }
  | settle => exact { h with }

-- The session

theorem owns_mono (he : s.expectedGeneration ≤ s'.expectedGeneration)
    (hq : s.commandSequence ≤ s'.commandSequence) (ho : s'.openSent = s.openSent)
    (h : s.owns c f) : s'.owns c f := by
  unfold NativeSession.owns NativeSession.startup at h ⊢
  rw [ho]
  rw [Bool.or_eq_true] at h ⊢
  refine h.imp_right fun h => ?_
  simp only [Bool.and_eq_true, decide_eq_true_eq] at h ⊢
  exact ⟨⟨h.1.1, h.1.2.trans he⟩, h.2.trans hq⟩

theorem Stamped.session_step (h : Stamped c running s w) (he : s.expectedGeneration ≤ s'.expectedGeneration)
    (hq : s.commandSequence ≤ s'.commandSequence)
    (hs : s.stopped → s'.stopped ∧ s'.closeSequence = s.closeSequence)
    (hg : s'.currentGeneration ≤ w.generation)
    (hr : s'.receipt = s.receipt)
    (ho : ∀ f ∈ w.control, terminal f.message → s'.owns c f) :
    Stamped c running s' w :=
  { h with
    generation := h.generation.trans he
    pending := h.pending.trans he
    request := h.request.trans hq
    close := h.close.imp_right fun ⟨hstop, heq, hle⟩ => ⟨(hs hstop).1, heq.trans (hs hstop).2.symm, hle.trans hq⟩
    current := hg
    attributed := ho
    unclosed := fun hp => ⟨hr.trans (h.unclosed hp).1, (h.unclosed hp).2⟩ }

theorem Issued.mono {command : Command} (h : Issued c s command) (he : s.expectedGeneration ≤ s'.expectedGeneration)
    (hq : s.commandSequence ≤ s'.commandSequence)
    (hs : s.stopped → s'.stopped ∧ s'.closeSequence = s.closeSequence) :
    Issued c s' command where
  session := h.session
  open_ hb := (h.open_ hb).trans hq
  control kind range hb :=
    ⟨(h.control kind range hb).1.trans hq, fun hk => ((h.control kind range hb).2 hk).trans_le he⟩
  close hb := by
    obtain ⟨hstop, heq, hle⟩ := h.close hb
    exact ⟨(hs hstop).1, heq.trans (hs hstop).2.symm, hle.trans hq⟩

theorem stopped_of_state (h : s'.currentState = s.currentState) : s'.stopped = s.stopped := by
  unfold NativeSession.stopped
  rw [h]

theorem running_of_state (h : s.currentState = .opening ∨ s.currentState = .playing ∨ s.currentState = .paused) :
    s.stopped = false := by
  unfold NativeSession.stopped
  rcases h with h | h | h <;> rw [h] <;> rfl

theorem stays_closes (hs : Stays c s s') (h : s.stopped) : s'.stopped ∧ s'.closeSequence = s.closeSequence := by
  refine ⟨hs.stopped h, hs.closing.resolve_right fun hn => ?_⟩
  rw [h] at hn
  cases hn.1

theorem Stamped.stays (h : Stamped c running s w) (hs : Stays c s s') : Stamped c running s' w :=
  h.session_step hs.expected.ge hs.sequence (stays_closes hs) (hs.generation.trans_le h.current) hs.receipt
    fun f hf ht => owns_mono hs.expected.ge hs.sequence hs.openSent (h.attributed f hf ht)

theorem Followed.stays (h : Followed c s) (hs : Stays c s s') : Followed c s' where
  opening ho := by
    have hrun : ¬s'.stopped := by
      rw [running_of_state (.inl ho)]
      exact Bool.false_ne_true
    have hstate := hs.state.resolve_right fun hn => hrun hn.1
    have hpending := hs.pending.resolve_right fun hn => hrun hn.1
    rw [hs.generation, hs.expected, hpending]
    exact h.opening (hstate ▸ ho)
  settled hr hp ho := by
    have hrun : ¬s'.stopped := by
      rw [hr]
      exact Bool.false_ne_true
    have hstate := hs.state.resolve_right fun hn => hrun hn.1
    have hpending := hs.pending.resolve_right fun hn => hrun hn.1
    rw [hs.generation, hs.expected]
    exact h.settled (stopped_of_state hstate ▸ hr) (hpending ▸ hp) (hstate ▸ ho)
  asked asked ha := by
    rcases hs.pending with hp | hp
    · rw [hs.expected]
      exact h.asked asked (hp ▸ ha)
    · rw [hp.2] at ha
      cases ha
  stopped hstop := by
    rcases hs.state with hstate | hp
    · rcases hs.pending with hp | hp
      · rw [hp]
        exact h.stopped (stopped_of_state hstate ▸ hstop)
      · exact hp.2
    · exact hp.2
  positive := hs.expected ▸ h.positive
  commands command hc := by
    obtain ⟨written, he, hplain⟩ := hs.commands
    have hold (hc : command ∈ s.commands) : Issued c s' command :=
      (h.commands command hc).mono hs.expected.ge hs.sequence (stays_closes hs)
    rcases List.mem_append.mp (he ▸ hc) with hm | hm
    · exact hold hm
    · refine ⟨(hplain command hm).session, fun hb => ?_, fun kind range hb => ?_, fun hb => ?_⟩
      · rcases (hplain command hm).body with hb' | ⟨bytes, units, hb'⟩
        · rw [hb] at hb'; cases hb'
        · rw [hb] at hb'; cases hb'
      · rcases (hplain command hm).body with hb' | ⟨bytes, units, hb'⟩
        · rw [hb] at hb'; cases hb'
        · rw [hb] at hb'; cases hb'
      · rcases hs.closes command hc hb with hm' | ⟨-, hstop, heq, hle⟩
        · exact (hold hm').close hb
        · exact ⟨hstop, heq, hle⟩

theorem Stamped.openSent (h : Stamped c running s w) (ho : OpenSent c s s')
    (hn : ∀ f ∈ w.control, terminal f.message = false) : Stamped c running s' w := by
  refine h.session_step ho.expected.ge (by rw [ho.sequence]; exact Nat.le_succ _) (fun hstop => ?_)
    (ho.generation.trans_le h.current) ho.receipt fun f hf ht => ?_
  · rw [running_of_state (.inl ho.opening)] at hstop
    cases hstop
  · rw [hn f hf] at ht
    cases ht

theorem Followed.appended (h : Followed c s) (he : s.expectedGeneration ≤ s'.expectedGeneration)
    (hq : s.commandSequence ≤ s'.commandSequence)
    (hr : s.stopped = false) {last : Command} (hl : Issued c s' last)
    (hc : s'.commands = s.commands ∨ s'.commands = s.commands ++ [last]) :
    ∀ command ∈ s'.commands, Issued c s' command := by
  intro command hm
  have hold (hm : command ∈ s.commands) : Issued c s' command :=
    (h.commands command hm).mono he hq fun hstop => by
      rw [hr] at hstop
      cases hstop
  rcases hc with hc | hc
  · exact hold (hc ▸ hm)
  · rcases List.mem_append.mp (hc ▸ hm) with hm | hm
    · exact hold hm
    · rw [List.mem_singleton.mp hm]
      exact hl

theorem Followed.openSent (h : Followed c s) (ho : OpenSent c s s') : Followed c s' where
  opening _ := by
    rw [ho.generation, ho.expected, ho.pending]
    exact h.opening ho.opening
  settled _ _ hno := absurd ho.state hno
  asked asked ha := by
    rw [ho.pending, (h.opening ho.opening).2.2] at ha
    cases ha
  stopped _ := ho.pending.trans (h.opening ho.opening).2.2
  positive := ho.expected ▸ h.positive
  commands := h.appended ho.expected.ge (by rw [ho.sequence]; exact Nat.le_succ _) (running_of_state (.inl ho.opening))
    ⟨rfl, fun _ => le_rfl, fun _ _ hb => CommandBody.noConfusion hb, fun hb => CommandBody.noConfusion hb⟩ ho.commands

theorem Stamped.readied (h : Stamped c running s w) {tracks : List MediaTrack}
    (hr : Readied f tracks s s')
    (hf : f.generation ≤ w.generation) : Stamped c running s' w := by
  refine h.session_step hr.expected.ge hr.sequence.ge (fun hstop => ?_) ?_ hr.receipt fun f hf ht =>
    owns_mono hr.expected.ge hr.sequence.ge hr.openSent (h.attributed f hf ht)
  · rw [running_of_state (.inl hr.opening)] at hstop
    cases hstop
  · rw [hr.generation, ← hr.correlated.2.1]
    exact hf

theorem Followed.readied (h : Followed c s) {tracks : List MediaTrack} (hr : Readied f tracks s s') :
    Followed c s' where
  opening ho := by
    rw [hr.state] at ho
    cases ho
  settled _ _ _ := by
    rw [hr.generation, hr.expected]
    exact (h.opening hr.opening).2.1.symm
  asked asked ha := by
    rw [hr.pending, (h.opening hr.opening).2.2] at ha
    cases ha
  stopped _ := hr.pending.trans (h.opening hr.opening).2.2
  positive := hr.expected ▸ h.positive
  commands command hc := by
    refine (h.commands command (hr.commands ▸ hc)).mono hr.expected.ge hr.sequence.ge fun hstop => ?_
    rw [running_of_state (.inl hr.opening)] at hstop
    cases hstop

theorem Stamped.acknowledged (h : Stamped c running s w) {paused : Bool}
    {asked : PendingControl} (ha : Acknowledged f kind paused asked s s')
    (hf : f.generation ≤ w.generation) : Stamped c running s' w := by
  refine h.session_step ha.expected.ge ha.sequence.ge (fun hstop => ?_) (ha.generation.trans_le hf) ha.receipt
    fun f hf ht => owns_mono ha.expected.ge ha.sequence.ge ha.openSent (h.attributed f hf ht)
  rw [ha.running] at hstop
  cases hstop

theorem Followed.acknowledged (h : Followed c s) {paused : Bool}
    {asked : PendingControl} (ha : Acknowledged f kind paused asked s s') : Followed c s' where
  opening ho := by
    rw [ha.state] at ho
    split at ho <;> cases ho
  settled _ _ _ := by
    have hagrees := ha.agrees
    simp only [NativeSession.acknowledges, Bool.and_eq_true, decide_eq_true_eq] at hagrees
    rw [ha.generation, ha.expected, hagrees.1.1.2]
    exact h.asked asked ha.pending
  asked asked' hp := by
    rw [ha.cleared] at hp
    cases hp
  stopped _ := ha.cleared
  positive := ha.expected ▸ h.positive
  commands command hc := by
    refine (h.commands command (ha.commands ▸ hc)).mono ha.expected.ge ha.sequence.ge fun hstop => ?_
    rw [ha.running] at hstop
    cases hstop

theorem accepted_free (h : s.refusal kind c = none) :
    (s.currentState = .playing ∨ s.currentState = .paused) ∧ s.pending = none := by
  unfold NativeSession.refusal at h
  split at h
  · cases h
  · rename_i hstate
    split at h
    · cases h
    · split at h
      · cases h
      · rename_i hpending
        rw [not_or, Option.isSome_iff_ne_none, not_not] at hpending
        refine ⟨?_, hpending.1⟩
        by_contra hn
        exact hstate (not_or.mp hn)

variable {range : Option (Nat × Nat)}

theorem Followed.expects (h : Followed c s)
    (hc : Commanded c kind range s s') :
    s.stopped = false ∧ s.expectedGeneration ≤ s'.expectedGeneration ∧ s.commandSequence ≤ s'.commandSequence := by
  obtain ⟨hstate, hpending⟩ := accepted_free hc.accepted
  have hrun : s.stopped = false := running_of_state (.inr hstate)
  refine ⟨hrun, ?_, by rw [hc.sequence]; exact Nat.le_succ _⟩
  rw [hc.expected, h.settled hrun hpending ?_]
  · exact Nat.le_add_right _ _
  · rcases hstate with hs | hs <;> rw [hs] <;> exact MediaSessionState.noConfusion

theorem Stamped.commanded (h : Stamped c running s w) (hfollowed : Followed c s) (hc : Commanded c kind range s s') : Stamped c running s' w := by
  obtain ⟨hrun, he, hq⟩ := hfollowed.expects hc
  refine h.session_step he hq (fun hstop => ?_) (hc.generation.trans_le h.current) hc.receipt fun f hf ht =>
    owns_mono he hq hc.openSent (h.attributed f hf ht)
  rw [hrun] at hstop
  cases hstop

theorem Followed.commanded (h : Followed c s)
    (hc : Commanded c kind range s s') : Followed c s' := by
  obtain ⟨hrun, he, hq⟩ := h.expects hc
  obtain ⟨hstate, -⟩ := accepted_free hc.accepted
  exact {
    opening := fun ho => by
      rw [hc.state] at ho
      rcases hstate with hs | hs
      · rw [hs] at ho; cases ho
      · rw [hs] at ho; cases ho
    settled := fun _ hp => by
      rw [hc.pending] at hp
      cases hp
    asked := fun asked ha => by
      rw [hc.pending] at ha
      cases ha
      rfl
    stopped := fun hstop => by
      rw [stopped_of_state hc.state, hrun] at hstop
      cases hstop
    positive := h.positive.trans he
    commands := by
      refine h.appended he hq hrun ⟨rfl, fun hb => CommandBody.noConfusion hb, fun _ _ hb => ⟨le_rfl, fun hk => ?_⟩,
        fun hb => CommandBody.noConfusion hb⟩ hc.commands
      cases hb
      rw [hc.expected, if_neg hk]
      exact Nat.lt_succ_self _ }

theorem canWrite_running (h : s.canWrite) : s.currentState = .playing ∧ s.pending = none := by
  simpa [NativeSession.canWrite] using h

theorem Stamped.written (h : Stamped c running s w) (hw : Written c s s') : Stamped c running s' w := by
  have hrun : s.stopped = false := running_of_state (.inr (.inl (canWrite_running hw.writable).1))
  refine h.session_step hw.expected.ge hw.sequence.ge (fun hstop => ?_) (hw.generation.trans_le h.current) hw.receipt
    fun f hf ht => owns_mono hw.expected.ge hw.sequence.ge hw.openSent (h.attributed f hf ht)
  rw [hrun] at hstop
  cases hstop

theorem Followed.written (h : Followed c s) (hw : Written c s s') : Followed c s' where
  opening ho := by
    rw [hw.generation, hw.expected, hw.pending]
    exact h.opening (hw.state ▸ ho)
  settled hr hp ho := by
    rw [hw.generation, hw.expected]
    exact h.settled (stopped_of_state hw.state ▸ hr) (hw.pending ▸ hp) (hw.state ▸ ho)
  asked asked ha := by
    rw [hw.expected]
    exact h.asked asked (hw.pending ▸ ha)
  stopped hstop := by
    rw [hw.pending]
    exact h.stopped (stopped_of_state hw.state ▸ hstop)
  positive := hw.expected ▸ h.positive
  commands command hc := by
    refine (h.commands command (hw.commands ▸ hc)).mono hw.expected.ge hw.sequence.ge fun hstop => ?_
    rw [running_of_state (.inr (.inl (canWrite_running hw.writable).1))] at hstop
    cases hstop

theorem Followed.ended (h : Followed c s) (receipt remote : Option MediaRemote) :
    Followed c { s with receipt, remote } where
  opening := h.opening
  settled := h.settled
  asked := h.asked
  stopped := h.stopped
  positive := h.positive
  commands command hc := (h.commands command hc).mono le_rfl le_rfl fun hs => ⟨hs, rfl⟩

theorem Followed.shut (h : Followed c s) (hs : s.stopped) : Followed c { s with currentState := .closed } where
  opening := nofun
  settled := nofun
  asked := h.asked
  stopped _ := h.stopped hs
  positive := h.positive
  commands command hc := (h.commands command hc).mono le_rfl le_rfl fun _ => ⟨rfl, rfl⟩

theorem Stamped.shut {remote : Option MediaRemote} (h : Stamped c running s w) :
    Stamped c running { s with currentState := .closed, remote } w :=
  { h with close := h.close.imp_right fun hk => ⟨rfl, hk.2⟩ }

end WotAv.System.MediaSystem
