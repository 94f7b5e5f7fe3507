import WotAv.System.Backchannel
import WotAv.System.Stamps

/-!
# How a worker ends, and what the session makes of it

A worker ends with CLOSED, once, and the session records it as its receipt.
A worker that fails before it has read OPEN writes ERROR and CLOSED without a
session; the session takes them for its own only as long as it has not sent
OPEN.
-/

namespace WotAv.System.MediaSystem

open WotAv.Lib WotAv.Media WotAv.Native
open WotAv.Media.NativeSession (Stays OpenSent Readied Acknowledged Commanded Written Received Move)

/-- The worker ends in its own name: what it writes before it has read OPEN
does not meet an OPEN on its way, and it is not killed after OPEN unless it has
ended, or may have left a session behind. -/
def attributable (c : MediaContext) (m : MediaSystem) : MediaLabel → Prop
  | .session (.openSettled (.ok ())) => m.session.opening = .securing → m.session.currentState = .opening →
    c.session.encodeOpen = .ok () → ¬m.finished ∧ ∀ f ∈ m.worker.control, terminal f.message = false
  | .worker (.turn _) => m.session.openSent → m.worker.openReceived = false →
    (m.worker.phase = .failure → m.worker.failure = none) ∧ m.worker.phase ≠ .closed
  | .kill => m.session.openSent → m.finished ∨ m.worker.setupSent
  | _ => True

def receipts (m : MediaSystem) : Nat := m.worker.control.countP isClosed + m.session.receipt.isSome.toNat

structure Closing (w : Worker) (frame : ControlFrame) : Prop where
  message : frame.message = .closed (some w.remote)
  generation : frame.generation = w.generation
  sequence : frame.sequence = w.closeRequest

variable {frame : ControlFrame}

theorem Closing.pipes {w : Worker} (h : Closing w frame) (control : List ControlFrame)
    (data : List IpcFrame) : Closing { w with control, data } frame :=
  ⟨h.message, h.generation, h.sequence⟩

/-- Every CLOSED is accounted for: none before the worker ends, and one after. -/
structure Accounted (c : MediaContext) (m : MediaSystem) : Prop where
  followed : Followed c.session m.session
  stamped : Stamped c.session (¬m.finished) m.session m.worker
  single : m.receipts ≤ 1
  closing : ∀ f ∈ m.worker.control, isClosed f → Closing m.worker f
  receipt : ∀ r, m.session.receipt = some r → r = m.worker.remote
  ended : m.finished → m.session.openSent → m.worker.setupSent = false → m.receipts = 1
  early : ¬m.finished → m.session.remote = none
  remote : ∀ r, m.session.remote = some r → m.worker.setupSent = false → r = .notCreated

variable {c : MediaContext} {m : MediaSystem} {s : NativeSession} {w : Worker}

-- The worker

theorem receipts_running (h : Stamped k running s w) (hr : running) : receipts ⟨s, w⟩ = 0 := by
  obtain ⟨hreceipt, hframes⟩ := h.unclosed hr
  have hzero : w.control.countP isClosed = 0 := List.countP_eq_zero.mpr fun f hf => by
    rw [hframes f hf]
    exact Bool.false_ne_true
  simp [receipts, hreceipt, hzero]

theorem Accounted.running (h : Accounted c m) (hp : ¬m.finished) (hs : Followed c.session s)
    (hw : Stamped c.session (¬m.finished) s w) (hw' : w.phase ≠ .exited) (hr : s.remote = m.session.remote) :
    Accounted c ⟨s, w⟩ where
  followed := hs
  stamped := { hw with unclosed := fun _ => hw.unclosed hp }
  single := (receipts_running hw hp).trans_le (Nat.zero_le 1)
  closing f hf hc := by
    rw [(hw.unclosed hp).2 f hf] at hc
    cases hc
  receipt r hr := by
    rw [show s.receipt = none from (hw.unclosed hp).1] at hr
    cases hr
  ended hf := absurd hf hw'
  early _ := hr.trans (h.early hp)
  remote r hm := by
    rw [show s.remote = none from hr.trans (h.early hp)] at hm
    cases hm

theorem receipts_reportClosed (h : Stamped k running s w) (hr : running) :
    receipts ⟨s, { w.reportClosed with phase := .exited }⟩ = 1 := by
  have hzero := receipts_running h hr
  unfold receipts at hzero ⊢
  dsimp only [Worker.reportClosed, Worker.write] at hzero ⊢
  rw [List.countP_append, List.countP_cons_of_pos rfl, List.countP_nil]
  omega

theorem Accounted.reportClosed (h : Accounted c m) (hp : ¬m.finished)
    (ho : m.session.openSent → m.worker.openReceived) :
    Accounted c { m with worker := { m.worker.reportClosed with phase := .exited } } where
  followed := h.followed
  stamped := { h.stamped.reportClosed ho with unclosed := fun hn => absurd rfl hn }
  single := (receipts_reportClosed h.stamped hp).le
  closing f hf hc := by
    rcases List.mem_append.mp hf with hf | hf
    · rw [(h.stamped.unclosed hp).2 f hf] at hc
      cases hc
    · rw [List.mem_singleton.mp hf]
      exact ⟨rfl, rfl, rfl⟩
  receipt r hr := by
    rw [show m.session.receipt = none from (h.stamped.unclosed hp).1] at hr
    cases hr
  ended _ _ _ := receipts_reportClosed h.stamped hp
  early hn := absurd rfl hn
  remote r hm := by
    rw [show m.session.remote = none from h.early hp] at hm
    cases hm

theorem taken_eq (t : Turn) (m : MediaSystem) : ∃ commands secrets audio, commands.Sublist m.session.commands ∧
    m.taken t = { m.session with commands, secrets, audio } := by
  unfold taken
  split
  · exact ⟨_, _, _, .refl _, rfl⟩
  · split
    · split
      · exact ⟨_, _, _, .refl _, rfl⟩
      · exact ⟨_, _, _, .refl _, rfl⟩
    · exact ⟨_, _, _, List.tail_sublist _, rfl⟩
    · split
      · exact ⟨_, _, _, .refl _, rfl⟩
      · exact ⟨_, _, _, .refl _, rfl⟩
    · exact ⟨_, _, _, .refl _, rfl⟩

theorem Followed.taken (h : Followed c.session m.session) (t : Turn) : Followed c.session (m.taken t) := by
  obtain ⟨commands, secrets, audio, hsub, he⟩ := taken_eq t m
  rw [he]
  refine { h with commands := fun command hc => ?_ }
  exact (h.commands command (hsub.subset hc)).mono le_rfl le_rfl fun hs => ⟨hs, rfl⟩

theorem Stamped.taken (h : Stamped k running m.session w) (t : Turn) : Stamped k running (m.taken t) w := by
  obtain ⟨commands, secrets, audio, -, he⟩ := taken_eq t m
  rw [he]
  exact { h with }

theorem Followed.read (h : Followed c.session m.session) (t : Turn) :
    ∀ command, m.session.commands.head? = some command → Issued c.session (m.taken t) command := by
  intro command hc
  obtain ⟨commands, secrets, audio, -, he⟩ := taken_eq t m
  rw [he]
  exact (h.commands command (List.mem_of_mem_head? hc)).mono le_rfl le_rfl fun hs => ⟨hs, rfl⟩

theorem remote_taken (t : Turn) (m : MediaSystem) : (m.taken t).remote = m.session.remote := by
  obtain ⟨commands, secrets, audio, -, he⟩ := taken_eq t m
  rw [he]

theorem openSent_taken (t : Turn) (m : MediaSystem) : (m.taken t).openSent = m.session.openSent := by
  obtain ⟨commands, secrets, audio, -, he⟩ := taken_eq t m
  rw [he]

theorem phase_event (message : ControlMessage) (w : Worker) : (w.event message).phase = w.phase := by
  unfold Worker.event
  split <;> rfl

theorem phase_responded (method : RtspMethod) (status : Nat) (w : Worker) :
    (w.responded method status).phase = w.phase := by
  unfold Worker.responded
  extract_lets w₁ ok w₂ w₃ w₄ w₅
  have h₁ : w₁.phase = w.phase := phase_event _ w
  have h₂ : w₂.phase = w₁.phase := by
    unfold w₂
    split <;> rfl
  have h₃ : w₃.phase = w₂.phase := by
    unfold w₃
    split <;> rfl
  have h₄ : w₄.phase = w₃.phase := by
    unfold w₄
    split
    · split <;> rfl
    · rfl
  have h₅ : w₅.phase = w₄.phase := by
    unfold w₅
    split <;> rfl
  rw [← h₁, ← h₂, ← h₃, ← h₄, ← h₅]
  split <;> rfl

theorem phase_thread (k : WorkerContext) (input : WorkerInput) (w : Worker) : (w.thread k input).phase = w.phase := by
  cases input with
  | responded method status =>
    unfold Worker.thread
    dsimp only
    split
    · exact phase_responded method status w
    · rfl
  | select track =>
    unfold Worker.thread Worker.select
    dsimp only
    split
    · split <;> rfl
    · rfl
  | gap => exact phase_event _ w
  | diagnostic => exact phase_event _ w
  | beginSend kind payload =>
    unfold Worker.thread Worker.beginSend
    dsimp only
    split <;> rfl
  | sendData i =>
    unfold Worker.thread Worker.sendData
    dsimp only
    split
    · rfl
    · split <;> rfl
  | write =>
    unfold Worker.thread Worker.writeData
    dsimp only
    split <;> rfl
  | setup | resume | fault =>
    unfold Worker.thread
    dsimp only
    split <;> rfl
  | _ => rfl

theorem phase_busMessage (message : BusMessage) (w : Worker) : (w.busMessage message).phase ≠ .exited := by
  cases message <;> nofun

theorem Accounted.turn (h : Accounted c m) (t : Turn) (hok : attributable c m (.worker (.turn t))) :
    Accounted c ⟨m.taken t, m.worker.turn c.worker t m.pipes⟩ := by
  have hfollowed := h.followed.taken t
  have hstamped := h.stamped.taken t
  have hreceived (hs : m.session.openSent) (hno : ¬((m.worker.phase = .failure → m.worker.failure = none) ∧
      m.worker.phase ≠ .closed)) : m.worker.openReceived := by
    cases hr : m.worker.openReceived with
    | true => rfl
    | false => exact absurd (hok hs hr) hno
  unfold Worker.turn
  by_cases hrun : m.finished
  · have hp : m.worker.phase = .exited := hrun
    rw [hp, show m.taken t = m.session by unfold taken; rw [hp]; exact ite_self _]
    exact h
  have hnext {w' : Worker} (hw : Stamped c.session (¬m.finished) (m.taken t) w') (hphase : w'.phase ≠ .exited) :
      Accounted c ⟨m.taken t, w'⟩ :=
    h.running hrun hfollowed hw hphase (remote_taken t m)
  cases hp : m.worker.phase with
  | secrets => exact hnext ((hstamped.joinControl.readSecrets t _).into _) nofun
  | command => exact hnext ((hstamped.readCommand (h.followed.read t) t).into _) nofun
  | opening => exact hnext ((hstamped.openNative hfollowed.positive t).into _) nofun
  | audio => exact hnext ((hstamped.readAudio t _).into _) nofun
  | bus =>
    dsimp only
    split
    · exact hnext (hstamped.busMessage _) (phase_busMessage _ _)
    · exact hnext (hstamped.into _) nofun
  | eos sequence => exact hnext ((hstamped.event _ rfl).into _) nofun
  | deadlines => exact hnext ((hstamped.deadlines t).into _) nofun
  | failure =>
    refine hnext ((hstamped.reportFailure fun hf hs => ?_).into _) nofun
    refine hreceived (openSent_taken t m ▸ hs) fun hno => ?_
    rw [hno.1 hp] at hf
    cases hf
  | drain left =>
    dsimp only
    split
    · exact hnext (hstamped.drainEvent.into _) nofun
    · exact hnext (hstamped.into _) nofun
  | ready => exact hnext ((hstamped.sendReady t).into _) nofun
  | control => exact hnext (hstamped.acknowledge.into _) nofun
  | dropped =>
    refine hnext (hstamped.reportDropped.into _) ?_
    dsimp only
    split <;> nofun
  | cancel => exact hnext (hstamped.cancel.into _) nofun
  | drainLast left =>
    dsimp only
    split
    · exact hnext (hstamped.drainEvent.into _) nofun
    · exact hnext (hstamped.into _) nofun
  | closed =>
    rw [show m.taken t = m.session by unfold taken; rw [hp]; exact ite_self _]
    exact h.reportClosed hrun fun hs => hreceived hs fun hno => hno.2 hp
  | exited => exact absurd hp hrun

theorem Accounted.thread (h : Accounted c m) (hp : ¬m.finished) (input : WorkerInput) :
    Accounted c { m with worker := m.worker.thread c.worker input } :=
  h.running hp h.followed (h.stamped.thread input) (by rw [phase_thread]; exact hp) rfl

theorem Accounted.kill (h : Accounted c m) (hok : attributable c m .kill) :
    Accounted c { m with worker := { m.worker with phase := .exited } } where
  followed := h.followed
  stamped := { h.stamped with unclosed := fun hn => absurd rfl hn }
  single := h.single
  closing f hf hc := by
    have hclosing := h.closing f hf hc
    exact ⟨hclosing.message, hclosing.generation, hclosing.sequence⟩
  receipt := h.receipt
  ended _ ho hsetup := by
    rcases hok ho with hf | hs
    · exact h.ended hf ho hsetup
    · rw [show m.worker.setupSent = false from hsetup] at hs
      cases hs
  early hn := absurd rfl hn
  remote := h.remote

-- The session

theorem Accounted.session (h : Accounted c m) (hfollowed : Followed c.session s)
    (hstamped : Stamped c.session (¬m.finished) s m.worker)
    (hreceipt : s.receipt = m.session.receipt) (hremote : s.remote = m.session.remote)
    (hsent : s.openSent = m.session.openSent ∨ ¬m.finished) : Accounted c { m with session := s } where
  followed := hfollowed
  stamped := hstamped
  single := by
    unfold receipts
    rw [hreceipt]
    exact h.single
  closing := h.closing
  receipt r hr := h.receipt r (hreceipt ▸ hr)
  ended hf ho hsetup := by
    unfold receipts
    rw [hreceipt]
    rcases hsent with hsent | hn
    · exact h.ended hf (hsent ▸ ho) hsetup
    · exact absurd hf hn
  early hn := hremote.trans (h.early hn)
  remote r hr := h.remote r (hremote ▸ hr)

theorem Accounted.stays (h : Accounted c m) (hs : Stays c.session m.session s) : Accounted c { m with session := s } :=
  h.session (h.followed.stays hs) (h.stamped.stays hs) hs.receipt hs.remote (.inl hs.openSent)

theorem Accounted.move (h : Accounted c m) {input : SessionInput} (hm : Move c.session m.session input s)
    (hcontrol : ∀ frame, input ≠ .control frame)
    (hexited : ∀ success, input = .exited success → m.finished ∧ m.worker.control = [])
    (hok : attributable c m (.session input)) : Accounted c { m with session := s } := by
  cases hm with
  | stays hs => exact h.stays hs
  | openSent hsecuring ho hs =>
    obtain ⟨hn, hterminal⟩ := hok hsecuring ho.opening ho.encoded
    have hopen : Accounted c { m with session := _ } :=
      h.session (h.followed.openSent ho) (h.stamped.openSent ho hterminal) ho.receipt ho.remote (.inr hn)
    exact hopen.stays hs
  | readied => exact absurd rfl (hcontrol _)
  | acknowledged => exact absurd rfl (hcontrol _)
  | closed => exact absurd rfl (hcontrol _)
  | commanded hc =>
    exact h.session (h.followed.commanded hc) (h.stamped.commanded h.followed hc) hc.receipt hc.remote
      (.inl hc.openSent)
  | written hw =>
    exact h.session (h.followed.written hw) (h.stamped.written hw) hw.receipt hw.remote (.inl hw.openSent)
  | exited hs hu =>
    obtain ⟨hfinished, hempty⟩ := hexited _ rfl
    have hstays := h.stays hs
    refine {
      followed := (hstays.followed.shut hu).ended _ _
      stamped := hstays.stamped.shut
      single := hstays.single
      closing := hstays.closing
      receipt := hstays.receipt
      ended := hstays.ended
      early := fun hn => absurd hfinished hn
      remote := fun r hr hsetup => ?_ }
    have hcreated : m.worker.remote = .notCreated := by
      unfold Worker.remote
      rw [if_pos (by rw [show m.worker.setupSent = false from hsetup]; exact Bool.false_ne_true)]
    rw [← Option.some.inj hr]
    unfold NativeSession.outcome
    cases hreceipt : m.session.receipt with
    | some remote => exact (h.receipt remote hreceipt).trans hcreated
    | none =>
      cases hsent : m.session.openSent with
      | false => rfl
      | true =>
        have hone := h.ended hfinished hsent hsetup
        unfold receipts at hone
        rw [hempty, hreceipt] at hone
        cases hone

theorem Stamped.popped (h : Stamped k running s w) (hc : w.control = frame :: rest) :
    Stamped k running s { w with control := rest } :=
  have hmem {f : ControlFrame} (hf : f ∈ rest) : f ∈ w.control := hc ▸ List.mem_cons_of_mem _ hf
  { h with
    frames := fun f hf => h.frames f (hmem hf)
    attributed := fun f hf ht => h.attributed f (hmem hf) ht
    unclosed := fun hr => ⟨(h.unclosed hr).1, fun f hf => (h.unclosed hr).2 f (hmem hf)⟩ }

section
variable (h : Accounted c m)
include h

theorem Accounted.popped (hc : m.worker.control = frame :: rest)
    (hn : isClosed frame = false) : Accounted c { m with worker := { m.worker with control := rest } } := by
  have hreceipts : receipts { m with worker := { m.worker with control := rest } } = m.receipts := by
    unfold receipts
    rw [hc, List.countP_cons_of_neg (by rw [hn]; exact Bool.false_ne_true)]
  exact {
    followed := h.followed
    stamped := h.stamped.popped hc
    single := hreceipts.trans_le h.single
    closing := fun f hf hclosed => by
      exact (h.closing f (hc ▸ List.mem_cons_of_mem _ hf) hclosed).pipes _ _
    receipt := h.receipt
    ended := fun hf ho hs => hreceipts.trans (h.ended hf ho hs)
    early := h.early
    remote := h.remote }

theorem Accounted.receives (hc : m.worker.control = frame :: rest)
    (hf : isClosed frame) :
    m.finished ∧ Closing m.worker frame ∧ m.session.owns c.session frame ∧ Received frame m.session ∧
      rest.countP isClosed = 0 := by
  have hmem : frame ∈ m.worker.control := by
    rw [hc]
    exact List.mem_cons_self
  have hclosing := h.closing frame hmem hf
  have hsingle := h.single
  unfold receipts at hsingle
  rw [hc, List.countP_cons_of_pos hf] at hsingle
  refine ⟨?_, hclosing, ?_, ⟨?_, ?_, ?_⟩, by omega⟩
  · by_contra hn
    rw [(h.stamped.unclosed hn).2 frame hmem] at hf
    cases hf
  · exact h.stamped.attributed frame hmem (by rw [hclosing.message]; rfl)
  · cases hr : m.session.receipt with
    | none => rfl
    | some remote =>
      rw [hr, Option.isSome_some, Bool.toNat_true] at hsingle
      omega
  · rw [hclosing.generation]
    exact h.stamped.current
  · rw [hclosing.sequence]
    exact h.stamped.close.imp_right fun hclose => hclose.2.1

theorem Accounted.received (hc : m.worker.control = frame :: rest)
    (hf : isClosed frame) :
    Accounted c ⟨{ m.session with receipt := some m.worker.remote }, { m.worker with control := rest }⟩ := by
  obtain ⟨hfinished, -, -, -, hnone⟩ := h.receives hc hf
  have hreceipts :
      receipts ⟨{ m.session with receipt := some m.worker.remote }, { m.worker with control := rest }⟩ = 1 := by
    unfold receipts
    dsimp only
    rw [hnone]
    rfl
  exact {
    followed := h.followed.ended _ _
    stamped := { h.stamped.popped hc with unclosed := fun hn => absurd hfinished hn }
    single := hreceipts.le
    closing := fun f hm hclosed => by
      exact (h.closing f (hc ▸ List.mem_cons_of_mem _ hm) hclosed).pipes _ _
    receipt := fun r hr => (Option.some.inj hr).symm
    ended := fun _ _ _ => hreceipts
    early := fun hn => absurd hfinished hn
    remote := h.remote }

theorem Accounted.closed (hc : m.worker.control = frame :: rest)
    (hf : isClosed frame) :
    Stays c.session { m.session with receipt := some m.worker.remote } (m.session.step c.session (.control frame)) := by
  obtain ⟨-, hclosing, howns, hreceived, -⟩ := h.receives hc hf
  exact NativeSession.control_received howns hclosing.message hreceived

theorem Accounted.control (hc : m.worker.control = frame :: rest) :
    Accounted c ⟨m.session.step c.session (.control frame), { m.worker with control := rest }⟩ := by
  cases hf : isClosed frame with
  | true => exact (h.received hc hf).stays (h.closed hc hf)
  | false =>
    have hpop := h.popped hc hf
    have hgeneration : frame.generation ≤ m.worker.generation :=
      h.stamped.frames frame (by rw [hc]; exact List.mem_cons_self)
    have hmove : Move c.session m.session (.control frame) (m.session.step c.session (.control frame)) :=
      NativeSession.step_move (.control frame) h.followed.stopped
    generalize m.session.step c.session (.control frame) = s at hmove
    cases hmove with
    | stays hs => exact hpop.stays hs
    | readied hm hr hs =>
      have hready : Accounted c { m with worker := { m.worker with control := rest }, session := _ } :=
        hpop.session (hpop.followed.readied hr) (hpop.stamped.readied hr hgeneration) hr.receipt hr.remote
          (.inl hr.openSent)
      exact hready.stays hs
    | acknowledged hm ha hs =>
      have hack : Accounted c { m with worker := { m.worker with control := rest }, session := _ } :=
        hpop.session (hpop.followed.acknowledged ha) (hpop.stamped.acknowledged ha hgeneration) ha.receipt ha.remote
          (.inl ha.openSent)
      exact hack.stays hs
    | closed hm =>
      unfold isClosed at hf
      rw [hm] at hf
      cases hf
    | written hw =>
      exact hpop.session (hpop.followed.written hw) (hpop.stamped.written hw) hw.receipt hw.remote (.inl hw.openSent)

end

-- Every run

theorem accounted_step (h : Accounted c m) (label : MediaLabel) (hok : attributable c m label) :
    Accounted c (step c m label) := by
  cases label with
  | session input =>
    unfold step
    dsimp only
    split
    · rename_i hself
      refine h.move (NativeSession.step_move input h.followed.stopped) (fun frame hi => ?_) (fun success hi => ?_) hok
      · rw [hi] at hself
        cases hself
      · rw [hi] at hself
        cases hself
    · exact h
  | control =>
    unfold step
    dsimp only
    split
    · rename_i hc
      exact h.control hc
    · exact h
  | data =>
    unfold step
    dsimp only
    split
    · rename_i frame rest _
      have hmove := h.move (NativeSession.step_move (.data frame) h.followed.stopped) nofun nofun trivial
      exact { hmove with
        stamped := { hmove.stamped with }
        closing := fun f hf hc => (hmove.closing f hf hc).pipes _ _ }
    · exact h
  | controlEnded =>
    unfold step
    dsimp only
    split
    · exact h.move (NativeSession.step_move .controlEnded h.followed.stopped) nofun nofun trivial
    · exact h
  | dataEnded =>
    unfold step
    dsimp only
    split
    · exact h.move (NativeSession.step_move .dataEnded h.followed.stopped) nofun nofun trivial
    · exact h
  | exited success =>
    unfold step
    dsimp only
    split
    · rename_i hends
      exact h.move (NativeSession.step_move (.exited success) h.followed.stopped) nofun
        (fun _ _ => ⟨hends.1, hends.2.1⟩) trivial
    · exact h
  | kill =>
    unfold step
    dsimp only
    split
    · exact h.kill hok
    · exact h
  | worker input =>
    unfold step
    dsimp only
    split
    · split
      · exact h.turn _ hok
      · exact h
    · split
      · exact h
      · rename_i hp
        exact h.thread hp _

theorem accounted_start {packetQueue : BoundedMediaQueue NativeMediaUnit Nat}
    {metadataQueue : BoundedMediaQueue MediaMetadataUnit Nat}
    {decodedQueue : BoundedMediaQueue MediaDecodedFrame Nat}
    {phase : Phase} {message : ControlMessage} (hm : isClosed ⟨message, 0, 0, 0⟩ = false) :
    Accounted c {
      session := { packetQueue, metadataQueue, decodedQueue }
      worker := { phase, control := [⟨message, 0, 0, 0⟩] } } where
  followed := ⟨fun _ => ⟨rfl, rfl, rfl⟩, fun _ _ hn => absurd rfl hn, nofun, fun _ => rfl, le_rfl, nofun⟩
  stamped := {
    session := nofun
    unopened := fun _ => ⟨rfl, rfl, rfl, rfl⟩
    bound := nofun
    unbound := fun _ => Nat.zero_le _
    generation := Nat.zero_le _
    pending := Nat.zero_le _
    next := .inl rfl
    request := Nat.zero_le _
    close := .inl rfl
    current := Nat.zero_le _
    events := nofun
    frames := fun f hf => by rw [List.mem_singleton.mp hf]
    attributed := fun f hf _ => by
      rw [List.mem_singleton.mp hf]
      rfl
    unclosed := fun _ => ⟨rfl, fun f hf => List.mem_singleton.mp hf ▸ hm⟩ }
  single := by
    unfold receipts
    rw [List.countP_cons_of_neg (by rw [hm]; exact Bool.false_ne_true)]
    exact Nat.zero_le 1
  closing f hf hc := by
    rw [List.mem_singleton.mp hf, hm] at hc
    cases hc
  receipt := nofun
  ended := nofun
  early _ := rfl
  remote := nofun

theorem accounted_reachable (h : ((system c).when (attributable c)).Reachable m) : Accounted c m := by
  refine h.invariant (fun _ hinit => ?_) fun m label m' hm hs => ?_
  · cases hinit with
    | hello => exact accounted_start rfl
    | unusable => exact accounted_start rfl
  · obtain ⟨hok, rfl⟩ := hs
    exact accounted_step hm label hok

instance (label : MediaLabel) : Decidable (attributable c m label) := by
  unfold attributable
  split <;> infer_instance

def ends : List MediaLabel := [.control] ++ turns 7 ++ [.control, .controlEnded, .dataEnded, .exited false]

def forestalled : List MediaLabel :=
  [.control, .session (.openSettled (.ok ())), .worker (.turn { read := true, parsed := false })] ++ turns 6

def refused : List MediaLabel :=
  [.control, .session (.openSettled (.ok ())), reads, .worker (.turn { read := true, parsed := false })] ++ turns 5

end WotAv.System.MediaSystem
