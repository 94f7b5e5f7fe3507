import WotAv.Media.QueueInvariant
import WotAv.Media.SessionSteps
import WotAv.Native.WorkerSteps
import WotAv.System.Media

/-!
# Backchannel and control

The session orders a control after its chunks by their local writes and a
pacing timer, and the worker reads a command before it reads the audio. The
two meet when a control is issued only after the worker has read what was
written. At most one control is under way; it is in the command pipe, with
the worker, or its acknowledgement is in the control pipe.
-/

namespace WotAv.System.MediaSystem

open WotAv.Lib WotAv.Media WotAv.Native
open WotAv.Media.NativeSession (Stays OpenSent Readied Acknowledged Commanded Written Plain Move)
open WotAv.Native.Worker (Rests Halting races answers)

-- The control under way

def isControl (command : Command) : Bool :=
  match command.body with
  | .control _ _ => true
  | _ => false

def isAck (frame : ControlFrame) : Bool :=
  match frame.message with
  | .control _ _ => true
  | _ => false

def held (w : Worker) : Nat := w.pendingControl.isSome.toNat + w.controlReady.isSome.toNat + w.control.countP isAck

def tokens (m : MediaSystem) : Nat := m.session.commands.countP isControl + held m.worker

structure Orderly (c : MediaContext) (m : MediaSystem) : Prop where
  single : m.tokens ≤ 1
  settled : m.session.pending = none → m.session.stopped = false → m.tokens = 0
  stopped : m.session.stopped → m.session.pending = none
  opening : m.session.currentState = .opening → m.session.pending = none ∧ m.session.backchannel = none
  audio : m.session.audio ≠ [] → m.tokens = 0
  commands : ∀ command ∈ m.session.commands, command.session = c.session.id
  frames : ∀ frame ∈ m.session.audio, frame.session = c.session.id
  events : ∀ e ∈ m.worker.events, answers e.message = false
  ending : Worker.Late m.worker.phase → m.worker.done
  clean : ∀ code, m.worker.failure = some code → code ∉ races

-- A worker that takes the backchannel

/-- The worker takes backchannel frames of a generation. -/
structure Steady (w : Worker) (generation : Nat) : Prop where
  ready : w.ready
  accepting : w.acceptingData
  unpaused : w.paused = false
  free : w.pendingControl = none
  current : generation = w.generation

/-- The worker's own part. -/
structure Sound (c : MediaContext) (w : Worker) : Prop where
  session : w.openReceived → w.session = c.session.id
  opened : w.pipeline → w.openReceived
  bound : w.ready → w.pipeline
  next : w.pendingControl = none ∨ w.pendingControl = some .pause → w.pendingGeneration = 0
  selected : w.selected.any (·.id = 4) → w.backSource
  resumed : w.controlReady.isSome → w.paused = false → Steady w w.generation

/-- What the control pipe says of the worker. -/
structure Told (opening : Prop) (w : Worker) (frame : ControlFrame) : Prop where
  ready : ∀ tracks, frame.message = .ready tracks → opening → Steady w frame.generation
  offered : ∀ tracks, frame.message = .ready (some tracks) → tracks.any (·.id = 4) → w.backSource
  acknowledged : ∀ kind, frame.message = .control kind false → Steady w frame.generation

def written (s : NativeSession) : Nat := (s.backchannel.map (·.sequence)).getD 0

/-- What holds until the worker reads no more audio. -/
structure Live (c : MediaContext) (m : MediaSystem) : Prop where
  sound : Sound c m.worker
  opening : m.session.currentState = .opening → m.worker.ready → Steady m.worker m.worker.generation
  told : ∀ frame ∈ m.worker.control, Told (m.session.currentState = .opening) m.worker frame
  playing : m.session.canWrite → Steady m.worker m.session.currentGeneration
  source : m.session.backchannel.isSome → m.worker.backSource
  audio : ∀ frame ∈ m.session.audio, Steady m.worker frame.generation
  ordered : (m.worker.audioSequence :: m.session.audio.map (·.sequence)).Pairwise (· < ·)
  bounded : ∀ n ∈ m.worker.audioSequence :: m.session.audio.map (·.sequence), n ≤ written m.session

structure Inv (c : MediaContext) (m : MediaSystem) : Prop where
  orderly : Orderly c m
  live : ¬m.worker.Halting → Live c m

variable {c : MediaContext} {m : MediaSystem} {s : NativeSession} {w : Worker}

-- Steps of the worker

theorem Orderly.worker (h : Orderly c m) (hheld : held w ≤ held m.worker)
    (hevents : ∀ e ∈ w.events, answers e.message = false)
    (hending : Worker.Late w.phase → w.done)
    (hclean : ∀ code, w.failure = some code → code ∉ races) : Orderly c { m with worker := w } where
  single := (Nat.add_le_add_left hheld _).trans h.single
  settled hp hs := Nat.eq_zero_of_le_zero ((Nat.add_le_add_left hheld _).trans_eq (h.settled hp hs))
  stopped := h.stopped
  opening := h.opening
  audio ha := Nat.eq_zero_of_le_zero ((Nat.add_le_add_left hheld _).trans_eq (h.audio ha))
  commands := h.commands
  frames := h.frames
  events := hevents
  ending := hending
  clean := hclean

theorem isAck_answers {frame : ControlFrame} (h : isAck frame) : answers frame.message := by
  unfold isAck at h
  split at h
  · rename_i hm
    rw [hm]
    rfl
  · cases h

theorem countP_isAck_append {l : List ControlFrame} (h : ∀ f ∈ l, answers f.message = false)
    (l₀ : List ControlFrame) :
    (l₀ ++ l).countP isAck = l₀.countP isAck := by
  have hl : l.countP isAck = 0 := by
    rw [List.countP_eq_zero]
    intro f hf ha
    exact absurd (isAck_answers ha) (by rw [h f hf]; exact Bool.false_ne_true)
  rw [List.countP_append, hl, Nat.add_zero]

theorem Steady.of_core {w w' : Worker} (h : Steady w generation) (hc : w'.core = w.core) :
    Steady w' generation where
  ready := (congrArg Worker.Core.ready hc).trans h.ready
  accepting := (congrArg Worker.Core.acceptingData hc).trans h.accepting
  unpaused := (congrArg Worker.Core.paused hc).trans h.unpaused
  free := (congrArg Worker.Core.pendingControl hc).trans h.free
  current := h.current.trans (congrArg Worker.Core.generation hc).symm

theorem Sound.of_core {w w' : Worker} (h : Sound c w) (hc : w'.core = w.core) : Sound c w' where
  session ho := (congrArg Worker.Core.session hc).trans (h.session ((congrArg Worker.Core.openReceived hc).symm.trans ho))
  opened hp := (congrArg Worker.Core.openReceived hc).trans (h.opened ((congrArg Worker.Core.pipeline hc).symm.trans hp))
  bound hr := (congrArg Worker.Core.pipeline hc).trans (h.bound ((congrArg Worker.Core.ready hc).symm.trans hr))
  next hp := by
    have hpending : w'.pendingControl = w.pendingControl := congrArg Worker.Core.pendingControl hc
    rw [hpending] at hp
    exact (congrArg Worker.Core.pendingGeneration hc).trans (h.next hp)
  selected hs := by
    have hselected : w'.selected = w.selected := congrArg Worker.Core.selected hc
    rw [hselected] at hs
    exact (congrArg Worker.Core.backSource hc).trans (h.selected hs)
  resumed hr hp := by
    have hcontrol : w'.controlReady = w.controlReady := congrArg Worker.Core.controlReady hc
    rw [hcontrol] at hr
    have hsteady := h.resumed hr ((congrArg Worker.Core.paused hc).symm.trans hp)
    have hgeneration : w'.generation = w.generation := congrArg Worker.Core.generation hc
    rw [hgeneration]
    exact hsteady.of_core hc

theorem Told.mono {w w' : Worker} {opening : Prop} (h : Told opening w frame)
    (hsteady : ∀ generation, Steady w generation → Steady w' generation) (hback : w.backSource → w'.backSource) :
    Told opening w' frame where
  ready tracks hm ho := hsteady _ (h.ready tracks hm ho)
  offered tracks hm ht := hback (h.offered tracks hm ht)
  acknowledged kind hm := hsteady _ (h.acknowledged kind hm)

theorem told_of_answers {opening : Prop} (h : answers frame.message = false) : Told opening w frame where
  ready tracks hm := by rw [hm] at h; cases h
  offered tracks hm := by rw [hm] at h; cases h
  acknowledged kind hm := by rw [hm] at h; cases h

theorem Live.worker (h : Live c m) (hsound : Sound c w)
    (hsteady : ∀ generation, Steady m.worker generation → Steady w generation)
    (hopening : m.session.currentState = .opening → w.ready → Steady w w.generation)
    (hback : m.worker.backSource → w.backSource) (hsequence : w.audioSequence = m.worker.audioSequence)
    (htold : ∀ frame ∈ w.control, frame ∈ m.worker.control ∨ Told (m.session.currentState = .opening) w frame) :
    Live c { m with worker := w } where
  sound := hsound
  opening := hopening
  told frame hf := by
    rcases htold frame hf with hf | hf
    · exact (h.told frame hf).mono hsteady hback
    · exact hf
  playing hw := hsteady _ (h.playing hw)
  source hs := hback (h.source hs)
  audio frame hf := hsteady _ (h.audio frame hf)
  ordered := by rw [hsequence]; exact h.ordered
  bounded := by rw [hsequence]; exact h.bounded

theorem Live.core (h : Live c m) (hcore : w.core = m.worker.core)
    (htold : ∀ frame ∈ w.control, frame ∈ m.worker.control ∨ Told (m.session.currentState = .opening) w frame) :
    Live c { m with worker := w } := by
  have hgeneration : w.generation = m.worker.generation := congrArg Worker.Core.generation hcore
  refine h.worker (h.sound.of_core hcore) (fun g hg => hg.of_core hcore) (fun ho hready => ?_)
    (fun hb => (congrArg Worker.Core.backSource hcore).trans hb) (congrArg Worker.Core.audioSequence hcore) htold
  rw [hgeneration]
  exact (h.opening ho ((congrArg Worker.Core.ready hcore).symm.trans hready)).of_core hcore

theorem Inv.rests (h : Inv c m) (hr : Rests m.worker w) : Inv c { m with worker := w } := by
  obtain ⟨l, hl, hw⟩ := hr.control
  have hplain : ∀ f ∈ l, answers f.message = false := by
    intro f hf
    rcases hw f hf with ha | ⟨e, he, hm⟩
    · exact ha
    · rw [← hm]
      exact h.orderly.events e he
  constructor
  · refine h.orderly.worker ?_ ?_ (fun hp => ?_) ?_
    · have hpending : w.pendingControl = m.worker.pendingControl := congrArg Worker.Core.pendingControl hr.core
      have hready : w.controlReady = m.worker.controlReady := congrArg Worker.Core.controlReady hr.core
      unfold held
      rw [hpending, hready, hl, countP_isAck_append hplain]
    · intro e he
      exact (hr.events e he).elim (h.orderly.events e) fun ha => ha
    · rcases hr.phase with hsame | hearly
      · exact hr.done (h.orderly.ending (hsame ▸ hp))
      · exact absurd hp hearly
    · intro code hc
      rcases hr.failure with hf | ⟨_, code', hc', hf⟩
      · exact h.orderly.clean code (hf ▸ hc)
      · rw [hf] at hc
        exact Option.some.inj hc ▸ hc'
  · intro hh
    have hlive := h.live fun hm => hh (hr.halting hm)
    refine hlive.core hr.core fun frame hf => ?_
    rw [hl] at hf
    rcases List.mem_append.mp hf with hf | hf
    · exact .inl hf
    · exact .inr (told_of_answers (hplain frame hf))

-- The worker's own steps

theorem clean_fail {code : String} (h : ∀ code, w.failure = some code → code ∉ races) (hc : code ∉ races) :
    ∀ code', (w.fail code).failure = some code' → code' ∉ races := by
  intro code' hf
  unfold Worker.fail at hf
  dsimp only at hf
  cases hw : w.failure with
  | none =>
    rw [hw, Option.getD_none] at hf
    exact Option.some.inj hf ▸ hc
  | some code'' =>
    rw [hw, Option.getD_some] at hf
    exact h code' (hw.trans hf)

/-- The session waits for a control that the worker has just read, and has
nothing in the audio pipe. -/
structure Handed (m : MediaSystem) : Prop where
  only : m.tokens = 0
  waits : m.session.pending = none → m.session.stopped
  audio : m.session.audio = []

theorem Handed.held (hd : Handed m) : held m.worker = 0 := Nat.eq_zero_of_add_eq_zero_left hd.only

theorem free_of_held (h : held w = 0) : w.pendingControl = none ∧ w.controlReady = none ∧
    w.control.countP isAck = 0 := by
  unfold MediaSystem.held at h
  refine ⟨?_, ?_, by omega⟩
  · cases hp : w.pendingControl with
    | none => rfl
    | some => rw [hp, Option.isSome_some, Bool.toNat_true] at h; omega
  · cases hr : w.controlReady with
    | none => rfl
    | some => rw [hr, Option.isSome_some, Bool.toNat_true] at h; omega

theorem Handed.started (hd : Handed m) (h : Inv c m) : m.session.currentState ≠ .opening := by
  intro ho
  have hs := hd.waits (h.orderly.opening ho).1
  unfold NativeSession.stopped at hs
  rw [ho] at hs
  exact absurd hs (by decide)

theorem Handed.writes (hd : Handed m) : ¬m.session.canWrite := by
  intro hw
  unfold NativeSession.canWrite at hw
  rw [Bool.and_eq_true, decide_eq_true_eq, Option.isNone_iff_eq_none] at hw
  have hs := hd.waits hw.2
  unfold NativeSession.stopped at hs
  rw [hw.1] at hs
  exact absurd hs (by decide)

theorem Handed.orderly (hd : Handed m) (h : Inv c m) (hheld : MediaSystem.held w ≤ 1)
    (hevents : w.events = m.worker.events)
    (hphase : w.phase = m.worker.phase) (hdone : w.done = m.worker.done)
    (hclean : ∀ code, w.failure = some code → code ∉ races) : Orderly c { m with worker := w } where
  single := by
    have hcommands : m.session.commands.countP isControl = 0 := Nat.eq_zero_of_add_eq_zero_right hd.only
    change m.session.commands.countP isControl + MediaSystem.held w ≤ 1
    omega
  settled hp hs := by
    have hstop := hd.waits hp
    rw [show m.session.stopped = false from hs] at hstop
    cases hstop
  stopped := h.orderly.stopped
  opening := h.orderly.opening
  audio ha := absurd hd.audio ha
  commands := h.orderly.commands
  frames := h.orderly.frames
  events := hevents ▸ h.orderly.events
  ending hp := hdone ▸ h.orderly.ending (hphase ▸ hp)
  clean := hclean

theorem Handed.live (hd : Handed m) (h : Inv c m) (hl : Live c m) (hsound : Sound c w)
    (hcontrol : w.control = m.worker.control) (hback : w.backSource = m.worker.backSource)
    (hsequence : w.audioSequence = m.worker.audioSequence) : Live c { m with worker := w } where
  sound := hsound
  opening ho := absurd ho (hd.started h)
  told frame hf := by
    rw [hcontrol] at hf
    refine ⟨fun _ _ ho => absurd ho (hd.started h), fun tracks hm ht => ?_, fun kind hm => ?_⟩
    · exact hback ▸ (hl.told frame hf).offered tracks hm ht
    · have hacks := (free_of_held hd.held).2.2
      rw [List.countP_eq_zero] at hacks
      exact absurd (by simp [isAck, hm]) (hacks frame hf)
  playing hw := absurd hw hd.writes
  source hs := hback ▸ hl.source hs
  audio frame hf := by rw [show m.session.audio = [] from hd.audio] at hf; cases hf
  ordered := hsequence ▸ hl.ordered
  bounded := hsequence ▸ hl.bounded

theorem Handed.startControl (hd : Handed m) (h : Inv c m) (kind : ControlKind) (sequence : Nat) :
    Inv c { m with worker := m.worker.startControl kind sequence } := by
  obtain ⟨hpending, hready, hacks⟩ := free_of_held hd.held
  have hheld (w : Worker) (hr : w.controlReady = m.worker.controlReady) (hc : w.control = m.worker.control) :
      MediaSystem.held w ≤ 1 := by
    unfold MediaSystem.held
    rw [hr, hc, hready, hacks, Option.isSome_none, Bool.toNat_false]
    have := Bool.toNat_le w.pendingControl.isSome
    omega
  have hsound (w : Worker) (hs : Sound c m.worker) (hr : w.controlReady = none)
      (hcore : w.session = m.worker.session ∧ w.openReceived = m.worker.openReceived ∧
        w.pipeline = m.worker.pipeline ∧ w.ready = m.worker.ready ∧ w.selected = m.worker.selected ∧
        w.backSource = m.worker.backSource)
      (hn : w.pendingControl = none ∨ w.pendingControl = some .pause → w.pendingGeneration = 0) : Sound c w := by
    obtain ⟨h₁, h₂, h₃, h₄, h₅, h₆⟩ := hcore
    refine ⟨?_, ?_, ?_, hn, ?_, fun ho => ?_⟩
    · rw [h₁, h₂]
      exact hs.session
    · rw [h₂, h₃]
      exact hs.opened
    · rw [h₃, h₄]
      exact hs.bound
    · rw [h₅, h₆]
      exact hs.selected
    · rw [hr] at ho
      cases ho
  unfold Worker.startControl
  dsimp only
  split
  · refine ⟨hd.orderly h (hheld _ rfl rfl) rfl rfl rfl h.orderly.clean, fun hh => ?_⟩
    have hl := h.live hh
    exact hd.live h hl (hsound _ hl.sound hready ⟨rfl, rfl, rfl, rfl, rfl, rfl⟩ fun _ => hl.sound.next (.inl hpending)) rfl rfl rfl
  · rename_i hk
    split
    · exact ⟨hd.orderly h (hheld _ rfl rfl) rfl rfl rfl (clean_fail h.orderly.clean (by decide)),
        fun hh => absurd (Worker.fail_halting _ _) hh⟩
    · refine ⟨hd.orderly h (hheld _ rfl rfl) rfl rfl rfl h.orderly.clean, fun hh => ?_⟩
      have hl := h.live hh
      refine hd.live h hl (hsound _ hl.sound hready ⟨rfl, rfl, rfl, rfl, rfl, rfl⟩ fun hn => ?_) rfl rfl rfl
      rcases hn with hn | hn
      · cases hn
      · exact absurd (Option.some.inj hn) hk

theorem Inv.fail {code : String} (h : Inv c m) (hc : code ∉ races) :
    Inv c { m with worker := m.worker.fail code } :=
  h.rests (Worker.rests_fail hc _)

theorem Inv.opened (h : Inv c m) {n : Nat} (hs : n = c.session.id) (request : Nat) :
    Inv c { m with worker := { m.worker with session := n, request, openReceived := true } } := by
  refine ⟨h.orderly.worker le_rfl h.orderly.events h.orderly.ending h.orderly.clean, fun hh => ?_⟩
  have hl := h.live hh
  have hsteady (g : Nat) (hg : Steady m.worker g) : Steady { m.worker with session := n, request, openReceived := true } g :=
    ⟨hg.ready, hg.accepting, hg.unpaused, hg.free, hg.current⟩
  refine hl.worker ⟨fun _ => hs, fun _ => rfl, hl.sound.bound, hl.sound.next, hl.sound.selected, fun hr hp => ?_⟩
    hsteady (fun ho hr => hsteady _ (hl.opening ho hr)) (fun hb => hb) rfl fun _ hf => .inl hf
  exact hsteady _ (hl.sound.resumed hr hp)

theorem Handed.takeControl (hd : Handed m) (h : Inv c m) (kind : ControlKind) (range : Option (Nat × Nat))
    (sequence : Nat) :
    Inv c { m with worker := m.worker.takeControl c.worker kind range sequence } := by
  unfold Worker.takeControl
  split
  · exact h.fail (by decide)
  · split
    · exact h.fail (by decide)
    · exact hd.startControl h kind sequence

theorem Inv.dispatch (h : Inv c m) (hs : command.session = c.session.id) (hd : isControl command → Handed m)
    (t : Turn) :
    Inv c { m with worker := m.worker.dispatch c.worker t command } := by
  unfold Worker.dispatch
  split
  · have ho := h.opened hs command.sequence
    dsimp only
    split
    · exact ho
    · exact ho.fail (by decide)
  · split
    · split
      · exact h.fail (by decide)
      · split
        · exact h.fail (by decide)
        · split
          · exact h.fail (by decide)
          · split
            · exact h.rests (.aside rfl rfl rfl rfl rfl rfl)
            · exact h.fail (by decide)
    · split
      · exact h.fail (by decide)
      · split
        · exact h.rests { Rests.refl m.worker with core := rfl, done := fun _ => rfl }
        · exact h.fail (by decide)
    · rename_i kind range hb
      split
      · exact h.fail (by decide)
      · split
        · exact (hd (by simp [isControl, hb])).takeControl h kind range command.sequence
        · exact h.fail (by decide)
    · split
      · exact h.fail (by decide)
      · exact h.fail (by decide)

theorem Inv.pipes (h : Inv c m) (hcommands : s.commands.Sublist m.session.commands)
    (hrest : s = { m.session with commands := s.commands, secrets := s.secrets }) :
    Inv c { m with session := s } := by
  have hle : s.commands.countP isControl ≤ m.session.commands.countP isControl := hcommands.countP_le
  have htokens : MediaSystem.tokens { m with session := s } ≤ m.tokens := Nat.add_le_add_right hle _
  have ho := h.orderly
  rw [hrest] at htokens ⊢
  constructor
  · exact {
      single := htokens.trans ho.single
      settled := fun hp hs => Nat.eq_zero_of_le_zero (htokens.trans_eq (ho.settled hp hs))
      stopped := ho.stopped
      opening := ho.opening
      audio := fun ha => Nat.eq_zero_of_le_zero (htokens.trans_eq (ho.audio ha))
      commands := fun command hc => ho.commands command (hcommands.subset hc)
      frames := ho.frames
      events := ho.events
      ending := ho.ending
      clean := ho.clean }
  · intro hh
    have hl := h.live hh
    exact ⟨hl.sound, hl.opening, hl.told, hl.playing, hl.source, hl.audio, hl.ordered, hl.bounded⟩

theorem Inv.handed (h : Inv c m) (hc : m.session.commands = command :: rest) (hk : isControl command) :
    Handed { m with session := { m.session with commands := rest } } := by
  have htokens : m.tokens = rest.countP isControl + 1 + held m.worker := by
    unfold tokens
    rw [hc, List.countP_cons_of_pos hk]
  have hsingle := h.orderly.single
  refine ⟨?_, fun hp => ?_, ?_⟩
  · change rest.countP isControl + held m.worker = 0
    omega
  · cases hs : m.session.stopped with
    | true => exact hs
    | false =>
      have := h.orderly.settled hp hs
      omega
  · by_contra ha
    have := h.orderly.audio ha
    omega

theorem taken_command (hp : m.worker.phase = .command) :
    m.taken t = if ¬t.read then m.session else { m.session with commands := m.session.commands.tail } := by
  unfold taken
  rw [hp]

theorem Inv.readCommand (h : Inv c m) (hp : m.worker.phase = .command) (hf : m.finds t) :
    Inv c ⟨m.taken t, m.worker.readCommand c.worker t m.session.commands.head?⟩ := by
  have hinvalid : ¬t.invalid := by
    unfold finds at hf
    rw [Bool.and_eq_true] at hf
    simpa using hf.1
  rw [taken_command hp]
  unfold Worker.readCommand
  rw [if_neg hinvalid]
  cases hc : m.session.commands with
  | nil =>
    have hsame : { m.session with commands := [] } = m.session := by rw [← hc]
    dsimp only [List.head?_nil, List.tail_nil]
    rw [hsame, ite_self]
    split
    · exact h.rests { Rests.refl m.worker with core := rfl, done := fun _ => rfl }
    · exact h
  | cons command rest =>
    dsimp only [List.head?_cons, List.tail_cons]
    split
    · exact h
    · have hrest : Inv c ⟨{ m.session with commands := rest }, m.worker⟩ :=
        h.pipes (by rw [hc]; exact List.sublist_cons_self _ _) rfl
      have hs := h.orderly.commands command (by rw [hc]; exact List.mem_cons_self)
      have hrate : "IpcCommandSequenceOrRate" ∉ races := by decide
      split
      · exact (hrest.fail hrate).rests (.aside rfl rfl rfl rfl rfl rfl)
      · exact (hrest.dispatch hs (h.handed hc) t).rests (.aside rfl rfl rfl rfl rfl rfl)

theorem Sound.unbound (h : Sound c w) (hp : ¬w.pipeline) (generation : Nat) : ¬Steady w generation :=
  fun hs => hp (h.bound hs.ready)

theorem Inv.openNative (h : Inv c m) (t : Turn) : Inv c { m with worker := m.worker.openNative c.worker t } := by
  unfold Worker.openNative
  split
  · exact h
  · rename_i hno
    rw [not_or, not_or, not_or, not_or, not_not, not_not] at hno
    obtain ⟨_, _, hreceived, _, hpipeline⟩ := hno
    split
    · exact h.fail (by decide)
    · split
      · exact h.fail (by decide)
      · exact ⟨h.orderly.worker le_rfl h.orderly.events h.orderly.ending (clean_fail h.orderly.clean (by decide)),
          fun hh => absurd (Worker.fail_halting _ _) hh⟩
      · refine ⟨h.orderly.worker le_rfl h.orderly.events h.orderly.ending h.orderly.clean, fun hh => ?_⟩
        have hl := h.live hh
        have hnone (g : Nat) : ¬Steady m.worker g := hl.sound.unbound hpipeline g
        refine hl.worker ⟨hl.sound.session, fun _ => hreceived, fun _ => rfl, hl.sound.next, hl.sound.selected,
          fun hr hp => absurd (hl.sound.resumed hr hp) (hnone _)⟩ (fun g hg => absurd hg (hnone g))
          (fun ho hr => absurd (hl.opening ho hr) (hnone _)) (fun hb => hb) rfl fun _ hf => .inl hf

theorem Inv.sendReady (h : Inv c m) (t : Turn) : Inv c { m with worker := m.worker.sendReady c.worker t } := by
  unfold Worker.sendReady
  split
  · exact h
  · rename_i hno
    rw [not_or, not_or, not_or, not_not] at hno
    obtain ⟨_, hready, _, _⟩ := hno
    dsimp only
    split
    · split
      · exact h.rests (.aside rfl rfl rfl rfl rfl rfl)
      · refine ⟨h.orderly.worker ?_ h.orderly.events h.orderly.ending h.orderly.clean, fun hh => ?_⟩
        · unfold held Worker.write
          dsimp only
          rw [List.countP_append]
          exact le_rfl
        · have hl := h.live hh
          refine hl.core rfl fun frame hf => ?_
          rcases List.mem_append.mp hf with hf | hf
          · exact .inl hf
          · rw [List.mem_singleton.mp hf]
            refine .inr ⟨fun _ _ ho => (hl.opening ho hready).of_core rfl, fun tracks hm ht => ?_, nofun⟩
            have htracks : (if t.parsed then some m.worker.selected else none) = some tracks :=
              ControlMessage.ready.inj hm
            split at htracks
            · rw [← Option.some.inj htracks] at ht
              exact hl.sound.selected ht
            · cases htracks
    · have hf : Rests m.worker (m.worker.fail "MissingRequiredTrack") := Worker.rests_fail (by decide) _
      rw [if_pos (show (m.worker.fail "MissingRequiredTrack").failure.isSome from rfl)]
      exact h.rests (hf.trans (.aside rfl rfl rfl rfl rfl rfl))

theorem Inv.acknowledge (h : Inv c m) : Inv c { m with worker := m.worker.acknowledge } := by
  unfold Worker.acknowledge
  split
  · rename_i kind hk
    split
    · exact h
    · refine ⟨h.orderly.worker ?_ h.orderly.events h.orderly.ending h.orderly.clean, fun hh => ?_⟩
      · unfold held Worker.write
        dsimp only
        rw [List.countP_append, hk]
        simp only [Option.isSome_none, Option.isSome_some, Bool.toNat_false, Bool.toNat_true, isAck, List.countP_singleton]
        split <;> omega
      · have hl := h.live hh
        have hsteady (g : Nat) (hg : Steady m.worker g) : Steady { (m.worker.write
            (.control kind m.worker.paused) m.worker.generation m.worker.request) with controlReady := none } g :=
          ⟨hg.ready, hg.accepting, hg.unpaused, hg.free, hg.current⟩
        refine hl.worker ⟨hl.sound.session, hl.sound.opened, hl.sound.bound, hl.sound.next, hl.sound.selected, nofun⟩
          hsteady (fun ho hr => hsteady _ (hl.opening ho hr)) (fun hb => hb) rfl fun frame hf => ?_
        rcases List.mem_append.mp hf with hf | hf
        · exact .inl hf
        · rw [List.mem_singleton.mp hf]
          refine .inr ⟨nofun, nofun, fun kind' hm => hsteady _ (hl.sound.resumed (by rw [hk]; rfl) ?_)⟩
          exact (ControlMessage.control.inj hm).2
  · exact h

-- The backchannel

theorem Inv.audio (h : Inv c m) (hs : s = { m.session with audio := s.audio }) (ha : s.audio.Sublist m.session.audio)
    (hheld : held w = held m.worker) (hevents : w.events = m.worker.events) (hphase : w.phase = m.worker.phase)
    (hdone : w.done = m.worker.done) (hclean : ∀ code, w.failure = some code → code ∉ races)
    (hl : ¬w.Halting → Live c ⟨s, w⟩) : Inv c ⟨s, w⟩ := by
  have ho := h.orderly
  refine ⟨?_, hl⟩
  have hcommands : s.commands = m.session.commands := by rw [hs]
  have htokens : tokens ⟨s, w⟩ = m.tokens := by
    unfold tokens
    rw [hheld, hcommands]
  have hne : s.audio ≠ [] → m.session.audio ≠ [] := by
    intro hn he
    rw [he, List.sublist_nil] at ha
    exact hn ha
  constructor
  case single => rw [htokens]; exact ho.single
  case settled => rw [htokens, hs]; exact ho.settled
  case stopped => rw [hs]; exact ho.stopped
  case opening => rw [hs]; exact ho.opening
  case audio => rw [htokens]; exact fun hn => ho.audio (hne hn)
  case commands => rw [hs]; exact ho.commands
  case frames => exact fun frame hf => ho.frames frame (ha.subset hf)
  case events => rw [show (⟨s, w⟩ : MediaSystem).worker = w from rfl, hevents]; exact ho.events
  case ending => exact fun hp => hdone ▸ ho.ending (hphase ▸ hp)
  case clean => exact hclean

theorem Inv.backchannelInput (h : Inv c m) (hc : m.session.audio = frame :: rest) (hr : m.worker.readsAudio)
    (t : Turn) :
    Inv c ⟨{ m.session with audio := rest }, m.worker.backchannelInput c.worker t frame⟩ := by
  have hrunning : ¬m.worker.Halting := by
    unfold Worker.readsAudio at hr
    rw [Bool.and_eq_true, Bool.and_eq_true] at hr
    rintro (hf | hd)
    · rw [Option.isNone_iff_eq_none] at *
      rw [hr.1.2] at hf
      cases hf
    · rw [hd] at hr
      exact absurd hr.1.1 (by decide)
  have hl := h.live hrunning
  have hmem : frame ∈ m.session.audio := by rw [hc]; exact List.mem_cons_self
  have hsteady := hl.audio frame hmem
  have hsub : rest.Sublist m.session.audio := by rw [hc]; exact List.sublist_cons_self _ _
  have hordered := hl.ordered
  rw [hc, List.map_cons] at hordered
  have hnext : m.worker.audioSequence < frame.sequence := List.rel_of_pairwise_cons hordered List.mem_cons_self
  have hbound : frame.sequence ≤ written m.session :=
    hl.bounded _ (List.mem_cons_of_mem _ (List.mem_map_of_mem hmem))
  have hsource : m.worker.backSource := by
    refine hl.source ?_
    cases hb : m.session.backchannel with
    | none =>
      have hzero : written m.session = 0 := by
        unfold written
        rw [hb]
        rfl
      omega
    | some => rfl
  have hsession : frame.session = m.worker.session :=
    (h.orderly.frames frame hmem).trans (hl.sound.session (hl.sound.opened (hl.sound.bound hsteady.ready))).symm
  have hfail (code : String) (hcode : code ∉ races) :
      Inv c ⟨{ m.session with audio := rest }, m.worker.fail code⟩ :=
    h.audio rfl hsub rfl rfl rfl rfl (clean_fail h.orderly.clean hcode) fun hh => absurd (Worker.fail_halting _ _) hh
  have hread : Inv c ⟨{ m.session with audio := rest }, { m.worker with audioSequence := frame.sequence }⟩ := by
    refine h.audio rfl hsub rfl rfl rfl rfl h.orderly.clean fun _ => ?_
    have htail (g : Nat) (hg : Steady m.worker g) : Steady { m.worker with audioSequence := frame.sequence } g :=
      ⟨hg.ready, hg.accepting, hg.unpaused, hg.free, hg.current⟩
    refine ⟨⟨hl.sound.session, hl.sound.opened, hl.sound.bound, hl.sound.next, hl.sound.selected,
      fun hr hp => htail _ (hl.sound.resumed hr hp)⟩, fun ho hr => htail _ (hl.opening ho hr),
      fun f hf => (hl.told f hf).mono htail fun hb => hb, fun hw => htail _ (hl.playing hw), hl.source,
      fun f hf => htail _ (hl.audio f (hsub.subset hf)), hordered.of_cons, fun n hn => ?_⟩
    refine hl.bounded n (List.mem_cons_of_mem _ ?_)
    rw [hc, List.map_cons]
    exact hn
  unfold Worker.backchannelInput
  split
  · exact hfail _ (by decide)
  · rw [if_neg (by
      rw [hsource, hsteady.ready, hsteady.accepting, hsteady.unpaused, hsteady.free]
      decide)]
    rw [if_neg (by
      rw [hsession, hsteady.current]
      omega)]
    split
    · exact hfail _ (by decide)
    · split
      · exact hfail _ (by decide)
      · dsimp only
        split
        · exact hread
        · exact hread.fail (by decide)

theorem taken_audio (hp : m.worker.phase = .audio) : m.taken t = if ¬t.read then m.session else
    if m.worker.readsAudio then { m.session with audio := m.session.audio.tail } else m.session := by
  unfold taken
  rw [hp]

theorem Inv.readAudio (h : Inv c m) (hp : m.worker.phase = .audio) (t : Turn) :
    Inv c ⟨m.taken t, m.worker.readAudio c.worker t m.session.audio.head?⟩ := by
  rw [taken_audio hp]
  unfold Worker.readAudio
  by_cases hr : m.worker.readsAudio
  · rw [if_neg (not_not.mpr hr), if_pos hr]
    cases hc : m.session.audio with
    | nil =>
      have hsame : { m.session with audio := [] } = m.session := by rw [← hc]
      dsimp only [List.head?_nil, List.tail_nil]
      rw [hsame, ite_self]
      split
      · exact h.rests (.aside rfl rfl rfl rfl rfl rfl)
      · exact h
    | cons frame rest =>
      dsimp only [List.head?_cons, List.tail_cons]
      by_cases ht : t.read
      · rw [if_neg (not_not.mpr ht), if_pos ht]
        exact h.backchannelInput hc hr t
      · rw [if_pos ht, if_neg ht]
        exact h
  · rw [if_pos hr, if_neg hr, ite_self]
    exact h

-- The responses

def played (w : Worker) : Worker :=
  { w with
    generation := if w.pendingGeneration ≠ 0 then w.pendingGeneration else w.generation
    pendingGeneration := 0, paused := false, controlReady := w.pendingControl, pendingControl := none
    ready := true, acceptingData := true, resuming := true }

theorem Inv.played (h : Inv c m) (hp : m.worker.pipeline) : Inv c { m with worker := played m.worker } := by
  refine ⟨h.orderly.worker ?_ h.orderly.events h.orderly.ending h.orderly.clean, fun hh => ?_⟩
  · unfold held MediaSystem.played
    dsimp only
    rw [Option.isSome_none, Bool.toNat_false]
    omega
  · have hl := h.live hh
    have hsteady (g : Nat) (hg : Steady m.worker g) : Steady (MediaSystem.played m.worker) g := by
      refine ⟨rfl, rfl, rfl, rfl, ?_⟩
      unfold MediaSystem.played
      dsimp only
      rw [if_neg (not_not.mpr (hl.sound.next (.inl hg.free)))]
      exact hg.current
    exact hl.worker ⟨hl.sound.session, hl.sound.opened, fun _ => hp, fun _ => rfl, hl.sound.selected,
      fun _ _ => ⟨rfl, rfl, rfl, rfl, rfl⟩⟩ hsteady (fun _ _ => ⟨rfl, rfl, rfl, rfl, rfl⟩) (fun hb => hb) rfl
      fun _ hf => .inl hf

theorem Inv.paused (h : Inv c m) (hp : m.worker.pendingControl = some .pause) :
    Inv c { m with worker := { m.worker with
      paused := true, controlReady := m.worker.pendingControl, pendingControl := none } } := by
  have htokens : m.tokens ≠ 0 := by
    unfold tokens held
    rw [hp, Option.isSome_some, Bool.toNat_true]
    omega
  refine ⟨h.orderly.worker ?_ h.orderly.events h.orderly.ending h.orderly.clean, fun hh => ?_⟩
  · unfold held
    dsimp only
    rw [Option.isSome_none, Bool.toNat_false]
    omega
  · have hl := h.live hh
    have hnone (g : Nat) : ¬Steady m.worker g := fun hg => by
      have := hg.free
      rw [hp] at this
      cases this
    refine hl.worker ⟨hl.sound.session, hl.sound.opened, hl.sound.bound, fun _ => hl.sound.next (.inr hp),
      hl.sound.selected, nofun⟩ (fun g hg => absurd hg (hnone g)) (fun ho _ => ?_) (fun hb => hb) rfl fun _ hf => .inl hf
    refine absurd (h.orderly.settled (h.orderly.opening ho).1 ?_) htokens
    unfold NativeSession.stopped
    rw [show m.session.currentState = .opening from ho]
    decide

theorem Inv.responded (h : Inv c m) (hp : m.worker.pipeline) (method : RtspMethod) (status : Nat) :
    Inv c { m with worker := m.worker.responded method status } := by
  unfold Worker.responded
  extract_lets w₁ ok w₂ w₃ w₄ w₅
  have hr₁ : Rests m.worker w₁ := Worker.rests_event rfl _
  have hr₂ : Rests w₁ w₂ := by
    unfold w₂
    split
    · exact .aside rfl rfl rfl rfl rfl rfl
    · exact .refl w₁
  have hr₃ : Rests m.worker w₃ := by
    refine (hr₁.trans hr₂).trans ?_
    unfold w₃
    split
    · exact .aside rfl rfl rfl rfl rfl rfl
    · exact .refl w₂
  have h₃ : Inv c { m with worker := w₃ } := h.rests hr₃
  have h₄ : Inv c { m with worker := w₄ } := by
    unfold w₄
    split
    · split
      · exact h₃.fail (by decide)
      · exact h₃.played ((congrArg Worker.Core.pipeline hr₃.core).trans hp)
    · exact h₃
  have h₅ : Inv c { m with worker := w₅ } := by
    unfold w₅
    split
    · rename_i hk
      exact h₄.paused hk.2.2
    · exact h₄
  split
  · exact h₅.fail (by decide)
  · exact h₅

theorem Inv.select (h : Inv c m) (track : MediaTrack) :
    Inv c { m with worker := m.worker.select c.worker track } := by
  unfold Worker.select
  split
  · refine ⟨h.orderly.worker le_rfl h.orderly.events h.orderly.ending h.orderly.clean, fun hh => ?_⟩
    have hl := h.live hh
    have hsteady (g : Nat) (hg : Steady m.worker g) : Steady { m.worker with
        selected := m.worker.selected ++ [track], backSource := m.worker.backSource || track.id = 4 } g :=
      ⟨hg.ready, hg.accepting, hg.unpaused, hg.free, hg.current⟩
    refine hl.worker ⟨hl.sound.session, hl.sound.opened, hl.sound.bound, hl.sound.next, fun hs => ?_,
      fun hr hp => hsteady _ (hl.sound.resumed hr hp)⟩ hsteady (fun ho hr => hsteady _ (hl.opening ho hr))
      (fun hb => ?_) rfl fun _ hf => .inl hf
    · dsimp only at hs ⊢
      rw [List.any_append, Bool.or_eq_true] at hs
      rw [Bool.or_eq_true]
      refine hs.imp hl.sound.selected fun ht => ?_
      simpa using ht
    · dsimp only
      rw [show m.worker.backSource = true from hb, Bool.true_or]
  · exact h

-- Every step of the worker

theorem Inv.into (h : Inv c m) {p : Phase} (hp : Worker.Late p → m.worker.done) :
    Inv c { m with worker := { m.worker with phase := p } } := by
  refine ⟨h.orderly.worker le_rfl h.orderly.events hp h.orderly.clean, fun hh => ?_⟩
  exact (h.live hh).core rfl fun _ hf => .inl hf

theorem Inv.cancel (h : Inv c m) (hd : m.worker.done) : Inv c { m with worker := m.worker.cancel } :=
  ⟨h.orderly.worker le_rfl h.orderly.events h.orderly.ending h.orderly.clean, fun hh => absurd (.inr hd) hh⟩

theorem Inv.secrets (h : Inv c m) (t : Turn) (hp : m.worker.phase = .secrets) :
    Inv c { m with session := m.taken t } := by
  unfold taken
  split
  · exact h
  · rw [hp]
    dsimp only
    split
    · exact h
    · exact h.pipes (.refl _) rfl

theorem taken_same (t : Turn) (hp : m.worker.phase = p) (h : p ≠ .secrets ∧ p ≠ .command ∧ p ≠ .audio) :
    m.taken t = m.session := by
  obtain ⟨hsecrets, hcommand, haudio⟩ := hp ▸ h
  unfold taken
  split
  · rfl
  · split
    · rename_i hs
      exact absurd hs hsecrets
    · rename_i hs
      exact absurd hs hcommand
    · rename_i hs
      exact absurd hs haudio
    · rfl

theorem Inv.turn (h : Inv c m) (t : Turn) (hf : m.finds t) :
    Inv c ⟨m.taken t, m.worker.turn c.worker t m.pipes⟩ := by
  unfold Worker.turn
  cases hp : m.worker.phase with
  | secrets =>
    have hr : Rests m.worker (m.worker.joinControl.readSecrets t m.pipes.secrets) :=
      (Worker.rests_joinControl _).trans (Worker.rests_readSecrets t _ _)
    exact (h.secrets t hp).rests (hr.into (by simp [Worker.Late]))
  | command => exact (h.readCommand hp hf).into (by simp [Worker.Late])
  | audio => exact (h.readAudio hp t).into (by simp [Worker.Late])
  | opening =>
    rw [taken_same t hp (by simp)]
    exact (h.openNative t).into (by simp [Worker.Late])
  | bus =>
    rw [taken_same t hp (by simp)]
    dsimp only
    split
    · exact h.rests (Worker.rests_busMessage _ _)
    · exact h.into (by simp [Worker.Late])
  | eos sequence =>
    rw [taken_same t hp (by simp)]
    exact h.rests ((Worker.rests_event rfl _).into (by simp [Worker.Late]))
  | deadlines =>
    rw [taken_same t hp (by simp)]
    exact h.rests ((Worker.rests_deadlines t _).into (by simp [Worker.Late]))
  | failure =>
    rw [taken_same t hp (by simp)]
    exact h.rests ((Worker.rests_reportFailure _).into (by simp [Worker.Late]))
  | drain left =>
    rw [taken_same t hp (by simp)]
    dsimp only
    split
    · exact h.rests ((Worker.rests_drainEvent _).into (by simp [Worker.Late]))
    · exact h.into (by simp [Worker.Late])
  | ready =>
    rw [taken_same t hp (by simp)]
    exact (h.sendReady t).into (by simp [Worker.Late])
  | control =>
    rw [taken_same t hp (by simp)]
    exact h.acknowledge.into (by simp [Worker.Late])
  | dropped =>
    rw [taken_same t hp (by simp)]
    have hr := Worker.rests_reportDropped m.worker
    refine (h.rests hr).into fun hl => ?_
    split at hl
    · rename_i hd
      exact hr.done hd
    · simp [Worker.Late] at hl
  | cancel =>
    rw [taken_same t hp (by simp)]
    have hd := h.orderly.ending (.inl hp)
    exact (h.cancel hd).into fun _ => hd
  | drainLast left =>
    rw [taken_same t hp (by simp)]
    have hd := h.orderly.ending (.inr (.inl ⟨left, hp⟩))
    dsimp only
    split
    · have hr := Worker.rests_drainEvent m.worker
      exact (h.rests hr).into fun _ => hr.done hd
    · exact h.into fun _ => hd
  | closed =>
    rw [taken_same t hp (by simp)]
    exact h.rests ((Worker.rests_write rfl _ _ _).into (by simp [Worker.Late]))
  | exited =>
    rw [taken_same t hp (by simp)]
    exact h

theorem Inv.thread (h : Inv c m) (input : WorkerInput) :
    Inv c { m with worker := m.worker.thread c.worker input } := by
  cases input with
  | turn => exact h
  | setup =>
    unfold Worker.thread
    dsimp only
    split
    · exact h.rests (.aside rfl rfl rfl rfl rfl rfl)
    · exact h
  | responded method status =>
    unfold Worker.thread
    dsimp only
    split
    · rename_i hp
      exact h.responded hp method status
    · exact h
  | resume =>
    unfold Worker.thread
    dsimp only
    split
    · exact h.rests (.aside rfl rfl rfl rfl rfl rfl)
    · exact h
  | controlReturned => exact h.rests (.aside rfl rfl rfl rfl rfl rfl)
  | select track =>
    unfold Worker.thread
    dsimp only
    split
    · exact h.select track
    · exact h
  | fault code => exact h.rests (Worker.rests_fault code _)
  | gap => exact h.rests (Worker.rests_event rfl _)
  | diagnostic => exact h.rests (Worker.rests_event rfl _)
  | beginSend kind payload => exact h.rests (Worker.rests_beginSend kind payload _)
  | sendData i => exact h.rests (Worker.rests_sendData i _)
  | pop => exact h.rests (.aside rfl rfl rfl rfl rfl rfl)
  | write => exact h.rests (Worker.rests_writeData _)
  | settle => exact h.rests (.aside rfl rfl rfl rfl rfl rfl)

-- Steps of the session

theorem stopped_running (hp : s.currentState = .playing ∨ s.currentState = .paused ∨ s.currentState = .opening) :
    s.stopped = false := by
  unfold NativeSession.stopped
  rcases hp with hp | hp | hp <;> rw [hp] <;> rfl

theorem canWrite_iff : s.canWrite ↔ s.currentState = .playing ∧ s.pending = none := by
  unfold NativeSession.canWrite
  rw [Bool.and_eq_true, decide_eq_true_eq, Option.isNone_iff_eq_none]

theorem stopped_eq {s' : NativeSession} (h : s'.currentState = s.currentState) : s'.stopped = s.stopped := by
  unfold NativeSession.stopped
  rw [h]

theorem plain_countP {commands : List Command} (h : ∀ x ∈ commands, Plain k x) : commands.countP isControl = 0 := by
  rw [List.countP_eq_zero]
  intro x hx hk
  unfold isControl at hk
  rcases (h x hx).body with hb | ⟨bytes, units, hb⟩
  · rw [hb] at hk
    cases hk
  · rw [hb] at hk
    cases hk

theorem Orderly.session (h : Orderly c m) (hsingle : tokens { m with session := s } ≤ 1)
    (hsettled : s.pending = none → s.stopped = false → tokens { m with session := s } = 0)
    (hstopped : s.stopped → s.pending = none)
    (hopening : s.currentState = .opening → s.pending = none ∧ s.backchannel = none)
    (hunread : m.session.audio ≠ [] → tokens { m with session := s } = 0)
    (hcommands : ∀ command ∈ s.commands, command.session = c.session.id)
    (haudio : s.audio = m.session.audio) : Orderly c { m with session := s } where
  single := hsingle
  settled := hsettled
  stopped := hstopped
  opening := hopening
  audio hne := hunread (haudio ▸ hne)
  commands := hcommands
  frames frame hf := h.frames frame (haudio ▸ hf)
  events := h.events
  ending := h.ending
  clean := h.clean

theorem Orderly.commands_append (h : Orderly c m) (hl : ∀ command ∈ l, command.session = c.session.id) :
    ∀ command ∈ m.session.commands ++ l, command.session = c.session.id := by
  intro command hc
  rcases List.mem_append.mp hc with hc | hc
  · exact h.commands command hc
  · exact hl command hc

theorem Live.session (h : Live c m) (hopening : s.currentState = .opening → m.session.currentState = .opening)
    (hplaying : s.canWrite → Steady m.worker s.currentGeneration)
    (hsource : s.backchannel.isSome → m.worker.backSource) (haudio : s.audio = m.session.audio)
    (hwritten : written m.session ≤ written s) : Live c { m with session := s } where
  sound := h.sound
  opening hopen := h.opening (hopening hopen)
  told frame hf :=
    have ht := h.told frame hf
    { ht with ready := fun tracks hm hopen => ht.ready tracks hm (hopening hopen) }
  playing := hplaying
  source := hsource
  audio frame hf := h.audio frame (haudio ▸ hf)
  ordered := haudio ▸ h.ordered
  bounded n hn := (h.bounded n (haudio ▸ hn)).trans hwritten

theorem written_eq {s' : NativeSession} (h : s'.backchannel.map (·.sequence) = s.backchannel.map (·.sequence)) :
    written s' = written s :=
  congrArg (Option.getD · 0) h

theorem Inv.stays (h : Inv c m) (hs : Stays c.session m.session s) : Inv c { m with session := s } := by
  have ho := h.orderly
  obtain ⟨l, hl, hplain⟩ := hs.commands
  have htokens : tokens { m with session := s } = m.tokens := by
    unfold tokens
    rw [hl, List.countP_append, plain_countP hplain, Nat.add_zero]
  have hrunning (hrun : s.stopped = false) : s.currentState = m.session.currentState ∧ s.pending = m.session.pending ∧
      m.session.stopped = false := by
    have hn (hd : s.stopped = true ∧ s.pending = none) : False := by
      rw [hrun] at hd
      cases hd.1
    refine ⟨hs.state.resolve_right hn, hs.pending.resolve_right hn, ?_⟩
    cases hm : m.session.stopped with
    | true =>
      rw [hs.stopped hm] at hrun
      cases hrun
    | false => rfl
  constructor
  · refine ho.session ?single ?settled ?stopped ?opening ?unread ?commands hs.audio
    case single => rw [htokens]; exact ho.single
    case settled =>
      intro hp hrun
      obtain ⟨_, hpending, hm⟩ := hrunning hrun
      rw [htokens]
      exact ho.settled (hpending ▸ hp) hm
    case stopped =>
      intro hstop
      rcases hs.pending with hp | hp
      · rcases hs.state with hst | hst
        · exact hp.trans (ho.stopped ((stopped_eq hst).symm.trans hstop))
        · exact hst.2
      · exact hp.2
    case opening =>
      intro hopen
      obtain ⟨hst, hpending, _⟩ := hrunning (stopped_running (.inr (.inr hopen)))
      have hb := ho.opening (hst ▸ hopen)
      refine ⟨hpending.trans hb.1, ?_⟩
      have hnone := hs.backchannel
      rw [hb.2, Option.map_none, Option.map_eq_none_iff] at hnone
      exact hnone
    case unread => rw [htokens]; exact ho.audio
    case commands => exact hl ▸ ho.commands_append fun command hc => (hplain command hc).session
  · intro hh
    have hlive := h.live hh
    refine hlive.session (fun hopen => ?opening) ?playing ?source hs.audio (written_eq hs.backchannel).ge
    case opening => exact (hrunning (stopped_running (.inr (.inr hopen)))).1 ▸ hopen
    case playing =>
      intro hw
      obtain ⟨hplay, hnone⟩ := canWrite_iff.mp hw
      obtain ⟨hst, hpending, _⟩ := hrunning (stopped_running (.inl hplay))
      rw [hs.generation]
      exact hlive.playing (canWrite_iff.mpr ⟨hst ▸ hplay, hpending ▸ hnone⟩)
    case source =>
      intro hb
      refine hlive.source ?_
      have hmap := congrArg Option.isSome hs.backchannel
      rw [Option.isSome_map, Option.isSome_map] at hmap
      exact hmap.symm.trans hb

theorem Inv.openSent (h : Inv c m) (hs : OpenSent c.session m.session s) : Inv c { m with session := s } := by
  have ho := h.orderly
  have htokens : tokens { m with session := s } = m.tokens := by
    unfold tokens
    rcases hs.commands with hc | hc
    · rw [hc]
    · rw [hc, List.countP_append]
      rfl
  have hstate : s.currentState = m.session.currentState := hs.state.trans hs.opening.symm
  constructor
  · refine ho.session ?single ?settled ?stopped ?opening ?unread ?commands hs.audio
    case single => rw [htokens]; exact ho.single
    case settled =>
      intro hp hrun
      rw [htokens]
      exact ho.settled (hs.pending.symm.trans hp) ((stopped_eq hstate).symm.trans hrun)
    case stopped => exact fun hstop => hs.pending.trans (ho.stopped ((stopped_eq hstate).symm.trans hstop))
    case opening =>
      intro _
      have hb := ho.opening hs.opening
      exact ⟨hs.pending.trans hb.1, hs.backchannel.trans hb.2⟩
    case unread => rw [htokens]; exact ho.audio
    case commands =>
      rcases hs.commands with he | he
      · exact he ▸ ho.commands
      · exact he ▸ ho.commands_append fun command hc => by rw [List.mem_singleton.mp hc]
  · intro hh
    have hl := h.live hh
    refine hl.session (fun _ => hs.opening) ?playing ?source hs.audio
      (written_eq (congrArg (Option.map _) hs.backchannel)).ge
    case playing =>
      intro hw
      rw [canWrite_iff, hs.state] at hw
      cases hw.1
    case source => exact fun hb => hl.source (hs.backchannel ▸ hb)

theorem Inv.popped (h : Inv c m) (hc : m.worker.control = frame :: rest) :
    Inv c { m with worker := { m.worker with control := rest } } := by
  refine ⟨h.orderly.worker ?_ h.orderly.events h.orderly.ending h.orderly.clean, fun hh => ?_⟩
  · unfold held
    rw [hc, List.countP_cons]
    dsimp only
    omega
  · exact (h.live hh).core rfl fun _ hf => .inl (by rw [hc]; exact List.mem_cons_of_mem _ hf)

theorem Inv.readied (h : Inv c m) (hm : frame.message = .ready (some tracks))
    (hr : Readied frame tracks m.session s)
    (ht : ¬m.worker.Halting → Told True m.worker frame) : Inv c { m with session := s } := by
  have ho := h.orderly
  have htokens : tokens { m with session := s } = m.tokens := by
    unfold tokens
    rw [hr.commands]
  have hbefore := ho.opening hr.opening
  have hzero := ho.settled hbefore.1 (stopped_running (.inr (.inr hr.opening)))
  have hrunning : s.stopped = false := stopped_running (.inl hr.state)
  constructor
  · refine ho.session ?single ?settled ?stopped ?opening ?unread ?commands hr.audio
    case single => rw [htokens]; exact ho.single
    case settled => exact fun _ _ => htokens.trans hzero
    case stopped =>
      intro hstop
      rw [hrunning] at hstop
      cases hstop
    case opening =>
      intro hopen
      rw [hr.state] at hopen
      cases hopen
    case unread => exact fun _ => htokens.trans hzero
    case commands => exact hr.commands ▸ ho.commands
  · intro hh
    have hl := h.live hh
    -- nothing was written before READY
    have hunwritten : written m.session = 0 := by
      unfold written
      rw [hbefore.2]
      rfl
    refine hl.session (fun _ => hr.opening) ?playing ?source hr.audio (hunwritten.trans_le (Nat.zero_le _))
    case playing =>
      intro _
      rw [hr.generation.trans hr.correlated.2.1.symm]
      exact (ht hh).ready _ hm trivial
    case source =>
      intro hb
      have hback := hr.backchannel
      split at hback
      · rename_i hany
        exact (ht hh).offered tracks hm hany
      · rw [hback, hbefore.2] at hb
        cases hb

theorem Inv.acknowledged {paused : Bool} (h : Inv c m) (hm : frame.message = .control kind paused)
    (ha : Acknowledged frame kind paused asked m.session s) (hzero : m.tokens = 0)
    (ht : ¬m.worker.Halting → Told True m.worker frame) : Inv c { m with session := s } := by
  have ho := h.orderly
  have htokens : tokens { m with session := s } = 0 := by
    unfold tokens at hzero ⊢
    rw [ha.commands]
    exact hzero
  have hstate : s.currentState = .playing ∨ s.currentState = .paused := by
    rw [ha.state]
    split
    · exact .inr rfl
    · exact .inl rfl
  have hopening : ¬s.currentState = .opening := by
    rcases hstate with hs | hs <;> rw [hs] <;> exact nofun
  constructor
  · refine ho.session ?single ?settled ?stopped ?opening ?unread ?commands ha.audio
    case single => rw [htokens]; exact Nat.zero_le 1
    case settled => exact fun _ _ => htokens
    case stopped => exact fun _ => ha.cleared
    case opening => exact fun hopen => absurd hopen hopening
    case unread => exact fun _ => htokens
    case commands => exact ha.commands ▸ ho.commands
  · intro hh
    have hl := h.live hh
    refine hl.session (fun hopen => absurd hopen hopening) ?playing ?source ha.audio
      (written_eq (congrArg (Option.map _) ha.backchannel)).ge
    case playing =>
      intro hw
      have hplay : s.currentState = .playing := (canWrite_iff.mp hw).1
      rw [ha.state] at hplay
      have hagrees := ha.agrees
      unfold NativeSession.acknowledges at hagrees
      rw [Bool.and_eq_true, decide_eq_true_eq] at hagrees
      have hkind : ¬asked.kind = .pause := by
        intro hk
        rw [if_pos hk] at hplay
        cases hplay
      have hpaused : paused = false := by
        rw [Bool.eq_false_iff]
        exact fun hp => hkind (hagrees.2 ▸ hp)
      rw [ha.generation]
      exact (ht hh).acknowledged kind (hpaused ▸ hm)
    case source => exact fun hb => hl.source (ha.backchannel ▸ hb)

theorem running_of_accepted (h : s.refusal kind k = none) :
    (s.currentState = .playing ∨ s.currentState = .paused) ∧ s.pending = none := by
  unfold NativeSession.refusal at h
  split at h
  · cases h
  · rename_i hstate
    split at h
    · cases h
    · split at h
      · cases h
      · rename_i hpending
        constructor
        · by_contra hno
          rw [not_or] at hno
          exact hstate hno
        · rw [not_or] at hpending
          cases hp : s.pending with
          | none => rfl
          | some => exact absurd (by rw [hp]; rfl) hpending.1

theorem Inv.commanded (h : Inv c m) (hc : Commanded c.session kind range m.session s) (ha : m.session.audio = []) :
    Inv c { m with session := s } := by
  have ho := h.orderly
  obtain ⟨hstate, hpending⟩ := running_of_accepted hc.accepted
  have hrunning : m.session.stopped = false := stopped_running (by tauto)
  have hzero := ho.settled hpending hrunning
  have hopening : ¬s.currentState = .opening := by
    rw [hc.state]
    rcases hstate with hs | hs <;> rw [hs] <;> exact nofun
  have hbusy : s.pending ≠ none := by
    rw [hc.pending]
    exact nofun
  constructor
  · refine ho.session ?single ?settled ?stopped ?opening ?unread ?commands hc.audio
    case single =>
      unfold tokens at hzero ⊢
      rcases hc.commands with he | he
      · rw [he, hzero]
        exact Nat.zero_le 1
      · rw [he, List.countP_append]
        simp only [isControl, List.countP_singleton]
        split <;> omega
    case settled => exact fun hp _ => absurd hp hbusy
    case stopped =>
      intro hstop
      rw [stopped_eq hc.state, hrunning] at hstop
      cases hstop
    case opening => exact fun hopen => absurd hopen hopening
    case unread => exact fun hne => absurd ha hne
    case commands =>
      rcases hc.commands with he | he
      · exact he ▸ ho.commands
      · exact he ▸ ho.commands_append fun command hk => by rw [List.mem_singleton.mp hk]
  · intro hh
    have hl := h.live hh
    refine hl.session (fun hopen => absurd hopen hopening) ?playing ?source hc.audio
      (written_eq (congrArg (Option.map _) hc.backchannel)).ge
    case playing => exact fun hw => absurd (canWrite_iff.mp hw).2 hbusy
    case source => exact fun hb => hl.source (hc.backchannel ▸ hb)

theorem Inv.written (h : Inv c m) (hw : Written c.session m.session s) : Inv c { m with session := s } := by
  have ho := h.orderly
  obtain ⟨b, b₁, samples, hb, hb₁, hsequence, haudio⟩ := hw.audio
  obtain ⟨hplay, hnone⟩ := canWrite_iff.mp hw.writable
  have hzero := ho.settled hnone (stopped_running (.inl hplay))
  have htokens : tokens { m with session := s } = m.tokens := by
    unfold tokens
    rw [hw.commands]
  have hopening : ¬s.currentState = .opening := by
    rw [hw.state, hplay]
    exact nofun
  have hmem (frame : BackchannelFrame) (hf : frame ∈ s.audio) : frame ∈ m.session.audio ∨
      frame = ⟨c.session.id, m.session.currentGeneration, b₁.sequence, samples⟩ := by
    rcases haudio with he | he
    · exact .inl (he ▸ hf)
    · have hf : frame ∈ m.session.audio ++ [_] := he ▸ hf
      exact (List.mem_append.mp hf).imp_right List.mem_singleton.mp
  constructor
  · constructor
    case single => rw [htokens]; exact ho.single
    case settled => exact fun _ _ => htokens.trans hzero
    case stopped =>
      intro hstop
      have hstop : s.stopped = true := hstop
      rw [stopped_eq hw.state, stopped_running (.inl hplay)] at hstop
      cases hstop
    case opening => exact fun hopen => absurd hopen hopening
    case audio => exact fun _ => htokens.trans hzero
    case commands => exact fun command hk => ho.commands command (hw.commands ▸ hk)
    case frames =>
      intro frame hf
      rcases hmem frame hf with hf | rfl
      · exact ho.frames frame hf
      · rfl
    case events => exact ho.events
    case ending => exact ho.ending
    case clean => exact ho.clean
  · intro hh
    have hl := h.live hh
    have hsteady := hl.playing hw.writable
    have hbefore : MediaSystem.written m.session = b.sequence := by
      unfold MediaSystem.written
      rw [hb]
      rfl
    have hafter : MediaSystem.written s = b.sequence + 1 := by
      unfold MediaSystem.written
      rw [hb₁, Option.map_some, Option.getD_some, hsequence]
    have hkept : Live c { m with session := { s with audio := m.session.audio } } := by
      refine hl.session (fun hopen => absurd hopen hopening) (fun _ => ?_) (fun _ => ?_) rfl ?_
      · rw [hw.generation]
        exact hsteady
      · exact hl.source (by rw [hb]; rfl)
      · exact (hbefore.trans_le (Nat.le_succ _)).trans_eq hafter.symm
    rcases haudio with he | he
    · exact { hkept with audio := he ▸ hkept.audio, ordered := he ▸ hkept.ordered, bounded := he ▸ hkept.bounded }
    have hbounded (n : Nat) (hn : n ∈ m.worker.audioSequence :: m.session.audio.map (·.sequence)) : n ≤ b.sequence :=
      hbefore ▸ hl.bounded n hn
    refine { hkept with audio := ?audio, ordered := ?ordered, bounded := ?bounded }
    case audio =>
      intro frame hf
      rcases hmem frame hf with hf | rfl
      · exact hl.audio frame hf
      · exact hsteady
    case ordered =>
      rw [show (⟨s, m.worker⟩ : MediaSystem).session.audio = _ from he, List.map_append, ← List.cons_append,
        List.pairwise_append]
      refine ⟨hl.ordered, List.pairwise_singleton _ _, fun n hn k hk => ?_⟩
      rw [List.mem_singleton.mp hk, hsequence]
      exact Nat.lt_succ_of_le (hbounded n hn)
    case bounded =>
      intro n hn
      rw [show (⟨s, m.worker⟩ : MediaSystem).session.audio = _ from he, List.map_append, ← List.cons_append] at hn
      rcases List.mem_append.mp hn with hn | hn
      · exact hkept.bounded n hn
      · rw [List.mem_singleton.mp hn, hsequence]
        exact hafter.ge

-- Runs

/-- A control that the session accepts finds everything that was written read. -/
def drained (c : MediaContext) (m : MediaSystem) : MediaLabel → Prop
  | .session (.command kind _) => m.session.refusal kind c.session = none → m.session.audio = []
  | _ => True

theorem Inv.ended (h : Inv c m) (receipt remote : Option MediaRemote) :
    Inv c { m with session := { m.session with receipt, remote } } where
  orderly := { h.orderly with }
  live hh := { h.live hh with }

theorem Inv.shut (h : Inv c m) (hs : m.session.stopped) :
    Inv c { m with session := { m.session with currentState := .closed } } where
  orderly := { h.orderly with
    settled := nofun, stopped := fun _ => h.orderly.stopped hs, opening := nofun }
  live hh :=
    have hl := h.live hh
    { hl with
      opening := nofun
      told := fun f hf => { hl.told f hf with ready := nofun }
      playing := nofun }

theorem Inv.move (h : Inv c m) (hm : Move c.session m.session input s)
    (hcontrol : ∀ frame, input ≠ .control frame)
    (hok : drained c m (.session input)) : Inv c { m with session := s } := by
  cases hm with
  | stays hs => exact h.stays hs
  | openSent _ hopen hs => exact (h.openSent hopen).stays hs
  | readied => exact absurd rfl (hcontrol _)
  | acknowledged => exact absurd rfl (hcontrol _)
  | closed => exact absurd rfl (hcontrol _)
  | exited hs hu => exact ((h.stays hs).shut hu).ended _ _
  | commanded hc => exact h.commanded hc (hok hc.accepted)
  | written hw => exact h.written hw

theorem Inv.control (h : Inv c m) (hc : m.worker.control = frame :: rest)
    (hm : Move c.session m.session (.control frame) s) : Inv c ⟨s, { m.worker with control := rest }⟩ := by
  have hpop := h.popped hc
  have htold (hh : ¬m.worker.Halting) : Told (m.session.currentState = .opening) { m.worker with control := rest } frame := by
    exact ((h.live hh).told frame (by rw [hc]; exact List.mem_cons_self)).mono (fun g hg => hg.of_core rfl) fun hb => hb
  cases hm with
  | stays hs => exact hpop.stays hs
  | readied hmessage hr hs =>
    refine Inv.stays (m := ⟨_, _⟩) (hpop.readied hmessage hr fun hh => ?_) hs
    have ht := htold hh
    exact ⟨fun tracks hm _ => ht.ready tracks hm hr.opening, ht.offered, ht.acknowledged⟩
  | acknowledged hmessage ha hs =>
    have hack : isAck frame := by
      unfold isAck
      rw [hmessage]
    have htokens : m.tokens = tokens { m with worker := { m.worker with control := rest } } + 1 := by
      unfold tokens held
      rw [hc, List.countP_cons_of_pos hack]
      dsimp only
      omega
    have hsingle := h.orderly.single
    refine Inv.stays (m := ⟨_, _⟩) (hpop.acknowledged hmessage ha (by omega) fun hh => ?_) hs
    have ht := htold hh
    refine ⟨fun tracks hm => ?_, ht.offered, ht.acknowledged⟩
    rw [hmessage] at hm
    cases hm
  | closed hmessage ho hr hs => exact Inv.stays (m := ⟨_, _⟩) (hpop.ended _ _) hs
  | written hw => exact hpop.written hw

theorem inv_step (h : Inv c m) (label : MediaLabel) (hok : drained c m label) : Inv c (step c m label) := by
  cases label with
  | session input =>
    unfold step
    dsimp only
    split
    · rename_i hof
      refine h.move (NativeSession.step_move input h.orderly.stopped) (fun frame he => ?_) hok
      rw [he] at hof
      cases hof
    · exact h
  | control =>
    unfold step
    dsimp only
    split
    · rename_i frame rest hc
      exact h.control hc (NativeSession.step_move _ h.orderly.stopped)
    · exact h
  | data =>
    unfold step
    dsimp only
    split
    · rename_i frame rest hd
      have hs : Inv c { m with session := m.session.step c.session (.data frame) } :=
        h.move (NativeSession.step_move _ h.orderly.stopped) (fun _ => nofun) trivial
      exact hs.rests (.aside rfl rfl rfl rfl rfl rfl)
    · exact h
  | controlEnded =>
    unfold step
    dsimp only
    split
    · exact h.move (NativeSession.step_move _ h.orderly.stopped) (fun _ => nofun) trivial
    · exact h
  | dataEnded =>
    unfold step
    dsimp only
    split
    · exact h.move (NativeSession.step_move _ h.orderly.stopped) (fun _ => nofun) trivial
    · exact h
  | exited success =>
    unfold step
    dsimp only
    split
    · exact h.move (NativeSession.step_move _ h.orderly.stopped) (fun _ => nofun) trivial
    · exact h
  | kill =>
    unfold step
    dsimp only
    split
    · exact h.into (by simp [Worker.Late])
    · exact h
  | worker input =>
    unfold step
    dsimp only
    split
    · split
      · rename_i hf
        exact h.turn _ hf
      · exact h
    · split
      · exact h
      · exact h.thread _

theorem inv_start {packetQueue : BoundedMediaQueue NativeMediaUnit Nat}
    {metadataQueue : BoundedMediaQueue MediaMetadataUnit Nat}
    {decodedQueue : BoundedMediaQueue MediaDecodedFrame Nat}
    {phase : Phase} {frame : ControlFrame} (hp : ¬Worker.Late phase) (hf : answers frame.message = false) :
    Inv c { session := { packetQueue, metadataQueue, decodedQueue }, worker := { phase, control := [frame] } } := by
  have hack : ¬isAck frame := by
    intro ha
    have := isAck_answers ha
    rw [hf] at this
    cases this
  have htokens : tokens { session := { packetQueue, metadataQueue, decodedQueue }, worker := { phase, control := [frame] } } = 0 := by
    unfold tokens held
    rw [List.countP_cons_of_neg hack]
    rfl
  constructor
  · exact {
      single := htokens.le.trans (Nat.zero_le 1)
      settled := fun _ _ => htokens
      stopped := fun _ => rfl
      opening := fun _ => ⟨rfl, rfl⟩
      audio := fun _ => htokens
      commands := nofun
      frames := nofun
      events := nofun
      ending := fun hl => absurd hl hp
      clean := nofun }
  · intro _
    exact {
      sound := ⟨nofun, nofun, nofun, fun _ => rfl, nofun, nofun⟩
      opening := nofun
      told := fun f hm => told_of_answers (List.mem_singleton.mp hm ▸ hf)
      playing := nofun
      source := nofun
      audio := nofun
      ordered := List.pairwise_singleton _ _
      bounded := fun n hn => by
        rw [List.mem_singleton.mp hn]
        exact Nat.zero_le _ }

theorem inv_initial (h : Initial c m) : Inv c m := by
  cases h with
  | hello => exact inv_start (by simp [Worker.Late]) rfl
  | unusable => exact inv_start (by simp [Worker.Late]) rfl

theorem inv_reachable (h : ((system c).when (drained c)).Reachable m) : Inv c m := by
  refine h.invariant (fun _ => inv_initial) fun m label m' hm hs => ?_
  obtain ⟨hok, rfl⟩ := hs
  exact inv_step hm label hok

/-- When every control finds what was written read, the worker never takes a
frame for one that came at the wrong time or in the wrong generation, and no
control is with the worker or on its way to it while a frame is unread. -/
theorem backchannel_ordered (h : ((system c).when (drained c)).Reachable m) :
    m.worker.failure ≠ some "BackchannelNotReady" ∧ m.worker.failure ≠ some "InvalidBackchannelFrame" ∧
      (m.session.audio ≠ [] → m.worker.pendingControl = none ∧ ∀ command ∈ m.session.commands,
        ¬isControl command) := by
  have hinv := inv_reachable h
  refine ⟨fun hf => ?_, fun hf => ?_, fun ha => ?_⟩
  · exact hinv.orderly.clean _ hf (by decide)
  · exact hinv.orderly.clean _ hf (by decide)
  · have hzero := hinv.orderly.audio ha
    have hcommands : m.session.commands.countP isControl = 0 := Nat.eq_zero_of_add_eq_zero_right hzero
    exact ⟨(free_of_held (Nat.eq_zero_of_add_eq_zero_left hzero)).1, List.countP_eq_zero.mp hcommands⟩

-- A race

instance (label : MediaLabel) : Decidable (drained c m label) := by
  unfold drained
  split <;> infer_instance

def talking : MediaContext where
  session := {
    id := 7, limits := ⟨1000, 1000, 1000, 65536, 16, 4, 100, 100, 1000, 1000, 1000, 1000, 1000, 1000⟩, mode := .live
    packetOutput := true, requireMediaSupport := fun _ => .ok (), encodeSecurity := .ok (), encodeOpen := .ok ()
    decodeMetadata := fun _ => .ok true, validateReplayRange := fun _ => .ok (), refuses := fun _ => false }
  worker := { tracks := [4], replay := false, queueBytes := 65536, queueFrames := 16 }

def started : MediaSystem where
  session :=
    { packetQueue := .fresh ⟨65536, 16, 4, .live⟩, metadataQueue := .fresh ⟨65536, 16, 4, .live⟩
      decodedQueue := .fresh ⟨65536, 16, 4, .live⟩ }
  worker := { control := [⟨.hello (some [.pause, .play]), 0, 0, 0⟩] }

theorem started_initial : Initial talking started := by
  have hq {α : Type} : queueOf talking.session (.fresh ⟨65536, 16, 4, .live⟩ : BoundedMediaQueue α Nat) :=
    BoundedMediaQueue.make_ok.mpr ⟨_, rfl, rfl, rfl, rfl, rfl⟩
  exact .hello hq hq hq _

def turns (n : Nat) : List MediaLabel := .replicate n (.worker (.turn {}))

def reads : MediaLabel := .worker (.turn { read := true })

def talks : List MediaLabel :=
  [.control, .session (.openSettled (.ok ())), reads, reads] ++ turns 9 ++ [.worker (.turn { ended := true })] ++ turns 3 ++
    [.worker (.select ⟨4, true, 0, 8000⟩), .worker .setup, .worker (.responded .setup 200), .worker (.responded .play 200),
      .worker .resume] ++ turns 9 ++
    [.control, .control, .control, .session (.write ⟨160, 0⟩), .session (.transmitted (.ok ())), .session .paced]

def raced : List MediaLabel :=
  talks ++ [.session (.command .pause none)] ++ turns 1 ++ [reads] ++ turns 1 ++ [reads]

def awaited : List MediaLabel :=
  talks ++ turns 3 ++ [reads, .session (.command .pause none)] ++ turns 8 ++ [reads]

theorem backchannel_ordered_awaited :
    let m := awaited.foldl (step talking) started
    m.worker.pendingControl = some .pause ∧ m.worker.audioSequence = 1 ∧
      m.worker.failure ≠ some "BackchannelNotReady" ∧ m.worker.failure ≠ some "InvalidBackchannelFrame" := by
  have h := backchannel_ordered (System.Reachable.follows awaited _ (.start started_initial) (by decide +kernel))
  exact ⟨by decide +kernel, by decide +kernel, h.1, h.2.1⟩

theorem backchannel_raced :
    ∃ m, (system talking).Reachable m ∧ m.worker.failure = some "BackchannelNotReady" :=
  ⟨raced.foldl (step talking) started, ⟨started, raced, started_initial, System.run_ofFun.mpr rfl⟩, by decide +kernel⟩

end WotAv.System.MediaSystem
