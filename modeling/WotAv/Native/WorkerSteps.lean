import WotAv.Native.Worker

/-!
# What a step of the worker does to its control state

`Rests` is what the worker does apart from its commands, its controls and the
backchannel: the control state stays, the first failure stays, and nothing is
reported that the session would take for READY or for an acknowledgement.
-/

namespace WotAv.Native.Worker

open WotAv.Lib WotAv.Media

structure Core where
  session : Nat
  generation : Nat
  pendingGeneration : Nat
  audioSequence : Nat
  openReceived : Bool
  pipeline : Bool
  pendingControl : Option ControlKind
  controlReady : Option ControlKind
  selected : List MediaTrack
  backSource : Bool
  paused : Bool
  ready : Bool
  acceptingData : Bool

def core (w : Worker) : Core where
  session := w.session
  generation := w.generation
  pendingGeneration := w.pendingGeneration
  audioSequence := w.audioSequence
  openReceived := w.openReceived
  pipeline := w.pipeline
  pendingControl := w.pendingControl
  controlReady := w.controlReady
  selected := w.selected
  backSource := w.backSource
  paused := w.paused
  ready := w.ready
  acceptingData := w.acceptingData

def answers : ControlMessage → Bool
  | .ready _ | .control _ _ => true
  | _ => false

/-- What `backchannel_input` rejects a frame with when it races a control. -/
def races : List String := ["BackchannelNotReady", "InvalidBackchannelFrame"]

def Halting (w : Worker) : Prop := w.failure.isSome ∨ w.done

def Late (phase : Phase) : Prop := phase = .cancel ∨ (∃ left, phase = .drainLast left) ∨ phase = .closed

structure Rests (w w' : Worker) : Prop where
  core : w'.core = w.core
  phase : w'.phase = w.phase ∨ ¬Late w'.phase
  failure : w'.failure = w.failure ∨ w.failure = none ∧ ∃ code ∉ races, w'.failure = some code
  done : w.done → w'.done
  events : ∀ e ∈ w'.events, e ∈ w.events ∨ answers e.message = false
  control : ∃ written, w'.control = w.control ++ written ∧
    ∀ f ∈ written, answers f.message = false ∨ ∃ e ∈ w.events, e.message = f.message

variable {w w' w'' : Worker} {c : WorkerContext}

theorem Rests.refl (w : Worker) : Rests w w :=
  ⟨rfl, .inl rfl, .inl rfl, fun h => h, fun _ he => .inl he, [], (List.append_nil _).symm, fun _ hf => nomatch hf⟩

theorem Rests.trans (h₁ : Rests w w') (h₂ : Rests w' w'') : Rests w w'' where
  core := h₂.core.trans h₁.core
  phase := by
    rcases h₂.phase with h | h
    · rw [h]
      exact h₁.phase
    · exact .inr h
  failure := by
    rcases h₂.failure with h | ⟨hn, code, hc, h⟩
    · rcases h₁.failure with h' | ⟨hn, code, hc, h'⟩
      · exact .inl (h.trans h')
      · exact .inr ⟨hn, code, hc, h.trans h'⟩
    · refine .inr ⟨?_, code, hc, h⟩
      rcases h₁.failure with h' | ⟨hn', _, _, h'⟩
      · exact h'.symm.trans hn
      · exact hn'
  done hd := h₂.done (h₁.done hd)
  events e he := by
    rcases h₂.events e he with h | h
    · exact h₁.events e h
    · exact .inr h
  control := by
    obtain ⟨l₁, he₁, hw₁⟩ := h₁.control
    obtain ⟨l₂, he₂, hw₂⟩ := h₂.control
    refine ⟨l₁ ++ l₂, by rw [he₂, he₁, List.append_assoc], fun f hf => ?_⟩
    rcases List.mem_append.mp hf with hf | hf
    · exact hw₁ f hf
    · rcases hw₂ f hf with h | ⟨e, he, hm⟩
      · exact .inl h
      · rcases h₁.events e he with h | h
        · exact .inr ⟨e, h, hm⟩
        · exact .inl (hm ▸ h)

theorem Rests.halting (h : Rests w w') (hh : w.Halting) : w'.Halting := by
  rcases hh with hf | hd
  · left
    rcases h.failure with h' | ⟨hn, _⟩
    · rwa [h']
    · rw [hn] at hf; cases hf
  · exact .inr (h.done hd)

theorem Rests.aside (hcore : w'.core = w.core) (hp : w'.phase = w.phase) (hf : w'.failure = w.failure)
    (hd : w'.done = w.done)
    (he : w'.events = w.events) (hc : w'.control = w.control) : Rests w w' :=
  ⟨hcore, .inl hp, .inl hf, fun h => hd ▸ h, fun _ h => .inl (he ▸ h), [], hc.trans (List.append_nil _).symm, fun _ h => nomatch h⟩

theorem rests_fail {code : String} (h : code ∉ races) (w : Worker) : Rests w (w.fail code) := by
  refine { Rests.refl w with failure := ?_ }
  cases hf : w.failure with
  | none => exact .inr ⟨rfl, code, h, by simp [fail, hf]⟩
  | some e => exact .inl (by simp [fail, hf])

theorem rests_event {message : ControlMessage} (h : answers message = false) (w : Worker) :
    Rests w (w.event message) := by
  unfold event
  split
  · exact rests_fail (by decide) w
  · refine { Rests.refl w with events := fun e he => ?_ }
    rcases List.mem_append.mp he with he | he
    · exact .inl he
    · rw [List.mem_singleton.mp he]
      exact .inr h

theorem rests_write {message : ControlMessage} (h : answers message = false) (generation sequence : Nat)
    (w : Worker) :
    Rests w (w.write message generation sequence) :=
  { Rests.refl w with control := ⟨[_], rfl, fun f hf => by rw [List.mem_singleton.mp hf]; exact .inl h⟩ }

theorem Rests.into {p : Phase} (h : Rests w w') (hp : ¬Late p) : Rests w { w' with phase := p } :=
  { h with phase := .inr hp }

theorem fail_halting (code : String) (w : Worker) : (w.fail code).Halting := .inl rfl

-- The main thread

theorem rests_joinControl (w : Worker) : Rests w w.joinControl := by
  unfold joinControl
  split
  · exact .aside rfl rfl rfl rfl rfl rfl
  · exact .refl w

theorem rests_readSecrets (t : Turn) (frame : Option SecurityFrame) (w : Worker) :
    Rests w (w.readSecrets t frame) := by
  have hf : Rests w (w.fail "InvalidSecurityPipe") := rests_fail (by decide) w
  unfold readSecrets
  split
  · exact .refl w
  · split
    · exact hf.trans (.aside rfl rfl rfl rfl rfl rfl)
    · split
      · split
        · exact .refl w
        · split
          · exact hf
          · exact .aside rfl rfl rfl rfl rfl rfl
      · split
        · exact .refl w
        · split
          · exact .aside rfl rfl rfl rfl rfl rfl
          · exact hf.trans (.aside rfl rfl rfl rfl rfl rfl)

theorem rests_busMessage (message : BusMessage) (w : Worker) : Rests w (w.busMessage message) := by
  have hd : Rests w (w.event (.diagnostic true)) := rests_event rfl w
  cases message with
  | error code =>
    refine (hd.trans (rests_fail ?_ _)).into (by simp [Late])
    split
    · rename_i h
      rcases h with rfl | rfl <;> decide
    · decide
  | eos => exact (Rests.refl w).into (by simp [Late])
  | warning reported gap =>
    refine Rests.into ?_ (by simp [Late])
    have hr : Rests w (if reported then w.event (.diagnostic true) else w) := by
      split
      · exact hd
      · exact .refl w
    split
    · exact hr.trans (rests_event rfl _)
    · exact hr

theorem rests_deadlines (t : Turn) (w : Worker) : Rests w (w.deadlines t) := by
  have h₁ : Rests w (if w.ipc.dataFailed then w.fail "DataPipeClosed" else w) := by
    split
    · exact rests_fail (by decide) w
    · exact .refl w
  have h₂ (w : Worker) : Rests w (if t.late then w.fail "NativeOperationDeadline" else w) := by
    split
    · exact rests_fail (by decide) w
    · exact .refl w
  unfold deadlines
  dsimp only
  split
  · exact (h₁.trans (h₂ _)).trans (rests_event rfl _)
  · exact h₁.trans (h₂ _)

theorem rests_reportFailure (w : Worker) : Rests w w.reportFailure := by
  unfold reportFailure
  split
  · rename_i code _
    have h : Rests w (w.write (.error code) w.generation w.request) := rests_write rfl _ _ w
    exact { h with done := fun _ => rfl }
  · exact .refl w

theorem rests_drainEvent (w : Worker) : Rests w w.drainEvent := by
  unfold drainEvent
  split
  · rename_i item events he
    refine { Rests.refl w with events := fun e h => .inl ?_, control := ⟨[_], rfl, fun f hf => ?_⟩ }
    · rw [he]
      exact List.mem_cons_of_mem _ h
    · rw [List.mem_singleton.mp hf]
      exact .inr ⟨item, by rw [he]; exact List.mem_cons_self, rfl⟩
  · exact .refl w

theorem rests_reportDropped (w : Worker) : Rests w w.reportDropped := by
  unfold reportDropped
  split
  · have h : Rests w (w.event (.gap true)) := rests_event rfl w
    exact h.trans (.aside rfl rfl rfl rfl rfl rfl)
  · exact .refl w

-- The other threads

theorem rests_beginSend (kind : Nat) (payload : Bytes) (w : Worker) : Rests w (w.beginSend kind payload) := by
  unfold beginSend
  split
  · exact .refl w
  · exact .aside rfl rfl rfl rfl rfl rfl

theorem rests_sendData (i : Nat) (w : Worker) : Rests w (w.sendData i) := by
  unfold sendData
  split
  · exact .refl w
  · split
    · exact .aside rfl rfl rfl rfl rfl rfl
    · rename_i ipc _
      have h : Rests w { w with ipc, sending := w.sending.eraseIdx i } := .aside rfl rfl rfl rfl rfl rfl
      exact h.trans (rests_fail (by decide) _)
    · exact .aside rfl rfl rfl rfl rfl rfl

theorem rests_writeData (w : Worker) : Rests w w.writeData := by
  unfold writeData
  split <;> exact .aside rfl rfl rfl rfl rfl rfl

theorem rests_fault (code : String) (w : Worker) : Rests w (if code ∈ faults then w.fail code else w) := by
  have hdisjoint : ∀ code ∈ faults, code ∉ races := by decide
  split
  · rename_i h
    exact rests_fail (hdisjoint code h) w
  · exact .refl w

end WotAv.Native.Worker
