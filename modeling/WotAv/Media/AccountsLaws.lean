import WotAv.Media.Accounts
import WotAv.Media.QueueInvariant
import WotAv.Media.SessionSteps

/-!
# The session settles what it owes

An unsettled promise is that of the pending control, and a session that has
stopped has none pending. One step loses a promise: a CONTROL that finds an END
of its generation whose watermark the data has passed already.
-/

namespace WotAv.Media

open WotAv.Lib WotAv.Lib.Throwing WotAv.Binding

namespace NativeSession

variable {c : SessionContext} {s s' t : NativeSession}

-- What a move does to what the accounts read

theorem opened_of_state (h : s.currentState = .opening ∨ s.currentState = .playing ∨ s.currentState = .paused) :
    s.stopped = false := by
  unfold stopped
  rcases h with h | h | h <;> simp [h]

theorem stopped_congr (h : s'.currentState = s.currentState) : s'.stopped = s.stopped := by
  unfold stopped
  rw [h]

theorem closed_stopped (h : s.currentState = .closed) : s.stopped := by simp [stopped, h]

theorem refusal_running (h : s.refusal kind c = none) : s.currentState = .playing ∨ s.currentState = .paused := by
  unfold refusal at h
  split at h
  · cases h
  · rename_i hs
    rw [not_and_or, not_not, not_not] at hs
    exact hs

theorem refusal_idle (h : s.refusal kind c = none) : s.pending = none := by
  unfold refusal at h
  split_ifs at h with _ _ hp
  rw [not_or] at hp
  simpa using hp.1

theorem command_state (kind : ControlKind) (range : Option (Nat × Nat)) :
    Keeps (fun s s' => s'.currentState = s.currentState) (command c kind range) := by
  have htrans : IsTrans NativeSession fun s s' => s'.currentState = s.currentState := ⟨fun _ _ _ h₁ h₂ => h₂.trans h₁⟩
  have hstays {α : Type} {m : M α} (h : Keeps Same m) : Keeps (fun s s' => s'.currentState = s.currentState) m :=
    fun s => congrArg Core.currentState (h s)
  refine .bind (.get fun _ => rfl) fun s => ?_
  split
  · exact fun _ => rfl
  · refine .bind (m := .lift _) (fun _ => rfl) fun _ => ?_
    split
    · exact fun _ => rfl
    · refine .bind (.modify fun _ => rfl) fun _ => .bind ?_ fun sequence => .bind (.modify fun s => ?_) fun _ =>
        .bind (hstays (same_reopen kind)) fun _ => .modify fun s => ?_
      · intro s
        rw [run_allocate]
        split <;> rfl
      · exact congrArg Core.currentState (same_onQueues (s := { s with
          expectedGeneration := _, pending := _ }) rfl)
      · unfold send
        dsimp only
        split <;> rfl

theorem canWrite_playing (h : s.canWrite) : s.currentState = .playing := by
  simp only [canWrite, Bool.and_eq_true, decide_eq_true_eq] at h
  exact h.1

def Idle (s : NativeSession) : Prop := s.stopped → s.pending = none

theorem idle_of_running (h : s.stopped = false) : s.Idle := fun hs => by rw [h] at hs; cases hs

theorem Idle.stays (h : s.Idle) (hs : Stays c s s') : s'.Idle := by
  intro hstop
  rcases hs.state with hstate | hp
  · rcases hs.pending with hp | hp
    · exact hp.trans (h (stopped_congr hstate ▸ hstop))
    · exact hp.2
  · exact hp.2

theorem Idle.move (h : s.Idle) (hm : Move c s input t) : t.Idle := by
  cases hm with
  | stays hs => exact h.stays hs
  | openSent _ ho hs => exact (idle_of_running (opened_of_state (.inl ho.state))).stays hs
  | readied _ hr hs => exact (idle_of_running (opened_of_state (.inr (.inl hr.state)))).stays hs
  | acknowledged _ ha hs => exact Idle.stays (fun _ => ha.cleared) hs
  | closed _ _ _ hs => exact Idle.stays (s := { s with receipt := some _ }) h hs
  | exited hs hu =>
    have hidle := h.stays hs
    exact fun _ => hidle hu
  | commanded hc =>
    refine idle_of_running ((stopped_congr hc.state).trans (opened_of_state (.inr ?_)))
    exact refusal_running hc.accepted
  | written hw =>
    exact idle_of_running ((stopped_congr hw.state).trans (opened_of_state (.inr (.inl (canWrite_playing hw.writable)))))

theorem Move.closed_iff (hm : Move c s input t) (hi : ∀ success, input ≠ .exited success) :
    t.currentState = .closed ↔ s.currentState = .closed := by
  cases hm with
  | stays hs => exact hs.closed
  | openSent _ ho hs =>
    rw [hs.closed, ho.state, ho.opening]
  | readied _ hr hs =>
    rw [hs.closed, hr.state, hr.opening]
    exact iff_of_false nofun nofun
  | acknowledged _ ha hs =>
    rw [hs.closed, ha.state]
    refine iff_of_false ?_ fun hc => ?_
    · split <;> exact nofun
    · have := ha.running
      simp [stopped, hc] at this
  | closed _ _ _ hs => exact hs.closed
  | exited => exact absurd rfl (hi _)
  | commanded hc => rw [hc.state]
  | written hw => rw [hw.state]

theorem Move.stopped_of (hm : Move c s input t) (h : s.stopped) : t.stopped := by
  cases hm with
  | stays hs => exact hs.stopped h
  | openSent _ ho _ => exact absurd h (by rw [opened_of_state (.inl ho.opening)]; exact Bool.false_ne_true)
  | readied _ hr _ => exact absurd h (by rw [opened_of_state (.inl hr.opening)]; exact Bool.false_ne_true)
  | acknowledged _ ha _ => exact absurd h (by rw [ha.running]; exact Bool.false_ne_true)
  | closed _ _ _ hs => exact hs.stopped h
  | exited => rfl
  | commanded hc =>
    have hr := opened_of_state (.inr (refusal_running hc.accepted))
    exact absurd h (by rw [hr]; exact Bool.false_ne_true)
  | written hw =>
    have hr := opened_of_state (.inr (.inl (canWrite_playing hw.writable)))
    exact absurd h (by rw [hr]; exact Bool.false_ne_true)

def Unopened (s : NativeSession) : Prop := s.openSent = false → ∀ x ∈ s.commands, x.body ≠ .open_

theorem Unopened.congr (h : s.Unopened) (hs : s'.openSent = s.openSent)
    (hc : ∀ x ∈ s'.commands, x ∈ s.commands ∨ x.body ≠ .open_) : s'.Unopened := fun ho x hx =>
  (hc x hx).elim (h (hs ▸ ho) x) id

theorem Unopened.stays (h : s.Unopened) (hs : Stays c s s') : s'.Unopened := by
  obtain ⟨written, he, hp⟩ := hs.commands
  refine h.congr hs.openSent fun x hx => ?_
  rcases List.mem_append.mp (he ▸ hx) with hx | hx
  · exact .inl hx
  · right
    rcases (hp x hx).body with hb | ⟨bytes, units, hb⟩ <;> rw [hb] <;> exact nofun

theorem Unopened.move (h : s.Unopened) (hm : Move c s input t) : t.Unopened := by
  cases hm with
  | stays hs => exact h.stays hs
  | openSent _ ho hs =>
    refine Unopened.stays (fun hn => ?_) hs
    rw [ho.openSent] at hn
    cases hn
  | readied _ hr hs => exact (h.congr hr.openSent fun x hx => .inl (hr.commands ▸ hx)).stays hs
  | acknowledged _ ha hs => exact (h.congr ha.openSent fun x hx => .inl (ha.commands ▸ hx)).stays hs
  | closed _ _ _ hs => exact Unopened.stays (s := { s with receipt := some _ }) h hs
  | exited hs =>
    have hu := h.stays hs
    exact hu.congr rfl fun x hx => .inl hx
  | commanded hc =>
    refine h.congr hc.openSent fun x hx => ?_
    rcases hc.commands with he | he
    · exact .inl (he ▸ hx)
    · rcases List.mem_append.mp (he ▸ hx) with hx | hx
      · exact .inl hx
      · rw [List.mem_singleton.mp hx]
        exact .inr nofun
  | written hw => exact h.congr hw.openSent fun x hx => .inl (hw.commands ▸ hx)

theorem Move.openSent_of_stopped (hm : Move c s input t) (h : s.stopped) : t.openSent = s.openSent := by
  cases hm with
  | stays hs => exact hs.openSent
  | openSent _ ho _ => exact absurd h (by rw [opened_of_state (.inl ho.opening)]; exact Bool.false_ne_true)
  | readied _ hr hs => exact hs.openSent.trans hr.openSent
  | acknowledged _ ha hs => exact hs.openSent.trans ha.openSent
  | closed _ _ _ hs => exact hs.openSent
  | exited hs => exact hs.openSent
  | commanded hc => exact hc.openSent
  | written hw => exact hw.openSent

theorem Move.receipt (hm : Move c s input t) : t.receipt = s.receipt ∨
    ∃ frame remote, input = .control frame ∧ frame.message = .closed (some remote) ∧ s.owns c frame ∧
      Received frame s ∧ t.receipt = some remote := by
  cases hm with
  | stays hs => exact .inl hs.receipt
  | openSent _ ho hs => exact .inl (hs.receipt.trans ho.receipt)
  | readied _ hr hs => exact .inl (hs.receipt.trans hr.receipt)
  | acknowledged _ ha hs => exact .inl (hs.receipt.trans ha.receipt)
  | closed hm ho hr hs => exact .inr ⟨_, _, rfl, hm, ho, hr, hs.receipt⟩
  | exited hs => exact .inl hs.receipt
  | commanded hc => exact .inl hc.receipt
  | written hw => exact .inl hw.receipt

theorem Move.pending (hm : Move c s input t) (hcommand : ∀ kind range, input ≠ .command kind range)
    (hcontrol : ∀ frame kind paused, input = .control frame → frame.message ≠ .control kind paused) :
    t.stopped ∨ t.pending = s.pending := by
  have hstays {u : NativeSession} (hs : Stays c u t) (hu : u.pending = s.pending) : t.stopped ∨ t.pending = s.pending :=
    hs.pending.elim (fun h => .inr (h.trans hu)) fun h => .inl h.1
  cases hm with
  | stays hs => exact hstays hs rfl
  | openSent _ ho hs => exact hstays hs ho.pending
  | readied _ hr hs => exact hstays hs hr.pending
  | acknowledged hmessage => exact absurd hmessage (hcontrol _ _ _ rfl)
  | closed _ _ _ hs => exact hstays hs rfl
  | exited => exact .inl rfl
  | commanded => exact absurd rfl (hcommand _ _)
  | written hw => exact .inr hw.pending

theorem step_owned {frame : ControlFrame} (ho : s.owns c frame) (hm : ∀ controls, frame.message ≠ .hello controls) :
    s.step c (.control frame) = NativeSession.caught c (owned c frame) s :=
  caught_congr _ (by rw [run_control frame hm, if_neg (not_not.mpr ho)])

theorem fail_stops (e : OnvifError) (s : NativeSession) : (s.fail c e).stopped := by
  cases hs : s.stopped with
  | true => exact (stays_fail e s).stopped hs
  | false => exact (fail_stopped e hs).1

theorem step_unowned {frame : ControlFrame} (ho : ¬s.owns c frame) (hm : ∀ controls, frame.message ≠ .hello controls) :
    (s.step c (.control frame)).stopped := by
  have h : s.step c (.control frame) = NativeSession.caught c (.throw _) s :=
    caught_congr _ (by rw [run_control frame hm, if_pos ho])
  rw [h]
  exact fail_stops _ s

-- READY and CONTROL

/-- The delivery of data moves neither the END nor the data sequence. -/
structure Paced (s s' : NativeSession) : Prop where
  ending : s'.ending = s.ending
  dataSequence : s'.dataSequence = s.dataSequence

theorem paced_quiet : Quiet Paced where
  refl _ := ⟨rfl, rfl⟩
  trans _ _ _ h₁ h₂ := ⟨h₂.ending.trans h₁.ending, h₂.dataSequence.trans h₁.dataSequence⟩
  credited _ _ _ := ⟨rfl, rfl⟩
  packets _ _ := ⟨rfl, rfl⟩
  metadata _ _ := ⟨rfl, rfl⟩
  decoded _ _ := ⟨rfl, rfl⟩
  reports _ _ := ⟨rfl, rfl⟩

def overruns (frame : ControlFrame) (s : NativeSession) : Bool :=
  s.ending.any fun ending => ending.generation = frame.generation && ending.watermark < s.dataSequence

theorem finishGeneration_throws (h : finishGeneration s = (.error e, s')) :
    ∃ ending, s.ending = some ending ∧ ending.generation = s.currentGeneration ∧ ending.watermark < s.dataSequence := by
  cases he : s.ending with
  | none =>
    simp only [finishGeneration, run_get_bind, he] at h
    cases h
  | some ending =>
    simp only [finishGeneration, run_get_bind, he] at h
    by_cases hg : ending.generation ≠ s.currentGeneration ∨ s.pending.isSome ∨ s.currentState = .opening
    · rw [if_pos hg] at h
      cases h
    · rw [if_neg hg] at h
      rw [not_or, not_not] at hg
      by_cases hd : s.dataSequence > ending.watermark
      · exact ⟨ending, rfl, hg.1, hd⟩
      · rw [if_neg hd] at h
        split_ifs at h <;> cases h

theorem run_finishGeneration_pending (h : s.pending.isSome) : finishGeneration s = (.ok (), s) := by
  cases he : s.ending with
  | none =>
    simp only [finishGeneration, run_get_bind, he]
    rfl
  | some ending =>
    simp only [finishGeneration, run_get_bind, he]
    rw [if_pos (.inr (.inl h))]
    rfl

theorem paced_flushStaged (hp : s.pending.isSome) : Paced s (flushStaged c s).2 := by
  simp only [flushStaged, run_get_bind, run_modify_bind]
  have hsame := same_quiet.forM (same_quiet.deliver (c := c)) s.staged { s with staged := [], stagedBytes := 0 }
  have hpaced := paced_quiet.forM (paced_quiet.deliver (c := c)) s.staged { s with staged := [], stagedBytes := 0 }
  rw [run_bind]
  generalize (s.staged.forM (deliver c)) { s with staged := [], stagedBytes := 0 } = r at hsame hpaced
  obtain ⟨r, s₁⟩ := r
  cases r with
  | error e => exact ⟨hpaced.ending, hpaced.dataSequence⟩
  | ok =>
    have hpending : s₁.pending = s.pending := congrArg Core.pending hsame
    dsimp only
    rw [run_finishGeneration_pending (hpending ▸ hp)]
    exact ⟨hpaced.ending, hpaced.dataSequence⟩

theorem ready_keeps (frame : ControlFrame) (tracks : Option (List MediaTrack)) (s : NativeSession) :
    (ready c frame tracks s).2.pending = s.pending ∧ (ready c frame tracks s).2.stopped = s.stopped := by
  by_cases hc : s.currentState = .closing ∧ s.openSent ∧ frame.generation = 1 ∧ frame.sequence = s.openSequence
  · simp only [ready, run_get_bind]
    rw [if_pos hc]
    cases tracks <;> exact ⟨rfl, rfl⟩
  · by_cases ho : s.currentState ≠ .opening ∨ ¬(s.openSent ∧ frame.generation = 1 ∧ frame.sequence = s.openSequence)
    · simp only [ready, run_get_bind]
      rw [if_neg hc, if_pos ho]
      exact ⟨rfl, rfl⟩
    · simp only [ready, run_get_bind]
      rw [if_neg hc, if_neg ho]
      rw [not_or, not_not] at ho
      cases tracks with
      | none => exact ⟨rfl, rfl⟩
      | some tracks =>
        have hsame := same_flushStaged (c := c) { s with
          negotiated := tracks, currentGeneration := 1, currentState := .playing
          backchannel := if tracks.any (·.id = 4) then some {} else s.backchannel
          audioOpen := s.audioOpen && tracks.any (·.id = 4) }
        refine ⟨congrArg Core.pending hsame, ?_⟩
        rw [opened_of_state (.inl ho.1)]
        exact opened_of_state (.inr (.inl (congrArg Core.currentState hsame)))

def answered (frame : ControlFrame) (paused : Bool) (s : NativeSession) : NativeSession :=
  { s with currentGeneration := frame.generation, currentState := if paused then .paused else .playing }

theorem answered_running (frame : ControlFrame) (paused : Bool) (s : NativeSession) :
    (s.answered frame paused).stopped = false := by
  cases paused <;> rfl

def flushes (c : SessionContext) (frame : ControlFrame) (paused : Bool) (s : NativeSession) : Bool :=
  (flushStaged c (s.answered frame paused)).1.isOk

theorem run_acknowledged {asked : PendingControl} {kind : ControlKind} (hr : s.stopped = false) (hp : s.pending = some asked)
    (ha : acknowledges asked frame kind paused) :
    acknowledged c frame kind paused s = (do
      flushStaged c
      .modify fun s => { s with pending := none }
      finishGeneration : M Unit) (s.answered frame paused) := by
  have hc : s.currentState ≠ .closing := fun hc => by simp [stopped, hc] at hr
  have hasked : (s.pending <|> if s.currentState = .closing then s.abandoned else none) = some asked := by
    rw [hp]
    rfl
  have hanswered : s.answered frame paused = { s with
      currentGeneration := frame.generation
      currentState := if asked.kind = .pause then .paused else .playing } := by
    simp only [acknowledges, Bool.and_eq_true, decide_eq_true_eq] at ha
    simp only [answered, ha.2]
  simp only [acknowledged, run_get_bind, hasked]
  rw [if_neg (not_not.mpr ha), if_neg hc, hanswered]
  rfl

theorem acknowledged_takes (frame : ControlFrame) (kind : ControlKind) (paused : Bool) (hi : s.Idle) :
    (∃ asked, s.pending = some asked ∧ acknowledges asked frame kind paused ∧ s.stopped = false) ∨
      (s.stopped ∧ acknowledged c frame kind paused s = (.ok (), { s with abandoned := none })) ∨
      ∃ e, acknowledged c frame kind paused s = (.error e, s) := by
  cases hp : (s.pending <|> if s.currentState = .closing then s.abandoned else none) with
  | none =>
    right; right
    simp only [acknowledged, run_get_bind, hp]
    exact ⟨_, rfl⟩
  | some asked =>
    by_cases ha : acknowledges asked frame kind paused
    · by_cases hc : s.currentState = .closing
      · right; left
        simp only [acknowledged, run_get_bind, hp]
        rw [if_neg (not_not.mpr ha), if_pos hc]
        exact ⟨by simp [stopped, hc], rfl⟩
      · have hpending : s.pending = some asked := by
          rw [if_neg hc] at hp
          simpa using hp
        refine .inl ⟨asked, hpending, ha, ?_⟩
        cases hs : s.stopped with
        | false => rfl
        | true => rw [hi hs] at hpending; cases hpending
    · right; right
      simp only [acknowledged, run_get_bind, hp]
      rw [if_pos ha]
      exact ⟨_, rfl⟩

/-- A control that is acknowledged is no longer pending, or still so when something throws. -/
theorem acknowledged_settles {asked : PendingControl} {kind : ControlKind} (hr : s.stopped = false)
    (hp : s.pending = some asked) (ha : acknowledges asked frame kind paused)
    (hlost : s.flushes c frame paused → s.overruns frame = false) :
    match acknowledged c frame kind paused s with
    | (.ok _, s') => s'.pending = none ∧ s'.stopped = false
    | (.error _, s') => s'.pending = s.pending ∧ s'.stopped = false := by
  have hsame := same_flushStaged (c := c) (s.answered frame paused)
  have hpaced := paced_flushStaged (c := c) (s := s.answered frame paused) (by rw [answered, hp]; rfl)
  rw [run_acknowledged hr hp ha, run_bind]
  unfold flushes at hlost
  generalize flushStaged c (s.answered frame paused) = r at hsame hpaced hlost
  obtain ⟨r, s₁⟩ := r
  have hrun : s₁.stopped = false :=
    (stopped_congr (congrArg Core.currentState hsame)).trans (answered_running frame paused s)
  cases r with
  | error e => exact ⟨congrArg Core.pending hsame, hrun⟩
  | ok =>
    have hfinish := same_finishGeneration { s₁ with pending := none }
    change match finishGeneration { s₁ with pending := none } with
      | (.ok _, s') => s'.pending = none ∧ s'.stopped = false
      | (.error _, s') => s'.pending = s.pending ∧ s'.stopped = false
    cases hf : finishGeneration { s₁ with pending := none } with
    | mk r s₂ =>
      rw [hf] at hfinish
      cases r with
      | ok => exact ⟨congrArg Core.pending hfinish, (stopped_congr (congrArg Core.currentState hfinish)).trans hrun⟩
      | error e =>
        obtain ⟨ending, he, hg, hd⟩ := finishGeneration_throws hf
        have hover : s.overruns frame := by
          have hgeneration : s₁.currentGeneration = frame.generation := congrArg Core.currentGeneration hsame
          have hending : s.ending = some ending := hpaced.ending.symm.trans he
          have hdata : s.dataSequence = s₁.dataSequence := hpaced.dataSequence.symm
          simp only [overruns, hending, Option.any_some, Bool.and_eq_true, decide_eq_true_eq]
          exact ⟨hg.trans hgeneration, hdata ▸ hd⟩
        rw [hlost rfl] at hover
        cases hover

end NativeSession

-- Promises

variable {promises : List MediaPromise} {pending : Option PendingControl} {asked : PendingControl}
  {receipt : MediaControlReceipt}

variable {f : Deferred MediaControlReceipt → Deferred MediaControlReceipt}

theorem mem_settle {result : Deferred MediaControlReceipt}
    (h : MediaPromise.deferred asked result ∈ promises.map (MediaPromise.settle pending f)) :
    ∃ before, MediaPromise.deferred asked before ∈ promises ∧ (if pending = some asked then f before else before) = result := by
  obtain ⟨p, hp, he⟩ := List.mem_map.mp h
  cases p with
  | refused e => cases he
  | deferred other before =>
    simp only [MediaPromise.settle, MediaPromise.deferred.injEq] at he
    obtain ⟨rfl, he⟩ := he
    exact ⟨before, hp, he⟩

theorem unsettled_settle (hf : ∀ d, (f d).settled)
    (h : MediaPromise.deferred asked .unsettled ∈ promises.map (MediaPromise.settle pending f)) :
    MediaPromise.deferred asked .unsettled ∈ promises ∧ pending ≠ some asked := by
  obtain ⟨before, hp, he⟩ := mem_settle h
  split at he
  · have := hf before
    rw [he] at this
    cases this
  · exact ⟨he ▸ hp, ‹_›⟩

theorem resolved_reject {e : OnvifError}
    (h : MediaPromise.deferred asked (.resolved receipt) ∈ promises.map (MediaPromise.settle pending (.reject e))) :
    MediaPromise.deferred asked (.resolved receipt) ∈ promises := by
  obtain ⟨before, hp, he⟩ := mem_settle h
  split at he
  · cases before with
    | unsettled => cases he
    | resolved value => exact he ▸ hp
    | rejected error => cases he
  · exact he ▸ hp

theorem resolved_resolve {value : MediaControlReceipt}
    (h : MediaPromise.deferred asked (.resolved receipt) ∈ promises.map (MediaPromise.settle pending (.resolve value))) :
    MediaPromise.deferred asked (.resolved receipt) ∈ promises ∨ pending = some asked ∧ receipt = value := by
  obtain ⟨before, hp, he⟩ := mem_settle h
  split at he
  · cases before with
    | unsettled => exact .inr ⟨‹_›, (Deferred.resolved.inj he).symm⟩
    | resolved value => exact .inl (he ▸ hp)
    | rejected error => cases he
  · exact .inl (he ▸ hp)

namespace AccountedSession

variable {c : SessionContext} {a a' : AccountedSession} {s : NativeSession}

def Owes (a : AccountedSession) : Prop :=
  ∀ control, .deferred control .unsettled ∈ a.promises → a.session.pending = some control

-- Entering closing

@[simp] theorem enter_session (s : NativeSession) (a : AccountedSession) : (a.enter s).session = s := by
  unfold enter
  split <;> rfl

@[simp] theorem enter_receipt (s : NativeSession) (a : AccountedSession) : (a.enter s).receipt = a.receipt := by
  unfold enter
  split <;> rfl

@[simp] theorem enter_terminated (s : NativeSession) (a : AccountedSession) :
    (a.enter s).terminated = a.terminated := by
  unfold enter
  split <;> rfl

@[simp] theorem enter_results (s : NativeSession) (a : AccountedSession) : (a.enter s).results = a.results := by
  unfold enter
  split <;> rfl

theorem enter_running (h : s.stopped = false) : a.enter s = { a with session := s } := by
  unfold enter
  rw [if_neg (fun hn => by rw [h] at hn; cases hn.2)]

theorem enter_stopped (h : a.session.stopped) : a.enter s = { a with session := s } := by
  unfold enter
  rw [if_neg (fun hn => hn.1 h)]

theorem enter_closing (h : a.session.stopped = false) (hs : s.stopped) : a.enter s = { a with
    session := s
    ready := a.ready.reject (s.failure.getD ⟨.runtimeClosed, "Media closed before READY", .notSent⟩)
    promises := a.promises.map (.settle a.session.pending (.reject
      (s.failure.getD ⟨.outcomeUnknown, "Media closed before control acknowledgement", .unknown⟩)))
    timer := some .close } := by
  unfold enter
  rw [if_pos ⟨by rw [h]; exact Bool.false_ne_true, hs⟩]

theorem enter_ready (h : a.session.stopped → a.ready.settled) (hs : s.stopped) : (a.enter s).ready.settled := by
  cases hr : a.session.stopped with
  | true =>
    rw [enter_stopped hr]
    exact h hr
  | false =>
    rw [enter_closing hr hs]
    exact Deferred.settled_reject _ _

theorem enter_resolved (h : .deferred asked (.resolved receipt) ∈ (a.enter s).promises) :
    .deferred asked (.resolved receipt) ∈ a.promises := by
  unfold enter at h
  split at h
  · exact resolved_reject h
  · exact h

theorem Owes.enter (h : a.Owes) (hi : a.session.Idle) (hs : s.stopped ∨ s.pending = a.session.pending) :
    (a.enter s).Owes := by
  intro control hm
  rw [enter_session]
  cases hr : a.session.stopped with
  | true =>
    rw [enter_stopped hr] at hm
    have hp := h control hm
    rw [hi hr] at hp
    cases hp
  | false =>
    cases hstop : s.stopped with
    | true =>
      rw [enter_closing hr hstop] at hm
      obtain ⟨hm, hne⟩ := unsettled_settle (Deferred.settled_reject _) hm
      exact absurd (h control hm) hne
    | false =>
      rw [enter_running hstop] at hm
      rw [hs.resolve_left (by rw [hstop]; exact Bool.false_ne_true)]
      exact h control hm

-- Control frames

variable {m : NativeSession.M Unit} {last : AccountedSession → AccountedSession}

theorem caught_session
    (h : ∀ a, (last a).session = a.session) (a : AccountedSession) :
    (a.caught c m last).session = NativeSession.caught c m a.session := by
  unfold caught NativeSession.caught
  cases m a.session with
  | mk r s =>
    cases r with
    | ok => exact h _
    | error e => exact enter_session _ _

theorem Owes.caught (h : a.Owes)
    (hi : a.session.Idle)
    (herror : ∀ e s, m a.session = (.error e, s) → s.pending = a.session.pending ∧ s.stopped = a.session.stopped)
    (hok : ∀ s, m a.session = (.ok (), s) → (last { a with session := s }).Owes) : (a.caught c m last).Owes := by
  unfold AccountedSession.caught
  cases hm : m a.session with
  | mk r s =>
    cases r with
    | ok => exact hok s hm
    | error e =>
      obtain ⟨hp, hs⟩ := herror e s hm
      have howes : Owes { a with session := s } := fun control hc => hp.trans (h control hc)
      exact howes.enter (fun hstop => hp.trans (hi (hs ▸ hstop))) (.inl (NativeSession.fail_stops e s))

def told (a : AccountedSession) : Option NativeCloseReceipt × Bool := (a.receipt, a.terminated)

theorem enter_told (s : NativeSession) (a : AccountedSession) : told (a.enter s) = told a :=
  Prod.ext (enter_receipt s a) (enter_terminated s a)

theorem caught_told
    (h : ∀ a, told (last a) = told a) (a : AccountedSession) : told (a.caught c m last) = told a := by
  unfold caught
  split
  · exact h _
  · exact enter_told _ _

theorem caught_resolved
    (h : .deferred asked (.resolved receipt) ∈ (a.caught c m last).promises) :
    .deferred asked (.resolved receipt) ∈ a.promises ∨
      ∃ s, m a.session = (.ok (), s) ∧ .deferred asked (.resolved receipt) ∈ (last { a with session := s }).promises := by
  unfold caught at h
  cases hm : m a.session with
  | mk r s =>
    rw [hm] at h
    cases r with
    | ok => exact .inr ⟨s, rfl, h⟩
    | error e => exact .inl (enter_resolved (a := { a with session := s }) h)

theorem readyFrame_session (frame : ControlFrame) (tracks : Option (List MediaTrack)) (a : AccountedSession) :
    (a.readyFrame c frame tracks).session = NativeSession.caught c (NativeSession.ready c frame tracks) a.session :=
  caught_session (fun b => by split <;> rfl) a

theorem Owes.readyFrame (frame : ControlFrame) (tracks : Option (List MediaTrack)) (h : a.Owes) (hi : a.session.Idle) :
    (a.readyFrame c frame tracks).Owes := by
  have hkeeps := NativeSession.ready_keeps (c := c) frame tracks a.session
  refine h.caught hi (fun e s hs => by rwa [hs] at hkeeps) fun s hs control hc => ?_
  rw [hs] at hkeeps
  have hc : .deferred control .unsettled ∈ a.promises := by
    split at hc <;> exact hc
  split <;> exact hkeeps.1.trans (h control hc)

theorem acknowledged_session (frame : ControlFrame) (kind : ControlKind) (paused : Bool) (a : AccountedSession) :
    (a.acknowledged c frame kind paused).session =
      NativeSession.caught c (NativeSession.acknowledged c frame kind paused) a.session := by
  unfold AccountedSession.acknowledged
  exact caught_session (fun _ => by rfl) a

theorem Owes.acknowledged {kind : ControlKind} (h : a.Owes) (hi : a.session.Idle)
    (hlost : ∀ asked, a.session.pending = some asked → NativeSession.acknowledges asked frame kind paused →
      a.session.flushes c frame paused → a.session.overruns frame = false) :
    (a.acknowledged c frame kind paused).Owes := by
  have hsettled (s : NativeSession) : Owes { a with
      session := s
      promises := a.promises.map (.settle a.session.pending
        (.resolve ⟨if paused then .paused else .playing, frame.generation⟩)) } := by
    intro control hc
    obtain ⟨hc, hne⟩ := unsettled_settle (Deferred.settled_resolve _) hc
    exact absurd (h control hc) hne
  refine h.caught hi (fun e s hs => ?_) fun s _ => hsettled s
  rcases NativeSession.acknowledged_takes (c := c) frame kind paused hi with
    ⟨asked, hp, ha, hr⟩ | ⟨-, he⟩ | ⟨e', he⟩
  · have hsettles := NativeSession.acknowledged_settles (c := c) hr hp ha (hlost asked hp ha)
    rw [hs] at hsettles
    exact ⟨hsettles.1, hsettles.2.trans hr.symm⟩
  · rw [he] at hs
    cases hs
  · rw [he] at hs
    obtain rfl := (Prod.mk.inj hs).2
    exact ⟨rfl, rfl⟩

structure Follows (a a' : AccountedSession) : Prop where
  terminated : a'.terminated = a.terminated
  results : a'.results = a.results
  ready : (a.session.stopped → a.ready.settled) → a'.session.stopped → a'.ready.settled
  timer : a'.timer = if a.session.stopped = false ∧ a'.session.stopped then some .close else a.timer

theorem follows_enter (s : NativeSession) (a : AccountedSession) : Follows a (a.enter s) where
  terminated := enter_terminated s a
  results := enter_results s a
  ready h hs := enter_ready h (by rwa [enter_session] at hs)
  timer := by
    rw [enter_session]
    unfold enter
    simp only [Bool.not_eq_true]
    split <;> rfl

theorem follows_last (hs : a'.session = a.session) (ht : a'.terminated = a.terminated) (hr : a'.results = a.results)
    (htimer : a'.timer = a.timer) (hready : a.ready.settled → a'.ready.settled) : Follows a a' where
  terminated := ht
  results := hr
  ready h hstop := hready (h (hs ▸ hstop))
  timer := by
    rw [hs, htimer, if_neg (fun hn => by rw [hn.1] at hn; cases hn.2)]

theorem Follows.since (h : Follows { a with session := s } a') (hs : s.stopped = a.session.stopped) : Follows a a' where
  terminated := h.terminated
  results := h.results
  ready hr := h.ready fun hn => hr (hs ▸ hn)
  timer := by
    rw [← hs]
    exact h.timer

theorem follows_caught
    (hm : (m a.session).2.stopped = a.session.stopped) (hlast : ∀ b, Follows b (last b)) :
    Follows a (a.caught c m last) := by
  unfold AccountedSession.caught
  cases hr : m a.session with
  | mk r s =>
    rw [hr] at hm
    cases r with
    | ok => exact (hlast _).since hm
    | error e => exact (follows_enter _ _).since hm

variable {frame : ControlFrame}

theorem follows_control (hi : a.session.Idle)
    (hlost : ∀ kind paused asked, frame.message = .control kind paused → a.session.owns c frame →
      a.session.pending = some asked → NativeSession.acknowledges asked frame kind paused →
      a.session.flushes c frame paused → a.session.overruns frame = false) : Follows a (a.control c frame) := by
  unfold AccountedSession.control
  split
  · rename_i ho
    split
    · rename_i tracks _
      unfold readyFrame
      refine follows_caught (NativeSession.ready_keeps frame tracks a.session).2 fun b => ?_
      split
      · exact follows_last rfl rfl rfl rfl id
      · exact follows_last rfl rfl rfl rfl fun _ => Deferred.settled_resolve _ _
    · rename_i kind paused hmessage
      unfold AccountedSession.acknowledged
      refine follows_caught ?_ fun b => follows_last rfl rfl rfl rfl id
      rcases NativeSession.acknowledged_takes (c := c) frame kind paused hi with
        ⟨asked, hp, ha, hr⟩ | ⟨-, he⟩ | ⟨e, he⟩
      · have hsettles := NativeSession.acknowledged_settles hr hp ha (hlost kind paused asked hmessage ho hp ha)
        rw [hr]
        cases hm : NativeSession.acknowledged c frame kind paused a.session with
        | mk r s =>
          rw [hm] at hsettles
          cases r with
          | ok => exact hsettles.2
          | error e => exact hsettles.2
      · rw [he]
        rfl
      · rw [he]
    · exact follows_enter _ a
  · exact follows_enter _ a

def Answers (c : SessionContext) (a : AccountedSession) (control : PendingControl) (receipt : MediaControlReceipt)
    (input : AccountedInput) : Prop :=
  ∃ frame plain kind paused, input = .session (.control frame) plain ∧ frame.message = .control kind paused ∧
    a.session.owns c frame ∧ a.session.stopped = false ∧ a.session.pending = some control ∧
    NativeSession.acknowledges control frame kind paused ∧
    receipt = ⟨if paused then .paused else .playing, frame.generation⟩

/-- The input is a CONTROL that loses the promise which it is to resolve: the
END that it makes current throws, when nothing is pending any longer. -/
def loses (c : SessionContext) (a : AccountedSession) : AccountedInput → Bool
  | .session (.control frame) _ => match frame.message, a.session.pending with
    | .control kind paused, some asked => a.session.owns c frame && NativeSession.acknowledges asked frame kind paused &&
      a.session.flushes c frame paused && a.session.overruns frame
    | _, _ => false
  | _ => false

theorem control_session (frame : ControlFrame) (a : AccountedSession) :
    (a.control c frame).session = a.session.step c (.control frame) := by
  unfold control
  split
  · rename_i ho
    split
    · rename_i tracks hm
      rw [readyFrame_session, NativeSession.step_owned ho (by simp [hm])]
      exact NativeSession.caught_congr _ (by simp only [NativeSession.owned, hm])
    · rename_i kind paused hm
      rw [acknowledged_session, NativeSession.step_owned ho (by simp [hm])]
      exact NativeSession.caught_congr _ (by simp only [NativeSession.owned, hm])
    · exact enter_session _ _
  · exact enter_session _ _

variable {plain : SessionInput.plain (.control frame)}

theorem Owes.control (h : a.Owes)
    (hi : a.session.Idle) (hlost : a.loses c (.session (.control frame) plain) = false) : (a.control c frame).Owes := by
  have hmove := NativeSession.step_move (c := c) (.control frame) hi
  have hother (hm : ∀ kind paused, frame.message ≠ .control kind paused) :
      (a.enter (a.session.step c (.control frame))).Owes :=
    h.enter hi (hmove.pending nofun fun f kind paused he => by cases he; exact hm kind paused)
  unfold AccountedSession.control
  split
  · rename_i ho
    split
    · exact h.readyFrame _ _ hi
    · rename_i kind paused hm
      refine h.acknowledged hi fun asked hp ha hf => ?_
      simpa only [loses, hm, hp, ho, ha, hf, Bool.true_and] using hlost
    · rename_i hm
      exact hother hm
  · rename_i ho
    by_cases hm : ∃ controls, frame.message = .hello controls
    · obtain ⟨controls, hm⟩ := hm
      exact hother fun kind paused => by rw [hm]; exact nofun
    · exact h.enter hi (.inl (NativeSession.step_unowned ho fun controls he => hm ⟨controls, he⟩))

-- The other inputs

theorem command_session (kind : ControlKind) (range : Option (Nat × Nat)) (a : AccountedSession) :
    (a.command c kind range).session = (NativeSession.command c kind range a.session).2 := by
  cases hr : a.session.refusal kind c with
  | some e =>
    simp only [command, NativeSession.command, run_get_bind, hr]
    rfl
  | none =>
    cases hrun : NativeSession.command c kind range a.session with
    | mk r s =>
      simp only [command, hr, hrun]
      simp only [NativeSession.command, run_get_bind, hr] at hrun
      cases hv : range.elim (.ok ()) c.validateReplayRange with
      | error e =>
        rw [hv] at hrun
        exact (Prod.mk.inj hrun).2
      | ok =>
        rw [hv] at hrun
        simp only [run_bind, run_lift] at hrun
        dsimp only
        split_ifs with hg
        · rw [if_pos hg] at hrun
          exact (Prod.mk.inj hrun).2
        · cases r <;> rfl

theorem command_eq (kind : ControlKind) (range : Option (Nat × Nat)) (a : AccountedSession) :
    a.command c kind range = { a with
      session := (a.command c kind range).session, promises := (a.command c kind range).promises } := by
  unfold command
  split
  · rfl
  · split
    · rfl
    · split
      · rfl
      · split <;> rfl

theorem command_promises {p : MediaPromise} (h : p ∈ (a.command c kind range).promises) : p ∈ a.promises ∨
    (∃ e, p = .refused e) ∨ ∃ control, p = .deferred control .unsettled ∧
      (a.command c kind range).session.pending = some control := by
  unfold command at h ⊢
  split at h
  · exact (List.mem_append.mp h).imp_right fun h => .inl ⟨_, List.mem_singleton.mp h⟩
  · split at h
    · exact .inl h
    · split at h
      · exact (List.mem_append.mp h).imp_right fun h => .inl ⟨_, List.mem_singleton.mp h⟩
      · rename_i hr _ _ hv hg
        rw [if_neg hg]
        split at h
        · exact .inl h
        · rename_i s hs
          refine (List.mem_append.mp h).imp_right fun h => .inr ?_
          obtain ⟨control, hc, rfl⟩ := List.mem_map.mp h
          exact ⟨control, rfl, Option.mem_toList.mp hc⟩

theorem Owes.command (h : a.Owes) (kind : ControlKind) (range : Option (Nat × Nat)) : (a.command c kind range).Owes := by
  intro control hc
  rcases command_promises hc with hc | ⟨e, he⟩ | ⟨other, he, hp⟩
  · have hp := h control hc
    -- A second control is refused while one is pending.
    cases hr : a.session.refusal kind c with
    | none => cases (NativeSession.refusal_idle hr).symm.trans hp
    | some e =>
      rw [command_session]
      simp only [NativeSession.command, run_get_bind, hr]
      exact hp
  · cases he
  · cases he
    exact hp

theorem control_told (frame : ControlFrame) (a : AccountedSession) : told (a.control c frame) = told a := by
  unfold control readyFrame acknowledged
  split
  · split
    · exact caught_told (fun b => by split <;> rfl) a
    · refine caught_told ?_ a
      exact fun _ => rfl
    · exact enter_told _ a
  · exact enter_told _ a

theorem exited_told (exit : MediaWorkerExit) (a : AccountedSession) : told (a.exited c exit) = told a := by
  unfold exited
  split
  · rfl
  · dsimp only
    split <;> exact enter_told _ a

-- What every step keeps

structure Sound (a : AccountedSession) (r : MediaCloseResult) : Prop where
  terminated : r.terminated = a.terminated
  outcome : (∃ receipt, a.receipt = some receipt ∧ receipt.remote = r.remote) ∨ r.remote = .uncertain ∨
    r.remote = .notCreated ∧ a.session.openSent = false
  uncertain : r.remote = .uncertain → r.failure.isSome
  cleanup : r.localCleanup → (∃ receipt, a.receipt = some receipt ∧ receipt.localCleanup) ∧
    r.workerExit.observed ∧ r.workerExit.code = some 0 ∧ r.terminated = false

structure Kept (a : AccountedSession) : Prop where
  idle : a.session.Idle
  unopened : a.session.Unopened
  owes : a.Owes
  ready : a.session.stopped → a.ready.settled
  receipt : a.session.receipt = a.receipt.map (·.remote)
  fresh : a.session.stopped = false → a.timer = none ∧ a.terminated = false
  armed : a.session.currentState = .closing → a.timer.isSome
  unterminated : a.timer = some .close → a.terminated = false
  once : a.results.length = if a.session.currentState = .closed then 1 else 0
  final : a.session.currentState = .closed → a.timer = none
  results : ∀ r ∈ a.results, Sound a r

theorem Kept.open_results (h : Kept a) (ho : a.session.currentState ≠ .closed) : a.results = [] := by
  have := h.once
  rw [if_neg ho] at this
  exact List.length_eq_zero_iff.mp this

theorem closing_of_stopped (h : s.stopped) : s.currentState = .closing ∨ s.currentState = .closed := by
  simpa [NativeSession.stopped] using h

theorem Kept.follows {input : SessionInput} (h : Kept a) (hm : NativeSession.Move c a.session input a'.session)
    (hi : ∀ success, input ≠ .exited success) (hf : Follows a a') (howes : a'.Owes)
    (hreceipt : a'.session.receipt = a'.receipt.map (·.remote))
    (hkeep : ∀ r, a.receipt = some r → a'.receipt = some r) : Kept a' := by
  have hclosed := hm.closed_iff hi
  have hold (hr : a.session.stopped) : a'.timer = a.timer := by
    rw [hf.timer, if_neg (fun hn => by rw [hr] at hn; cases hn.1)]
  constructor
  case idle => exact h.idle.move hm
  case unopened => exact h.unopened.move hm
  case owes => exact howes
  case ready => exact hf.ready h.ready
  case receipt => exact hreceipt
  case fresh =>
    intro hr
    have hr₀ : a.session.stopped = false := by
      cases hs : a.session.stopped with
      | false => rfl
      | true =>
        rw [hm.stopped_of hs] at hr
        cases hr
    rw [hf.timer, hf.terminated, if_neg (fun hn => by rw [hr] at hn; cases hn.2)]
    exact h.fresh hr₀
  case armed =>
    intro hc
    have hstop : a'.session.stopped := by simp [NativeSession.stopped, hc]
    cases hs : a.session.stopped with
    | false =>
      rw [hf.timer, if_pos ⟨hs, hstop⟩]
      rfl
    | true =>
      rw [hold hs]
      refine h.armed ((closing_of_stopped hs).resolve_right fun hn => ?_)
      rw [hclosed.mpr hn] at hc
      cases hc
  case unterminated =>
    intro ht
    rw [hf.terminated]
    cases hs : a.session.stopped with
    | false => exact (h.fresh hs).2
    | true => exact h.unterminated (hold hs ▸ ht)
  case once =>
    rw [hf.results, h.once]
    exact if_congr hclosed.symm rfl rfl
  case final =>
    intro hc
    have hc := hclosed.mp hc
    rw [hold (NativeSession.closed_stopped hc)]
    exact h.final hc
  case results =>
    intro r hr
    rw [hf.results] at hr
    have hc : a.session.currentState = .closed := by
      by_contra ho
      rw [h.open_results ho] at hr
      cases hr
    have hr := h.results r hr
    refine ⟨hr.terminated.trans hf.terminated.symm, ?_, hr.uncertain, fun hl => ?_⟩
    · rcases hr.outcome with ⟨receipt, he, ho⟩ | ho | ⟨ho, hn⟩
      · exact .inl ⟨receipt, hkeep receipt he, ho⟩
      · exact .inr (.inl ho)
      · exact .inr (.inr ⟨ho, (hm.openSent_of_stopped (NativeSession.closed_stopped hc)).trans hn⟩)
    · obtain ⟨⟨receipt, he, hlocal⟩, hrest⟩ := hr.cleanup hl
      exact ⟨⟨receipt, hkeep receipt he, hlocal⟩, hrest⟩

theorem outcome_cases (h : a.session.receipt = a.receipt.map (·.remote)) :
    (∃ receipt, a.receipt = some receipt ∧ receipt.remote = a.session.outcome) ∨ a.session.outcome = .uncertain ∨
      a.session.outcome = .notCreated ∧ a.session.openSent = false := by
  unfold NativeSession.outcome
  rw [h]
  cases a.receipt with
  | some receipt => exact .inl ⟨receipt, rfl, rfl⟩
  | none =>
    cases a.session.openSent with
    | true => exact .inr (.inl rfl)
    | false => exact .inr (.inr ⟨rfl, rfl⟩)

theorem sound_closeResult (h : Kept a) (exit : MediaWorkerExit) : Sound a (a.closeResult exit) where
  terminated := rfl
  outcome := outcome_cases h.receipt
  uncertain hu := by
    have hu : a.session.outcome = .uncertain := hu
    change (exitFailure exit a.session).isSome
    unfold exitFailure
    dsimp only
    rw [if_pos hu]
    rfl
  cleanup hl := by
    have hl : (a.receipt.any (·.localCleanup) && exit.observed && decide (exit.code = some 0) && exit.signal.isNone &&
      !a.terminated) = true := hl
    simp only [Bool.and_eq_true, Option.any_eq_true, decide_eq_true_eq, Bool.not_eq_true'] at hl
    obtain ⟨⟨⟨⟨hr, ho⟩, hc⟩, -⟩, ht⟩ := hl
    exact ⟨hr, ho, hc, ht⟩

-- Every step

theorem Kept.enter {input : SessionInput} (h : Kept a) (hm : NativeSession.Move c a.session input s)
    (hi : ∀ success, input ≠ .exited success) (hp : s.stopped ∨ s.pending = a.session.pending)
    (hr : s.receipt = a.session.receipt) : Kept (a.enter s) := by
  refine h.follows (by rwa [enter_session]) hi (follows_enter s a) (h.owes.enter h.idle hp) ?_ fun r hs => ?_
  · rw [enter_session, enter_receipt, hr]
    exact h.receipt
  · rwa [enter_receipt]

theorem exited_resolved {exit : MediaWorkerExit}
    (h : .deferred asked (.resolved receipt) ∈ (a.exited c exit).promises) :
    .deferred asked (.resolved receipt) ∈ a.promises := by
  unfold exited at h
  split at h
  · exact h
  · dsimp only at h
    split at h <;> exact enter_resolved h

theorem Kept.exited (h : Kept a) (exit : MediaWorkerExit) : Kept (a.exited c exit) := by
  unfold AccountedSession.exited
  split
  · exact h
  · rename_i ho
    obtain ⟨hclose, s₁, hs₁, hstop, he⟩ := NativeSession.exits (c := c) (exitFailure exit a.session) a.session
    dsimp only
    split
    · rename_i hx
      have hm : NativeSession.Move c a.session .close _ := .stays hclose
      refine h.enter hm nofun (.inl ?_) hclose.receipt
      have hr : ({ a.session with failure := exitFailure exit a.session } : NativeSession).stopped = false := by
        simp only [NativeSession.exhausted, Bool.and_eq_true, Bool.not_eq_true'] at hx
        exact hx.1.1.1
      exact (NativeSession.beginClose_stopped hr).1
    · rw [he]
      have hidle : s₁.Idle := h.idle.stays hs₁
      constructor
      case idle => exact fun _ => by simpa using hidle hstop
      case unopened =>
        have hu := h.unopened.stays hs₁
        dsimp only
        rw [enter_session]
        exact hu
      case owes => exact h.owes.enter h.idle (.inl rfl)
      case ready => exact fun _ => enter_ready h.ready rfl
      case receipt =>
        dsimp only
        rw [enter_session, enter_receipt, hs₁.receipt]
        exact h.receipt
      case fresh =>
        intro hr
        dsimp only at hr
        rw [enter_session] at hr
        cases hr
      case armed =>
        intro hc
        dsimp only at hc
        rw [enter_session] at hc
        cases hc
      case unterminated => exact nofun
      case once =>
        dsimp only
        rw [h.open_results ho, enter_session]
        rfl
      case final => exact fun _ => rfl
      case results =>
        intro r hr
        dsimp only at hr
        rw [h.open_results ho, List.nil_append, List.mem_singleton] at hr
        obtain rfl := hr
        have hsound := sound_closeResult h exit
        refine ⟨by dsimp only; rw [enter_terminated]; rfl, ?_, hsound.uncertain, ?_⟩
        · dsimp only
          rw [enter_receipt, enter_session]
          dsimp only
          rw [hs₁.openSent]
          exact hsound.outcome
        · dsimp only
          rw [enter_receipt]
          exact hsound.cleanup

theorem closeDeadline_keeps (terminate : Except OnvifError Bool) (a : AccountedSession) :
    NativeSession.Stays c a.session (a.closeDeadline terminate).session ∧
      (a.closeDeadline terminate).session.pending = a.session.pending ∧
      a.closeDeadline terminate = { a with
        session := (a.closeDeadline terminate).session, terminated := (a.closeDeadline terminate).terminated
        timer := some .kill } := by
  have hs := NativeSession.stays_closeDeadline (c := c) a.session
  have hp : a.session.closeDeadline.pending = a.session.pending := by
    unfold NativeSession.closeDeadline
    split <;> rfl
  cases terminate with
  | ok => exact ⟨hs, hp, rfl⟩
  | error e => exact ⟨{ hs with }, hp, rfl⟩

theorem Kept.closeDeadline (c : SessionContext) (h : Kept a) (ht : a.timer = some .close)
    (terminate : Except OnvifError Bool) : Kept (a.closeDeadline terminate) := by
  obtain ⟨hstays, hp, he⟩ := closeDeadline_keeps (c := c) terminate a
  have hopen : a.session.currentState ≠ .closed := fun hc => by
    rw [h.final hc] at ht
    cases ht
  have hopen' : (a.closeDeadline terminate).session.currentState ≠ .closed := fun hc => hopen (hstays.closed.mp hc)
  have hstop : a.session.stopped := by
    cases hs : a.session.stopped with
    | true => rfl
    | false =>
      rw [(h.fresh hs).1] at ht
      cases ht
  rw [he]
  generalize (a.closeDeadline terminate).session = s at hstays hp hopen'
  generalize (a.closeDeadline terminate).terminated = terminated
  constructor
  case idle => exact h.idle.stays hstays
  case unopened => exact h.unopened.stays hstays
  case owes => exact fun control hc => hp.trans (h.owes control hc)
  case ready => exact fun _ => h.ready hstop
  case receipt => exact hstays.receipt.trans h.receipt
  case fresh =>
    intro hr
    have hs := hstays.stopped hstop
    have hr : s.stopped = false := hr
    rw [hs] at hr
    cases hr
  case armed => exact fun _ => rfl
  case unterminated => exact nofun
  case once =>
    dsimp only
    rw [h.open_results hopen, if_neg hopen']
    rfl
  case final => exact fun hc => absurd hc hopen'
  case results =>
    intro r hr
    dsimp only at hr
    rw [h.open_results hopen] at hr
    cases hr

theorem Kept.closedFrame (h : Kept a) (session generation sequence : Nat) (value : Members) :
    Kept (a.closedFrame c session generation sequence value) := by
  have hm := NativeSession.step_move (c := c) (.control (closedControl session generation sequence value)) h.idle
  have hpending := hm.pending nofun fun frame kind paused he hf => by cases he; cases hf
  have hf := follows_enter (a.session.step c (.control (closedControl session generation sequence value))) a
  have hm' : NativeSession.Move c a.session (.control (closedControl session generation sequence value))
      (a.enter (a.session.step c (.control (closedControl session generation sequence value)))).session := by
    rw [enter_session]
    exact hm
  unfold AccountedSession.closedFrame
  refine h.follows hm' nofun ⟨hf.terminated, hf.results, hf.ready, hf.timer⟩
    (h.owes.enter h.idle hpending) ?_ fun r hr => ?_
  · dsimp only
    rw [enter_session]
    rcases hm.receipt with hr | ⟨frame, remote, he, hclosed, -, hreceived, hr⟩
    · have hsame : ¬(a.session.receipt.isNone ∧ a.session.receipt.isSome) := fun hn => by
        rw [Option.isNone_iff_eq_none.mp hn.1] at hn
        cases hn.2
      rw [hr, if_neg hsame]
      exact h.receipt
    · cases he
      rw [if_pos ⟨by rw [hreceived.first]; rfl, by rw [hr]; rfl⟩, hr]
      exact (ControlMessage.closed.inj hclosed).symm
  · dsimp only
    rw [if_neg (fun hn => by rw [h.receipt, hr] at hn; cases hn.1)]
    exact hr

theorem Kept.control (h : Kept a)
    (hl : a.loses c (.session (.control frame) plain) = false) : Kept (a.control c frame) := by
  have hm := NativeSession.step_move (c := c) (.control frame) h.idle
  rw [← control_session] at hm
  have hreceipt : (a.control c frame).receipt = a.receipt := congrArg Prod.fst (control_told frame a)
  refine h.follows hm nofun (follows_control h.idle fun kind paused asked hmessage ho hp ha hf => ?_)
    (h.owes.control h.idle hl) ?_ fun r hr => hreceipt.trans hr
  · simpa only [loses, hmessage, hp, ho, ha, hf, Bool.true_and] using hl
  · rw [hreceipt, ← h.receipt]
    refine hm.receipt.resolve_right fun ⟨f, remote, he, hclosed, _⟩ => ?_
    cases he
    obtain ⟨message, session, generation, sequence⟩ := frame
    cases hclosed
    cases plain

theorem Kept.command (h : Kept a) (kind : ControlKind) (range : Option (Nat × Nat)) : Kept (a.command c kind range) := by
  have hm : NativeSession.Move c a.session (.command kind range) (a.command c kind range).session := by
    rw [command_session]
    exact NativeSession.step_move (.command kind range) h.idle
  have hstop : (a.command c kind range).session.stopped = a.session.stopped := by
    rw [command_session]
    exact NativeSession.stopped_congr (NativeSession.command_state kind range a.session)
  have howes := h.owes.command (c := c) kind range
  rw [command_eq] at hm howes hstop ⊢
  refine h.follows hm nofun ⟨rfl, rfl, fun hr hs => hr (hstop ▸ hs), ?_⟩ howes ?_ fun r hr => hr
  · rw [hstop, if_neg (fun hn => by rw [hn.1] at hn; cases hn.2)]
  · rw [← h.receipt]
    exact hm.receipt.resolve_right fun ⟨f, remote, he, _⟩ => nomatch he

variable {input : AccountedInput}

theorem Kept.step (h : Kept a) (hl : a.loses c input = false) : Kept (a.step c input) := by
  cases input with
  | session input plain =>
    have hm := NativeSession.step_move (c := c) input h.idle
    have hreceipt (hi : ∀ frame, input ≠ .control frame) : (a.session.step c input).receipt = a.session.receipt :=
      hm.receipt.resolve_right fun ⟨frame, _, he, _⟩ => hi frame he
    have hpending (hi : ∀ frame, input ≠ .control frame) (hk : ∀ kind range, input ≠ .command kind range) :=
      hm.pending hk fun frame _ _ he => absurd he (hi frame)
    cases input with
    | control frame => exact h.control hl
    | command kind range => exact h.command kind range
    | closeDeadline => cases plain
    | exited => cases plain
    | _ => exact h.enter hm nofun (hpending nofun nofun) (hreceipt nofun)
  | closedFrame session generation sequence value => exact h.closedFrame session generation sequence value
  | closeDeadline terminate =>
    unfold AccountedSession.step
    dsimp only
    split
    · rename_i ht
      exact h.closeDeadline c ht terminate
    · exact h
  | exited exit => exact h.exited exit
  | killDeadline =>
    unfold AccountedSession.step
    dsimp only
    split
    · exact h.exited _
    · exact h

-- What brings about what is reported

theorem resolved_step (h : Kept a)
    (hm : .deferred asked (.resolved receipt) ∈ (a.step c input).promises) :
    .deferred asked (.resolved receipt) ∈ a.promises ∨ Answers c a asked receipt input := by
  cases input with
  | session input plain =>
    cases input with
    | control frame =>
      have hm : .deferred asked (.resolved receipt) ∈ (a.control c frame).promises := hm
      unfold control at hm
      split at hm
      · rename_i ho
        split at hm
        · rcases caught_resolved hm with hm | ⟨s, -, hm⟩
          · exact .inl hm
          · left
            dsimp only at hm
            split at hm <;> exact hm
        · rename_i kind paused hmessage
          rcases caught_resolved hm with hm | ⟨s, hs, hm⟩
          · exact .inl hm
          · refine (resolved_resolve hm).imp_right fun ⟨hp, hr⟩ => ?_
            rcases NativeSession.acknowledged_takes (c := c) frame kind paused h.idle with
              ⟨other, hp', ha, hrun⟩ | ⟨hstop, -⟩ | ⟨e, he⟩
            · obtain rfl : other = asked := Option.some.inj (hp'.symm.trans hp)
              exact ⟨frame, plain, kind, paused, rfl, hmessage, ho, hrun, hp, ha, hr⟩
            · cases (h.idle hstop).symm.trans hp
            · rw [he] at hs
              cases hs
        · exact .inl (enter_resolved hm)
      · exact .inl (enter_resolved hm)
    | command kind range =>
      rcases command_promises hm with hm | ⟨e, he⟩ | ⟨control, he, -⟩
      · exact .inl hm
      · cases he
      · cases he
    | closeDeadline => cases plain
    | exited => cases plain
    | _ => exact .inl (enter_resolved hm)
  | closedFrame => exact .inl (enter_resolved hm)
  | closeDeadline terminate =>
    left
    unfold step at hm
    dsimp only at hm
    split at hm
    · rw [(closeDeadline_keeps (c := c) terminate a).2.2] at hm
      exact hm
    · exact hm
  | exited exit => exact .inl (exited_resolved hm)
  | killDeadline =>
    left
    unfold step at hm
    dsimp only at hm
    split at hm
    · exact exited_resolved hm
    · exact hm

def Accepts (a : AccountedSession) (c : SessionContext) (receipt : NativeCloseReceipt) (input : AccountedInput) : Prop :=
  ∃ session generation sequence value, input = .closedFrame session generation sequence value ∧
    a.session.owns c (closedControl session generation sequence value) ∧
    NativeSession.Received (closedControl session generation sequence value) a.session ∧
    parseClose value = .ok receipt

theorem receipt_step {receipt : NativeCloseReceipt} (h : Kept a)
    (hr : (a.step c input).receipt = some receipt) : a.receipt = some receipt ∨ Accepts a c receipt input := by
  cases input with
  | session input plain =>
    left
    cases input with
    | control frame => exact (congrArg Prod.fst (control_told frame a)).symm.trans hr
    | command kind range => exact (congrArg AccountedSession.receipt (command_eq kind range a)).symm.trans hr
    | closeDeadline => cases plain
    | exited => cases plain
    | _ => exact (enter_receipt _ a).symm.trans hr
  | closedFrame session generation sequence value =>
    have hm := NativeSession.step_move (c := c) (.control (closedControl session generation sequence value)) h.idle
    have hr : (if a.session.receipt.isNone ∧ _ then (parseClose value).toOption else a.receipt) = some receipt := hr
    rcases hm.receipt with hs | ⟨frame, remote, he, -, ho, hreceived, -⟩
    · left
      rwa [if_neg (fun hn => by rw [hs, Option.isNone_iff_eq_none.mp hn.1] at hn; cases hn.2)] at hr
    · cases he
      split_ifs at hr with hn
      · refine .inr ⟨session, generation, sequence, value, rfl, ho, hreceived, ?_⟩
        cases hv : parseClose value with
        | error e =>
          rw [hv] at hr
          cases hr
        | ok receipt' =>
          rw [hv] at hr
          rw [Option.some.inj hr]
      · exact .inl hr
  | closeDeadline terminate =>
    left
    unfold step at hr
    dsimp only at hr
    split at hr
    · rw [(closeDeadline_keeps (c := c) terminate a).2.2] at hr
      exact hr
    · exact hr
  | exited exit => exact .inl ((congrArg Prod.fst (exited_told exit a)).symm.trans hr)
  | killDeadline =>
    left
    unfold step at hr
    dsimp only at hr
    split at hr
    · exact (congrArg Prod.fst (exited_told _ a)).symm.trans hr
    · exact hr

def Terminates (a : AccountedSession) (input : AccountedInput) : Prop :=
  input = .closeDeadline (.ok true) ∧ a.timer = some .close

theorem terminated_step (h : Kept a) (ht : a.terminated) : (a.step c input).terminated := by
  cases input with
  | session input plain =>
    cases input with
    | control frame => exact (congrArg Prod.snd (control_told frame a)).trans ht
    | command kind range => exact (congrArg AccountedSession.terminated (command_eq kind range a)).trans ht
    | closeDeadline => cases plain
    | exited => cases plain
    | _ => exact (enter_terminated _ a).trans ht
  | closedFrame => exact (enter_terminated _ a).trans ht
  | closeDeadline terminate =>
    unfold step
    dsimp only
    rw [if_neg fun hc => by rw [h.unterminated hc] at ht; cases ht]
    exact ht
  | exited exit => exact (congrArg Prod.snd (exited_told exit a)).trans ht
  | killDeadline =>
    unfold step
    dsimp only
    split
    · exact (congrArg Prod.snd (exited_told _ a)).trans ht
    · exact ht

theorem closed_of_kill (hc : a.session.currentState = .closing) (exit : MediaWorkerExit) :
    (a.exited c exit).session.currentState = .closed := by
  have hopen : a.session.currentState ≠ .closed := by
    rw [hc]
    exact nofun
  obtain ⟨-, s₁, -, -, he⟩ := NativeSession.exits (c := c) (exitFailure exit a.session) a.session
  unfold AccountedSession.exited
  rw [if_neg hopen]
  dsimp only
  rw [if_neg (by simp [NativeSession.exhausted, NativeSession.stopped, hc]), enter_session, he]

-- Runs

def Accepted (c : SessionContext) (a₀ : AccountedSession) (labels : List AccountedInput) (receipt : NativeCloseReceipt) :
    Prop :=
  System.Happened (step c) (fun a input => Accepts a c receipt input) a₀ labels

structure Reported (c : SessionContext) (a₀ : AccountedSession) (labels : List AccountedInput) (a : AccountedSession)
    (r : MediaCloseResult) : Prop where
  acknowledged : r.remote = .acknowledged → ∃ receipt, Accepted c a₀ labels receipt ∧
    200 ≤ receipt.teardownStatus ∧ receipt.teardownStatus < 300
  alreadyEnded : r.remote = .alreadyEnded → ∃ receipt, Accepted c a₀ labels receipt ∧ receipt.teardownStatus = 454
  notCreated : r.remote = .notCreated → (∃ receipt, Accepted c a₀ labels receipt ∧ receipt.remote = .notCreated) ∨
    ∀ x ∈ a.session.commands, x.body ≠ .open_
  uncertain : r.remote = .uncertain → r.failure.isSome
  localCleanup : r.localCleanup → (∃ receipt, Accepted c a₀ labels receipt ∧ receipt.localCleanup) ∧
    r.workerExit.observed ∧ r.workerExit.code = some 0 ∧ ¬System.Happened (step c) Terminates a₀ labels

structure Settled (c : SessionContext) (a₀ : AccountedSession) (labels : List AccountedInput) (a : AccountedSession) :
    Prop where
  once : a.results.length = if a.session.currentState = .closed then 1 else 0
  /-- The timers alone close a session that closes, and the exit of the worker makes it close. -/
  closes : a.session.currentState = .closing → ∀ terminate,
    ([.closeDeadline terminate, .killDeadline].foldl (step c) a).session.currentState = .closed
  exits : ∀ exit, (a.step c (.exited exit)).session.stopped
  settled : a.session.stopped → ∀ control, .deferred control .unsettled ∉ a.promises
  pending : ∀ control, .deferred control .unsettled ∈ a.promises → a.session.pending = some control
  expires : a.session.pending.isSome → (a.step c (.session .controlDeadline rfl)).session.stopped
  resolved : ∀ control receipt, .deferred control (.resolved receipt) ∈ a.promises →
    System.Happened (step c) (fun b input => Answers c b control receipt input) a₀ labels
  ready : a.session.stopped → a.ready.settled
  results : ∀ r ∈ a.results, Reported c a₀ labels a r

theorem kept_start (p : BoundedMediaQueue NativeMediaUnit Nat) (m : BoundedMediaQueue MediaMetadataUnit Nat)
    (d : BoundedMediaQueue MediaDecodedFrame Nat) : Kept (start p m d) := by
  have hstate : (start p m d).session.currentState = .opening := rfl
  have hr := NativeSession.opened_of_state (.inl hstate)
  constructor
  case idle => exact NativeSession.idle_of_running hr
  case unopened => exact fun _ x hx => absurd hx List.not_mem_nil
  case owes => exact fun control hc => absurd hc List.not_mem_nil
  case ready => exact fun hs => by rw [hr] at hs; cases hs
  case receipt => rfl
  case fresh => exact fun _ => ⟨rfl, rfl⟩
  case armed => exact fun hc => by rw [hstate] at hc; cases hc
  case unterminated => exact fun ht => by cases ht
  case once => rfl
  case final => exact fun hc => by rw [hstate] at hc; cases hc
  case results => exact fun r hr => absurd hr List.not_mem_nil

theorem parseClose_allows {value : Members} {receipt : NativeCloseReceipt} (h : parseClose value = .ok receipt) :
    receipt.remote.allows receipt.teardownStatus := by
  unfold parseClose at h
  split at h
  · cases h
  · rename_i localCleanup remote _
    obtain ⟨status, -, h⟩ := except_bind_ok h
    split at h
    · cases h
    · rename_i hallows
      obtain ⟨packets, -, h⟩ := except_bind_ok h
      obtain ⟨samples, -, h⟩ := except_bind_ok h
      split at h
      · cases h
      · obtain ⟨frames, -, h⟩ := except_bind_ok h
        obtain ⟨peak, -, h⟩ := except_bind_ok h
        cases h
        exact not_not.mp hallows

theorem closes_of (h : Kept a) (hc : a.session.currentState = .closing) (terminate : Except OnvifError Bool) :
    ([.closeDeadline terminate, .killDeadline].foldl (step c) a).session.currentState = .closed := by
  change ((a.step c (.closeDeadline terminate)).step c .killDeadline).session.currentState = .closed
  have hkill {b : AccountedSession} (hb : Kept b) (hk : b.timer = some .kill) (hc : b.session.currentState = .closing) :
      (b.step c .killDeadline).session.currentState = .closed := by
    unfold step
    dsimp only
    rw [if_pos hk]
    exact closed_of_kill hc _
  have htimer := h.armed hc
  cases ht : a.timer with
  | none =>
    rw [ht] at htimer
    cases htimer
  | some timer =>
    cases timer with
    | kill =>
      rw [show a.step c (.closeDeadline terminate) = a from if_neg (by rw [ht]; exact nofun)]
      exact hkill h ht hc
    | close =>
      have hstep : a.step c (.closeDeadline terminate) = a.closeDeadline terminate := if_pos ht
      obtain ⟨hs, -, he⟩ := closeDeadline_keeps (c := c) terminate a
      rw [hstep]
      refine hkill (h.closeDeadline c ht terminate) (by rw [he]) ?_
      refine (closing_of_stopped (hs.stopped (by simp [NativeSession.stopped, hc]))).resolve_right fun hn => ?_
      rw [hs.closed.mp hn] at hc
      cases hc

theorem exits_of (exit : MediaWorkerExit) (a : AccountedSession) : (a.exited c exit).session.stopped := by
  obtain ⟨-, s₁, -, -, he⟩ := NativeSession.exits (c := c) (exitFailure exit a.session) a.session
  unfold exited
  split
  · rename_i hc
    exact NativeSession.closed_stopped hc
  · dsimp only
    split
    · rename_i hx
      simp only [NativeSession.exhausted, Bool.and_eq_true, Bool.not_eq_true'] at hx
      rw [enter_session]
      exact (NativeSession.beginClose_stopped hx.1.1.1).1
    · rw [enter_session, he]
      rfl

theorem expires_of (h : a.session.pending.isSome) : (a.step c (.session .controlDeadline rfl)).session.stopped := by
  rw [show a.step c (.session .controlDeadline rfl) = a.enter _ from rfl, enter_session]
  unfold NativeSession.step
  dsimp only
  rw [if_pos h]
  exact NativeSession.fail_stops _ _

theorem reported_of {r : MediaCloseResult} (h : Kept a) (hr : r ∈ a.results)
    (haccepted : ∀ receipt, a.receipt = some receipt → Accepted c a₀ labels receipt)
    (hterminated : System.Happened (step c) Terminates a₀ labels → a.terminated) : Reported c a₀ labels a r := by
  have hsound := h.results r hr
  have hallows {remote : MediaRemote} (hr : r.remote = remote) (hu : remote ≠ .uncertain) (hn : remote ≠ .notCreated) :
      ∃ receipt, Accepted c a₀ labels receipt ∧ remote.allows receipt.teardownStatus := by
    rcases hsound.outcome with ⟨receipt, he, ho⟩ | ho | ⟨ho, -⟩
    · obtain ⟨before, input, after, hl, session, generation, sequence, value, hi, howns, hreceived, hp⟩ :=
        haccepted receipt he
      have hallows := parseClose_allows hp
      rw [ho, hr] at hallows
      exact ⟨receipt, haccepted receipt he, hallows⟩
    · exact absurd (hr.symm.trans ho) hu
    · exact absurd (hr.symm.trans ho) hn
  constructor
  case acknowledged =>
    intro hr
    obtain ⟨receipt, ha, hs⟩ := hallows hr nofun nofun
    simp only [MediaRemote.allows, Bool.and_eq_true, decide_eq_true_eq] at hs
    exact ⟨receipt, ha, hs⟩
  case alreadyEnded =>
    intro hr
    obtain ⟨receipt, ha, hs⟩ := hallows hr nofun nofun
    exact ⟨receipt, ha, by simpa [MediaRemote.allows] using hs⟩
  case notCreated =>
    intro hr
    rcases hsound.outcome with ⟨receipt, he, ho⟩ | ho | ⟨-, ho⟩
    · exact .inl ⟨receipt, haccepted receipt he, ho.trans hr⟩
    · cases hr.symm.trans ho
    · exact .inr (h.unopened ho)
  case uncertain => exact hsound.uncertain
  case localCleanup =>
    intro hl
    obtain ⟨⟨receipt, he, hlocal⟩, ho, hcode, ht⟩ := hsound.cleanup hl
    refine ⟨⟨receipt, haccepted receipt he, hlocal⟩, ho, hcode, fun hn => ?_⟩
    rw [hsound.terminated.symm.trans ht] at hterminated
    cases hterminated hn

/-- A run in which no CONTROL loses its promise leaves none unsettled. -/
theorem session_settles (h₀ : (machine c).init a₀)
    (hr : ((machine c).when fun a input => a.loses c input = false).Run a₀ labels a) : Settled c a₀ labels a := by
  obtain ⟨p, m, d, rfl⟩ := h₀
  have hkept₀ := kept_start p m d
  have hstep (a : AccountedSession) (input : AccountedInput) (h : Kept a) (hl : a.loses c input = false) :
      Kept (a.step c input) := h.step hl
  have hkept : Kept a :=
    hr.keeps (P := Kept) (fun s i s' hs (hi : s.loses c i = false ∧ s' = s.step c i) => hi.2 ▸ hs.step hi.1) hkept₀
  have haccepted (receipt : NativeCloseReceipt) (hreceipt : a.receipt = some receipt) :
      Accepted c (start p m d) labels receipt :=
    hr.happened hkept₀ nofun hstep (fun s i hs hq => receipt_step hs hq) hreceipt
  have hterminates (b : AccountedSession) (input : AccountedInput) (ht : Terminates b input) :
      (b.step c input).terminated := by
    obtain ⟨rfl, ht⟩ := ht
    rw [show b.step c (.closeDeadline (.ok true)) = b.closeDeadline (.ok true) from if_pos ht]
    rfl
  have hterminated (hn : System.Happened (step c) Terminates (start p m d) labels) : a.terminated :=
    hr.lasting hkept₀ hstep (fun b i _ => hterminates b i) (fun b i hb => terminated_step hb) hn
  constructor
  case once => exact hkept.once
  case closes => exact closes_of hkept
  case exits => exact fun exit => exits_of exit a
  case settled =>
    intro hs control hm
    cases (hkept.idle hs).symm.trans (hkept.owes control hm)
  case pending => exact hkept.owes
  case expires => exact expires_of
  case resolved =>
    intro control receipt hm
    exact hr.happened (Q := fun b => .deferred control (.resolved receipt) ∈ b.promises) hkept₀
      (fun hn => absurd hn List.not_mem_nil) hstep (fun b i hb hq => resolved_step hb hq) hm
  case ready => exact hkept.ready
  case results => exact fun r hm => reported_of hkept hm haccepted hterminated

def watching : SessionContext where
  id := 7
  limits := ⟨1000, 1000, 1000, 65536, 16, 4, 100, 100, 1000, 1000, 1000, 1000, 1000, 1000⟩
  mode := .live
  packetOutput := true
  requireMediaSupport _ := .ok ()
  encodeSecurity := .ok ()
  encodeOpen := .ok ()
  decodeMetadata _ := .ok true
  validateReplayRange _ := .ok ()
  refuses _ := false

def opened : AccountedSession :=
  start (.fresh ⟨65536, 16, 4, .live⟩) (.fresh ⟨65536, 16, 4, .live⟩) (.fresh ⟨65536, 16, 4, .live⟩)

def resumes : List AccountedInput :=
  [.session (.control ⟨.hello (some [.pause, .play]), 0, 0, 0⟩) rfl, .session (.openSettled (.ok ())) rfl,
   .session (.openSettled (.ok ())) rfl, .session (.control ⟨.ready (some [⟨3, false, 96, 90000⟩]), 7, 1, 1⟩) rfl,
   .session (.data ⟨IpcKind.RTCP, 7, 1, 1, [0, 3, 0, 0] ++ .replicate 24 0 ++ [0, 1, 0x5f, 0x90, 0, 0, 0, 1]⟩) rfl,
   .session (.command .play none) rfl]

def exits : AccountedInput := .exited ⟨true, some 0, none, false⟩

def tornDown : Members :=
  [("localCleanup", .bool true), ("awaitWorkerExit", .bool true), ("remote", .string "acknowledged"),
   ("teardownStatus", .number ⟨false, 2, 3, by decide⟩),
   ("dataDiscardedFrames", .number ⟨false, 0, 0, FiniteNumber.tidy_zero⟩),
   ("dataQueuePeakBytes", .number ⟨false, 0, 0, FiniteNumber.tidy_zero⟩),
   ("backchannelPackets", .number ⟨false, 0, 0, FiniteNumber.tidy_zero⟩),
   ("backchannelSamples", .number ⟨false, 0, 0, FiniteNumber.tidy_zero⟩)]

def resumed : List AccountedInput :=
  resumes ++ [.session (.control ⟨.control .play false, 7, 2, 2⟩) rfl, .session .close rfl,
    .closedFrame 7 2 3 tornDown, exits]

def overrun : List AccountedInput :=
  resumes ++ [.session (.control ⟨.end_ 0, 7, 2, 0⟩) rfl, .session (.control ⟨.control .play false, 7, 2, 2⟩) rfl, exits]

theorem session_settles_resumed :
    let a := resumed.foldl (step watching) opened
    Settled watching opened resumed a ∧ a.promises = [.deferred ⟨.play, 2, 2⟩ (.resolved ⟨.playing, 2⟩)] ∧
      a.results.map (fun r => (r.remote, r.localCleanup)) = [(.acknowledged, true)] :=
  ⟨session_settles ⟨_, _, _, rfl⟩ (System.run_follows resumed (by decide +kernel)), by decide +kernel, by decide +kernel⟩

theorem session_settles_overrun : ∃ a, (machine watching).Run opened overrun a ∧ (machine watching).init opened ∧
    a.session.currentState = .closed ∧ .deferred ⟨.play, 2, 2⟩ .unsettled ∈ a.promises ∧
    ¬Settled watching opened overrun a := by
  have hclosed : (overrun.foldl (step watching) opened).session.currentState = .closed := by decide +kernel
  have hlost : .deferred ⟨.play, 2, 2⟩ .unsettled ∈ (overrun.foldl (step watching) opened).promises := by
    decide +kernel
  refine ⟨_, System.run_ofFun.mpr rfl, ⟨_, _, _, rfl⟩, hclosed, hlost, fun h => ?_⟩
  exact h.settled (NativeSession.closed_stopped hclosed) _ hlost

end AccountedSession

end WotAv.Media
