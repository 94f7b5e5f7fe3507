import WotAv.Media.Executor

/-!
# What the media executor owns

Every worker that has not ended is one of a call that is pending or of a
session that the executor keeps, and both are counted.
-/

namespace WotAv.Media.MediaExecutor

open WotAv.Lib WotAv.Binding
open WotAv.Catalog (JsonValue)

-- Sessions

namespace OwnedSession

structure Sound (s : OwnedSession) : Prop where
  ready : s.closing = true → s.ready.isSome
  closed : s.closed.isSome → s.closing = true
  unseen : ∀ result, s.closed = some result → s.alive = true → result.observed = false

def rank (s : OwnedSession) : Nat := if s.closed.isSome then 0 else 1

structure Onward (s s' : OwnedSession) : Prop where
  scope : s'.scope = s.scope
  material : s'.material = s.material
  closing : s.closing = true → s'.closing = true
  closed : s.closed.isSome → s'.closed.isSome
  sound : s.Sound → s'.Sound

variable {s s' : OwnedSession}

theorem Onward.rank_le (h : s.Onward s') : s'.rank ≤ s.rank := by
  unfold rank
  split
  · exact Nat.zero_le _
  · rename_i hopen
    rw [if_neg fun hclosed => hopen (h.closed hclosed)]

theorem Onward.refl (s : OwnedSession) : s.Onward s := ⟨rfl, rfl, fun h => h, fun h => h, fun h => h⟩

theorem onward_beginClose (s : OwnedSession) (error : OnvifError) : s.Onward (s.beginClose error) := by
  unfold beginClose
  split
  · exact .refl s
  · refine ⟨rfl, rfl, fun _ => rfl, fun h => h, fun h => ⟨fun _ => ?_, fun _ => rfl, h.unseen⟩⟩
    cases s.ready <;> rfl

theorem closing_beginClose (s : OwnedSession) (error : OnvifError) : (s.beginClose error).closing = true := by
  unfold beginClose
  split
  · assumption
  · rfl

theorem onward_fail (s : OwnedSession) (error : OnvifError) : s.Onward (s.fail error) := by
  unfold fail
  split
  · exact .refl s
  · exact onward_beginClose s error

theorem onward_close (s : OwnedSession) : s.Onward s.close := onward_beginClose s _

theorem onward_aborted (s : OwnedSession) : s.Onward s.aborted := onward_fail s _

theorem closing_aborted (h : s.Sound) : s.aborted.closing = true := by
  unfold aborted fail
  split
  · exact h.closed ‹_›
  · exact closing_beginClose s _

theorem onward_sendOpen (h : s.sendOpen = some s') : s.Onward s' := by
  unfold sendOpen at h
  split at h
  · cases h
  · obtain rfl := Option.some.inj h
    exact ⟨rfl, rfl, fun h => h, fun h => h, fun h => ⟨h.ready, h.closed, h.unseen⟩⟩

theorem onward_becomeReady (h : s.becomeReady = some s') : s.Onward s' := by
  unfold becomeReady at h
  split at h
  · cases h
  · obtain rfl := Option.some.inj h
    exact ⟨rfl, rfl, fun h => h, fun h => h, fun h => ⟨fun _ => rfl, h.closed, h.unseen⟩⟩

theorem onward_exit (h : s.exit = some s') : s.Onward s' := by
  unfold exit at h
  split at h
  · obtain rfl := Option.some.inj h
    unfold exited
    split
    · exact ⟨rfl, rfl, fun h => h, fun h => h, fun h => ⟨h.ready, h.closed, nofun⟩⟩
    · have hbegin := onward_beginClose s
        ⟨.transportError, "Native media worker exited unsuccessfully", if s.openSent then .unknown else .notSent⟩
      exact ⟨hbegin.scope, hbegin.material, hbegin.closing, fun _ => rfl,
        fun h => ⟨(hbegin.sound h).ready, fun _ => closing_beginClose s _, nofun⟩⟩
  · cases h

theorem killTimer_some (h : s.killTimer = some s') : s.Onward s' ∧ s'.closed = some ⟨false⟩ ∧ s.closed = none := by
  unfold killTimer at h
  split at h
  · rename_i hopen
    obtain rfl := Option.some.inj h
    have hnone := Option.isNone_iff_eq_none.mp hopen.2
    have hbegin := onward_beginClose s
      ⟨.transportError, "Native media worker exited unsuccessfully", if s.openSent then .unknown else .notSent⟩
    have hexited : s.exited ⟨false⟩ = { s.beginClose
        ⟨.transportError, "Native media worker exited unsuccessfully", if s.openSent then .unknown else .notSent⟩
        with closed := some ⟨false⟩ } := by
      rw [exited, hnone]
      rfl
    rw [hexited]
    refine ⟨⟨hbegin.scope, hbegin.material, hbegin.closing, fun _ => rfl,
      fun h => ⟨(hbegin.sound h).ready, fun _ => closing_beginClose s _, ?_⟩⟩, rfl, hnone⟩
    rintro result hresult -
    obtain rfl := Option.some.inj hresult
    rfl
  · cases h

end OwnedSession

-- Calls

def Open.unclosed (o : Open) : Bool := o.session.any (·.closed.isNone)

def Open.held (o : Open) : Bool := o.pending || o.inSessions

def Open.Halted (o : Open) : Prop :=
  match o.stage with
  | .invoking wait => wait.outcome.isSome
  | .valuing wait => wait.outcome.isSome
  | .securing _ wait => wait.outcome.isSome
  | .starting => o.session.any (·.closing)
  | _ => True

def Open.Staged (node : Node) (o : Open) : Prop :=
  match o.stage with
  | .invoking _ | .valuing _ => o.session = none
  | .securing scope _ => o.session = none ∧ ∃ value, resolvedScope node o.call value = .ok scope
  | .starting => o.session.isSome
  | .failing _ | .cleaning => o.session.any (·.closing)
  | .settled (.error ⟨_, none⟩) => o.session = none
  | .settled _ => True

structure Open.Sound (node : Node) (o : Open) : Prop where
  timed : o.timeout = true → o.aborted = true
  halted : o.aborted = true → o.Halted
  staged : o.Staged node
  pending : o.isSettled = false → o.pending = true
  kept : o.unclosed = true → o.isSettled = true → o.inSessions = true
  session : ∀ s, o.session = some s → s.Sound ∧
    ∃ value material, resolvedScope node o.call value = .ok s.scope ∧
      validateMediaSecurity s.scope material = .ok s.material

def Wait.rank {α : Type} (wait : Wait α) : Nat := if wait.outcome.isSome then 0 else 1

def Stage.rank : Stage → Nat
  | .invoking wait => 40 + wait.rank
  | .valuing wait => 30 + wait.rank
  | .securing _ wait => 20 + wait.rank
  | .starting => 10
  | .failing _ | .cleaning => 5
  | .settled _ => 0

def Open.rank (o : Open) : Nat :=
  o.stage.rank + (if o.timeout then 0 else 1) + (o.session.map OwnedSession.rank).getD 0

/-- What a step of a call does, whatever the call is waiting for. -/
structure Moves (node : Node) (accepting : Bool) (o o' : Open) : Prop where
  sound : o'.Sound node
  timed : o.timeout = true → o'.timeout = true
  held : o'.held = true → o.held = true
  started : o'.session.isSome → o.session.isSome ∨ accepting = true
  owns : o.session.isSome → o'.session.isSome
  unclosed : o'.unclosed = true → o.unclosed = true ∨ accepting = true
  awaited : accepting = false → o'.unclosed = true → o.isSettled = false → o'.isSettled = false
  settled : ∀ result, o.stage = .settled result → o'.stage = .settled result
  rank : o'.rank ≤ o.rank

variable {node : Node} {accepting : Bool} {o o' : Open}

theorem staged_session {s s' : OwnedSession} (hs : o.session = some s) (hclosing : s.closing = true → s'.closing = true)
    (h : o.Staged node) : Open.Staged node { o with session := some s' } := by
  unfold Open.Staged at h ⊢
  rw [hs] at h
  cases hstage : o.stage with
  | invoking wait => rw [hstage] at h; cases h
  | valuing wait => rw [hstage] at h; cases h
  | securing scope wait => rw [hstage] at h; cases h.1
  | starting => rfl
  | failing error => rw [hstage] at h; exact hclosing h
  | cleaning => rw [hstage] at h; exact hclosing h
  | settled result =>
    rw [hstage] at h
    rcases result with ⟨error, _ | cleanup⟩ | _
    · cases h
    · trivial
    · trivial

theorem halted_session {s s' : OwnedSession} (hs : o.session = some s) (hclosing : s.closing = true → s'.closing = true)
    (h : o.Halted) : Open.Halted { o with session := some s' } := by
  unfold Open.Halted at h ⊢
  rw [hs] at h
  cases hstage : o.stage <;> rw [hstage] at h <;> first | exact h | exact hclosing h

theorem moves_session (h : o.Sound node) {s s' : OwnedSession} (hs : o.session = some s) (hon : s.Onward s') :
    Moves node accepting o { o with session := some s' } := by
  have hunclosed : s'.closed.isNone = true → o.unclosed = true := by
    intro hnone
    rw [Open.unclosed, hs, Option.any_some]
    cases hclosed : s.closed with
    | none => rfl
    | some result =>
      have := hon.closed (by rw [hclosed]; rfl)
      rw [Option.isNone_iff_eq_none.mp hnone] at this
      cases this
  have hsound := h.session s hs
  refine ⟨⟨h.timed, fun ha => halted_session hs hon.closing (h.halted ha), staged_session hs hon.closing h.staged,
    h.pending, fun hu hset => h.kept (hunclosed hu) hset, ?_⟩, fun h => h, fun h => h, fun _ => ?_, fun _ => rfl,
    fun hu => .inl (hunclosed hu), fun _ _ h => h, fun _ h => h, ?_⟩
  · rintro s'' hs''
    obtain rfl := Option.some.inj hs''
    exact ⟨hon.sound hsound.1, hon.scope ▸ hon.material ▸ hsound.2⟩
  · rw [hs]
    exact .inl rfl
  · have hrank := hon.rank_le
    simp only [Open.rank, hs, Option.map_some, Option.getD_some]
    omega

theorem moves_onSession (h : o.Sound node) {f : OwnedSession → Option OwnedSession}
    (hf : ∀ s s', f s = some s' → s.Onward s') (hstep : o.onSession f = some o') : Moves node accepting o o' := by
  obtain ⟨s', hs', rfl⟩ := Option.map_eq_some_iff.mp hstep
  obtain ⟨s, hs, hfs⟩ := Option.bind_eq_some_iff.mp hs'
  exact moves_session h hs (hf s s' hfs)

theorem Moves.refl (h : o.Sound node) : Moves node accepting o o :=
  ⟨h, fun h => h, fun h => h, fun h => .inl h, fun h => h, fun h => .inl h, fun _ _ h => h, fun _ h => h, Nat.le_refl _⟩

theorem Moves.trans {o'' : Open} (h : Moves node accepting o o') (h' : Moves node accepting o' o'') :
    Moves node accepting o o'' where
  sound := h'.sound
  timed := h'.timed ∘ h.timed
  held := h.held ∘ h'.held
  started hs := (h'.started hs).elim h.started .inr
  owns := h'.owns ∘ h.owns
  unclosed hu := (h'.unclosed hu).elim h.unclosed .inr
  awaited ha hu hset := by
    rcases h'.unclosed hu with hu' | ht
    · exact h'.awaited ha hu (h.awaited ha hu' hset)
    · rw [ha] at ht
      cases ht
  settled result hset := h'.settled result (h.settled result hset)
  rank := Nat.le_trans h'.rank h.rank

-- Aborts

theorem Wait.isSome_abort {α : Type} (wait : Wait α) : wait.abort.outcome.isSome := by
  unfold Wait.abort
  cases wait.outcome <;> rfl

theorem Wait.rank_abort {α : Type} (wait : Wait α) : wait.abort.rank ≤ wait.rank := by
  simp [Wait.rank, wait.isSome_abort]

theorem Stage.rank_abort (stage : Stage) : stage.abort.rank ≤ stage.rank := by
  cases stage with
  | invoking wait => exact Nat.add_le_add_left wait.rank_abort _
  | valuing wait => exact Nat.add_le_add_left wait.rank_abort _
  | securing scope wait => exact Nat.add_le_add_left wait.rank_abort _
  | _ => exact Nat.le_refl _

theorem moves_halt (h : o.Sound node) (hclosing : ∀ s, o.session = some s → s.closing = true) :
    Moves node accepting o { o with aborted := true, stage := o.stage.abort } := by
  have hsettled : Open.isSettled { o with aborted := true, stage := o.stage.abort } = o.isSettled := by
    unfold Open.isSettled
    cases o.stage <;> rfl
  refine ⟨⟨fun _ => rfl, fun _ => ?_, ?_, fun hs => h.pending (hsettled ▸ hs), fun hu hs => h.kept hu (hsettled ▸ hs),
    h.session⟩, fun h => h, fun h => h, fun hs => .inl hs, fun h => h, fun hu => .inl hu,
    fun _ _ hs => hsettled.trans hs, ?_, ?_⟩
  · have hstaged := h.staged
    unfold Open.Staged at hstaged
    unfold Open.Halted
    cases hstage : o.stage with
    | invoking wait => exact wait.isSome_abort
    | valuing wait => exact wait.isSome_abort
    | securing scope wait => exact wait.isSome_abort
    | starting =>
      rw [hstage] at hstaged
      obtain ⟨s, hs⟩ := Option.isSome_iff_exists.mp hstaged
      simp [Stage.abort, hs, hclosing s hs]
    | _ => trivial
  · have hstaged := h.staged
    unfold Open.Staged at hstaged ⊢
    cases hstage : o.stage <;> rw [hstage] at hstaged <;> exact hstaged
  · intro result hresult
    simp only [hresult, Stage.abort]
  · have hrank := o.stage.rank_abort
    simp only [Open.rank]
    omega

theorem moves_abort (h : o.Sound node) : Moves node accepting o o.abort := by
  unfold Open.abort
  split
  · exact .refl h
  · cases hs : o.session with
    | none =>
      have hhalt : Moves node accepting o { o with aborted := true, stage := o.stage.abort } :=
        moves_halt h fun s hsome => by rw [hs] at hsome; cases hsome
      rw [Option.map_none, ← hs]
      exact hhalt
    | some s =>
      have hfirst : Moves node accepting o { o with session := some s.aborted } :=
        moves_session h hs (OwnedSession.onward_aborted s)
      refine hfirst.trans (moves_halt hfirst.sound ?_)
      rintro s' hs'
      obtain rfl := Option.some.inj hs'
      exact OwnedSession.closing_aborted (h.session s hs).1

theorem aborted_abort (o : Open) : o.abort.aborted = true := by
  unfold Open.abort
  split
  · assumption
  · rfl

theorem moves_deadline (h : o.Sound node) : Moves node accepting o { o.abort with timeout := true } := by
  have habort : Moves node accepting o o.abort := moves_abort h
  refine habort.trans ⟨⟨fun _ => aborted_abort o, habort.sound.halted, habort.sound.staged, habort.sound.pending,
    habort.sound.kept, habort.sound.session⟩, fun _ => rfl, fun h => h, fun hs => .inl hs, fun h => h, fun hu => .inl hu,
    fun _ _ hs => hs, fun _ hs => hs, ?_⟩
  simp only [Open.rank, if_true]
  omega

-- Waits

theorem Wait.start_some {α : Type} {wait wait' : Wait α} (h : wait.start = some wait') :
    wait'.outcome = wait.outcome ∧ wait.outcome = none := by
  unfold Wait.start at h
  split at h
  · cases h
  · rename_i hnone
    obtain rfl := Option.some.inj h
    rw [not_or] at hnone
    exact ⟨rfl, by simpa using hnone.2⟩

theorem Wait.finish_some {α : Type} {wait wait' : Wait α} {result : Except Thrown α}
    (h : wait.finish result = some wait') :
    wait'.outcome.isSome ∧ wait'.rank ≤ wait.rank := by
  unfold Wait.finish at h
  split at h
  · obtain rfl := Option.some.inj h
    cases hw : wait.outcome <;> simp [Wait.rank, hw]
  · cases h

theorem moves_wait (stage : Stage) (h : o.Sound node) (hstaged : Open.Staged node { o with stage })
    (hhalted : o.aborted = true → Open.Halted { o with stage }) (hsettled : o.isSettled = false)
    (hpending : Open.isSettled { o with stage } = false) (hrank : stage.rank ≤ o.stage.rank) (requested : Bool) :
    Moves node accepting o { o with stage, requested } where
  sound := by
    refine ⟨h.timed, hhalted, hstaged, fun _ => h.pending hsettled, fun _ hs => ?_, h.session⟩
    exact absurd (hs.symm.trans hpending) nofun
  timed h := h
  held h := h
  started hs := .inl hs
  owns h := h
  unclosed hu := .inl hu
  awaited _ _ _ := hpending
  settled result hresult := by
    rw [Open.isSettled, hresult] at hsettled
    cases hsettled
  rank := by
    simp only [Open.rank]
    omega

theorem moves_start (h : o.Sound node) (hs : o.start = some o') : Moves node accepting o o' := by
  have hstaged := h.staged
  have hhalted := h.halted
  unfold Open.start at hs
  unfold Open.Staged at hstaged
  unfold Open.Halted at hhalted
  cases hstage : o.stage with
  | invoking wait =>
    rw [hstage] at hs hstaged hhalted
    obtain ⟨wait', hw, rfl⟩ := Option.map_eq_some_iff.mp hs
    obtain ⟨hsame, hnone⟩ := Wait.start_some hw
    refine moves_wait (.invoking wait') h hstaged (fun ha => ?_) (by rw [Open.isSettled, hstage]) rfl ?_ true
    · exact (congrArg Option.isSome hsame).trans (hhalted ha)
    · simp only [hstage, Stage.rank, Wait.rank, hsame, Nat.le_refl]
  | valuing wait =>
    rw [hstage] at hs hstaged hhalted
    obtain ⟨wait', hw, rfl⟩ := Option.map_eq_some_iff.mp hs
    obtain ⟨hsame, hnone⟩ := Wait.start_some hw
    refine moves_wait (.valuing wait') h hstaged (fun ha => ?_) (by rw [Open.isSettled, hstage]) rfl ?_ o.requested
    · exact (congrArg Option.isSome hsame).trans (hhalted ha)
    · simp only [hstage, Stage.rank, Wait.rank, hsame, Nat.le_refl]
  | securing scope wait =>
    rw [hstage] at hs hstaged hhalted
    obtain ⟨wait', hw, rfl⟩ := Option.map_eq_some_iff.mp hs
    obtain ⟨hsame, hnone⟩ := Wait.start_some hw
    refine moves_wait (.securing scope wait') h hstaged (fun ha => ?_) (by rw [Open.isSettled, hstage]) rfl ?_
      o.requested
    · exact (congrArg Option.isSome hsame).trans (hhalted ha)
    · simp only [hstage, Stage.rank, Wait.rank, hsame, Nat.le_refl]
  | _ => rw [hstage] at hs; cases hs

theorem moves_invoked (h : o.Sound node) {result : Except Thrown Unit} (hs : o.invoked result = some o') :
    Moves node accepting o o' := by
  have hstaged := h.staged
  unfold Open.invoked at hs
  unfold Open.Staged at hstaged
  cases hstage : o.stage with
  | invoking wait =>
    rw [hstage] at hs hstaged
    obtain ⟨wait', hw, rfl⟩ := Option.map_eq_some_iff.mp hs
    obtain ⟨hsome, hrank⟩ := Wait.finish_some hw
    refine moves_wait (.invoking wait') h hstaged (fun _ => hsome) (by rw [Open.isSettled, hstage]) rfl ?_ o.requested
    rw [hstage]
    exact Nat.add_le_add_left hrank _
  | _ => rw [hstage] at hs; cases hs

theorem moves_valued (h : o.Sound node) {result : Except Thrown JsonValue} (hs : o.valued result = some o') :
    Moves node accepting o o' := by
  have hstaged := h.staged
  unfold Open.valued at hs
  unfold Open.Staged at hstaged
  cases hstage : o.stage with
  | valuing wait =>
    rw [hstage] at hs hstaged
    obtain ⟨wait', hw, rfl⟩ := Option.map_eq_some_iff.mp hs
    obtain ⟨hsome, hrank⟩ := Wait.finish_some hw
    refine moves_wait (.valuing wait') h hstaged (fun _ => hsome) (by rw [Open.isSettled, hstage]) rfl ?_ o.requested
    rw [hstage]
    exact Nat.add_le_add_left hrank _
  | _ => rw [hstage] at hs; cases hs

theorem moves_secured (h : o.Sound node) {result : Except Thrown MediaSecurityMaterial}
    (hs : o.secured result = some o') : Moves node accepting o o' := by
  have hstaged := h.staged
  unfold Open.secured at hs
  unfold Open.Staged at hstaged
  cases hstage : o.stage with
  | securing scope wait =>
    rw [hstage] at hs hstaged
    obtain ⟨wait', hw, rfl⟩ := Option.map_eq_some_iff.mp hs
    obtain ⟨hsome, hrank⟩ := Wait.finish_some hw
    refine moves_wait (.securing scope wait') h hstaged (fun _ => hsome) (by rw [Open.isSettled, hstage]) rfl ?_
      o.requested
    rw [hstage]
    exact Nat.add_le_add_left hrank _
  | _ => rw [hstage] at hs; cases hs

-- The call goes on

theorem unclosed_of_none (h : o.session = none) : o.unclosed = false := by
  rw [Open.unclosed, h]
  rfl

theorem unclosed_of_closed {result : MediaCloseResult} (h : o.session.bind (·.closed) = some result) :
    o.unclosed = false := by
  obtain ⟨s, hs, hclosed⟩ := Option.bind_eq_some_iff.mp h
  rw [Open.unclosed, hs, Option.any_some, hclosed]
  rfl

theorem moves_reject (h : o.Sound node) (hsettled : o.isSettled = false) (thrown : Thrown)
    {cleanup : Option MediaCloseResult} (hnone : cleanup = none → o.session = none)
    (hclosed : o.unclosed = false) : Moves node accepting o (o.reject thrown cleanup) where
  sound := by
    refine ⟨h.timed, fun _ => trivial, ?_, nofun, fun hu _ => ?_, h.session⟩
    · cases cleanup with
      | none => exact hnone rfl
      | some cleanup => trivial
    · exact absurd ((hclosed : (o.reject thrown cleanup).unclosed = false).symm.trans hu) nofun
  timed h := h
  held h := h
  started hs := .inl hs
  owns h := h
  unclosed hu := .inl hu
  awaited _ hu := absurd ((hclosed : (o.reject thrown cleanup).unclosed = false).symm.trans hu) nofun
  settled result hresult := by
    rw [Open.isSettled, hresult] at hsettled
    cases hsettled
  rank := Nat.add_le_add_right (Nat.add_le_add_right (Nat.zero_le _) _) _

theorem isSettled_of_stage {stage : Stage} (hstage : o.stage = stage)
    (hstages : Open.isSettled { o with stage } = false) : o.isSettled = false := by
  rw [Open.isSettled, hstage]
  exact hstages

section
variable (h : o.Sound node)
include h

theorem moves_spawn {scope : MediaSecurityScope} {wait : Wait MediaSecurityMaterial}
    (hstage : o.stage = .securing scope wait) (material : MediaSecurityMaterial) (spawned : Except Thrown Unit) :
    Moves node accepting o (o.spawn accepting scope material spawned) := by
  have hstaged := h.staged
  unfold Open.Staged at hstaged
  rw [hstage] at hstaged
  obtain ⟨hsession, value, hvalue⟩ := hstaged
  have hsettled : o.isSettled = false := isSettled_of_stage hstage rfl
  have hreject : ∀ thrown, Moves node accepting o (o.reject thrown none) := fun thrown =>
    moves_reject h hsettled thrown (fun _ => hsession) (unclosed_of_none hsession)
  unfold Open.spawn
  split
  · exact hreject _
  · rename_i validated hvalidated
    split
    · exact hreject _
    · rename_i hlive
      rw [not_or] at hlive
      have haccepting : accepting = true := by simpa using hlive.2
      split
      · exact hreject _
      · refine ⟨⟨h.timed, fun ha => absurd ha hlive.1, rfl, fun _ => h.pending hsettled, nofun, ?_⟩,
          fun h => h, fun h => h,
          fun _ => .inr haccepting, fun _ => rfl, fun _ => .inr haccepting, fun _ _ _ => rfl, ?_, ?_⟩
        · rintro s hs
          obtain rfl := Option.some.inj hs
          exact ⟨⟨nofun, nofun, nofun⟩, value, material, hvalue, hvalidated⟩
        · intro result hresult
          rw [hstage] at hresult
          cases hresult
        · simp only [Open.rank, hstage, hsession, Stage.rank, OwnedSession.rank, Option.map_some, Option.map_none,
            Option.getD_some, Option.getD_none, Option.isSome_none, Bool.false_eq_true, if_false]
          omega

theorem moves_close {s : OwnedSession} (hs : o.session = some s) (stage : Stage)
    (hsettled : o.isSettled = false)
    (hstage : stage = .cleaning ∨ ∃ error, stage = .failing error) (hrank : stage.rank ≤ o.stage.rank) :
    Moves node accepting o { o with stage, session := o.session.map OwnedSession.close } := by
  have hfirst : Moves node accepting o { o with session := some s.close } :=
    moves_session h hs (OwnedSession.onward_close s)
  have hclosing : s.close.closing = true := OwnedSession.closing_beginClose s _
  rw [hs, Option.map_some]
  have hfirstSettled : Open.isSettled { o with session := some s.close } = false := hsettled
  have hnext : Open.isSettled { o with stage, session := some s.close } = false := by
    rcases hstage with rfl | ⟨error, rfl⟩ <;> rfl
  refine hfirst.trans (moves_wait stage hfirst.sound ?_ (fun _ => ?_) hfirstSettled hnext hrank o.requested)
  · rcases hstage with rfl | ⟨error, rfl⟩ <;> exact hclosing
  · rcases hstage with rfl | ⟨error, rfl⟩ <;> trivial

theorem moves_handOn (hstage : o.stage = .starting) {s : OwnedSession} (hs : o.session = some s) :
    Moves node accepting o (o.handOn accepting) := by
  have hsettled : o.isSettled = false := isSettled_of_stage hstage rfl
  unfold Open.handOn
  split
  · exact moves_close h hs .cleaning hsettled (.inl rfl) (by rw [hstage]; decide)
  · rename_i hlive
    rw [not_or] at hlive
    have hheld : o.held = true := by rw [Open.held, h.pending hsettled, Bool.true_or]
    refine ⟨⟨h.timed, fun _ => trivial, trivial, nofun, fun _ _ => rfl, h.session⟩, fun h => h, fun _ => hheld,
      fun hs => .inl hs,
      fun h => h, fun hu => .inl hu, fun ha => absurd ha hlive.1, ?_, ?_⟩
    · intro result hresult
      rw [hstage] at hresult
      cases hresult
    · simp only [Open.rank, Stage.rank]
      omega

theorem moves_resume {spawned : Except Thrown Unit}
    (hr : o.resume node accepting spawned = some o') : Moves node accepting o o' := by
  have hstaged := h.staged
  unfold Open.Staged at hstaged
  unfold Open.resume at hr
  cases hstage : o.stage with
  | invoking wait =>
    rw [hstage] at hstaged hr
    have hsettled : o.isSettled = false := isSettled_of_stage hstage rfl
    obtain ⟨outcome, houtcome, rfl⟩ := Option.map_eq_some_iff.mp hr
    rcases outcome with thrown | _
    · exact moves_reject h hsettled thrown (fun _ => hstaged) (unclosed_of_none hstaged)
    · refine moves_wait (.valuing (abortable o.aborted)) h hstaged (fun ha => ?_) hsettled rfl ?_ o.requested
      · show (abortable o.aborted : Wait JsonValue).outcome.isSome
        rw [ha]
        rfl
      · simp only [hstage, Stage.rank, Wait.rank]
        split <;> omega
  | valuing wait =>
    rw [hstage] at hstaged hr
    have hsettled : o.isSettled = false := isSettled_of_stage hstage rfl
    have hreject : ∀ thrown, Moves node accepting o (o.reject thrown none) := fun thrown =>
      moves_reject h hsettled thrown (fun _ => hstaged) (unclosed_of_none hstaged)
    obtain ⟨outcome, houtcome, rfl⟩ := Option.map_eq_some_iff.mp hr
    rcases outcome with thrown | value
    · exact hreject thrown
    · simp only
      split
      · exact hreject _
      · rename_i scope hscope
        refine moves_wait (.securing scope (abortable o.aborted)) h ⟨hstaged, value, hscope⟩ (fun ha => ?_) hsettled rfl
          ?_ o.requested
        · show (abortable o.aborted : Wait MediaSecurityMaterial).outcome.isSome
          rw [ha]
          rfl
        · simp only [hstage, Stage.rank, Wait.rank]
          split <;> omega
  | securing scope wait =>
    rw [hstage] at hstaged hr
    have hsettled : o.isSettled = false := isSettled_of_stage hstage rfl
    obtain ⟨outcome, houtcome, rfl⟩ := Option.map_eq_some_iff.mp hr
    rcases outcome with thrown | material
    · exact moves_reject h hsettled thrown (fun _ => hstaged.1) (unclosed_of_none hstaged.1)
    · exact moves_spawn h hstage material spawned
  | starting =>
    rw [hstage] at hstaged hr
    have hsettled : o.isSettled = false := isSettled_of_stage hstage rfl
    obtain ⟨s, hs⟩ := Option.isSome_iff_exists.mp hstaged
    obtain ⟨ready, hready, rfl⟩ := Option.map_eq_some_iff.mp hr
    rcases ready with error | _
    · exact moves_close h hs (.failing error) hsettled (.inr ⟨error, rfl⟩) (by rw [hstage]; exact (by decide : 5 ≤ 10))
    · exact moves_handOn h hstage hs
  | failing error =>
    rw [hstage] at hr
    obtain ⟨cleanup, hcleanup, rfl⟩ := Option.map_eq_some_iff.mp hr
    exact moves_reject h (isSettled_of_stage hstage rfl) _ nofun (unclosed_of_closed hcleanup)
  | cleaning =>
    rw [hstage] at hr
    obtain ⟨cleanup, hcleanup, rfl⟩ := Option.map_eq_some_iff.mp hr
    exact moves_reject h (isSettled_of_stage hstage rfl) _ nofun (unclosed_of_closed hcleanup)
  | settled result =>
    rw [hstage] at hr
    cases hr

theorem moves_settle (hsettled : o.isSettled = true) :
    Moves node accepting o { o with pending := false } where
  sound := by
    refine ⟨h.timed, h.halted, h.staged, fun hs => ?_, h.kept, h.session⟩
    exact absurd (hsettled.symm.trans hs) nofun
  timed h := h
  held hheld := by
    have hheld : (false || o.inSessions) = true := hheld
    rw [Open.held, show o.inSessions = true from hheld, Bool.or_true]
  started hs := .inl hs
  owns h := h
  unclosed hu := .inl hu
  awaited _ _ hs := hs
  settled _ hs := hs
  rank := Nat.le_refl _

theorem moves_forget (hclosed : (o.session.bind (·.closed)).isSome) :
    Moves node accepting o { o with inSessions := false } where
  sound := by
    obtain ⟨result, hresult⟩ := Option.isSome_iff_exists.mp hclosed
    refine ⟨h.timed, h.halted, h.staged, h.pending, fun hu _ => ?_, h.session⟩
    exact absurd ((unclosed_of_closed hresult).symm.trans hu) nofun
  timed h := h
  held hheld := by
    have hheld : (o.pending || false) = true := hheld
    rw [Bool.or_false] at hheld
    rw [Open.held, hheld, Bool.true_or]
  started hs := .inl hs
  owns h := h
  unclosed hu := .inl hu
  awaited _ _ hs := hs
  settled _ hs := hs
  rank := Nat.le_refl _

theorem moves_step {happening : Happening} (hs : o.step node accepting happening = some o') :
    Moves node accepting o o' := by
  cases happening with
  | abort =>
    obtain rfl := Option.some.inj hs
    exact moves_abort h
  | deadline =>
    simp only [Open.step] at hs
    split at hs
    · cases hs
    · obtain rfl := Option.some.inj hs
      exact moves_deadline h
  | start => exact moves_start h hs
  | invoked result => exact moves_invoked h hs
  | valued result => exact moves_valued h hs
  | secured result => exact moves_secured h hs
  | resume spawned => exact moves_resume h hs
  | settle =>
    simp only [Open.step] at hs
    split at hs
    · obtain rfl := Option.some.inj hs
      exact moves_settle h ‹_›
    · cases hs
  | sendOpen => exact moves_onSession h (fun _ _ => OwnedSession.onward_sendOpen) hs
  | ready => exact moves_onSession h (fun _ _ => OwnedSession.onward_becomeReady) hs
  | fail error =>
    refine moves_onSession h (fun s s' hss => ?_) hs
    obtain rfl := Option.some.inj hss
    exact OwnedSession.onward_fail s error
  | closeSession =>
    refine moves_onSession h (fun s s' hss => ?_) hs
    obtain rfl := Option.some.inj hss
    exact OwnedSession.onward_close s
  | exit => exact moves_onSession h (fun _ _ => OwnedSession.onward_exit) hs
  | killTimer => exact moves_onSession h (fun _ _ hss => (OwnedSession.killTimer_some hss).1) hs
  | forget =>
    simp only [Open.step] at hs
    split at hs
    · obtain rfl := Option.some.inj hs
      exact moves_forget h ‹_›
    · cases hs

end

end WotAv.Media.MediaExecutor
