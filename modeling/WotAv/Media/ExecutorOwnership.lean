import WotAv.Media.ExecutorRuns

/-!
# What the media executor answers for

The workers, and the results of the calls, in every run of the executor.
-/

namespace WotAv.Media.MediaExecutor

open WotAv.Lib WotAv.Binding
open WotAv.Catalog (JsonValue)

variable {node : Node} {o : Open}

-- What the executor owns

def Open.live (o : Open) : Bool := o.session.any fun s => s.alive && s.closed != some ⟨false⟩

theorem unclosed_of_live (h : o.Sound node) (hlive : o.live = true) : o.unclosed = true := by
  obtain ⟨s, hs, hs'⟩ := (Option.any_eq_true _ _).mp hlive
  rw [Bool.and_eq_true, bne_iff_ne] at hs'
  rw [Open.unclosed, hs, Option.any_some]
  cases hclosed : s.closed with
  | none => rfl
  | some result =>
    obtain ⟨observed⟩ := result
    obtain rfl := (h.session s hs).1.unseen _ hclosed hs'.1
    exact absurd hclosed hs'.2

theorem held_of_unclosed (h : o.Sound node) (hu : o.unclosed = true) : o.held = true := by
  rw [Open.held]
  cases hsettled : o.isSettled with
  | true => rw [h.kept hu hsettled, Bool.or_true]
  | false => rw [h.pending hsettled, Bool.true_or]

/-- The URI of the scope is the resolver's and authorized, and the material is
validated for the scope. -/
structure Authorized (node : Node) (call : Call) (s : OwnedSession) : Prop where
  resolved : ∃ value, uriResult call value = .ok s.scope.uri
  target : ∃ target, authorizeMediaTarget node s.scope.uri call.transport call.trust = .ok target ∧
    s.scope = scopeOf call s.scope.uri target
  secured : ∃ material, validateMediaSecurity s.scope material = .ok s.material

theorem authorized_of_resolved {call : Call} {s : OwnedSession} {value : JsonValue} {material : MediaSecurityMaterial}
    (hscope : resolvedScope node call value = .ok s.scope)
    (hmaterial : validateMediaSecurity s.scope material = .ok s.material) : Authorized node call s := by
  unfold resolvedScope at hscope
  cases huri : uriResult call value with
  | error error =>
    rw [huri] at hscope
    cases hscope
  | ok uri =>
    rw [huri] at hscope
    cases htarget : authorizeMediaTarget node uri call.transport call.trust with
    | error error =>
      simp only [bind, Except.bind, htarget] at hscope
      cases hscope
    | ok target =>
      simp only [bind, Except.bind, htarget] at hscope
      have hscope : scopeOf call uri target = s.scope := Except.ok.inj hscope
      have hsame : s.scope.uri = uri := by rw [← hscope, scopeOf]
      rw [← hsame] at huri htarget hscope
      exact ⟨⟨value, huri⟩, ⟨target, htarget, hscope.symm⟩, material, hmaterial⟩

namespace Executor

structure Owns (node : Node) (w : Executor) : Prop where
  live : w.opens.countP Open.live ≤ 32
  authorized : ∀ o ∈ w.opens, ∀ s, o.session = some s → Authorized node o.call s
  closed : ∀ c, w.closing = some c → c.resolved = true → ∀ o ∈ w.opens, ∀ s, o.session = some s → s.closed.isSome
  rejected : ∀ o ∈ w.opens, ∀ error, o.stage = .settled (.error ⟨error, none⟩) → o.session = none

variable {w w' : Executor}

theorem countP_live_le (h : w.Sound node) : w.opens.countP Open.live ≤ w.opens.countP Open.held := by
  refine List.countP_mono_left fun o ho hlive => ?_
  obtain ⟨i, hi⟩ := List.mem_iff_getElem?.mp ho
  have hsound := h.opens i o hi
  exact held_of_unclosed hsound (unclosed_of_live hsound hlive)

theorem owns_of_sound (h : w.Sound node) : w.Owns node where
  live := Nat.le_trans (countP_live_le h) h.room
  authorized o ho s hs := by
    obtain ⟨i, hi⟩ := List.mem_iff_getElem?.mp ho
    obtain ⟨-, value, material, hscope, hmaterial⟩ := (h.opens i o hi).session s hs
    exact authorized_of_resolved hscope hmaterial
  closed c hc hresolved o ho s hs := by
    obtain ⟨i, hi⟩ := List.mem_iff_getElem?.mp ho
    have hclosed := h.drained c hc hresolved i o hi
    rw [Open.unclosed, hs, Option.any_some] at hclosed
    cases hs' : s.closed with
    | none =>
      rw [hs'] at hclosed
      cases hclosed
    | some result => rfl
  rejected o ho error herror := by
    obtain ⟨i, hi⟩ := List.mem_iff_getElem?.mp ho
    have hstaged := (h.opens i o hi).staged
    unfold Open.Staged at hstaged
    rw [herror] at hstaged
    exact hstaged

theorem run_refusing {labels : List Event} (hw : (system node).Reachable w) (hclosing : w.closing.isSome)
    (hr : (system node).Run w labels w') {i : Nat} {o' : Open} (ho' : w'.opens[i]? = some o')
    (hs' : o'.session.isSome) : ∃ o, w.opens[i]? = some o ∧ o.session.isSome := by
  have hrun := hr.keeps (P := fun w' => (system node).Reachable w' ∧ w'.accepting = false ∧
      ∀ (i : Nat) (o' : Open), w'.opens[i]? = some o' → o'.session.isSome →
        ∃ o, w.opens[i]? = some o ∧ o.session.isSome) ?_
    ⟨hw, (sound_of_reachable hw).refusing hclosing, fun i o ho hs => ⟨o, ho, hs⟩⟩
  · exact hrun.2.2 i o' ho' hs'
  · rintro w₁ e w₂ ⟨hw₁, hrefusing, hkeep⟩ hstep
    obtain ⟨hmoves, hrefusing'⟩ := step_refusing (sound_of_reachable hw₁) hrefusing hstep
    refine ⟨hw₁.next hstep, hrefusing', fun i o₂ ho₂ hs₂ => ?_⟩
    obtain ⟨o₁, ho₁, hmove⟩ := forall₂_back hmoves ho₂
    exact hkeep i o₁ ho₁ ((hmove.started hs₂).resolve_right nofun)

theorem run_settled {labels : List Event} (hw : (system node).Reachable w) (hr : (system node).Run w labels w')
    {i : Nat} {result : Except OpenFailure Unit} (h : At i (·.stage = .settled result) w) :
    At i (·.stage = .settled result) w' := by
  refine (hr.keeps (P := fun w' => (system node).Reachable w' ∧ At i (·.stage = .settled result) w') ?_ ⟨hw, h⟩).2
  rintro w₁ e w₂ ⟨hw₁, o₁, ho₁, hresult⟩ hstep
  obtain ⟨o₂, ho₂, hmove⟩ := step_at (sound_of_reachable hw₁) hstep ho₁
  exact ⟨hw₁.next hstep, o₂, ho₂, hmove.settled result hresult⟩

/-- In every run each worker that is alive, but for those whose exit is no
longer waited for, is one of at most 32; none is started without its scope,
or after `close`, which resolves when all of them are closed; and every call
is settled, once. -/
theorem executor_owns (node : Node) :
    (∀ w, (system node).Reachable w → w.Owns node ∧ ∀ labels w', (system node).Run w labels w' →
      (w.closing.isSome → ∀ (i : Nat) (o' : Open), w'.opens[i]? = some o' → o'.session.isSome →
        ∃ o, w.opens[i]? = some o ∧ o.session.isSome) ∧
      ∀ i result, At i (·.stage = .settled result) w → At i (·.stage = .settled result) w') ∧
    ∀ run : (system node).Endless, Prompt run → ∀ (n i : Nat), i < (run.state n).opens.length →
      ∃ k, n ≤ k ∧ At i (·.isSettled = true) (run.state k) := by
  refine ⟨fun w hw => ⟨owns_of_sound (sound_of_reachable hw), fun labels w' hr =>
    ⟨fun hclosing i o' ho' hs' => run_refusing hw hclosing hr ho' hs', fun i result h => run_settled hw hr h⟩⟩, ?_⟩
  intro run hprompt n i hi
  obtain ⟨k, o, hk, ho, hsettled⟩ := settled_in_the_end hprompt (List.getElem?_eq_getElem hi)
  exact ⟨k, hk, o, ho, hsettled⟩

-- A camera whose streams are open to everyone

def streamNode : Node where
  url href := some { protocol := "rtsp:", hostname := "192.0.2.5", port := some 554, href }
  isIP _ := 4

def streaming : Call where
  thingId := "urn:camera"
  targetRef := "camera"
  principal := "operator"
  trust := { serviceTargets := ["http://192.0.2.5/onvif"], allowedOrigins := ["rtsp://192.0.2.5:554"]
             transports := [.tcpInterleaved], authentication := .none }
  transport := .tcpInterleaved
  kind := .media2
  encodeResponse := some fun _ => .ok ()

def streamMaterial : MediaSecurityMaterial :=
  { thingId := "urn:camera", targetRef := "camera", principal := "operator", origin := "rtsp://192.0.2.5:554" }

def opened (i : Nat) : List Event :=
  .openMedia streaming none false :: [.start, .invoked (.ok ()), .resume (.ok ()), .start,
    .valued (.ok (.object [("Uri", .string "rtsp://192.0.2.5:554/live")])), .resume (.ok ()), .start,
    .secured (.ok streamMaterial), .resume (.ok ()), .sendOpen, .ready, .resume (.ok ()), .settle].map (.happens i)

def givenUp (i : Nat) : List Event := [.closeSession, .killTimer, .forget].map (.happens i)

def abandoned : List Event := .openMedia streaming none false :: [.start, .abort, .resume (.ok ())].map (.happens 0)

/-- A worker that could not be killed is one more than 32, and an abort does
not know that the resolver has been asked. -/
theorem executor_unkilled_abandoned :
    (∃ w, (system streamNode).Reachable w ∧ w.opens.countP (fun o => o.session.any (·.alive)) = 33) ∧
    ∃ w, (system streamNode).Reachable w ∧ ∃ o ∈ w.opens, o.requested = true ∧
      o.stage = .settled (.error ⟨mediaAborted .notSent, none⟩) := by
  constructor
  · have halive : (System.path (step streamNode) {} ((List.range 32).flatMap opened ++ givenUp 0 ++ opened 32)).map
        (·.opens.countP fun o => o.session.any (·.alive)) = some 33 := by decide +kernel
    obtain ⟨w, hw, hcount⟩ := Option.map_eq_some_iff.mp halive
    exact ⟨w, .path _ _ _ (.start rfl) hw, hcount⟩
  · have hpath : System.path (step streamNode) {} abandoned =
        some { opens := [{ call := streaming, aborted := true, requested := true
                           stage := .settled (.error ⟨mediaAborted .notSent, none⟩) }] } := by rfl
    exact ⟨_, .path _ _ _ (.start rfl) hpath, _, List.mem_cons_self, rfl, rfl⟩

def aborting : (system streamNode).Endless where
  state
    | 0 => {}
    | 1 => { opens := [admitted streaming true] }
    | _ => { opens := [(admitted streaming true).reject (some mediaAborted) none] }
  label
    | 0 => some (.openMedia streaming none true)
    | 1 => some (.happens 0 (.resume (.ok ())))
    | _ => none
  init := rfl
  step
    | 0 => .inr ⟨_, rfl, rfl⟩
    | 1 => .inr ⟨_, rfl, rfl⟩
    | _ + 2 => .inl ⟨rfl, rfl⟩

theorem prompt_aborting : Prompt aborting := by
  have hidle : ∀ (n i : Nat) (happening : Happening),
      (admitted streaming true |>.reject (some mediaAborted) none).step streamNode true happening = none →
      ∀ w', ¬(system streamNode).step (aborting.state (n + 2)) (.happens i happening) w' := by
    intro n i happening hnone w' hs
    obtain ⟨o, ho, hs⟩ := Option.bind_eq_some_iff.mp hs
    obtain ⟨o', ho', -⟩ := Option.bind_eq_some_iff.mp hs
    obtain rfl := List.mem_singleton.mp (List.mem_of_getElem? ho)
    exact absurd (hnone.symm.trans ho') nofun
  refine ⟨fun i n => ⟨n + 2, Nat.le_add_right n 2, .inl ?_⟩, fun i n => ⟨n + 2, Nat.le_add_right n 2, .inl ?_⟩,
    fun i n => ⟨n + 2, Nat.le_add_right n 2, .inl ?_⟩⟩
  · rintro e w' rfl
    exact hidle n i _ rfl w'
  · rintro e w' ⟨spawned, rfl⟩
    exact hidle n i _ rfl w'
  · rintro e w' rfl
    exact hidle n i _ rfl w'

theorem executor_owns_streaming :
    (∃ w, System.path (step streamNode) {} (opened 0 ++ [.close] ++ givenUp 0) = some w ∧ w.Owns streamNode ∧
      w.opens.countP (fun o => o.session.any (·.alive)) = 1) ∧
    ∃ k, 1 ≤ k ∧ At 0 (·.isSettled = true) (aborting.state k) := by
  constructor
  · have halive : (System.path (step streamNode) {} (opened 0 ++ [.close] ++ givenUp 0)).map
        (·.opens.countP fun o => o.session.any (·.alive)) = some 1 := by decide +kernel
    obtain ⟨w, hw, hcount⟩ := Option.map_eq_some_iff.mp halive
    exact ⟨w, hw, ((executor_owns streamNode).1 w (.path _ _ _ (.start rfl) hw)).1, hcount⟩
  · exact (executor_owns streamNode).2 aborting prompt_aborting 1 0 (by decide)

end Executor

end WotAv.Media.MediaExecutor
