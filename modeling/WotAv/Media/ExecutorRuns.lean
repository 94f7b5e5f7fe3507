import WotAv.Lib.Fairness
import WotAv.Media.ExecutorLaws
import Mathlib.Data.List.Forall2

/-!
# Runs of the media executor

What is true of every call holds after every step, and a call that has not
been settled is settled in the end, if its deadline, its waits and the kill
timers of its session are not put off for ever.
-/

namespace WotAv.Media.MediaExecutor

open WotAv.Lib WotAv.Binding
open WotAv.Catalog (JsonValue)

variable {node : Node}

-- Steps

section
variable {α β : Type} {R : α → β → Prop} {l : List α} {l' : List β}

theorem forall₂_forward (h : List.Forall₂ R l l') :
    ∀ {i : Nat} {a : α}, l[i]? = some a → ∃ b, l'[i]? = some b ∧ R a b := by
  induction h with
  | nil => exact nofun
  | @cons a b l l' hab _ ih =>
    intro i c hc
    cases i with
    | zero =>
      obtain rfl := Option.some.inj hc
      exact ⟨b, rfl, hab⟩
    | succ i => exact ih hc

theorem forall₂_back (h : List.Forall₂ R l l') :
    ∀ {i : Nat} {b : β}, l'[i]? = some b → ∃ a, l[i]? = some a ∧ R a b :=
  forall₂_forward h.flip

theorem forall₂_same {R : α → α → Prop} :
    ∀ {l : List α}, (∀ (i : Nat) (a : α), l[i]? = some a → R a a) → List.Forall₂ R l l
  | [], _ => .nil
  | a :: _, h => .cons (h 0 a rfl) (forall₂_same fun i b hb => h (i + 1) b hb)

theorem forall₂_set {R : α → α → Prop} :
    ∀ {l : List α} {i : Nat} {a' : α}, (∀ (i : Nat) (a : α), l[i]? = some a → R a a) → (∀ a, l[i]? = some a → R a a') → List.Forall₂ R l (l.set i a')
  | [], _, _, _, _ => .nil
  | _ :: _, 0, _, h, hi => .cons (hi _ rfl) (forall₂_same fun i b hb => h (i + 1) b hb)
  | _ :: _, _ + 1, _, h, hi => .cons (h 0 _ rfl) (forall₂_set (fun i b hb => h (i + 1) b hb) hi)

theorem countP_le_of_forall₂ {p : α → Bool} {q : β → Bool} (h : List.Forall₂ R l l')
    (hpq : ∀ a b, R a b → q b = true → p a = true) : l'.countP q ≤ l.countP p := by
  induction h with
  | nil => exact Nat.le_refl _
  | @cons a b l l' hab _ ih =>
    rw [List.countP_cons, List.countP_cons]
    cases hb : q b with
    | false => exact Nat.le_trans ih (Nat.le_add_right _ _)
    | true =>
      rw [hpq a b hab hb]
      exact Nat.add_le_add_right ih _

end

def admitted (call : Call) (callerAborted : Bool) : Open :=
  { call, aborted := callerAborted, stage := .invoking (abortable callerAborted) }

theorem sound_admitted (node : Node) (call : Call) (callerAborted : Bool) :
    (admitted call callerAborted).Sound node where
  timed h := by
    simp only [admitted, Bool.false_eq_true] at h
  halted habort := by
    simp only [admitted] at habort
    simp [Open.Halted, admitted, abortable, habort]
  staged := by simp only [Open.Staged, admitted]
  pending _ := by simp only [admitted]
  kept h := by
    simp only [admitted, Open.unclosed, Option.any_none, Bool.false_eq_true] at h
  session s hs := by
    simp only [admitted, reduceCtorEq] at hs

theorem moves_closeKept {accepting : Bool} {o : Open} (h : o.Sound node) :
    Moves node accepting o (if o.inSessions then { o with session := o.session.map OwnedSession.close } else o) := by
  split
  · cases hs : o.session with
    | none =>
      rw [Option.map_none, ← hs]
      exact .refl h
    | some s => exact moves_session h hs (OwnedSession.onward_close s)
  · exact .refl h

theorem moves_closeOpen {accepting : Bool} {o : Open} (h : o.Sound node) :
    Moves node accepting o (Executor.closeOpen o) := by
  unfold Executor.closeOpen
  by_cases hp : o.pending = true
  · have habort : Moves node accepting o o.abort := moves_abort h
    rw [if_pos hp]
    exact habort.trans (moves_closeKept habort.sound)
  · rw [if_neg hp]
    exact moves_closeKept h

namespace Executor

structure Sound (node : Node) (w : Executor) : Prop where
  opens : ∀ (i : Nat) (o : Open), w.opens[i]? = some o → o.Sound node
  room : w.opens.countP Open.held ≤ 32
  refusing : w.closing.isSome → w.accepting = false
  awaited : ∀ c, w.closing = some c → ∀ (i : Nat) (o : Open), w.opens[i]? = some o → o.unclosed = true →
    i ∈ c.sessions ∨ i ∈ c.pending ∧ o.isSettled = false
  drained : ∀ c, w.closing = some c → c.resolved = true →
    ∀ (i : Nat) (o : Open), w.opens[i]? = some o → o.unclosed = false

variable {w w' : Executor}

variable {e : Event}

theorem step_opens (h : w.Sound node) (hs : step node w e = some w') :
    List.Forall₂ (Moves node w.accepting) w.opens w'.opens ∧ (w.accepting = false → w'.accepting = false) ∨
    ∃ call callerAborted, w.accepting = true ∧ w.size < 32 ∧
      w' = { w with opens := w.opens ++ [admitted call callerAborted] } := by
  have hsame : List.Forall₂ (Moves node w.accepting) w.opens w.opens :=
    forall₂_same fun i o ho => .refl (h.opens i o ho)
  cases e with
  | openMedia call refused callerAborted =>
    obtain rfl := Option.some.inj hs
    unfold openMedia
    split
    · exact .inl ⟨hsame, fun h => h⟩
    · rename_i hadmit
      rw [not_or, not_or] at hadmit
      exact .inr ⟨call, callerAborted, by simpa using hadmit.1, Nat.lt_of_not_le hadmit.2.1, rfl⟩
  | happens i happening =>
    obtain ⟨o, ho, hs⟩ := Option.bind_eq_some_iff.mp hs
    obtain ⟨o', ho', hs⟩ := Option.bind_eq_some_iff.mp hs
    obtain rfl := Option.some.inj hs
    refine .inl ⟨forall₂_set (fun i o ho => .refl (h.opens i o ho)) fun o₁ ho₁ => ?_, fun h => h⟩
    obtain rfl := Option.some.inj (ho.symm.trans ho₁)
    exact moves_step (h.opens i o ho) ho'
  | close =>
    obtain rfl := Option.some.inj hs
    unfold close
    split
    · exact .inl ⟨hsame, fun h => h⟩
    · refine .inl ⟨?_, fun _ => rfl⟩
      rw [List.forall₂_map_right_iff]
      exact forall₂_same fun i o ho => moves_closeOpen (h.opens i o ho)
  | closed =>
    obtain ⟨c, hc, hs⟩ := Option.bind_eq_some_iff.mp hs
    split at hs
    · obtain rfl := Option.some.inj hs
      exact .inl ⟨hsame, fun h => h⟩
    · cases hs

theorem step_refusing (h : w.Sound node) (hrefusing : w.accepting = false) (hs : step node w e = some w') :
    List.Forall₂ (Moves node false) w.opens w'.opens ∧ w'.accepting = false := by
  rcases step_opens h hs with ⟨hmoves, hsame⟩ | ⟨call, callerAborted, haccepting, -⟩
  · rw [hrefusing] at hmoves
    exact ⟨hmoves, hsame hrefusing⟩
  · rw [hrefusing] at haccepting
    cases haccepting

theorem countP_held_le (l : List Open) : l.countP Open.held ≤ l.countP (·.pending) + l.countP (·.inSessions) := by
  induction l with
  | nil => exact Nat.le_refl _
  | cons o l ih =>
    simp only [List.countP_cons, Open.held]
    by_cases hp : o.pending = true <;> by_cases hk : o.inSessions = true <;> simp [hp, hk] <;> omega

theorem mem_indexes {p : Open → Bool} {i : Nat} {o : Open} (ho : w.opens[i]? = some o) (hp : p o = true) :
    i ∈ w.indexes p := by
  obtain ⟨hlt, -⟩ := List.getElem?_eq_some_iff.mp ho
  refine List.mem_filter.mpr ⟨List.mem_range.mpr hlt, ?_⟩
  rw [ho, Option.any_some, hp]

variable {c : Closing}

theorem unclosed_drained (hdrained : w.drained c = true) {i : Nat} {o : Open} (ho : w.opens[i]? = some o)
    (h : o.unclosed = true → i ∈ c.sessions ∨ i ∈ c.pending ∧ o.isSettled = false) : o.unclosed = false := by
  rw [drained, Bool.and_eq_true, List.all_eq_true, List.all_eq_true] at hdrained
  cases hu : o.unclosed with
  | false => rfl
  | true =>
    rcases h hu with hi | ⟨hi, hsettled⟩
    · have hclosed := hdrained.2 i hi
      rw [ho, Option.all_some] at hclosed
      obtain ⟨result, hresult⟩ := Option.isSome_iff_exists.mp hclosed
      rw [unclosed_of_closed hresult] at hu
      cases hu
    · have hclosed := hdrained.1 i hi
      rw [ho, Option.all_some, hsettled] at hclosed
      cases hclosed

theorem awaited_close (h : w.Sound node) {i : Nat} {o' : Open} (ho' : (w.opens.map closeOpen)[i]? = some o')
    (hu : o'.unclosed = true) : i ∈ w.indexes (·.inSessions) ∨ i ∈ w.indexes (·.pending) ∧ o'.isSettled = false := by
  rw [List.getElem?_map] at ho'
  obtain ⟨o, ho, rfl⟩ := Option.map_eq_some_iff.mp ho'
  have hmoves : Moves node false o (closeOpen o) := moves_closeOpen (h.opens i o ho)
  have hu' : o.unclosed = true := (hmoves.unclosed hu).resolve_right nofun
  cases hsettled : o.isSettled with
  | true => exact .inl (mem_indexes ho ((h.opens i o ho).kept hu' hsettled))
  | false => exact .inr ⟨mem_indexes ho ((h.opens i o ho).pending hsettled), hmoves.awaited rfl hu hsettled⟩

theorem step_closing (hs : step node w e = some w') (hc : w'.closing = some c) :
    (∃ c₀, w.closing = some c₀ ∧ c.pending = c₀.pending ∧ c.sessions = c₀.sessions ∧
      (c.resolved = true → c₀.resolved = true ∨ w.drained c₀ = true ∧ w'.opens = w.opens)) ∨
    c = { pending := w.indexes (·.pending), sessions := w.indexes (·.inSessions) } ∧
      w'.opens = w.opens.map closeOpen ∧ w'.accepting = false := by
  cases e with
  | openMedia call refused callerAborted =>
    obtain rfl := Option.some.inj hs
    refine .inl ⟨c, ?_, rfl, rfl, .inl⟩
    unfold openMedia at hc
    split at hc <;> exact hc
  | happens j happening =>
    obtain ⟨o, ho, hs⟩ := Option.bind_eq_some_iff.mp hs
    obtain ⟨o₁, ho₁, hs⟩ := Option.bind_eq_some_iff.mp hs
    obtain rfl := Option.some.inj hs
    exact .inl ⟨c, hc, rfl, rfl, .inl⟩
  | close =>
    obtain rfl := Option.some.inj hs
    unfold close at hc ⊢
    split at hc
    · exact .inl ⟨c, hc, rfl, rfl, .inl⟩
    · rename_i hopen
      rw [if_neg hopen]
      exact .inr ⟨(Option.some.inj hc).symm, rfl, rfl⟩
  | closed =>
    obtain ⟨c₀, hc₀, hs⟩ := Option.bind_eq_some_iff.mp hs
    split at hs
    · rename_i hdrained
      obtain rfl := Option.some.inj hs
      obtain rfl := Option.some.inj hc
      exact .inl ⟨c₀, hc₀, rfl, rfl, fun _ => .inr ⟨hdrained, rfl⟩⟩
    · cases hs

theorem refusing_step (h : w.Sound node) (hs : step node w e = some w') (hc : w'.closing.isSome) :
    w'.accepting = false := by
  obtain ⟨c, hc⟩ := Option.isSome_iff_exists.mp hc
  rcases step_closing hs hc with ⟨c₀, hc₀, -⟩ | ⟨-, -, hrefusing⟩
  · exact (step_refusing h (h.refusing (by rw [hc₀]; rfl)) hs).2
  · exact hrefusing

theorem awaited_step (h : w.Sound node) (hs : step node w e = some w')
    (hc : w'.closing = some c) {i : Nat} {o' : Open} (ho' : w'.opens[i]? = some o') (hu : o'.unclosed = true) :
    i ∈ c.sessions ∨ i ∈ c.pending ∧ o'.isSettled = false := by
  rcases step_closing hs hc with ⟨c₀, hc₀, hpending, hsessions, -⟩ | ⟨rfl, hopens, -⟩
  · obtain ⟨hmoves, -⟩ := step_refusing h (h.refusing (by rw [hc₀]; rfl)) hs
    obtain ⟨o, ho, hmove⟩ := forall₂_back hmoves ho'
    rw [hpending, hsessions]
    rcases h.awaited c₀ hc₀ i o ho ((hmove.unclosed hu).resolve_right nofun) with hi | ⟨hi, hsettled⟩
    · exact .inl hi
    · exact .inr ⟨hi, hmove.awaited rfl hu hsettled⟩
  · rw [hopens] at ho'
    exact awaited_close h ho' hu

theorem drained_step (h : w.Sound node) (hs : step node w e = some w')
    (hc : w'.closing = some c) (hresolved : c.resolved = true) {i : Nat} {o' : Open} (ho' : w'.opens[i]? = some o') :
    o'.unclosed = false := by
  rcases step_closing hs hc with ⟨c₀, hc₀, -, -, hfrom⟩ | ⟨rfl, -, -⟩
  · rcases hfrom hresolved with hresolved₀ | ⟨hdrained, hopens⟩
    · obtain ⟨hmoves, -⟩ := step_refusing h (h.refusing (by rw [hc₀]; rfl)) hs
      obtain ⟨o, ho, hmove⟩ := forall₂_back hmoves ho'
      refine Bool.eq_false_iff.mpr fun hu => ?_
      have hu' := (hmove.unclosed hu).resolve_right nofun
      rw [h.drained c₀ hc₀ hresolved₀ i o ho] at hu'
      cases hu'
    · rw [hopens] at ho'
      exact unclosed_drained hdrained ho' (h.awaited c₀ hc₀ i o' ho')
  · cases hresolved

theorem sound_step (h : w.Sound node) (hs : step node w e = some w') : w'.Sound node := by
  refine ⟨?_, ?_, refusing_step h hs, fun c hc i o ho hu => awaited_step h hs hc ho hu,
    fun c hc hresolved i o ho => drained_step h hs hc hresolved ho⟩
  · intro i o' ho'
    rcases step_opens h hs with ⟨hmoves, -⟩ | ⟨call, callerAborted, -, -, rfl⟩
    · obtain ⟨o, -, hmove⟩ := forall₂_back hmoves ho'
      exact hmove.sound
    · rcases List.mem_append.mp (List.mem_of_getElem? ho') with hmem | hmem
      · obtain ⟨j, hj⟩ := List.mem_iff_getElem?.mp hmem
        exact h.opens j o' hj
      · obtain rfl := List.mem_singleton.mp hmem
        exact sound_admitted node call callerAborted
  · rcases step_opens h hs with ⟨hmoves, -⟩ | ⟨call, callerAborted, -, hsize, rfl⟩
    · exact Nat.le_trans (countP_le_of_forall₂ hmoves fun _ _ hmove => hmove.held) h.room
    · have hheld := countP_held_le w.opens
      have hlast : [admitted call callerAborted].countP Open.held ≤ 1 := List.countP_le_length
      unfold size at hsize
      rw [List.countP_append]
      omega

theorem sound_start (node : Node) : Sound node {} where
  opens _ _ ho := by simp at ho
  room := Nat.zero_le _
  refusing := nofun
  awaited _ hc := by simp at hc
  drained _ hc := by simp at hc

theorem sound_of_reachable (h : (system node).Reachable w) : w.Sound node := by
  refine h.invariant ?_ fun w e w' hw hs => sound_step hw hs
  rintro w rfl
  exact sound_start node

end Executor

-- Every call is settled

variable {accepting : Bool} {o o' : Open}

theorem rank_settled {stage : Stage} (hstage : o.stage = stage) (hrank : 0 < stage.rank)
    (result : Except OpenFailure Unit) (inSessions : Bool) : Open.rank { o with stage := .settled result, inSessions } < o.rank := by
  rw [← hstage] at hrank
  show 0 + (if o.timeout then 0 else 1) + (o.session.map OwnedSession.rank).getD 0 < o.rank
  unfold Open.rank
  omega

theorem rank_close {s : OwnedSession} (hs : o.session = some s) (hstage : o.stage = .starting) {stage : Stage}
    (hrank : stage.rank < 10) : Open.rank { o with stage, session := o.session.map OwnedSession.close } < o.rank := by
  have hclose := (OwnedSession.onward_close s).rank_le
  have hstarting : o.stage.rank = 10 := by rw [hstage, Stage.rank]
  simp only [Open.rank, hs, Option.map_some, Option.getD_some]
  omega

theorem rank_resume (h : o.Sound node) {spawned : Except Thrown Unit} (hr : o.resume node accepting spawned = some o') :
    o'.rank < o.rank := by
  have hstaged := h.staged
  unfold Open.Staged at hstaged
  unfold Open.resume at hr
  cases hstage : o.stage with
  | invoking wait =>
    rw [hstage] at hr
    obtain ⟨outcome, houtcome, rfl⟩ := Option.map_eq_some_iff.mp hr
    rcases outcome with thrown | _
    · exact rank_settled hstage (Nat.lt_of_lt_of_le (by decide) (Nat.le_add_right 40 _)) _ _
    · simp only [Open.rank, hstage, Stage.rank, Wait.rank]
      split <;> omega
  | valuing wait =>
    rw [hstage] at hr
    have hreject : ∀ thrown, (o.reject thrown none).rank < o.rank := fun thrown =>
      rank_settled hstage (Nat.lt_of_lt_of_le (by decide) (Nat.le_add_right 30 _)) _ _
    obtain ⟨outcome, houtcome, rfl⟩ := Option.map_eq_some_iff.mp hr
    rcases outcome with thrown | value
    · exact hreject thrown
    · simp only
      split
      · exact hreject _
      · simp only [Open.rank, hstage, Stage.rank, Wait.rank]
        split <;> omega
  | securing scope wait =>
    rw [hstage] at hr hstaged
    have hreject : ∀ thrown, (o.reject thrown none).rank < o.rank := fun thrown =>
      rank_settled hstage (Nat.lt_of_lt_of_le (by decide) (Nat.le_add_right 20 _)) _ _
    obtain ⟨outcome, houtcome, rfl⟩ := Option.map_eq_some_iff.mp hr
    rcases outcome with thrown | material
    · exact hreject thrown
    · simp only [Open.spawn]
      split
      · exact hreject _
      · split
        · exact hreject _
        · split
          · exact hreject _
          · simp only [Open.rank, hstage, hstaged.1, Stage.rank, OwnedSession.rank, Option.map_some, Option.map_none,
              Option.getD_some, Option.getD_none, Option.isSome_none, Bool.false_eq_true, if_false]
            omega
  | starting =>
    rw [hstage] at hr hstaged
    obtain ⟨s, hs⟩ := Option.isSome_iff_exists.mp hstaged
    obtain ⟨ready, hready, rfl⟩ := Option.map_eq_some_iff.mp hr
    rcases ready with error | _
    · exact rank_close hs hstage (by exact (by decide : 5 < 10))
    · simp only [Open.handOn]
      split
      · exact rank_close hs hstage (by exact (by decide : 5 < 10))
      · exact rank_settled hstage (by exact (by decide : 0 < 10)) _ _
  | failing error =>
    rw [hstage] at hr
    obtain ⟨cleanup, hcleanup, rfl⟩ := Option.map_eq_some_iff.mp hr
    exact rank_settled hstage (by exact (by decide : 0 < 5)) _ _
  | cleaning =>
    rw [hstage] at hr
    obtain ⟨cleanup, hcleanup, rfl⟩ := Option.map_eq_some_iff.mp hr
    exact rank_settled hstage (by exact (by decide : 0 < 5)) _ _
  | settled result =>
    rw [hstage] at hr
    cases hr

theorem resume_or_close (accepting : Bool) (h : o.Sound node) (htimeout : o.timeout = true) (hsettled : o.isSettled = false) :
    (∀ spawned, (o.resume node accepting spawned).isSome) ∨
      o.stage.rank = 5 ∧ ∃ s, o.session = some s ∧ s.closing = true ∧ s.closed = none := by
  have hhalted := h.halted (h.timed htimeout)
  have hstaged := h.staged
  unfold Open.Halted at hhalted
  unfold Open.Staged at hstaged
  unfold Open.resume
  cases hstage : o.stage with
  | invoking wait =>
    rw [hstage] at hhalted
    exact .inl fun spawned => by simpa using hhalted
  | valuing wait =>
    rw [hstage] at hhalted
    exact .inl fun spawned => by simpa using hhalted
  | securing scope wait =>
    rw [hstage] at hhalted
    exact .inl fun spawned => by simpa using hhalted
  | starting =>
    rw [hstage] at hhalted hstaged
    obtain ⟨s, hs⟩ := Option.isSome_iff_exists.mp hstaged
    have hclosing : s.closing = true := by simpa [hs] using hhalted
    have hready := (h.session s hs).1.ready hclosing
    exact .inl fun spawned => by simpa [hs] using hready
  | failing | cleaning =>
    rw [hstage] at hstaged
    obtain ⟨s, hs, hclosing⟩ := (Option.any_eq_true _ _).mp hstaged
    cases hclosed : s.closed with
    | none => exact .inr ⟨rfl, s, hs, hclosing, hclosed⟩
    | some result => exact .inl fun spawned => by simp [hs, hclosed]
  | settled result =>
    rw [Open.isSettled, hstage] at hsettled
    cases hsettled

theorem closing_of_rank (h : o.Sound node) (hrank : o.rank ≤ 6) (hsettled : o.isSettled = false) :
    o.stage.rank = 5 ∧ ∃ s, o.session = some s ∧ s.closing = true := by
  have hstaged := h.staged
  unfold Open.Staged at hstaged
  unfold Open.rank at hrank
  cases hstage : o.stage with
  | invoking wait => rw [hstage, Stage.rank] at hrank; omega
  | valuing wait => rw [hstage, Stage.rank] at hrank; omega
  | securing scope wait => rw [hstage, Stage.rank] at hrank; omega
  | starting => rw [hstage, Stage.rank] at hrank; omega
  | failing error =>
    rw [hstage] at hstaged
    exact ⟨rfl, (Option.any_eq_true _ _).mp hstaged⟩
  | cleaning =>
    rw [hstage] at hstaged
    exact ⟨rfl, (Option.any_eq_true _ _).mp hstaged⟩
  | settled result =>
    rw [Open.isSettled, hstage] at hsettled
    cases hsettled

theorem killTimer_of_closing (node : Node) (accepting : Bool) {s : OwnedSession} (hs : o.session = some s)
    (hclosing : s.closing = true) (hclosed : s.closed = none) : (o.step node accepting .killTimer).isSome := by
  simp [Open.step, Open.onSession, hs, OwnedSession.killTimer, hclosing, hclosed]

theorem rank_killTimer (hs : o.step node accepting .killTimer = some o') : o'.rank < o.rank := by
  obtain ⟨s', hs', rfl⟩ := Option.map_eq_some_iff.mp hs
  obtain ⟨s, hsession, hkill⟩ := Option.bind_eq_some_iff.mp hs'
  obtain ⟨-, hclosed', hclosed⟩ := OwnedSession.killTimer_some hkill
  simp [Open.rank, hsession, OwnedSession.rank, hclosed, hclosed']

namespace Executor

def At (i : Nat) (p : Open → Prop) (w : Executor) : Prop := ∃ o, w.opens[i]? = some o ∧ p o

variable {w w' : Executor} {i : Nat}

theorem step_at (h : w.Sound node) {e : Event} (hs : step node w e = some w') (ho : w.opens[i]? = some o) :
    ∃ o', w'.opens[i]? = some o' ∧ Moves node w.accepting o o' := by
  rcases step_opens h hs with ⟨hmoves, -⟩ | ⟨call, callerAborted, -, -, rfl⟩
  · exact forall₂_forward hmoves ho
  · obtain ⟨hlt, -⟩ := List.getElem?_eq_some_iff.mp ho
    refine ⟨o, ?_, .refl (h.opens i o ho)⟩
    rw [List.getElem?_append_left hlt]
    exact ho

theorem happens_at {happening : Happening} (hs : step node w (.happens i happening) = some w')
    (ho : w.opens[i]? = some o) :
    ∃ o', w'.opens[i]? = some o' ∧ o.step node w.accepting happening = some o' := by
  obtain ⟨o₁, ho₁, hs⟩ := Option.bind_eq_some_iff.mp hs
  obtain ⟨o', ho', hs⟩ := Option.bind_eq_some_iff.mp hs
  obtain rfl := Option.some.inj hs
  obtain rfl := Option.some.inj (ho.symm.trans ho₁)
  refine ⟨o', ?_, ho'⟩
  obtain ⟨hlt, -⟩ := List.getElem?_eq_some_iff.mp ho
  rw [List.getElem?_set_self hlt]

theorem not_happens {happening : Happening} (ho : w.opens[i]? = some o)
    (hs : ∀ w', ¬(system node).step w (.happens i happening) w') : o.step node w.accepting happening = none := by
  cases hstep : o.step node w.accepting happening with
  | none => rfl
  | some o' =>
    refine absurd ?_ (hs { w with opens := w.opens.set i o' })
    show step node w (.happens i happening) = _
    simp [step, ho, hstep]

/-- What the surroundings of the executor do not put off for ever: the timer
of a call's deadline, the continuation of a wait that is over, and the kill
timer of a session that is closing. -/
structure Prompt (run : (system node).Endless) : Prop where
  deadline : ∀ i, run.Fair (· = .happens i .deadline)
  resume : ∀ i, run.Fair fun e => ∃ spawned, e = .happens i (.resume spawned)
  killTimer : ∀ i, run.Fair (· = .happens i .killTimer)

section
variable {run : (system node).Endless}

theorem later {n k : Nat} (hk : n ≤ k) (ho : (run.state n).opens[i]? = some o) :
    ∃ o', (run.state k).opens[i]? = some o' ∧ (o.timeout = true → o'.timeout = true) ∧ o'.rank ≤ o.rank := by
  refine run.keeps (P := At i fun o' => (o.timeout = true → o'.timeout = true) ∧ o'.rank ≤ o.rank) ?_ hk
    ⟨o, ho, fun h => h, Nat.le_refl _⟩
  rintro w e w' hw ⟨o₁, ho₁, htimeout, hrank⟩ hs
  obtain ⟨o₂, ho₂, hmove⟩ := step_at (sound_of_reachable hw) hs ho₁
  exact ⟨o₂, ho₂, fun h => hmove.timed (htimeout h), Nat.le_trans hmove.rank hrank⟩

/-- Past its deadline a call is settled, or there is less left of it, in the end. -/
theorem sinks (hprompt : Prompt run) {n : Nat} (ho : (run.state n).opens[i]? = some o) (htimeout : o.timeout = true) :
    ∃ k o', n ≤ k ∧ (run.state k).opens[i]? = some o' ∧
      (o'.isSettled = true ∨ o'.timeout = true ∧ o'.rank < o.rank) := by
  have hsound : ∀ {k o}, (run.state k).opens[i]? = some o → o.Sound node :=
    fun ho => (sound_of_reachable (run.reachable _)).opens i _ ho
  obtain ⟨k, hk, hresume⟩ := hprompt.resume i n
  obtain ⟨o₁, ho₁, htimeout₁, hrank₁⟩ := later hk ho
  have htimeout₁ := htimeout₁ htimeout
  cases hsettled₁ : o₁.isSettled with
  | true => exact ⟨k, o₁, hk, ho₁, .inl hsettled₁⟩
  | false =>
    rcases hresume with hidle | ⟨_, ⟨spawned, rfl⟩, htaken⟩
    · rcases resume_or_close (run.state k).accepting (hsound ho₁) htimeout₁ hsettled₁ with
        hon | ⟨hstage₁, s, hs, hclosing, hclosed⟩
      · have hnone := not_happens ho₁ fun w' => hidle (.happens i (.resume (.ok ()))) w' ⟨_, rfl⟩
        have hsome := hon (.ok ())
        rw [show o₁.resume node _ (.ok ()) = none from hnone] at hsome
        cases hsome
      have hsix : o₁.rank = 6 := by
        simp [Open.rank, hstage₁, htimeout₁, hs, OwnedSession.rank, hclosed]
      obtain ⟨l, hl, hkill⟩ := hprompt.killTimer i k
      obtain ⟨o₂, ho₂, htimeout₂, hrank₂⟩ := later hl ho₁
      have htimeout₂ := htimeout₂ htimeout₁
      cases hsettled₂ : o₂.isSettled with
      | true => exact ⟨l, o₂, Nat.le_trans hk hl, ho₂, .inl hsettled₂⟩
      | false =>
        rcases hkill with hidle | ⟨_, rfl, htaken⟩
        · obtain ⟨hstage₂, s', hs', hclosing'⟩ := closing_of_rank (hsound ho₂) (hsix ▸ hrank₂) hsettled₂
          have hnone := not_happens ho₂ fun w' => hidle _ w' rfl
          cases hclosed' : s'.closed with
          | none =>
            have hsome := killTimer_of_closing node (run.state l).accepting hs' hclosing' hclosed'
            rw [hnone] at hsome
            cases hsome
          | some result =>
            have hfive : o₂.rank = 5 := by
              simp [Open.rank, hstage₂, htimeout₂, hs', OwnedSession.rank, hclosed']
            exact ⟨l, o₂, Nat.le_trans hk hl, ho₂, .inr ⟨htimeout₂, by omega⟩⟩
        · obtain ⟨o₃, ho₃, hstep⟩ := happens_at htaken ho₂
          have hrank₃ := rank_killTimer hstep
          exact ⟨l + 1, o₃, by omega, ho₃, .inr ⟨(moves_step (hsound ho₂) hstep).timed htimeout₂, by omega⟩⟩
    · obtain ⟨o₂, ho₂, hstep⟩ := happens_at htaken ho₁
      have hrank₂ := rank_resume (hsound ho₁) hstep
      exact ⟨k + 1, o₂, by omega, ho₂, .inr ⟨(moves_step (hsound ho₁) hstep).timed htimeout₁, by omega⟩⟩

theorem settled_in_the_end (hprompt : Prompt run) {n : Nat} (ho : (run.state n).opens[i]? = some o) :
    ∃ k o', n ≤ k ∧ (run.state k).opens[i]? = some o' ∧ o'.isSettled = true := by
  have htimed : ∀ m, At i (·.timeout = true) (run.state m) → ∃ k, m ≤ k ∧ At i (·.isSettled = true) (run.state k) := by
    refine run.leads (fun w => (w.opens[i]?.map Open.rank).getD 0) fun m hm => ?_
    obtain ⟨o₁, ho₁, htimeout₁⟩ := hm
    obtain ⟨k, o₂, hk, ho₂, hsettled | ⟨htimeout₂, hrank⟩⟩ := sinks hprompt ho₁ htimeout₁
    · exact ⟨k, hk, .inl ⟨o₂, ho₂, hsettled⟩⟩
    · refine ⟨k, hk, .inr ⟨⟨o₂, ho₂, htimeout₂⟩, ?_⟩⟩
      rw [ho₁, ho₂]
      exact hrank
  obtain ⟨k, hk, hdeadline⟩ := hprompt.deadline i n
  obtain ⟨o₁, ho₁, -, -⟩ := later hk ho
  rcases hdeadline with hidle | ⟨_, rfl, htaken⟩
  · have hnone := not_happens ho₁ fun w' => hidle _ w' rfl
    simp only [Open.step] at hnone
    split at hnone
    · exact ⟨k, o₁, hk, ho₁, ‹_›⟩
    · cases hnone
  · obtain ⟨o₂, ho₂, hstep⟩ := happens_at htaken ho₁
    simp only [Open.step] at hstep
    split at hstep
    · cases hstep
    · obtain rfl := Option.some.inj hstep
      obtain ⟨l, hl, o₃, ho₃, hsettled⟩ := htimed (k + 1) ⟨_, ho₂, rfl⟩
      exact ⟨l, o₃, by omega, ho₃, hsettled⟩

end

end Executor

end WotAv.Media.MediaExecutor
