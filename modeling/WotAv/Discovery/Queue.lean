import Mathlib.Data.List.Nodup
import WotAv.Discovery.Jobs
import WotAv.Discovery.Lapse

/-!
# The queue of inspections

What the jobs, the map, the queue and the workers have to do with each other, and
what asking for an inspection makes of them. A device that something is pending of
keeps its job and its standing while other jobs are started.
-/

namespace WotAv.Discovery

open WotAv.Lib

variable {ν : Type}

theorem countP_modify {α : Type} {p : α → Bool} {f : α → α} : ∀ {l : List α} {i : Nat} {a : α}, l[i]? = some a →
    (l.modify i f).countP p + (p a).toNat = l.countP p + (p (f a)).toNat
  | b :: l, 0, a, h => by
    obtain rfl := Option.some.inj h
    rw [List.modify_zero_cons, List.countP_cons, List.countP_cons]
    cases p b <;> cases p (f b) <;> simp
  | b :: l, i + 1, a, h => by
    have := countP_modify (p := p) (f := f) (l := l) (i := i) (a := a) h
    rw [List.modify_succ_cons, List.countP_cons, List.countP_cons]
    omega

section
variable {s s' : Inventory ν} {id : String} {g : Nat}

theorem Ahead.isSome (h : Ahead s s') (hd : (s.device id).isSome) : (s'.device id).isSome := by
  obtain ⟨d, hd⟩ := Option.isSome_iff_exists.mp hd
  obtain ⟨d', hd', _⟩ := h id d hd
  exact Option.isSome_iff_exists.mpr ⟨d', hd'⟩

theorem Ahead.known (h : Ahead s s')
    (hd : ∃ d, s.device id = some d ∧ g ≤ d.inspectionGeneration) : ∃ d, s'.device id = some d ∧ g ≤ d.inspectionGeneration := by
  obtain ⟨d, hd, hg⟩ := hd
  obtain ⟨d', hd', hdd'⟩ := h id d hd
  exact ⟨d', hd', Nat.le_trans hg hdd'⟩

def Inventory.standing (s : Inventory ν) (id : String) : Option (DeviceState × Option Int × Nat) :=
  (s.device id).map fun d => (d.state, d.verifiedAt, d.inspectionGeneration)

theorem At.standing (h : At id Same s s') : s'.standing id = s.standing id := by
  unfold Inventory.standing
  cases hd : s.device id with
  | none => rw [h.2 hd]
  | some d =>
    obtain ⟨d', hd', hsame⟩ := h.1 d hd
    have hcore : core d = core d' := hsame
    rw [hd', Option.map_some, Option.map_some]
    exact congrArg some (congrArg (fun d : Device ν => (d.state, d.verifiedAt, d.inspectionGeneration)) hcore.symm :)

end

namespace Inspections

variable {setting : EngineSetting ν} {now : Int} {e e' e'' : Inspections ν} {i j : Nat} {key : JobKey} {id : String}
  {job : InspectionJob} {f : InspectionJob → InspectionJob}

-- Jobs, the queue and the workers

structure Sound (setting : EngineSetting ν) (e : Inspections ν) : Prop where
  mapped : ∀ key i, e.jobs.lookup key = some i → ∃ job, e.heap[i]? = some job ∧ job.key = key ∧ job.phase ≠ .gone
  found : ∀ i job, e.heap[i]? = some job → job.phase ≠ .gone → e.jobs.lookup job.key = some i
  queued : ∀ i, i ∈ e.queue ↔ ∃ job, e.heap[i]? = some job ∧ job.phase = .queued
  nodup : e.queue.Nodup
  workers : e.workers = e.heap.countP (·.phase.active)
  concurrent : e.workers ≤ setting.maxConcurrentInspections
  waiting : e.queue.length ≤ setting.maxQueuedInspections
  settlements : ∀ (i : Nat) (job : InspectionJob), e.heap[i]? = some job → job.settlements = job.phase.over.toNat

theorem getElem?_modify (heap : List InspectionJob) (i j : Nat) (f : InspectionJob → InspectionJob) :
    (heap.modify i f)[j]? = if i = j then heap[j]?.map f else heap[j]? := by
  rw [List.getElem?_modify]
  split
  · rfl
  · cases heap[j]? <;> rfl

theorem Sound.update (h : Sound setting e) (hjob : e.heap[i]? = some job) (hkey : (f job).key = job.key)
    (hheap : e'.heap = e.heap.modify i f) (hpresent : job.phase ≠ .gone)
    (hjobs : e'.jobs = if (f job).phase = .gone then e.jobs.erase job.key else e.jobs)
    (hqueue : ∀ j, j ∈ e'.queue ↔ if i = j then (f job).phase = .queued else j ∈ e.queue) (hnodup : e'.queue.Nodup)
    (hworkers : e'.workers + job.phase.active.toNat = e.workers + (f job).phase.active.toNat)
    (hconcurrent : e'.workers ≤ setting.maxConcurrentInspections)
    (hwaiting : e'.queue.length ≤ setting.maxQueuedInspections)
    (hsettlements : (f job).settlements = (f job).phase.over.toNat) : Sound setting e' where
  mapped key j hj := by
    have hmapped : e.jobs.lookup key = some j := by
      rw [hjobs] at hj
      split at hj
      · by_cases hk : key = job.key
        · subst hk
          rw [AList.lookup_erase] at hj
          cases hj
        · rwa [AList.lookup_erase_ne hk] at hj
      · exact hj
    obtain ⟨other, hother, rfl, hgone⟩ := h.mapped key j hmapped
    rw [hheap, getElem?_modify, hother]
    split
    · rename_i hij
      subst hij
      obtain rfl := Option.some.inj (hother.symm.trans hjob)
      refine ⟨f other, rfl, hkey, fun hf => ?_⟩
      rw [hjobs, if_pos hf, AList.lookup_erase] at hj
      cases hj
    · exact ⟨other, rfl, rfl, hgone⟩
  found j other hother hgone := by
    rw [hheap, getElem?_modify] at hother
    rw [hjobs]
    split at hother
    · rename_i hij
      subst hij
      rw [hjob, Option.map_some, Option.some.injEq] at hother
      subst hother
      rw [if_neg hgone, hkey]
      exact h.found i job hjob hpresent
    · rename_i hij
      have hfound := h.found j other hother hgone
      split
      · by_cases hk : other.key = job.key
        · rw [hk, h.found i job hjob hpresent] at hfound
          exact absurd (Option.some.inj hfound) hij
        · rwa [AList.lookup_erase_ne hk]
      · exact hfound
  queued j := by
    rw [hqueue, hheap, getElem?_modify]
    split
    · rename_i hij
      subst hij
      simp [hjob]
    · exact h.queued j
  nodup := hnodup
  workers := by
    have hcount := countP_modify (p := fun job => job.phase.active) (f := f) hjob
    have := h.workers
    rw [hheap]
    omega
  concurrent := hconcurrent
  waiting := hwaiting
  settlements j other hother := by
    rw [hheap, getElem?_modify] at hother
    split at hother
    · rename_i hij
      subst hij
      rw [hjob, Option.map_some, Option.some.injEq] at hother
      subst hother
      exact hsettlements
    · exact h.settlements j other hother

theorem Sound.put (h : Sound setting e) (hjob : e.heap[i]? = some job) (hkey : (f job).key = job.key)
    (hpresent : job.phase ≠ .gone) (hstays : (f job).phase ≠ .gone) (hqueued : (f job).phase = .queued ↔ job.phase = .queued)
    (hactive : (f job).phase.active = job.phase.active) (hsettlements : (f job).settlements = (f job).phase.over.toNat) :
    Sound setting (e.put i f) := by
  refine h.update hjob hkey rfl hpresent (if_neg hstays).symm (fun j => ?_) h.nodup ?_ h.concurrent h.waiting hsettlements
  · split
    · rename_i hij
      subst hij
      rw [hqueued]
      exact (h.queued i).trans (by simp [hjob])
    · exact Iff.rfl
  · rw [hactive]
    rfl

theorem Sound.congr (h : Sound setting e) (hjobs : e'.jobs = e.jobs) (hheap : e'.heap = e.heap) (hqueue : e'.queue = e.queue)
    (hworkers : e'.workers = e.workers) : Sound setting e' where
  mapped := by rw [hjobs, hheap]; exact h.mapped
  found := by rw [hjobs, hheap]; exact h.found
  queued := by rw [hqueue, hheap]; exact h.queued
  nodup := by rw [hqueue]; exact h.nodup
  workers := by rw [hworkers, hheap]; exact h.workers
  concurrent := by rw [hworkers]; exact h.concurrent
  waiting := by rw [hqueue]; exact h.waiting
  settlements := by rw [hheap]; exact h.settlements

theorem Sound.push (h : Sound setting e) (hnone : e.jobs.lookup key = none)
    (hroom : e.queue.length < setting.maxQueuedInspections) : Sound setting (e.push key) where
  mapped other j hj := by
    by_cases hk : other = key
    · subst hk
      simp only [Inspections.push, AList.lookup_insert, Option.some.injEq] at hj
      subst hj
      exact ⟨{ key := other }, by simp [Inspections.push], rfl, nofun⟩
    · simp only [Inspections.push, AList.lookup_insert_ne hk] at hj
      obtain ⟨job, hjob, hkey⟩ := h.mapped other j hj
      refine ⟨job, ?_, hkey⟩
      rw [Inspections.push, List.getElem?_append_left (List.getElem?_eq_some_iff.mp hjob).1]
      exact hjob
  found j job hjob hgone := by
    simp only [Inspections.push, List.getElem?_append] at hjob
    split at hjob
    · have hfound := h.found j job hjob hgone
      have hk : job.key ≠ key := by
        rintro rfl
        rw [hnone] at hfound
        cases hfound
      rw [Inspections.push, AList.lookup_insert_ne hk]
      exact hfound
    · obtain ⟨hlt, hget⟩ := List.getElem?_eq_some_iff.mp hjob
      rw [List.length_singleton] at hlt
      obtain rfl : j = e.heap.length := by omega
      simp only [Nat.sub_self, List.getElem_cons_zero] at hget
      subst hget
      simp [Inspections.push]
  queued j := by
    simp only [Inspections.push, List.mem_append, List.mem_singleton, List.getElem?_append]
    split
    · rename_i hlt
      rw [← h.queued j]
      exact or_iff_left (Nat.ne_of_lt hlt)
    · rename_i hlt
      have hnot : j ∉ e.queue := fun hmem => by
        obtain ⟨job, hjob, _⟩ := (h.queued j).mp hmem
        exact hlt (List.getElem?_eq_some_iff.mp hjob).1
      rw [or_iff_right hnot]
      constructor
      · rintro rfl
        exact ⟨{ key }, by simp, rfl⟩
      · rintro ⟨job, hjob, _⟩
        have := (List.getElem?_eq_some_iff.mp hjob).1
        rw [List.length_singleton] at this
        omega
  nodup := by
    refine List.nodup_append.mpr ⟨h.nodup, List.nodup_singleton _, fun j hj k hk => ?_⟩
    rw [List.mem_singleton] at hk
    obtain ⟨job, hjob, _⟩ := (h.queued j).mp hj
    have := (List.getElem?_eq_some_iff.mp hjob).1
    omega
  workers := by
    simp only [Inspections.push, List.countP_append]
    rw [h.workers]
    rfl
  concurrent := h.concurrent
  waiting := by
    simp only [Inspections.push, List.length_append, List.length_singleton]
    omega
  settlements j job hjob := by
    simp only [Inspections.push, List.getElem?_append] at hjob
    split at hjob
    · exact h.settlements j job hjob
    · obtain ⟨hlt, hget⟩ := List.getElem?_eq_some_iff.mp hjob
      rw [List.length_singleton] at hlt
      have hzero : j - e.heap.length = 0 := by omega
      simp only [hzero, List.getElem_cons_zero] at hget
      subst hget
      rfl

-- Generations

/-- No job inspects a generation that its device has not had, and nothing is
pending of a device that there is not. -/
structure Core (setting : EngineSetting ν) (e : Inspections ν) : Prop where
  sound : Sound setting e
  known : ∀ (i : Nat) (job : InspectionJob) id g, e.heap[i]? = some job → job.key = .device id → job.generation = some g →
    ∃ d, e.receiver.inventory.device id = some d ∧ g ≤ d.inspectionGeneration
  held : ∀ id, pending id e.log → (e.receiver.inventory.device id).isSome

theorem Core.congr (h : Core setting e) (hsound : Sound setting e')
    (hheap : ∀ (i : Nat) (job' : InspectionJob), e'.heap[i]? = some job' → job'.generation = none ∨
      ∃ job : InspectionJob, e.heap[i]? = some job ∧ job.key = job'.key ∧ job.generation = job'.generation)
    (hahead : Ahead e.receiver.inventory e'.receiver.inventory)
    (hlog : ∀ id, pending id e'.log → pending id e.log) : Core setting e' where
  sound := hsound
  known i job' id g hjob' hkey hg := by
    rcases hheap i job' hjob' with hnone | ⟨job, hjob, hk, hgen⟩
    · rw [hnone] at hg
      cases hg
    · exact hahead.known (h.known i job id g hjob (hk.trans hkey) (hgen.trans hg))
  held id hp := hahead.isSome (h.held id (hlog id hp))

def Kept (id : String) (e e' : Inspections ν) : Prop := pending id e'.log → pending id e.log ∧
  e'.receiver.inventory.standing id = e.receiver.inventory.standing id ∧
  e'.jobs.lookup (.device id) = e.jobs.lookup (.device id) ∧
  ∀ i : Nat, e.jobs.lookup (.device id) = some i → e'.heap[i]? = e.heap[i]?

theorem Kept.refl (id : String) (e : Inspections ν) : Kept id e e := fun hp => ⟨hp, rfl, rfl, fun _ _ => rfl⟩

theorem Kept.trans (h : Kept id e e') (h' : Kept id e' e'') : Kept id e e'' := by
  intro hp
  obtain ⟨hp, hs', hl', hj'⟩ := h' hp
  obtain ⟨hp, hs, hl, hj⟩ := h hp
  exact ⟨hp, hs'.trans hs, hl'.trans hl, fun i hi => (hj' i (hl.trans hi)).trans (hj i hi)⟩

def Covered (e : Inspections ν) (id : String) : Prop :=
  ∃ (i : Nat) (job : InspectionJob), e.jobs.lookup (.device id) = some i ∧ e.heap[i]? = some job ∧
    (job.phase = .queued ∨ job.requeue)

def Ready (e : Inspections ν) (id : String) : Prop :=
  ∀ (i : Nat) (job : InspectionJob), e.jobs.lookup (.device id) = some i → e.heap[i]? = some job → job.phase = .queued ∨
    ∃ g d, job.generation = some g ∧ e.receiver.inventory.device id = some d ∧ g < d.inspectionGeneration

theorem Kept.covered (h : Kept id e e') (hp : pending id e'.log) (hc : Covered e id) : Covered e' id := by
  obtain ⟨_, _, hl, hj⟩ := h hp
  obtain ⟨i, job, hi, hjob, hphase⟩ := hc
  exact ⟨i, job, hl.trans hi, (hj i hi).trans hjob, hphase⟩

theorem Kept.ready (h : Kept id e e') (hp : pending id e'.log) (hr : Ready e id) : Ready e' id := by
  obtain ⟨_, hs, hl, hj⟩ := h hp
  intro i job hi hjob
  rw [hl] at hi
  rw [hj i hi] at hjob
  rcases hr i job hi hjob with hq | ⟨g, d, hg, hd, hlt⟩
  · exact .inl hq
  · rw [Inventory.standing, Inventory.standing, hd] at hs
    obtain ⟨d', hd', heq⟩ := Option.map_eq_some_iff.mp hs
    simp only [Prod.mk.injEq] at heq
    exact .inr ⟨g, d', hg, hd', heq.2.2 ▸ hlt⟩

theorem Kept.due (h : Kept id e e') (hp : pending id e'.log) (hd : (e.receiver.inventory.device id).any (due setting now)) :
    (e'.receiver.inventory.device id).any (due setting now) := by
  obtain ⟨_, hs, _, _⟩ := h hp
  cases hdevice : e.receiver.inventory.device id with
  | none => simp [hdevice] at hd
  | some d =>
    rw [Inventory.standing, Inventory.standing, hdevice] at hs
    obtain ⟨d', hd', heq⟩ := Option.map_eq_some_iff.mp hs
    simp only [Prod.mk.injEq] at heq
    rw [hdevice] at hd
    rw [hd']
    change Inspections.due setting now d = true at hd
    change Inspections.due setting now d' = true
    unfold Inspections.due at hd ⊢
    rwa [heq.1, heq.2.1]

-- Starting

structure Started (i : Nat) (job : InspectionJob) (e e' : Inspections ν) (f : InspectionJob → InspectionJob) : Prop where
  heap : e'.heap = e.heap.modify i f
  key : (f job).key = job.key
  active : (f job).phase.active
  unsettled : (f job).phase.over = false ∧ (f job).settlements = job.settlements
  generation : (f job).generation = job.generation ∨ ∃ id d g, job.key = .device id ∧
    e'.receiver.inventory.device id = some d ∧ (f job).generation = some g ∧ g ≤ d.inspectionGeneration
  same : e'.jobs = e.jobs ∧ e'.queue = e.queue ∧ e'.workers = e.workers ∧ e'.state = e.state
  others : ∀ id, job.key ≠ .device id → At id Same e.receiver.inventory e'.receiver.inventory
  ahead : Ahead e.receiver.inventory e'.receiver.inventory
  log : ∀ id, pending id e'.log → pending id e.log ∧
    (job.key = .device id → e.receiver.inventory.device id = none)

theorem start_spec (setting : EngineSetting ν) (now : Int) (hjob : e.heap[i]? = some job) :
    ∃ f, Started i job e (start setting now i e) f := by
  obtain ⟨key, generation, requeue, phase, settlements⟩ := job
  unfold start
  rw [hjob]
  dsimp only
  cases key with
  | device id =>
    dsimp only
    cases hd : e.receiver.inventory.device id with
    | none =>
      refine ⟨_, rfl, rfl, rfl, ⟨rfl, rfl⟩, .inl rfl, ⟨rfl, rfl, rfl, rfl⟩, fun _ _ => .refl Same.rfl', .refl _, fun other hp => ⟨hp, ?_⟩⟩
      intro hk
      obtain rfl := JobKey.device.inj hk
      exact hd
    | some d =>
      have hsame : ∀ other, At other Same e.receiver.inventory (target setting.toReceiverSetting now e.receiver id).1.inventory :=
        fun _ => target_same setting.toReceiverSetting now e.receiver id
      dsimp only
      generalize target setting.toReceiverSetting now e.receiver id = found at hsame ⊢
      split
      · obtain ⟨d', hd', hs⟩ := (hsame id).1 d hd
        have hbegun : (beginInspection found.1.inventory id d).1.device id = some { d' with
            inspectionGeneration := d'.inspectionGeneration + 1 } := beginInspection_device hd'
        have hgeneration : d.inspectionGeneration = d'.inspectionGeneration := by
          have hcore : core d = core d' := hs
          exact (congrArg Device.inspectionGeneration hcore :)
        have hbegins := operate_ahead setting.inventory now found.1.inventory (.beginInspection id)
        simp only [operate, hd'] at hbegins
        refine ⟨_, rfl, rfl, rfl, ⟨rfl, rfl⟩, .inr ⟨id, _, _, rfl, hbegun, rfl, ?_⟩, ⟨rfl, rfl, rfl, rfl⟩, fun other hk => ?_, ?_, ?_⟩
        · exact (congrArg (· + 1) hgeneration).le
        · have hne : other ≠ id := by rintro rfl; exact hk rfl
          exact (hsame other).trans Same.trans (beginInspection_other hne found.1.inventory d)
        · exact (Ahead.of_same hsame).trans hbegins
        · intro other hp
          simp only [pending, Bool.and_eq_true, decide_eq_true_eq] at hp
          exact ⟨hp.2, fun hk => absurd (JobKey.device.inj hk) hp.1⟩
      · refine ⟨_, rfl, rfl, rfl, ⟨rfl, rfl⟩, .inl rfl, ⟨rfl, rfl, rfl, rfl⟩, fun other _ => hsame other, .of_same hsame, ?_⟩
        intro other hp
        simp only [pending, Bool.and_eq_true, decide_eq_true_eq] at hp
        exact ⟨hp.2, fun hk => absurd (JobKey.device.inj hk) hp.1⟩
  | seed id =>
    dsimp only
    split
    all_goals
      refine ⟨_, rfl, rfl, rfl, ⟨rfl, rfl⟩, .inl rfl, ⟨rfl, rfl, rfl, rfl⟩, fun _ _ => .refl Same.rfl', .refl _, fun _ hp => ⟨hp, ?_⟩⟩
      intro hk
      cases hk

theorem Started.core {rest : List Nat} (h : Core setting e) (hqueue : e.queue = i :: rest) (hworkers : e.workers < setting.maxConcurrentInspections)
    (hjob : e.heap[i]? = some job) (hphase : job.phase = .queued)
    (hs : Started i job { e with queue := rest, workers := e.workers + 1 } e' f) :
    Core setting e' ∧ (∀ id, Kept id e e') ∧ e'.state = e.state ∧ e'.queue = rest := by
  obtain ⟨hjobs, hq, hw, hstate⟩ := hs.same
  have hpresent : job.phase ≠ .gone := by rw [hphase]; nofun
  have hf : (f job).phase ≠ .gone ∧ (f job).phase ≠ .queued := by
    have hactive := hs.active
    constructor <;> intro hp <;> rw [hp] at hactive <;> cases hactive
  have hnodup : i ∉ rest ∧ rest.Nodup := List.nodup_cons.mp (hqueue ▸ h.sound.nodup)
  have hwaiting := h.sound.waiting
  have hsettlements := h.sound.settlements i job hjob
  rw [hqueue, List.length_cons] at hwaiting
  have hsound : Sound setting e' := by
    refine h.sound.update hjob hs.key hs.heap hpresent ?_ (fun j => ?_) ?_ ?_ ?_ ?_ ?_
    · rw [if_neg hf.1]
      exact hjobs
    · rw [hq, hqueue]
      split
      · rename_i hij
        subst hij
        exact iff_of_false hnodup.1 hf.2
      · rename_i hij
        rw [List.mem_cons, or_iff_right (Ne.symm hij)]
    · rw [hq]
      exact hnodup.2
    · rw [hw, hs.active, hphase]
      rfl
    · rw [hw]
      exact hworkers
    · rw [hq]
      exact Nat.le_of_succ_le hwaiting
    · rw [hs.unsettled.1, hs.unsettled.2, hsettlements, hphase]
      rfl
  refine ⟨⟨hsound, fun j job' id g hjob' hkey hg => ?_, fun id hp => hs.ahead.isSome (h.held id (hs.log id hp).1)⟩,
    fun id hp => ?_, hstate, hq⟩
  · rw [hs.heap, getElem?_modify] at hjob'
    split at hjob'
    · rename_i hij
      subst hij
      change e.heap[i]?.map f = some job' at hjob'
      rw [hjob, Option.map_some, Option.some.injEq] at hjob'
      subst hjob'
      rw [hs.key] at hkey
      rcases hs.generation with hgen | ⟨other, d, g', hk, hd, hgen, hle⟩
      · rw [hgen] at hg
        exact hs.ahead.known (h.known i job id g hjob hkey hg)
      · obtain rfl := JobKey.device.inj (hkey.symm.trans hk)
        obtain rfl := Option.some.inj (hg.symm.trans hgen)
        exact ⟨d, hd, hle⟩
    · exact hs.ahead.known (h.known j job' id g hjob' hkey hg)
  · obtain ⟨hp, hnone⟩ := hs.log id hp
    have hne : job.key ≠ .device id := by
      intro hk
      have := h.held id hp
      rw [show e.receiver.inventory.device id = none from hnone hk] at this
      cases this
    refine ⟨hp, (hs.others id hne).standing, by rw [hjobs], fun j hj => ?_⟩
    rw [hs.heap, getElem?_modify, if_neg]
    rintro rfl
    obtain ⟨other, hother, hkey, _⟩ := h.sound.mapped _ _ hj
    obtain rfl := Option.some.inj (hjob.symm.trans hother)
    exact hne hkey

structure Goes (setting : EngineSetting ν) (e e' : Inspections ν) : Prop where
  core : Core setting e'
  kept : ∀ id, Kept id e e'
  state : e'.state = e.state

theorem Goes.refl (h : Core setting e) : Goes setting e e := ⟨h, fun id => .refl id e, rfl⟩

theorem Goes.trans (h : Goes setting e e') (h' : Goes setting e' e'') : Goes setting e e'' :=
  ⟨h'.core, fun id => (h.kept id).trans (h'.kept id), h'.state.trans h.state⟩

theorem pumpLoop_goes (n : Nat) : ∀ {e : Inspections ν}, Core setting e → Goes setting e (pumpLoop setting now n e) := by
  induction n with
  | zero => exact fun h => .refl h
  | succ n ih =>
    intro e h
    unfold pumpLoop
    split
    · exact .refl h
    · rename_i i rest hqueue
      split
      · rename_i hroom
        obtain ⟨job, hjob, hphase⟩ := (h.sound.queued i).mp (hqueue ▸ List.mem_cons_self)
        obtain ⟨f, hs⟩ := start_spec (e := { e with queue := rest, workers := e.workers + 1 }) setting now hjob
        obtain ⟨hcore, hkept, hstate, _⟩ := hs.core h hqueue hroom.2 hjob hphase
        exact (Goes.mk hcore hkept hstate).trans (ih hcore)
      · exact .refl h

theorem pump_goes (setting : EngineSetting ν) (now : Int) (h : Core setting e) : Goes setting e (pump setting now e) := pumpLoop_goes _ h

def Busy (setting : EngineSetting ν) (e : Inspections ν) : Prop :=
  e.queue = [] ∨ e.state = .running ∧ setting.maxConcurrentInspections ≤ e.workers

theorem pumpLoop_busy (n : Nat) : ∀ {e : Inspections ν}, Core setting e → e.queue.length ≤ n → e.state = .running →
    Busy setting (pumpLoop setting now n e) := by
  induction n with
  | zero => exact fun _ hn _ => .inl (List.length_eq_zero_iff.mp (Nat.le_zero.mp hn))
  | succ n ih =>
    intro e h hn hstate
    unfold pumpLoop
    split
    · rename_i hqueue
      exact .inl hqueue
    · rename_i i rest hqueue
      split
      · rename_i hroom
        obtain ⟨job, hjob, hphase⟩ := (h.sound.queued i).mp (hqueue ▸ List.mem_cons_self)
        obtain ⟨f, hs⟩ := start_spec (e := { e with queue := rest, workers := e.workers + 1 }) setting now hjob
        obtain ⟨hcore, _, hstarted, hrest⟩ := hs.core h hqueue hroom.2 hjob hphase
        rw [hqueue, List.length_cons] at hn
        exact ih hcore (by rw [hrest]; omega) (hstarted.trans hstate)
      · rename_i hroom
        exact .inr ⟨hstate, Nat.le_of_not_lt fun hlt => hroom ⟨hstate, hlt⟩⟩

theorem pump_busy (h : Core setting e) (hstate : e.state = .running ∨ e.queue = []) : Busy setting (pump setting now e) := by
  rcases hstate with hstate | hqueue
  · exact pumpLoop_busy _ h le_rfl hstate
  · unfold pump
    rw [hqueue]
    exact .inl hqueue

-- Enqueueing

theorem Sound.ne (h : Sound setting e) (hjob : e.heap[i]? = some job) (hkey : job.key ≠ key)
    (hj : e.jobs.lookup key = some j) : i ≠ j := by
  rintro rfl
  obtain ⟨other, hother, rfl, _⟩ := h.mapped key i hj
  obtain rfl := Option.some.inj (hjob.symm.trans hother)
  exact hkey rfl

theorem Core.put (h : Core setting e) (hjob : e.heap[i]? = some job) (hsound : Sound setting e')
    (hheap : e'.heap = e.heap.modify i f) (hkey : (f job).key = job.key) (hgeneration : (f job).generation = job.generation)
    (hahead : Ahead e.receiver.inventory e'.receiver.inventory) (hlog : ∀ id, pending id e'.log → pending id e.log) :
    Core setting e' := by
  refine h.congr hsound (fun j job' hjob' => .inr ?_) hahead hlog
  rw [hheap, getElem?_modify] at hjob'
  split at hjob'
  · rename_i hij
    subst hij
    rw [hjob, Option.map_some, Option.some.injEq] at hjob'
    subst hjob'
    exact ⟨job, hjob, hkey.symm, hgeneration.symm⟩
  · exact ⟨job', hjob', rfl, rfl⟩

/-- What asking for an inspection does to the other devices, and to its own. -/
structure Asked (setting : EngineSetting ν) (key : JobKey) (e e' : Inspections ν) : Prop where
  core : Core setting e'
  state : e'.state = e.state
  log : ∀ id, pending id e'.log → pending id e.log
  busy : Busy setting e → Busy setting e'
  others : ∀ id, key ≠ .device id → Kept id e e'
  covers : ∀ id, key = .device id → e.state = .running ∧ Ready e id ∨ Covered e id → pending id e'.log → Covered e' id

theorem requeue_asked (h : Core setting e) (hi : e.jobs.lookup key = some i) (hjob : e.heap[i]? = some job)
    (hkey : job.key = key) (hpresent : job.phase ≠ .gone) : Asked setting key e (e.put i ({ · with requeue := true })) := by
  have hsound : Sound setting (e.put i ({ · with requeue := true })) :=
    h.sound.put hjob rfl hpresent hpresent Iff.rfl rfl (h.sound.settlements i job hjob)
  refine ⟨h.put hjob hsound rfl rfl rfl (.refl _) fun _ hp => hp, rfl, fun _ hp => hp, fun hb => hb, fun id hne hp => ⟨hp, rfl, rfl, fun j hj => ?_⟩, ?_⟩
  · rw [put, getElem?_modify, if_neg (h.sound.ne hjob (hkey ▸ hne) hj)]
  · rintro id rfl - -
    refine ⟨i, { job with requeue := true }, hi, ?_, .inr rfl⟩
    rw [put, getElem?_modify, if_pos rfl, hjob]
    rfl

theorem push_asked (h : Core setting e) (hnone : e.jobs.lookup key = none) (hroom : e.queue.length < setting.maxQueuedInspections)
    (hstate : e.state = .running) : Asked setting key e (pump setting now (e.push key)) := by
  have hcore : Core setting (e.push key) := by
    refine h.congr (h.sound.push hnone hroom) (fun j job' hjob' => ?_) (.refl _) fun _ hp => hp
    simp only [push, List.getElem?_append] at hjob'
    split at hjob'
    · exact .inr ⟨job', hjob', rfl, rfl⟩
    · obtain ⟨hlt, hget⟩ := List.getElem?_eq_some_iff.mp hjob'
      rw [List.length_singleton] at hlt
      have hzero : j - e.heap.length = 0 := by omega
      simp only [hzero, List.getElem_cons_zero] at hget
      subst hget
      exact .inl rfl
  have hgoes : Goes setting (e.push key) (pump setting now (e.push key)) := pump_goes setting now hcore
  refine ⟨hgoes.core, hgoes.state, fun id hp => (hgoes.kept id hp).1, fun _ => pump_busy hcore (.inl hstate), fun id hne => ?_, ?_⟩
  · have hadmitted : Kept id e (e.push key) := by
      refine fun hp => ⟨hp, rfl, AList.lookup_insert_ne (Ne.symm hne), fun j hj => ?_⟩
      obtain ⟨job, hjob, _⟩ := h.sound.mapped _ j hj
      rw [push, List.getElem?_append_left (List.getElem?_eq_some_iff.mp hjob).1]
    exact hadmitted.trans (hgoes.kept id)
  · rintro id rfl - hp
    exact (hgoes.kept id).covered hp ⟨e.heap.length, { key := .device id }, AList.lookup_insert _, by simp [push], .inl rfl⟩

theorem refused_asked (setting : EngineSetting ν) (now : Int) (h : Core setting e) (key : JobKey) : Asked setting key e { e with
    receiver := e.receiver.diagnostic setting.toReceiverSetting now "InspectionQueueLimit"
      "Inspection work was not admitted to the bounded queue" key.deviceId true
    log := (key.deviceId.map Note.refused).toList ++ e.log } := by
  have hsame : ∀ id, At id Same e.receiver.inventory (e.receiver.diagnostic setting.toReceiverSetting now "InspectionQueueLimit"
      "Inspection work was not admitted to the bounded queue" key.deviceId true).inventory := fun _ => diagnostic_same _ _ _ _ _
  have hlog : ∀ id, pending id ((key.deviceId.map Note.refused).toList ++ e.log) → pending id e.log ∧ key ≠ .device id := by
    intro id hp
    cases key with
    | seed seedId => exact ⟨hp, nofun⟩
    | device other =>
      simp only [JobKey.deviceId, Option.map_some, Option.toList_some, List.cons_append, List.nil_append, pending, Bool.and_eq_true,
        decide_eq_true_eq] at hp
      exact ⟨hp.2, fun hk => hp.1 (JobKey.device.inj hk)⟩
  refine ⟨h.congr (h.sound.congr rfl rfl rfl rfl) (fun _ job hjob => .inr ⟨job, hjob, rfl, rfl⟩) (.of_same hsame)
    fun id hp => (hlog id hp).1, rfl, fun id hp => (hlog id hp).1, fun hb => hb, fun id _ hp => ⟨(hlog id hp).1, (hsame id).standing, rfl, fun _ _ => rfl⟩, ?_⟩
  exact fun id hk _ hp => absurd hk (hlog id hp).2

theorem enqueue_asked (setting : EngineSetting ν) (now : Int) (h : Core setting e) (key : JobKey) :
    Asked setting key e (enqueue setting now key e) := by
  have hsame : (∀ id, key = .device id → e.state = .running ∧ Ready e id ∨ Covered e id → pending id e.log → Covered e id) →
      Asked setting key e e :=
    fun hc => ⟨h, rfl, fun _ hp => hp, fun hb => hb, fun id _ => .refl id e, hc⟩
  unfold enqueue
  cases hi : e.jobs.lookup key with
  | some i =>
    obtain ⟨job, hjob, hkey, hpresent⟩ := h.sound.mapped key i hi
    dsimp only
    rw [hjob, Option.any_some]
    split
    · exact requeue_asked h hi hjob hkey hpresent
    · rename_i hsuperseded
      refine hsame fun id hk hc hp => hc.elim (fun hr => ?_) fun hc => hc
      subst hk
      rcases hr.2 i job hi hjob with hq | ⟨g, d, hg, hd, hlt⟩
      · exact ⟨i, job, hi, hjob, .inl hq⟩
      · refine absurd ?_ hsuperseded
        unfold superseded
        rw [hkey]
        simp only [hg, hd, Option.isSome_some, Option.map_some, Bool.true_and, decide_eq_true_eq]
        intro he
        exact absurd (Option.some.inj he) (Nat.ne_of_gt hlt)
  | none =>
    dsimp only
    split
    · rename_i hstate
      exact hsame fun id hk hc hp => hc.elim (fun hr => absurd hr.1 hstate) fun hc => hc
    · rename_i hstate
      split
      · exact refused_asked setting now h key
      · rename_i hroom
        exact push_asked h hi (Nat.lt_of_not_le hroom) (not_not.mp hstate)

end Inspections

end WotAv.Discovery
