import WotAv.Discovery.Announcements
import WotAv.Discovery.Vitals

/-!
# Departure

One device is watched over a run of the inventory: when an announcement that it
is there was last accepted, when an inspection that it answered was completed,
and how many rounds of liveness it has failed since. `suspectSince` and
`failedLivenessRounds` are kept apart from all this, so that a device may depart
on what is older.
-/

namespace WotAv.Discovery

open WotAv.Lib

variable {ν : Type}

structure Trace where
  heardAt : Option Int := none
  answeredAt : Option Int := none
  /-- The rounds that have failed since the later of the two. -/
  failures : Nat := 0
  deriving DecidableEq, Repr

def Trace.evidence (t : Trace) : List Int := t.heardAt.toList ++ t.answeredAt.toList

structure Watch (ν : Type) where
  inventory : Inventory ν
  clock : Int
  trace : Trace

namespace Watch

variable (setting : Setting ν) (id : String)

def hears (now : Int) (s : Inventory ν) : Operation ν → Bool
  | .observe message fingerprintSource incoming =>
    message.present && (observe setting now s message incoming fingerprintSource).2.contains id
  | _ => false

def commits (now : Int) (s : Inventory ν) : Operation ν → Option (InspectionReport ν)
  | .commitInspection token report =>
    if token.deviceId = id ∧ (commitInspection setting now s token report).2 then some report else none
  | .inspectSeed seedId report incoming => match s.seed seedId with
    | none => none
    | some seed => if (inspectSeed setting now s seedId seed report incoming).2 = some id then some report else none
  | _ => none

def fails (s : Inventory ν) : Operation ν → Bool
  | .liveness other round responsive confirmedTimeout => decide (other = id) && missed s id round responsive confirmedTimeout
  | _ => false

def follow (now : Int) (s : Inventory ν) (op : Operation ν) (t : Trace) : Trace :=
  if hears setting id now s op then { t with heardAt := some now, failures := 0 }
  else match (commits setting id now s op).filter (·.responsive) with
    | some report => { t with answeredAt := some report.completedAt, failures := 0 }
    | none => { t with failures := t.failures + if fails id s op then 1 else 0 }

def step (w : Watch ν) (call : Int × Operation ν) : Watch ν where
  inventory := operate setting call.1 w.inventory call.2
  clock := call.1
  trace := follow setting id call.1 w.inventory call.2 w.trace

def init (w : Watch ν) : Prop :=
  (w.inventory = {} ∨ ∃ snapshot, restore setting snapshot = some w.inventory) ∧
  w.trace = { failures := (w.inventory.vitals id).elim 0 (·.failedLivenessRounds) }

def system : System (Watch ν) (Int × Operation ν) := .ofFun (init setting id) (step setting id)

-- When no old evidence is left

def Timely (w : Watch ν) (call : Int × Operation ν) : Prop :=
  w.clock ≤ call.1 ∧ ∀ report ∈ commits setting id call.1 w.inventory call.2, report.completedAt ≤ call.1

end Watch

def Vitals.staleAt (setting : Setting ν) (v : Vitals) : Int := v.verifiedAt.getD v.seenAt + setting.staleMs

def Vitals.Clear (setting : Setting ν) (now : Int) (v : Vitals) : Prop :=
  v.suspectSince = none ∧ v.failedLivenessRounds = 0 ∧ ∀ at_ ∈ v.verifiedAt, now ≤ at_ + setting.staleMs

/-- The report clears a suspicion, and is not too old for it; or there is none. -/
def InspectionReport.Clears (setting : Setting ν) (t : Trace) (vitals : Option Vitals) (report : InspectionReport ν) : Prop :=
  if report.complete then ∀ at_ ∈ t.evidence, at_ ≤ report.completedAt + setting.staleMs
  else report.responsive → ∀ v ∈ vitals, v.suspectSince = none ∧ report.completedAt ≤ v.staleAt setting

namespace Watch

variable (setting : Setting ν) (id : String)

def Clear (w : Watch ν) (call : Int × Operation ν) : Prop :=
  Timely setting id w call ∧
  (hears setting id call.1 w.inventory call.2 → ∀ v ∈ w.inventory.vitals id, v.Clear setting call.1) ∧
  ∀ report ∈ commits setting id call.1 w.inventory call.2, report.Clears setting w.trace (w.inventory.vitals id)

/-- What is held against a device is no older than what tells that it is there. -/
structure Recent (clock : Int) (t : Trace) (v : Vitals) : Prop where
  failed : v.failedLivenessRounds ≤ t.failures
  past : ∀ at_ ∈ t.evidence, at_ ≤ clock
  stale : ∀ at_ ∈ t.evidence, at_ ≤ v.staleAt setting
  suspect : ∀ at_ ∈ t.evidence, ∀ since ∈ v.suspectSince, at_ ≤ since

def Sound (w : Watch ν) : Prop :=
  (w.inventory.vitals id = none → w.trace.evidence = []) ∧
  ∀ v ∈ w.inventory.vitals id, Recent setting w.clock w.trace v

/-- Since it was last there, the device has been suspect for the whole grace,
and has failed two rounds. -/
def Outlasted (now : Int) (w : Watch ν) (d : Device ν) : Prop :=
  2 ≤ w.trace.failures ∧ ∃ since, d.suspectSince = some since ∧ setting.departureGraceMs ≤ now - since ∧
    ∀ at_ ∈ w.trace.evidence, at_ ≤ since

end Watch

-- One operation

variable {setting : Setting ν} {id : String} {now : Int} {s : Inventory ν}

/-- Nothing tells that the device is there, and so much may be held against it. -/
def Vitals.Worsens (setting : Setting ν) (now : Int) (failed : Nat) (v w : Vitals) : Prop :=
  w.seenAt = v.seenAt ∧ w.verifiedAt = v.verifiedAt ∧ w.failedLivenessRounds ≤ v.failedLivenessRounds + failed ∧
    ∀ since ∈ w.suspectSince, since ∈ v.suspectSince ∨ since = now ∨ since = v.staleAt setting

theorem Vitals.Worsens.rfl' (v : Vitals) : v.Worsens setting now failed v :=
  ⟨rfl, rfl, Nat.le_add_right _ _, fun _ => .inl⟩

def Worsen (setting : Setting ν) (now : Int) (failed : Nat) (before after : Option Vitals) : Prop :=
  (after = none → before = none) ∧ ∀ w ∈ after, (before.getD (.new now)).Worsens setting now failed w

theorem Worsen.same {before after : Option Vitals} (h : after = before) : Worsen setting now failed before after := by
  subst h
  exact ⟨fun h => h, by rintro w rfl; exact .rfl' w⟩

theorem Worsen.grown {before after : Option Vitals} (h : Grown (.new now) before after) :
    Worsen setting now failed before after := by
  rcases h with h | ⟨rfl, rfl⟩
  · exact .same h
  · exact ⟨nofun, by rintro w ⟨⟩; exact .rfl' _⟩

theorem Worsen.announced {message : DiscoveryMessage} {before after : Option Vitals}
    (h : Announced now message before after) (hp : message.present = false) :
    Worsen setting now failed before after := by
  rw [h]
  refine ⟨nofun, ?_⟩
  rintro w ⟨⟩
  unfold Vitals.announced
  split
  · refine ⟨rfl, rfl, Nat.le_add_right _ _, fun since hs => ?_⟩
    rcases Option.or_eq_some_iff.mp hs with hs | ⟨-, hs⟩
    · exact .inl hs
    · exact .inr (.inl (Option.some.inj hs).symm)
  · rename_i hk
    rw [if_neg (by simpa [DiscoveryMessage.present, hk] using hp)]
    exact .rfl' _

theorem reconcileDevice_worsens (setting : Setting ν) (now : Int) (d : Device ν) :
    d.vitals.Worsens setting now 0 (reconcileDevice setting now d).1.vitals := by
  have hdepart (d : Device ν) : (depart setting now d).vitals = d.vitals := by
    unfold depart
    split <;> rfl
  unfold reconcileDevice
  split
  · exact .rfl' _
  · dsimp only
    rw [hdepart]
    unfold goStale
    dsimp only
    split
    · refine ⟨rfl, rfl, le_rfl, fun since hs => ?_⟩
      rcases Option.or_eq_some_iff.mp hs with hs | ⟨-, hs⟩
      · exact .inl hs
      · exact .inr (.inr (Option.some.inj hs).symm)
    · exact .rfl' _

theorem operate_worsens (setting : Setting ν) (id : String) (now : Int) (s : Inventory ν) (op : Operation ν)
    (hh : Watch.hears setting id now s op = false) (hc : Watch.commits setting id now s op = none) :
    Worsen setting now (if Watch.fails id s op then 1 else 0) (s.vitals id) ((operate setting now s op).vitals id) := by
  cases op with
  | diagnostic code message deviceId truncated => exact .same (diagnostic_same _ _ _ _ _).same_vitals
  | observe message fingerprintSource incoming =>
    have h := observe_vitals setting now s message incoming fingerprintSource id
    dsimp only at h
    split at h
    · rename_i hid
      exact .announced h (by simpa [Watch.hears, hid] using hh)
    · exact .grown h
  | observeDuplicate message incoming =>
    exact .same ((observeDuplicate_bare message incoming s).mono SameBare.steady).vitals
  | beginInspection other =>
    refine .same ?_
    unfold operate
    dsimp only
    split
    · rfl
    · exact (steady.modify s other (by intros; rfl)).vitals
  | commitInspection token report =>
    refine .same ((commitInspection_vitals setting now s token report id).trans (if_neg fun h => ?_))
    simp [Watch.commits, h.1, h.2] at hc
  | liveness other round responsive confirmedTimeout =>
    cases hv : s.vitals id with
    | none => exact .same (liveness_absent hv _ _ _ _)
    | some v =>
      obtain ⟨failed, hw, hle⟩ := liveness_vitals hv other round responsive confirmedTimeout
      refine ⟨fun h => absurd (hw.symm.trans h) nofun, fun w h => ?_⟩
      rw [operate, hw] at h
      obtain rfl := Option.some.inj h
      exact ⟨rfl, rfl, by simpa [Watch.fails] using hle, fun _ => .inl⟩
  | reconcile =>
    unfold operate Inventory.vitals
    rw [reconcile_device]
    cases s.device id with
    | none => exact .same rfl
    | some d =>
      refine ⟨nofun, fun w hw => ?_⟩
      obtain rfl := Option.some.inj hw
      exact reconcileDevice_worsens setting now d
  | addSeed seedId seed =>
    refine .same ?_
    unfold operate addSeed
    dsimp only
    repeat' split
    all_goals rfl
  | inspectSeed seedId report incoming =>
    unfold operate
    unfold Watch.commits at hc
    dsimp only at hc ⊢
    cases hs : s.seed seedId with
    | none => exact .same rfl
    | some seed =>
      have h := inspectSeed_vitals setting now s seedId seed report incoming id
      dsimp only at h
      rw [hs] at hc
      split at h
      · rename_i hid
        simp [hid] at hc
      · exact .grown h

theorem operate_hears (h : Watch.hears setting id now s op) :
    (operate setting now s op).vitals id = some { (s.vitals id).getD (.new now) with seenAt := now } := by
  cases op with
  | observe message fingerprintSource incoming =>
    obtain ⟨hp, hid⟩ := Bool.and_eq_true_iff.mp h
    have hv := observe_vitals setting now s message incoming fingerprintSource id
    dsimp only at hv
    rw [if_pos (List.contains_iff_mem.mp hid)] at hv
    obtain ⟨hsequence, hkind⟩ := Bool.and_eq_true_iff.mp hp
    refine hv.trans ?_
    rw [Vitals.announced, if_neg (of_decide_eq_true hkind), if_pos hsequence]
  | _ => cases h

theorem operate_commits (h : Watch.commits setting id now s op = some report) :
    Watch.hears setting id now s op = false ∧
    (operate setting now s op).vitals id = some (((s.vitals id).getD (.new now)).inspected report) := by
  cases op with
  | commitInspection token report' =>
    refine ⟨rfl, ?_⟩
    unfold Watch.commits at h
    dsimp only at h
    split at h
    · rename_i hc
      obtain rfl := Option.some.inj h
      have hv := commitInspection_vitals setting now s token report' id
      dsimp only at hv
      rw [if_pos ⟨hc.2, hc.1.symm⟩] at hv
      rcases commitInspection_cases setting now s token report' with ⟨hfalse, _⟩ | ⟨_, d, hd, _⟩
      · rw [hfalse] at hc
        cases hc.2
      · rw [hc.1] at hd
        have hd : s.vitals id = some d.vitals := by rw [Inventory.vitals, hd]; rfl
        rw [operate, hv, hd]
        rfl
    · cases h
  | inspectSeed seedId report' incoming =>
    refine ⟨rfl, ?_⟩
    unfold Watch.commits at h
    unfold operate
    dsimp only at h ⊢
    split at h
    · cases h
    · rename_i seed hs
      split at h
      · rename_i hid
        obtain rfl := Option.some.inj h
        have hv := inspectSeed_vitals setting now s seedId seed report' incoming id
        dsimp only at hv
        rw [if_pos hid] at hv
        simpa only [hs] using hv
      · cases h
  | _ => cases h

-- Runs

namespace Watch

variable {time : Int} {t : Trace} {v w : Vitals}

theorem Recent.worsens {n : Nat} (h : Recent setting time t v) (hw : v.Worsens setting now n w) (hn : time ≤ now) :
    Recent setting now { t with failures := t.failures + n } w where
  failed := hw.2.2.1.trans (Nat.add_le_add_right h.failed _)
  past at_ ha := (h.past at_ ha).trans hn
  stale at_ ha := by
    rw [Vitals.staleAt, hw.1, hw.2.1]
    exact h.stale at_ ha
  suspect at_ ha since hs := by
    rcases hw.2.2.2 since hs with hs | rfl | rfl
    · exact h.suspect at_ ha since hs
    · exact (h.past at_ ha).trans hn
    · exact h.stale at_ ha

theorem Recent.new (hn : t.evidence = []) : Recent setting time t (.new now) :=
  ⟨Nat.zero_le _, by simp [hn], by simp [hn], by simp [hn]⟩

theorem Recent.heard (h : Recent setting time t v) (hn : time ≤ now) (hs : 0 ≤ setting.staleMs)
    (hc : v.Clear setting now) :
    Recent setting now { t with heardAt := some now, failures := 0 } { v with seenAt := now } where
  failed := hc.2.1.le
  past at_ ha := by
    rcases List.mem_append.mp ha with ha | ha
    · simp_all
    · exact (h.past at_ (List.mem_append_right _ ha)).trans hn
  stale := by
    have hnow : now ≤ Vitals.staleAt setting { v with seenAt := now } := by
      unfold Vitals.staleAt
      cases hv : v.verifiedAt with
      | none => simpa using hs
      | some at_ => exact hc.2.2 at_ hv
    intro at_ ha
    rcases List.mem_append.mp ha with ha | ha
    · obtain rfl : at_ = now := by simpa using ha
      exact hnow
    · exact ((h.past at_ (List.mem_append_right _ ha)).trans hn).trans hnow
  suspect at_ ha since hs := by
    rw [show v.suspectSince = none from hc.1] at hs
    cases hs

theorem Recent.answered {report : InspectionReport ν} (h : Recent setting time t v) (hn : time ≤ now)
    (hs : 0 ≤ setting.staleMs) (hr : report.completedAt ≤ now) (hc : report.Clears setting t (some v)) :
    Recent setting now
      (if report.responsive then { t with answeredAt := some report.completedAt, failures := 0 } else t)
      (v.inspected report) := by
  have hevidence (at_ : Int) (ha : at_ ∈ (if report.responsive then
      { t with answeredAt := some report.completedAt, failures := 0 } else t).evidence) :
      at_ ∈ t.evidence ∨ at_ = report.completedAt ∧ report.responsive := by
    split at ha
    · rename_i hr
      rcases List.mem_append.mp ha with ha | ha
      · exact .inl (List.mem_append_left _ ha)
      · exact .inr ⟨by simpa using ha, hr⟩
    · exact .inl ha
  unfold InspectionReport.Clears at hc
  refine ⟨?_, fun at_ ha => ?_, fun at_ ha => ?_, fun at_ ha since hsince => ?_⟩
  · unfold Vitals.inspected
    cases report.responsive with
    | true => exact Nat.zero_le _
    | false => exact h.failed
  · rcases hevidence at_ ha with ha | ⟨rfl, _⟩
    · exact (h.past at_ ha).trans hn
    · exact hr
  · unfold Vitals.staleAt Vitals.inspected
    dsimp only
    split at hc
    · rename_i hcomplete
      rw [if_pos hcomplete, Option.getD_some]
      rcases hevidence at_ ha with ha | ⟨rfl, _⟩
      · exact hc at_ ha
      · exact Int.le_add_of_nonneg_right hs
    · rename_i hcomplete
      rw [if_neg hcomplete]
      rcases hevidence at_ ha with ha | ⟨rfl, hresponsive⟩
      · exact h.stale at_ ha
      · exact (hc hresponsive v rfl).2
  · unfold Vitals.inspected at hsince
    dsimp only at hsince
    split at hc
    · rename_i hcomplete
      rw [if_pos hcomplete] at hsince
      cases hsince
    · rename_i hcomplete
      rw [if_neg hcomplete] at hsince
      rcases hevidence at_ ha with ha | ⟨rfl, hresponsive⟩
      · exact h.suspect at_ ha since hsince
      · rw [(hc hresponsive v rfl).1] at hsince
        cases hsince

theorem sound_step {w : Watch ν} (hstale : 0 ≤ setting.staleMs) (h : Sound setting id w) (hc : Clear setting id w call) :
    Sound setting id (step setting id w call) := by
  obtain ⟨now, op⟩ := call
  obtain ⟨⟨hnow, hcompleted⟩, hhears, hcommits⟩ := hc
  dsimp only at hnow hcompleted hhears hcommits
  -- What was known of the device before, or would be if it were new.
  have hbefore : Recent setting w.clock w.trace ((w.inventory.vitals id).getD (.new now)) := by
    cases hv : w.inventory.vitals id with
    | none => exact .new (h.1 hv)
    | some v => exact h.2 v hv
  unfold Sound step
  dsimp only
  by_cases hh : hears setting id now w.inventory op
  · rw [operate_hears hh]
    refine ⟨nofun, fun v hv => ?_⟩
    obtain rfl := Option.some.inj hv
    have hfollow : follow setting id now w.inventory op w.trace = { w.trace with heardAt := some now, failures := 0 } := by
      simp [follow, hh]
    rw [hfollow]
    refine hbefore.heard hnow hstale ?_
    cases hv : w.inventory.vitals id with
    | none => exact ⟨rfl, rfl, nofun⟩
    | some v => exact hhears hh v hv
  · rw [Bool.not_eq_true] at hh
    cases hr : commits setting id now w.inventory op with
    | none =>
      obtain ⟨hnone, hw⟩ := operate_worsens setting id now w.inventory op hh hr
      have hfollow : follow setting id now w.inventory op w.trace =
          { w.trace with failures := w.trace.failures + if fails id w.inventory op then 1 else 0 } := by
        simp [follow, hh, hr]
      rw [hfollow]
      exact ⟨fun hv => h.1 (hnone hv), fun v hv => hbefore.worsens (hw v hv) hnow⟩
    | some report =>
      rw [(operate_commits hr).2]
      refine ⟨nofun, fun v hv => ?_⟩
      obtain rfl := Option.some.inj hv
      have hfails : fails id w.inventory op = false := by
        cases op with
        | liveness => cases hr
        | _ => rfl
      have hfollow : follow setting id now w.inventory op w.trace =
          if report.responsive then { w.trace with answeredAt := some report.completedAt, failures := 0 } else w.trace := by
        cases hresponsive : report.responsive <;> simp [follow, hh, hr, hresponsive, hfails, Option.filter]
      rw [hfollow]
      refine hbefore.answered hnow hstale (hcompleted report hr) ?_
      have hclears := hcommits report hr
      cases hv : w.inventory.vitals id with
      | some v => rwa [hv] at hclears
      | none =>
        unfold InspectionReport.Clears at hclears ⊢
        split at hclears
        · rename_i hcomplete
          rwa [if_pos hcomplete]
        · rename_i hcomplete
          rw [if_neg hcomplete]
          rintro - v ⟨⟩
          refine ⟨rfl, (hcompleted report hr).trans ?_⟩
          exact Int.le_add_of_nonneg_right hstale

theorem sound_init {w : Watch ν} (h : init setting id w) : Sound setting id w := by
  have hnone : w.trace.evidence = [] := by rw [h.2]; rfl
  refine ⟨fun _ => hnone, fun v hv => ⟨?_, by simp [hnone], by simp [hnone], by simp [hnone]⟩⟩
  rw [h.2, show w.inventory.vitals id = some v from hv]
  exact le_rfl

theorem sound {w : Watch ν} (hstale : 0 ≤ setting.staleMs) (h : ((system setting id).when (Clear setting id)).Reachable w) :
    Sound setting id w := by
  refine h.invariant (fun _ => sound_init) ?_
  rintro w call w' hw ⟨hc, rfl⟩
  exact sound_step hstale hw hc

end Watch

theorem reconcileDevice_departs (d : Device ν)
    (h : (reconcileDevice setting now d).1.state = .departed ∧ d.state ≠ .departed ∨
      (reconcileDevice setting now d).1.inspectionGeneration ≠ d.inspectionGeneration) :
    2 ≤ d.failedLivenessRounds ∧ ∃ since, (reconcileDevice setting now d).1.suspectSince = some since ∧
      setting.departureGraceMs ≤ now - since := by
  unfold reconcileDevice at h ⊢
  split at h
  · rcases h with ⟨hd, hn⟩ | hn
    · exact absurd hd hn
    · exact absurd rfl hn
  · rename_i hstate
    rw [not_or] at hstate
    have hstale : (goStale setting now d).state ≠ .departed ∧
        (goStale setting now d).inspectionGeneration = d.inspectionGeneration ∧
        (goStale setting now d).failedLivenessRounds = d.failedLivenessRounds := by
      unfold goStale
      dsimp only
      split
      · exact ⟨nofun, rfl, rfl⟩
      · exact ⟨hstate.2, rfl, rfl⟩
    rw [if_neg (not_or.mpr hstate)]
    dsimp only at h ⊢
    generalize goStale setting now d = stale at h hstale ⊢
    unfold depart at h ⊢
    split at h
    · rename_i hgone
      rw [if_pos hgone]
      obtain ⟨since, hsince, hgrace⟩ := (Option.any_eq_true _ _).mp hgone.1
      exact ⟨hstale.2.2 ▸ hgone.2, since, hsince, of_decide_eq_true hgrace⟩
    · rcases h with ⟨hd, _⟩ | hn
      · exact absurd hd hstale.1
      · exact absurd hstale.2.1 hn

/-- No device departs, and no inspection of it is superseded by that, on what is
older than its last announcement or its last answer. -/
theorem departed_outlasted {w : Watch ν} (hstale : 0 ≤ setting.staleMs)
    (h : ((Watch.system setting id).when (Watch.Clear setting id)).Reachable w) (hnow : w.clock ≤ now)
    (hd : w.inventory.device id = some d) (hd' : (reconcile setting now w.inventory).device id = some d')
    (hdeparts : d'.state = .departed ∧ d.state ≠ .departed ∨ d'.inspectionGeneration ≠ d.inspectionGeneration) :
    Watch.Outlasted setting now w d' := by
  rw [reconcile_device, hd, Option.map_some] at hd'
  obtain rfl := Option.some.inj hd'
  obtain ⟨hfailed, since, hsince, hgrace⟩ := reconcileDevice_departs d hdeparts
  have hrecent := (Watch.sound hstale h).2 d.vitals (by rw [Inventory.vitals, hd]; rfl)
  refine ⟨hfailed.trans hrecent.failed, since, hsince, hgrace, fun at_ ha => ?_⟩
  exact (hrecent.worsens (reconcileDevice_worsens setting now d) hnow).suspect at_ ha since hsince

-- A camera that returns

def tells (kind : AnnouncementKind) (messageId : String) (sequence : AppSequence) : Operation Unit :=
  let a := hello "eth0" messageId (some sequence)
  .observe { a.message with kind } a.message a.incoming

def leaving : List (Int × Operation Unit) :=
  [(0, tells .hello "urn:uuid:1" ⟨"1", none, "1"⟩), (1000, tells .bye "urn:uuid:2" ⟨"1", none, "2"⟩),
    (2000, .liveness "urn:uuid:camera" 1 false true), (3000, .liveness "urn:uuid:camera" 2 false true)]

def returning : List (Int × Operation Unit) :=
  leaving ++ [(65000, .reconcile), (70000, tells .hello "urn:uuid:3" ⟨"2", none, "1"⟩)]

def watched (calls : List (Int × Operation Unit)) : Watch Unit :=
  calls.foldl (Watch.step plain "urn:uuid:camera") ⟨{}, 0, {}⟩

def fate (now : Int) (w : Watch Unit) : Option (DeviceState × Option DeviceState) :=
  (w.inventory.device "urn:uuid:camera").map fun d =>
    (d.state, ((reconcile plain now w.inventory).device "urn:uuid:camera").map (·.state))

instance (w : Watch Unit) (call : Int × Operation Unit) : Decidable (Watch.Timely plain "urn:uuid:camera" w call) :=
  inferInstanceAs (Decidable (_ ∧ _))

instance (now : Int) (v : Vitals) : Decidable (v.Clear plain now) := inferInstanceAs (Decidable (_ ∧ _ ∧ _))

instance (t : Trace) (vitals : Option Vitals) (report : InspectionReport Unit) :
    Decidable (report.Clears plain t vitals) :=
  inferInstanceAs (Decidable (if report.complete then ∀ at_ ∈ t.evidence, at_ ≤ report.completedAt + plain.staleMs
    else report.responsive → ∀ v ∈ vitals, v.suspectSince = none ∧ report.completedAt ≤ v.staleAt plain))

instance (w : Watch Unit) (call : Int × Operation Unit) : Decidable (Watch.Clear plain "urn:uuid:camera" w call) :=
  inferInstanceAs (Decidable (_ ∧ (_ → _) ∧ _))

theorem watched_reachable {ok : Watch Unit → Int × Operation Unit → Prop} [∀ w call, Decidable (ok w call)]
    (calls : List (Int × Operation Unit))
    (h : System.follows (Watch.step plain "urn:uuid:camera") ok ⟨{}, 0, {}⟩ calls) :
    ((Watch.system plain "urn:uuid:camera").when ok).Reachable (watched calls) :=
  System.Reachable.follows calls _ (.start ⟨.inl rfl, rfl⟩) h

theorem fate_eq {now : Int} {w : Watch Unit} {a b : DeviceState} (h : fate now w = some (a, some b)) :
    ∃ d d', w.inventory.device "urn:uuid:camera" = some d ∧ d.state = a ∧
      (reconcile plain now w.inventory).device "urn:uuid:camera" = some d' ∧ d'.state = b := by
  obtain ⟨d, hd, h⟩ := Option.map_eq_some_iff.mp h
  obtain ⟨ha, hb⟩ := Prod.mk.inj h
  obtain ⟨d', hd', hb⟩ := Option.map_eq_some_iff.mp hb
  exact ⟨d, d', hd, ha, hd', hb⟩

theorem departed_outlasted_leaving : ∃ d', (reconcile plain 65000 (watched leaving).inventory).device "urn:uuid:camera" = some d' ∧
    Watch.Outlasted plain 65000 (watched leaving) d' := by
  obtain ⟨d, d', hd, ha, hd', hb⟩ := fate_eq (show fate 65000 (watched leaving) = some (.suspect, some .departed) by decide)
  refine ⟨d', hd', departed_outlasted (by decide) (watched_reachable leaving (by decide)) (by decide) hd hd' (.inl ⟨hb, ?_⟩)⟩
  rw [ha]
  decide

/-- The camera has announced itself again, and the next round drops it for what
was held against it before. -/
theorem departed_returning : ¬∀ (w : Watch Unit) (now : Int) (d d' : Device Unit),
    ((Watch.system plain "urn:uuid:camera").when (Watch.Timely plain "urn:uuid:camera")).Reachable w → w.clock ≤ now →
    w.inventory.device "urn:uuid:camera" = some d →
    (reconcile plain now w.inventory).device "urn:uuid:camera" = some d' →
    d'.state = .departed → d.state ≠ .departed → Watch.Outlasted plain now w d' := by
  intro h
  obtain ⟨d, d', hd, ha, hd', hb⟩ :=
    fate_eq (show fate 70001 (watched returning) = some (.candidate, some .departed) by decide)
  obtain ⟨hfailures, _⟩ := h (watched returning) 70001 d d' (watched_reachable returning (by decide)) (by decide) hd hd' hb
    (by rw [ha]; decide)
  exact absurd hfailures (by decide)

end WotAv.Discovery
