import WotAv.Discovery.Queue

/-!
# No inspection is lost

In a run whose datagrams supersede inspections only of devices whose job still
waits or inspects a generation, an announcement that does so is followed by an
inspection of the device, or by a diagnostic that tells why there is none.
-/

namespace WotAv.Discovery

open WotAv.Lib

variable {ν : Type}

namespace Inspections

variable {setting : EngineSetting ν} {now : Int} {e e' e'' : Inspections ν} {i j : Nat} {key : JobKey} {id : String}
  {job : InspectionJob} {f : InspectionJob → InspectionJob}

-- Steps

structure Inv (setting : EngineSetting ν) (e : Inspections ν) : Prop where
  core : Core setting e
  busy : Busy setting e
  fresh : e.state = .starting → ∀ id, pending id e.log = false
  covered : e.state = .running → ∀ id, pending id e.log → Covered e id

theorem enqueue_inv (setting : EngineSetting ν) (now : Int) (h : Inv setting e) (key : JobKey) :
    Inv setting (enqueue setting now key e) := by
  have hasked := enqueue_asked setting now h.core key
  refine ⟨hasked.core, hasked.busy h.busy, fun hstate id => ?_, fun hstate id hp => ?_⟩
  · have hfresh := h.fresh (hasked.state ▸ hstate) id
    rw [Bool.eq_false_iff] at hfresh ⊢
    exact fun hp => hfresh (hasked.log id hp)
  · have hcovered := h.covered (hasked.state ▸ hstate) id (hasked.log id hp)
    by_cases hk : key = .device id
    · exact hasked.covers id hk (.inr hcovered) hp
    · exact (hasked.others id hk).covered hp hcovered

theorem enqueueAll_inv (setting : EngineSetting ν) (now : Int) (keys : List JobKey) :
    ∀ {e : Inspections ν}, Inv setting e → Inv setting (enqueueAll setting now keys e) := by
  induction keys with
  | nil => exact fun h => h
  | cons key keys ih => exact fun h => ih (enqueue_inv setting now h key)

theorem Inv.receiver (h : Inv setting e) {r : Receiver ν} (hr : Ahead e.receiver.inventory r.inventory) (round : Int) :
    Inv setting { e with receiver := r, round } where
  core := h.core.congr (h.core.sound.congr rfl rfl rfl rfl) (fun _ job hjob => .inr ⟨job, hjob, rfl, rfl⟩) hr fun _ hp => hp
  busy := h.busy
  fresh := h.fresh
  covered := h.covered

theorem reconcile_inv (setting : EngineSetting ν) (now : Int) (h : Inv setting e) : Inv setting (reconcile setting now e) := by
  unfold reconcile
  split
  · exact h
  · have hahead : Ahead e.receiver.inventory (Discovery.reconcile setting.inventory now e.receiver.inventory) :=
      operate_ahead setting.inventory now e.receiver.inventory .reconcile
    have hreconciled := h.receiver (r := { e.receiver with
      inventory := Discovery.reconcile setting.inventory now e.receiver.inventory }) hahead (max now (e.round + 1))
    exact enqueueAll_inv setting now _ (enqueueAll_inv setting now _ hreconciled)

theorem inspect_inv (setting : EngineSetting ν) (now : Int) (h : Inv setting e) (id : String) :
    Inv setting (inspect setting now id e) := by
  unfold inspect
  split
  · exact enqueue_inv setting now h _
  · exact h

theorem Inv.goesOn (h : Inv setting e) {r : Receiver ν} (hr : Ahead e.receiver.inventory r.inventory)
    (hjob : e.heap[i]? = some job) (hactive : job.phase.active) (hnext : (f job).phase.active)
    (hsettlements : (f job).settlements = (f job).phase.over.toNat)
    (hf : (f job).key = job.key ∧ (f job).generation = job.generation ∧ (f job).requeue = job.requeue) :
    Inv setting ({ e with receiver := r }.put i f) := by
  have hphase (p : JobPhase) (hp : p.active) : p ≠ .gone ∧ p ≠ .queued := by
    constructor <;> rintro rfl <;> cases hp
  have hreceiver := h.receiver hr e.round
  have hsound : Sound setting ({ e with receiver := r }.put i f) :=
    hreceiver.core.sound.put hjob hf.1 (hphase _ hactive).1 (hphase _ hnext).1
      (iff_of_false (hphase _ hnext).2 (hphase _ hactive).2) (hnext.trans hactive.symm) hsettlements
  refine ⟨hreceiver.core.put hjob hsound rfl hf.1 hf.2.1 (.refl _) fun _ hp => hp, h.busy, h.fresh, fun hstate id hp => ?_⟩
  obtain ⟨j, other, hj, hother, hwaits⟩ := h.covered hstate id hp
  by_cases hij : i = j
  · subst hij
    obtain rfl := Option.some.inj (hjob.symm.trans hother)
    refine ⟨i, f job, hj, ?_, .inr ?_⟩
    · rw [put, getElem?_modify, if_pos rfl]
      change e.heap[i]?.map f = _
      rw [hjob]
      rfl
    · rw [hf.2.2]
      exact hwaits.resolve_left (hphase _ hactive).2
  · refine ⟨j, other, hj, ?_, hwaits⟩
    rw [put, getElem?_modify, if_neg hij]
    exact hother

theorem advance_inv (h : Inv setting e) {from_ : JobPhase → Bool} (hactive : ∀ p, from_ p → p.active ∧ p.over = false)
    (hnext : ∀ job, from_ job.phase → job.settlements = 0 → (f job).phase.active ∧
      (f job).settlements = (f job).phase.over.toNat ∧
      (f job).key = job.key ∧ (f job).generation = job.generation ∧ (f job).requeue = job.requeue) :
    Inv setting (e.advance i from_ f) := by
  unfold advance
  split
  · rename_i hany
    obtain ⟨job, hjob, hfrom⟩ := (Option.any_eq_true _ _).mp hany
    obtain ⟨hphase, hover⟩ := hactive _ hfrom
    have hsettlements := h.core.sound.settlements i job hjob
    rw [hover] at hsettlements
    obtain ⟨hnextPhase, hs, hf⟩ := hnext job hfrom hsettlements
    exact h.goesOn (.refl _) hjob hphase hnextPhase hs hf
  · exact h

theorem reported_inv (setting : EngineSetting ν) (now : Int) (h : Inv setting e) (i : Nat) (report : InspectionReport ν)
    (confirmedTimeout : Bool) : Inv setting (reported setting now i report confirmedTimeout e) := by
  unfold reported
  split
  · exact h
  · rename_i job hjob
    split
    · rename_i token round hphase
      have hactive : job.phase.active := by rw [hphase]; rfl
      have hsettlements : job.settlements = 0 := by
        rw [h.core.sound.settlements i job hjob, hphase]
        rfl
      split
      · exact h.goesOn (.refl _) hjob hactive rfl hsettlements ⟨rfl, rfl, rfl⟩
      · split
        · dsimp only
          refine h.goesOn (r := { e.receiver with inventory := _ }) ?_ hjob hactive rfl hsettlements ⟨rfl, rfl, rfl⟩
          refine Ahead.trans ?_ (operate_ahead setting.inventory now _ .reconcile)
          split
          · exact (operate_ahead setting.inventory now e.receiver.inventory (.commitInspection _ report)).trans
              (liveness_grows _ _ _ _ _)
          · exact operate_ahead setting.inventory now e.receiver.inventory (.commitInspection _ report)
        · split
          · exact h
          · refine h.goesOn (r := { e.receiver with inventory := _ }) ?_ hjob hactive rfl hsettlements ⟨rfl, rfl, rfl⟩
            exact operate_ahead _ _ _ _
        · exact h
    · exact h

theorem discard_core (h : Core setting e) (hjob : e.heap[i]? = some job) (hphase : job.phase = .settled) :
    Core setting (e.discard i job) := by
  have hpresent : job.phase ≠ .gone := by rw [hphase]; nofun
  have hworking : 0 < e.workers := by
    rw [h.sound.workers, List.countP_pos_iff]
    exact ⟨job, List.mem_of_getElem? hjob, by rw [hphase]; rfl⟩
  have hconcurrent := h.sound.concurrent
  refine h.put hjob (h.sound.update hjob rfl rfl hpresent (if_pos rfl).symm (fun j => ?_) h.sound.nodup ?_ ?_ h.sound.waiting ?_)
    rfl rfl rfl (.refl _) fun _ hp => hp
  · split
    · rename_i hij
      subst hij
      refine iff_of_false (fun hmem => ?_) nofun
      obtain ⟨other, hother, hqueued⟩ := (h.sound.queued i).mp hmem
      obtain rfl := Option.some.inj (hjob.symm.trans hother)
      rw [hphase] at hqueued
      cases hqueued
    · exact Iff.rfl
  · rw [hphase]
    exact Nat.sub_add_cancel hworking
  · exact (Nat.sub_le _ _).trans hconcurrent
  · change job.settlements = 1
    rw [h.sound.settlements i job hjob, hphase]
    rfl

theorem discard_kept (h : Core setting e) (hjob : e.heap[i]? = some job) (hne : job.key ≠ .device id) : Kept id e (e.discard i job) := by
  refine fun hp => ⟨hp, rfl, AList.lookup_erase_ne (Ne.symm hne), fun j hj => ?_⟩
  rw [discard, put, getElem?_modify, if_neg (h.sound.ne hjob hne hj)]

theorem discard_ready (hk : job.key = .device id) : Ready (e.discard i job) id := by
  intro j other hj
  rw [discard, ← hk, AList.lookup_erase] at hj
  cases hj

theorem remove_inv (setting : EngineSetting ν) (now : Int) (h : Inv setting e) (i : Nat) : Inv setting (remove setting now i e) := by
  unfold remove
  split
  · exact h
  · rename_i job hjob
    split
    · exact h
    · rename_i hphase
      rw [not_not] at hphase
      dsimp only
      have hcore := discard_core h.core hjob hphase
      have hlookup : e.jobs.lookup job.key = some i := h.core.sound.found i job hjob (by rw [hphase]; nofun)
      -- An announcement since the start of the job has asked for another.
      have hown : ∀ id, job.key = .device id → e.state = .running → pending id e.log → job.requeue := by
        intro id hk hstate hp
        obtain ⟨j, other, hj, hother, hwaits⟩ := h.covered hstate id hp
        rw [← hk, hlookup] at hj
        obtain rfl := Option.some.inj hj
        obtain rfl := Option.some.inj (hjob.symm.trans hother)
        exact hwaits.resolve_left (by rw [hphase]; nofun)
      have hasked := enqueue_asked setting now hcore job.key
      split
      · rename_i hrequeue
        have hgoes := pump_goes setting now hasked.core
        have hlog : ∀ id, pending id (pump setting now (enqueue setting now job.key (e.discard i job))).log →
            pending id (enqueue setting now job.key (e.discard i job)).log := fun id hp => (hgoes.kept id hp).1
        refine ⟨hgoes.core, pump_busy hasked.core (.inl (hasked.state.trans hrequeue.2)), fun hstate => ?_, fun _ id hp => ?_⟩
        · rw [hgoes.state, hasked.state, hrequeue.2] at hstate
          cases hstate
        · refine (hgoes.kept id).covered hp ?_
          by_cases hk : job.key = .device id
          · exact hasked.covers id hk (.inl ⟨hrequeue.2, discard_ready hk⟩) (hlog id hp)
          · have hkept := (discard_kept h.core hjob hk).trans (hasked.others id hk)
            exact hkept.covered (hlog id hp) (h.covered hrequeue.2 id (hkept (hlog id hp)).1)
      · rename_i hrequeue
        have hgoes := pump_goes setting now hcore
        refine ⟨hgoes.core, pump_busy hcore (h.busy.elim .inr fun hb => .inl hb.1), fun hstate id => ?_, fun hstate id hp => ?_⟩
        · rw [hgoes.state] at hstate
          rw [Bool.eq_false_iff]
          exact fun hp => Bool.eq_false_iff.mp (h.fresh hstate id) (hgoes.kept id hp).1
        · rw [hgoes.state] at hstate
          have hp' : pending id e.log := (hgoes.kept id hp).1
          by_cases hk : job.key = .device id
          · exact absurd ⟨hown id hk hstate hp', hstate⟩ hrequeue
          · exact ((discard_kept h.core hjob hk).trans (hgoes.kept id)).covered hp (h.covered hstate id hp')

-- Announcements

theorem pending_bumped (ids : List String) (log : List Note) : pending id (ids.map .bumped ++ log) = (decide (id ∈ ids) || pending id log) := by
  induction ids with
  | nil => rfl
  | cons other ids ih =>
    rw [List.map_cons, List.cons_append, pending, ih]
    by_cases ho : other = id
    · simp [ho]
    · simp [ho, Ne.symm ho]

theorem admitted_keeps (setting : EngineSetting ν) (now : Int) (ids : List String) : ∀ {e : Inspections ν}, Core setting e →
    Busy setting e → (e.state = .running → ∀ id, pending id e.log → Covered e id ∨
      id ∈ ids ∧ Ready e id ∧ (e.receiver.inventory.device id).any (due setting now)) →
    let e' := ids.foldl (fun e id => if (e.receiver.inventory.device id).any (due setting now) then
      enqueue setting now (.device id) e else e) e
    Core setting e' ∧ Busy setting e' ∧ e'.state = e.state ∧ (∀ id, pending id e'.log → pending id e.log) ∧
      (e.state = .running → ∀ id, pending id e'.log → Covered e' id) := by
  induction ids with
  | nil => exact fun hc hb h => ⟨hc, hb, rfl, fun _ hp => hp, fun hs id hp => (h hs id hp).resolve_right fun hm => nomatch hm.1⟩
  | cons other ids ih =>
    intro e hc hb h
    rw [List.foldl_cons]
    split
    · have hasked := enqueue_asked setting now hc (.device other)
      have hrest := ih hasked.core (hasked.busy hb) fun hstate id hp => ?_
      · obtain ⟨hc', hb', hs', hl', hcov'⟩ := hrest
        exact ⟨hc', hb', hs'.trans hasked.state, fun id hp => hasked.log id (hl' id hp), fun hs => hcov' (hasked.state.trans hs)⟩
      · rw [hasked.state] at hstate
        have hbefore := h hstate id (hasked.log id hp)
        by_cases hid : other = id
        · subst hid
          refine .inl (hasked.covers other rfl ?_ hp)
          exact hbefore.elim .inr fun hr => .inl ⟨hstate, hr.2.1⟩
        · have hkept := hasked.others id fun hk => hid (JobKey.device.inj hk)
          refine hbefore.imp (hkept.covered hp) fun ⟨hm, hr, hd⟩ => ⟨?_, hkept.ready hp hr, hkept.due hp hd⟩
          exact (List.mem_cons.mp hm).resolve_left (Ne.symm hid)
    · rename_i hnot
      refine ih hc hb fun hstate id hp => (h hstate id hp).imp_right fun ⟨hm, hr, hd⟩ => ⟨?_, hr, hd⟩
      refine (List.mem_cons.mp hm).resolve_left ?_
      rintro rfl
      exact hnot hd

theorem mem_bumped {at_ : Local} {datagram : Datagram} (h : id ∈ e.bumped setting now at_ datagram) :
    id ∈ (Discovery.receive setting.toReceiverSetting now e.receiver at_ datagram).2 ∧
      ∃ d, (Discovery.receive setting.toReceiverSetting now e.receiver at_ datagram).1.inventory.device id = some d ∧
        (e.receiver.inventory.device id).map (·.inspectionGeneration) ≠ some d.inspectionGeneration := by
  unfold bumped at h
  obtain ⟨hm, hd⟩ := List.mem_filter.mp h
  obtain ⟨d, hd, hg⟩ := (Option.any_eq_true _ _).mp hd
  exact ⟨hm, d, hd, by simpa using hg⟩

theorem receive_inv (setting : EngineSetting ν) (now : Int) (h : Inv setting e) {at_ : Local} {datagram : Datagram}
    (hcareful : e.Careful setting (now, .receive at_ datagram)) : Inv setting (receive setting now e at_ datagram) := by
  have hannounces := receive_announces setting.toReceiverSetting now e.receiver at_ datagram
  have hbumped (id : String) (hid : id ∈ e.bumped setting now at_ datagram) := mem_bumped hid
  have hcareful' (id : String) (hid : id ∈ e.bumped setting now at_ datagram) := hcareful id hid
  unfold receive
  generalize e.bumped setting now at_ datagram = ids at hbumped hcareful' ⊢
  generalize Discovery.receive setting.toReceiverSetting now e.receiver at_ datagram = r at hannounces hbumped ⊢
  dsimp only
  have hpending : ∀ id, pending id (ids.map .bumped ++ e.log) → id ∈ ids ∨ pending id e.log := by
    intro id hp
    rw [pending_bumped, Bool.or_eq_true, decide_eq_true_eq] at hp
    exact hp
  have hcore : Core setting { e with receiver := r.1, log := ids.map .bumped ++ e.log } := by
    refine ⟨h.core.sound.congr rfl rfl rfl rfl, fun i job id g hjob hk hg => hannounces.ahead.known (h.core.known i job id g hjob hk hg),
      fun id hp => (hpending id hp).elim (fun hid => ?_) fun hp => hannounces.ahead.isSome (h.core.held id hp)⟩
    obtain ⟨_, d, hd, _⟩ := hbumped id hid
    exact Option.isSome_iff_exists.mpr ⟨d, hd⟩
  obtain ⟨hcore', hbusy', hstate', hlog', hcovered'⟩ := admitted_keeps setting now r.2 hcore h.busy fun hstate id hp => by
    rcases hpending id hp with hid | hp
    · obtain ⟨hadmitted, d, hd, hg⟩ := hbumped id hid
      refine .inr ⟨hadmitted, fun i job hi hjob => ?_, ?_⟩
      · -- The job's generation is behind the new one.
        refine ((hcareful' id hid).2 i job hi hjob).imp_right fun hgeneration => ?_
        obtain ⟨g, hgen⟩ := Option.isSome_iff_exists.mp hgeneration
        obtain ⟨other, hother, hkey, _⟩ := h.core.sound.mapped _ i hi
        obtain rfl := Option.some.inj (hjob.symm.trans hother)
        obtain ⟨d₀, hd₀, hle⟩ := h.core.known i job id g hjob hkey hgen
        obtain ⟨d', hd', hgrows⟩ := hannounces.ahead id d₀ hd₀
        obtain rfl := Option.some.inj (hd.symm.trans hd')
        rw [hd₀, Option.map_some] at hg
        have hne : d₀.inspectionGeneration ≠ d.inspectionGeneration := fun he => hg (congrArg some he)
        exact ⟨g, d, hgen, hd, Nat.lt_of_le_of_lt hle (Nat.lt_of_le_of_ne hgrows hne)⟩
      · -- The device cannot be verified any more.
        have hstate : d.state ≠ .verified := by
          intro hv
          obtain ⟨d₀, hd₀, _, he⟩ := hannounces.lapsed id d hd hv
          exact hg (by rw [hd₀, Option.map_some, he])
        rw [show r.1.inventory.device id = some d from hd, Option.any_some, due]
        simp [hstate]
    · obtain ⟨i, job, hi, hjob, hwaits⟩ := h.covered hstate id hp
      exact .inl ⟨i, job, hi, hjob, hwaits⟩
  refine ⟨hcore', hbusy', fun hs id => ?_, fun hs => hcovered' (hstate' ▸ hs)⟩
  have hstarting : e.state = .starting := hstate'.symm.trans hs
  rw [Bool.eq_false_iff]
  intro hp
  rcases hpending id (hlog' id hp) with hid | hp
  · exact (hcareful' id hid).1 hstarting
  · exact Bool.eq_false_iff.mp (h.fresh hstarting id) hp

-- Runs

theorem drop_core {rest : List Nat} (h : Core setting e) (hqueue : e.queue = i :: rest) :
    Core setting { e.drop i with queue := rest } := by
  obtain ⟨job, hjob, hphase⟩ := (h.sound.queued i).mp (hqueue ▸ List.mem_cons_self)
  have hnodup : i ∉ rest ∧ rest.Nodup := List.nodup_cons.mp (hqueue ▸ h.sound.nodup)
  have hwaiting := h.sound.waiting
  rw [hqueue, List.length_cons] at hwaiting
  have hpresent : job.phase ≠ .gone := by rw [hphase]; nofun
  have hdropped : e.drop i = { e.put i (fun job => { job with phase := .gone, settlements := job.settlements + 1 }) with
      jobs := e.jobs.erase job.key } := by
    unfold drop
    rw [hjob]
  rw [hdropped]
  refine h.put hjob (h.sound.update (f := fun job => { job with phase := .gone, settlements := job.settlements + 1 }) hjob rfl rfl
    hpresent (if_pos rfl).symm (fun j => ?_) hnodup.2 ?_ h.sound.concurrent (Nat.le_of_succ_le hwaiting) ?_) rfl rfl rfl (.refl _)
    fun _ hp => hp
  · split
    · rename_i hij
      subst hij
      exact iff_of_false hnodup.1 nofun
    · rename_i hij
      rw [hqueue, List.mem_cons, or_iff_right (Ne.symm hij)]
  · rw [hphase]
    rfl
  · change job.settlements + 1 = 1
    rw [h.sound.settlements i job hjob, hphase]
    rfl

theorem drop_receiver (e : Inspections ν) (i : Nat) : (e.drop i).receiver = e.receiver := by
  unfold drop
  split <;> rfl

theorem drop_queue (e : Inspections ν) (i : Nat) (queue rest : List Nat) :
    { ({ e with queue } : Inspections ν).drop i with queue := rest } = { e.drop i with queue := rest } := by
  unfold drop
  dsimp only
  cases e.heap[i]? <;> rfl

theorem drops_core (rest : List Nat) : ∀ {e : Inspections ν}, Core setting { e with queue := rest } →
    Core setting { rest.foldl (fun e i => e.drop i) e with queue := [] } ∧
      (rest.foldl (fun e i => e.drop i) e).receiver = e.receiver := by
  induction rest with
  | nil => exact fun h => ⟨h, rfl⟩
  | cons i rest ih =>
    intro e h
    have hdropped := drop_core h rfl
    rw [drop_queue] at hdropped
    exact (ih hdropped).imp_right fun hr => hr.trans (drop_receiver e i)

theorem close_inv (h : Inv setting e) : Inv setting e.close := by
  unfold close
  split
  · exact h
  · obtain ⟨hcore, hreceiver⟩ := drops_core e.queue (e := e) h.core
    refine ⟨hcore.congr (hcore.sound.congr rfl rfl rfl rfl) (fun _ job hjob => .inr ⟨job, hjob, rfl, rfl⟩) ?_ fun _ hp => hp,
      .inl rfl, nofun, nofun⟩
    change Ahead (e.queue.foldl (fun e i => e.drop i) e).receiver.inventory e.receiver.inventory
    rw [hreceiver]
    exact .refl _

theorem step_inv (h : Inv setting e) {call : Int × Event ν} (hcareful : e.Careful setting call) : Inv setting (e.step setting call) := by
  obtain ⟨now, event⟩ := call
  cases event with
  | receive at_ datagram => exact receive_inv setting now h hcareful
  | inspect id => exact inspect_inv setting now h id
  | run =>
    unfold step
    dsimp only
    split
    · rename_i hstate
      refine ⟨h.core.congr (h.core.sound.congr rfl rfl rfl rfl) (fun _ job hjob => .inr ⟨job, hjob, rfl, rfl⟩) (.refl _) fun _ hp => hp,
        h.busy.imp_right fun hb => ⟨rfl, hb.2⟩, nofun, fun _ id hp => ?_⟩
      exact absurd hp (Bool.eq_false_iff.mp (h.fresh hstate id))
    · exact h
  | launch => exact enqueueAll_inv setting now _ h
  | probe => exact h.receiver (.refl _) _
  | reconcile => exact reconcile_inv setting now h
  | reported i report confirmedTimeout => exact reported_inv setting now h i report confirmedTimeout
  | failed i =>
    change Inv setting (e.failed i)
    unfold failed
    refine advance_inv (f := ({ · with phase := .finished })) h (fun p hp => ?_) fun job _ hs => ⟨rfl, hs, rfl, rfl, rfl⟩
    cases p with
    | inspecting token round => exact ⟨rfl, rfl⟩
    | _ => cases hp
  | saved i =>
    change Inv setting (e.saved i)
    unfold saved
    refine advance_inv (f := ({ · with phase := .finished })) h (fun p hp => ?_) fun job _ hs => ⟨rfl, hs, rfl, rfl, rfl⟩
    cases p with
    | idle | saving => exact ⟨rfl, rfl⟩
    | _ => cases hp
  | settle i =>
    change Inv setting (e.settle i)
    unfold settle
    refine advance_inv (f := fun job => { job with phase := .settled, settlements := job.settlements + 1 }) h (fun p hp => ?_)
      fun job _ hs => ⟨rfl, congrArg (· + 1) hs, rfl, rfl, rfl⟩
    cases p with
    | finished => exact ⟨rfl, rfl⟩
    | _ => cases hp
  | remove i => exact remove_inv setting now h i
  | close => exact close_inv h
  | other event _ => exact h.receiver (receiver_ahead setting.toReceiverSetting now e.receiver event) e.round

theorem init_inv (h : init setting e) : Inv setting e := by
  obtain ⟨inventory, -, rfl⟩ := h
  refine ⟨⟨⟨?_, ?_, ?_, .nil, rfl, Nat.zero_le _, Nat.zero_le _, ?_⟩, ?_, ?_⟩, .inl rfl, fun _ _ => rfl, nofun⟩
  · intro key i hi
    cases hi
  · intro i job hjob
    cases hjob
  · exact fun i => ⟨nofun, fun ⟨job, hjob, _⟩ => nomatch hjob⟩
  · intro i job hjob
    cases hjob
  · intro i job id g hjob
    cases hjob
  · intro id hp
    cases hp

theorem reachable_inv (h : ((system setting).when (Careful setting)).Reachable e) : Inv setting e := by
  refine h.invariant (P := Inv setting) (fun _ => init_inv) fun e call e' hi hs => ?_
  obtain ⟨hcareful, rfl⟩ : Careful setting e call ∧ e' = step setting e call := hs
  exact step_inv hi hcareful

-- Every run

structure Attentive (setting : EngineSetting ν) (e : Inspections ν) : Prop where
  single : ∀ (i j : Nat) (a b : InspectionJob), e.heap[i]? = some a → e.heap[j]? = some b → a.phase ≠ .gone → b.phase ≠ .gone →
    a.key = b.key → i = j
  concurrent : e.heap.countP (·.phase.active) ≤ setting.maxConcurrentInspections
  waiting : e.heap.countP (·.phase = .queued) ≤ setting.maxQueuedInspections
  settlements : ∀ job ∈ e.heap, job.settlements = job.phase.over.toNat
  working : ∀ job ∈ e.heap, job.phase = .queued → e.state = .running ∧
    e.heap.countP (·.phase.active) = setting.maxConcurrentInspections
  inspected : e.state = .running → ∀ id, (∀ job ∈ e.heap, job.key = .device id → job.phase = .gone) → pending id e.log = false

theorem length_places {α : Type} (p : α → Bool) (l : List α) :
    ((List.range l.length).filter fun i => (l[i]?).any p).length = l.countP p := by
  induction l using List.reverseRecOn with
  | nil => rfl
  | append_singleton l a ih =>
    have hbefore : (List.range l.length).filter (fun i => ((l ++ [a])[i]?).any p) =
        (List.range l.length).filter fun i => (l[i]?).any p := by
      refine List.filter_congr fun i hi => ?_
      rw [List.getElem?_append_left (List.mem_range.mp hi)]
    rw [List.length_append, List.length_singleton, List.range_succ, List.filter_append, hbefore, List.length_append, ih,
      List.countP_append]
    congr 1
    cases hp : p a <;> simp [hp]

theorem countP_queued (h : Sound setting e) : e.heap.countP (·.phase = .queued) = e.queue.length := by
  rw [← length_places]
  refine List.Perm.length_eq ((List.perm_ext_iff_of_nodup (List.nodup_range.filter _) h.nodup).mpr fun i => ?_)
  rw [h.queued i, List.mem_filter, List.mem_range, Option.any_eq_true]
  constructor
  · rintro ⟨_, job, hjob, hphase⟩
    exact ⟨job, hjob, by simpa using hphase⟩
  · rintro ⟨job, hjob, hphase⟩
    exact ⟨(List.getElem?_eq_some_iff.mp hjob).1, job, hjob, by simpa using hphase⟩

theorem Inv.attentive (h : Inv setting e) : Attentive setting e := by
  have hsound := h.core.sound
  refine ⟨fun i j a b ha hb hga hgb hk => ?_, ?_, ?_, fun job hjob => ?_, fun job hjob hphase => ?_, fun hstate id hgone => ?_⟩
  · have hi := hsound.found i a ha hga
    rw [hk, hsound.found j b hb hgb] at hi
    exact (Option.some.inj hi).symm
  · rw [← hsound.workers]
    exact hsound.concurrent
  · rw [countP_queued hsound]
    exact hsound.waiting
  · obtain ⟨i, hi⟩ := List.mem_iff_getElem?.mp hjob
    exact hsound.settlements i job hi
  · obtain ⟨i, hi⟩ := List.mem_iff_getElem?.mp hjob
    have hmem : i ∈ e.queue := (hsound.queued i).mpr ⟨job, hi, hphase⟩
    rw [← hsound.workers]
    rcases h.busy with hnil | ⟨hstate, hbusy⟩
    · rw [hnil] at hmem
      cases hmem
    · exact ⟨hstate, Nat.le_antisymm hsound.concurrent hbusy⟩
  · rw [Bool.eq_false_iff]
    intro hp
    obtain ⟨i, job, hi, hjob, _⟩ := h.covered hstate id hp
    obtain ⟨other, hother, hkey, hpresent⟩ := hsound.mapped _ i hi
    obtain rfl := Option.some.inj (hjob.symm.trans hother)
    exact hpresent (hgone job (List.mem_of_getElem? hjob) hkey)

theorem inspections_attended (h : ((system setting).when (Careful setting)).Reachable e) : Attentive setting e :=
  (reachable_inv h).attentive

end Inspections

-- An announcement while a job has no target

def watch : EngineSetting Unit where
  inventory := plain
  probeIntervalMs := 30000
  probeWindowMs := 3000
  maxDatagramsPerRound := 8
  maxPendingRequests := 8
  scopes := []
  inCidr _ _ := .ok true
  scopeMatches requested advertised := .ok (requested = advertised)
  maxConcurrentInspections := 1
  maxQueuedInspections := 4
  refreshMs := 60000
  seeds := []

def hall : Local := ⟨"eth0", .ipv4, "hall", "192.0.2.0/24"⟩

def greeting (messageId messageNumber : String) (xaddrs : List String) : Datagram where
  data := .ok {
    kind := .hello
    messageId
    relatesTo := none
    to_ := "urn:schemas-xmlsoap-org:ws:2005:04:discovery"
    sequence := some ⟨"1", none, messageNumber⟩
    entries := [⟨⟨"urn:uuid:camera", [], []⟩, [DEVICE], [], none, xaddrs, some messageNumber⟩]
    discoveryProxy := false }
  address := "192.0.2.7"
  family := .ipv4
  port := 3702

namespace Inspections

def greeted : List (Int × Event Unit) :=
  [(0, .run), (0, .other (.bind hall) rfl), (10, .receive hall (greeting "urn:uuid:1" "1" []))]

def missed : List (Int × Event Unit) :=
  greeted ++ [(20, .receive hall (greeting "urn:uuid:2" "2" ["http://192.0.2.7/onvif/device_service"])),
    (30, .saved 0), (30, .settle 0), (30, .remove 0)]

def watched (calls : List (Int × Event Unit)) : Inspections Unit := calls.foldl (step watch) {}

theorem watched_init : init watch (watched []) := ⟨{}, .inl rfl, rfl⟩

theorem watched_next {e : Inspections Unit} (h : ((system watch).when (Careful watch)).Reachable e) (call : Int × Event Unit)
    (hc : e.Careful watch call) : ((system watch).when (Careful watch)).Reachable (e.step watch call) := h.next ⟨hc, rfl⟩

theorem greeted_reachable : ((system watch).when (Careful watch)).Reachable (watched greeted) := by
  have hrunning := watched_next (watched_next (.start watched_init) (0, .run) trivial) (0, .other (.bind hall) rfl) trivial
  refine watched_next hrunning (10, .receive hall (greeting "urn:uuid:1" "1" [])) fun id _ => ⟨by decide, fun i job hi => ?_⟩
  cases hi

theorem inspections_attended_greeted : (∃ job ∈ (watched greeted).heap, job.phase = .idle) ∧ (watched greeted).Attentive watch :=
  ⟨by decide, inspections_attended greeted_reachable⟩

/-- The camera is not inspected, and nothing tells why. -/
theorem inspections_missed : ¬∀ e, (system watch).Reachable e → e.Attentive watch := by
  intro h
  have hreachable : (system watch).Reachable (watched missed) := ⟨watched [], missed, watched_init, System.run_ofFun.mpr rfl⟩
  exact absurd ((h _ hreachable).inspected (by decide) "urn:uuid:camera" (by decide)) (by decide)

end Inspections

end WotAv.Discovery
