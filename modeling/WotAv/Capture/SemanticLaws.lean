import WotAv.Capture.Semantic

/-!
# Snapshots are fresh, whole and within the budget

The adapter counts what it has lent, and its cache is the last frame that was
accepted since it was last left without any.
-/

namespace WotAv.Capture

open WotAv.Lib Native
open WotAv.Lib.Json (get)

-- What the calls do

theorem u64_origin {n m : Nat} (h : u64 (.string (decimal n)) = some m) : m = n := by
  simp only [u64, decimal, String.toList_ofList, intChars_nat, Nat.ofDigitChars_ten_toDigits] at h
  split at h
  · exact (Option.some.inj h).symm
  · cases h

def SemanticAdapter.cacheBytes (adapter : SemanticAdapter) : Nat := (adapter.cache.map (·.data.length)).getD 0

variable {adapter adapter' : SemanticAdapter} {clock : Nat}

theorem configureProfile_ok {output : Document → Except AdapterFault Unit} {profile : Profile} {modeId : String}
    (h : adapter.configureProfile output profile modeId = .ok adapter') :
    adapter' = ({ adapter with profile := some profile, modeId := some modeId }).unavailable sourceUnavailable := by
  simp only [SemanticAdapter.configureProfile, bind_eq_ok, pure_eq_ok] at h
  obtain ⟨_, -, _, -, _, -, _, -, h⟩ := h
  exact h.symm

theorem accept_ok {frame : CaptureFrame} {acceptance : Acceptance}
    (h : adapter.accept frame clock = .ok (adapter', acceptance)) :
    (∃ generation dropped, acceptance = .gap generation dropped ∧
      adapter' = { adapter with dropped := adapter.dropped + 1 }) ∨
    (∃ origin, acceptance = .accepted ∧ u64 (.string frame.freshnessOriginMonotonicNs) = some origin ∧
      text? "modeId" frame.metadata = adapter.modeId ∧
      frame.data.length + adapter.inFlightBytes ≤ adapter.limits.value .maxQueuedBytes ∧
      adapter' = { adapter with cache := some ⟨frame.data, origin⟩, unavailableFault := none }) := by
  simp only [SemanticAdapter.accept, bind_eq_ok, AdapterFault.demand_eq_ok, AdapterFault.need_eq_ok] at h
  obtain ⟨_, ⟨-, hmode, -⟩, origin, horigin, size, -, _, -, _, -, h⟩ := h
  split at h
  · obtain ⟨rfl, rfl⟩ := Prod.mk.inj (pure_eq_ok.mp h)
    exact .inl ⟨_, _, rfl, rfl⟩
  · rename_i hroom
    obtain ⟨rfl, rfl⟩ := Prod.mk.inj (pure_eq_ok.mp h)
    exact .inr ⟨origin, rfl, horigin, hmode, by omega, rfl⟩

variable {lease : Lease}

theorem acquireSnapshot_ok {subscriber : String}
    (h : adapter.acquireSnapshot subscriber clock = .ok (adapter', lease)) :
    ∃ cache, adapter.cache = some cache ∧ cache.origin ≤ clock ∧
      clock ≤ cache.origin + adapter.limits.value .maxSnapshotAgeMs * 1000000 ∧
      subscriber ∉ adapter.inFlight.map Prod.fst ∧
      adapter.inFlight.length < min (adapter.limits.value .maxSubscribers) (adapter.limits.value .maxQueuedFrames) ∧
      adapter.inFlightBytes + cache.data.length + cache.data.length ≤ adapter.limits.value .maxQueuedBytes ∧
      adapter' = { adapter with
        inFlight := adapter.inFlight ++ [(subscriber, cache.data.length)]
        inFlightBytes := adapter.inFlightBytes + cache.data.length } ∧
      lease = { subscriber, data := cache.data, size := cache.data.length } := by
  simp only [SemanticAdapter.acquireSnapshot, bind_eq_ok, AdapterFault.demand_eq_ok, AdapterFault.need_eq_ok,
    pure_eq_ok] at h
  obtain ⟨_, -, cache, hcache, _, ⟨hlow, hhigh⟩, _, ⟨hfresh, hfew⟩, _, hroom, h⟩ := h
  obtain ⟨rfl, rfl⟩ := Prod.mk.inj h
  exact ⟨cache, hcache, by omega, by omega, hfresh, hfew, hroom, rfl, rfl⟩

-- Leases

def live (leases : List Lease) : List Lease := leases.filter (!·.released)

theorem live_append (leases : List Lease) (lease : Lease) (h : lease.released = false) :
    live (leases ++ [lease]) = live leases ++ [lease] := by
  simp [live, h]

theorem mem_live {leases : List Lease} {j : Nat} (h : leases[j]? = some lease)
    (hlive : lease.released = false) : lease ∈ live leases := by
  simp [live, hlive, List.mem_of_getElem? h]

theorem single_apart {first : Lease} {lent : List Lease} (h : ((first :: lent).map (·.subscriber)).Nodup) :
    ∀ other ∈ lent, other.subscriber ≠ first.subscriber := by
  intro other hother hsame
  exact (List.nodup_cons.mp h).1 (List.mem_map.mpr ⟨other, hother, hsame⟩)

theorem single_filter {first : Lease} {lent : List Lease} (h : ((first :: lent).map (·.subscriber)).Nodup) :
    (first :: lent).filter (·.subscriber ≠ first.subscriber) = lent := by
  rw [List.filter_cons_of_neg (by simp)]
  exact List.filter_eq_self.mpr fun other hother => decide_eq_true (single_apart h other hother)

theorem live_release {leases : List Lease} {j : Nat} (h : leases[j]? = some lease)
    (hlive : lease.released = false) (hsingle : ((live leases).map (·.subscriber)).Nodup) :
    live (leases.set j { lease with released := true }) =
      (live leases).filter (·.subscriber ≠ lease.subscriber) := by
  induction leases generalizing j with
  | nil => simp at h
  | cons first leases ih =>
    cases j with
    | zero =>
      obtain rfl : first = lease := by simpa using h
      have hrest : live (first :: leases) = first :: live leases := by simp [live, hlive]
      rw [hrest] at hsingle ⊢
      rw [single_filter hsingle]
      simp [live]
    | succ j =>
      have hat : leases[j]? = some lease := by simpa using h
      cases hfirst : first.released with
      | true =>
        have hrest : live (first :: leases) = live leases := by simp [live, hfirst]
        rw [hrest] at hsingle ⊢
        rw [← ih hat hsingle]
        simp [live, hfirst]
      | false =>
        have hrest : live (first :: leases) = first :: live leases := by simp [live, hfirst]
        rw [hrest] at hsingle ⊢
        have hne := single_apart hsingle lease (mem_live hat hlive)
        rw [List.filter_cons_of_pos (by simpa using hne.symm), ← ih hat (List.nodup_cons.mp hsingle).2]
        simp [live, hfirst]

theorem sum_release {lent : List Lease} (hmem : lease ∈ lent)
    (hsingle : (lent.map (·.subscriber)).Nodup) :
    ((lent.filter (·.subscriber ≠ lease.subscriber)).map (·.size)).sum + lease.size = (lent.map (·.size)).sum := by
  induction lent with
  | nil => cases hmem
  | cons first lent ih =>
    rcases List.mem_cons.mp hmem with rfl | hmem
    · rw [single_filter hsingle, List.map_cons, List.sum_cons, Nat.add_comm]
    · have hne := single_apart hsingle lease hmem
      rw [List.filter_cons_of_pos (by simpa using hne.symm), List.map_cons, List.sum_cons, List.map_cons,
        List.sum_cons, ← ih hmem (List.nodup_cons.mp hsingle).2, Nat.add_assoc]

structure Lent (adapter : SemanticAdapter) (leases : List Lease) : Prop where
  entries : adapter.inFlight = (live leases).map fun lease => (lease.subscriber, lease.size)
  bytes : adapter.inFlightBytes = ((live leases).map (·.size)).sum
  single : ((live leases).map (·.subscriber)).Nodup
  few : (live leases).length ≤ min (adapter.limits.value .maxSubscribers) (adapter.limits.value .maxQueuedFrames)
  whole : ∀ lease ∈ leases, lease.size = lease.data.length
  budget : adapter.cacheBytes + adapter.inFlightBytes ≤ adapter.limits.value .maxQueuedBytes

variable {leases : List Lease}

section
variable (h : Lent adapter leases)
include h

theorem Lent.congr (hlimits : adapter'.limits = adapter.limits)
    (hentries : adapter'.inFlight = adapter.inFlight) (hbytes : adapter'.inFlightBytes = adapter.inFlightBytes)
    (hbudget : adapter'.cacheBytes + adapter.inFlightBytes ≤ adapter.limits.value .maxQueuedBytes) :
    Lent adapter' leases where
  entries := hentries ▸ h.entries
  bytes := hbytes ▸ h.bytes
  single := h.single
  few := hlimits ▸ h.few
  whole := h.whole
  budget := by rwa [hbytes, hlimits]

theorem Lent.unavailable (fault : AdapterFault) :
    Lent (adapter.unavailable fault) leases := by
  refine h.congr rfl rfl rfl ?_
  have hbudget := h.budget
  simp only [SemanticAdapter.cacheBytes, SemanticAdapter.unavailable, Option.map_none, Option.getD_none]
  omega

theorem Lent.configureProfile {output : Document → Except AdapterFault Unit} {profile : Profile} {modeId : String} (hok : adapter.configureProfile output profile modeId = .ok adapter') :
    Lent adapter' leases := by
  obtain rfl := configureProfile_ok hok
  have hkept : Lent { adapter with profile := some profile, modeId := some modeId } leases :=
    h.congr rfl rfl rfl h.budget
  exact hkept.unavailable _

theorem Lent.accept {frame : CaptureFrame} {acceptance : Acceptance}
    (hok : adapter.accept frame clock = .ok (adapter', acceptance)) : Lent adapter' leases := by
  obtain ⟨_, _, -, rfl⟩ | ⟨origin, -, -, -, hroom, rfl⟩ := accept_ok hok
  · exact h.congr rfl rfl rfl h.budget
  · exact h.congr rfl rfl rfl hroom

theorem Lent.acquireSnapshot {subscriber : String}
    (hok : adapter.acquireSnapshot subscriber clock = .ok (adapter', lease)) : Lent adapter' (leases ++ [lease]) := by
  obtain ⟨cache, hcache, -, -, hfresh, hfew, hroom, rfl, rfl⟩ := acquireSnapshot_ok hok
  have hlive := live_append leases { subscriber, data := cache.data, size := cache.data.length } rfl
  rw [h.entries, List.map_map] at hfresh
  rw [h.entries, List.length_map] at hfew
  constructor
  · simp [hlive, h.entries]
  · simp [hlive, h.bytes]
  · rw [hlive, List.map_append]
    refine List.nodup_append.mpr ⟨h.single, by simp, ?_⟩
    rintro a ha b hb rfl
    obtain rfl := List.mem_singleton.mp hb
    exact hfresh ha
  · rw [hlive, List.length_append]
    exact hfew
  · rintro lease hlease
    rcases List.mem_append.mp hlease with hlease | hlease
    · exact h.whole lease hlease
    · obtain rfl := List.mem_singleton.mp hlease
      rfl
  · simp only [SemanticAdapter.cacheBytes, hcache, Option.map_some, Option.getD_some]
    omega

theorem Lent.release {j : Nat} (hat : leases[j]? = some lease) :
    Lent (adapter.release lease).1 (leases.set j (adapter.release lease).2) := by
  unfold SemanticAdapter.release
  cases hreleased : lease.released with
  | true =>
    obtain ⟨hj, rfl⟩ := List.getElem?_eq_some_iff.mp hat
    simpa using h
  | false =>
    have hlive := live_release hat hreleased h.single
    have hmem := mem_live hat hreleased
    have hsum := sum_release hmem h.single
    simp only [Bool.false_eq_true, if_false]
    constructor
    · simp only [hlive, h.entries, List.filter_map]
      rfl
    · simp only [hlive, h.bytes]
      omega
    · rw [hlive]
      exact h.single.sublist (List.filter_sublist.map _)
    · rw [hlive]
      exact (List.length_filter_le _ _).trans h.few
    · intro other hother
      rcases List.mem_or_eq_of_mem_set hother with hother | rfl
      · exact h.whole other hother
      · exact h.whole lease (List.mem_of_getElem? hat)
    · have hbudget := h.budget
      simp only [SemanticAdapter.cacheBytes] at hbudget ⊢
      omega

end

-- Frames

/-- The cache is the last frame accepted, of the mode that is configured, and
its origin is no later than its request. -/
def Fresh (adapter : SemanticAdapter) (notes : List Note) : Prop :=
  ∀ cache, adapter.cache = some cache →
    ∃ before issued, notes = before ++ [.accepted adapter.modeId cache.data issued] ∧ cache.origin ≤ issued

def Stage.Timed : Stage → Prop
  | .reading origin issued | .returned _ origin issued => origin ≤ issued
  | _ => True

structure World.Sound (w : World) : Prop where
  lent : Lent w.adapter w.leases
  fresh : Fresh w.adapter w.notes
  timed : ∀ pump ∈ w.pumps, pump.stage.Timed

variable {w w' : World} {pump : Pump} {i : Nat}

theorem Pump.read_timed {origin issued : Nat} (h : origin ≤ issued) : (pump.read origin issued).stage.Timed := by
  unfold Pump.read
  split
  · trivial
  · exact h

theorem Pump.answered_timed {origin issued : Nat} {reply : Except SourceFault (Members × Bytes)}
    (h : origin ≤ issued) : (pump.answered origin issued reply).stage.Timed := by
  unfold Pump.answered
  split
  · exact h
  · trivial

theorem timed_set {pumps : List Pump} (h : ∀ p ∈ pumps, p.stage.Timed) (hp : pump.stage.Timed) :
    ∀ p ∈ pumps.set i pump, p.stage.Timed := by
  intro p hmem
  rcases List.mem_or_eq_of_mem_set hmem with hmem | rfl
  · exact h p hmem
  · exact hp

theorem fresh_unavailable (adapter : SemanticAdapter) (fault : AdapterFault) (notes : List Note) :
    Fresh (adapter.unavailable fault) notes := by
  rintro cache h
  cases h

namespace World

section
variable (h : w.Sound)
include h

theorem Sound.at? {clock : Nat} (hat : w.at? clock = some w') : w'.Sound := by
  unfold World.at? at hat
  split at hat
  · cases hat
    exact ⟨h.lent, h.fresh, h.timed⟩
  · cases hat

theorem Sound.finish (fault : Option AdapterFault) : (w.finish i pump fault).Sound where
  lent := h.lent.unavailable _
  fresh := fresh_unavailable _ _ _
  timed := timed_set h.timed trivial

theorem Sound.delivered {metadata : Members} {data : Bytes} {origin issued : Nat}
    (horigin : origin ≤ issued) : (w.delivered i pump metadata data origin issued).Sound := by
  unfold World.delivered
  split
  · exact h.finish _
  · rename_i adapter acceptance hok
    have hlent := h.lent.accept hok
    have htimed : ∀ p ∈ w.pumps.set i { pump with stage := .looping }, p.stage.Timed := timed_set h.timed trivial
    obtain ⟨_, _, rfl, rfl⟩ | ⟨stamp, rfl, hstamp, hmode, -, rfl⟩ := accept_ok hok
    · exact ⟨hlent, h.fresh, htimed⟩
    · refine ⟨hlent, ?_, htimed⟩
      rintro cache hcache
      obtain rfl := Option.some.inj hcache
      obtain rfl := u64_origin hstamp
      exact ⟨w.notes, issued, by rw [hmode], horigin⟩

theorem Sound.deliver (hp : pump.stage.Timed) (hd : w.deliver i pump = some w') : w'.Sound := by
  unfold World.deliver at hd
  split at hd
  · obtain rfl := Option.some.inj hd
    have hended : ({ w with adapter := w.adapter.unavailable sourceUnavailable } : World).Sound :=
      ⟨h.lent.unavailable _, fresh_unavailable _ _ _, h.timed⟩
    exact hended.finish _
  · obtain rfl := Option.some.inj hd
    exact ⟨h.lent.congr rfl rfl rfl h.lent.budget, h.fresh, timed_set h.timed trivial⟩
  · rename_i metadata data origin issued hstage
    obtain rfl := Option.some.inj hd
    rw [hstage] at hp
    exact h.delivered hp
  · obtain rfl := Option.some.inj hd
    exact h.finish _
  · cases hd

theorem Sound.turn {aborted : Bool} {origin issued : Nat} (horigin : origin ≤ issued)
    (ht : w.turn i pump aborted origin issued = some w') : w'.Sound := by
  unfold World.turn at ht
  split at ht
  · split at ht
    · obtain rfl := Option.some.inj ht
      exact h.finish _
    · obtain rfl := Option.some.inj ht
      exact ⟨h.lent, h.fresh, timed_set h.timed (pump.read_timed horigin)⟩
  · cases ht

theorem Sound.answer {reply : Except SourceFault (Members × Bytes)} (hp : pump.stage.Timed)
    (ha : w.answer i pump reply = some w') : w'.Sound := by
  unfold World.answer at ha
  split at ha
  · rename_i origin issued hstage
    obtain rfl := Option.some.inj ha
    rw [hstage] at hp
    exact ⟨h.lent, h.fresh, timed_set h.timed (pump.answered_timed hp)⟩
  · cases ha

end

variable {output : Document → Except AdapterFault Unit}

theorem Sound.configure (h : w.Sound) (profile : Profile)
    (modeId : String) : (w.configure output profile modeId).Sound := by
  unfold World.configure
  split
  · exact h
  · rename_i adapter hok
    have hlent := h.lent.configureProfile hok
    obtain rfl := configureProfile_ok hok
    exact ⟨hlent, fresh_unavailable _ _ _, h.timed⟩

theorem Sound.acquire (h : w.Sound) (subscriber : String) : (w.acquire subscriber).Sound := by
  unfold World.acquire
  split
  · exact h
  · rename_i adapter lease hok
    have hlent := h.lent.acquireSnapshot hok
    obtain ⟨cache, hcache, -, -, -, -, -, rfl, rfl⟩ := acquireSnapshot_ok hok
    exact ⟨hlent, h.fresh, h.timed⟩

theorem release_frame (adapter : SemanticAdapter) (lease : Lease) :
    (adapter.release lease).1 = { adapter with
      inFlight := (adapter.release lease).1.inFlight
      inFlightBytes := (adapter.release lease).1.inFlightBytes } := by
  unfold SemanticAdapter.release
  split <;> rfl

theorem release_some {j : Nat} (h : w.release j = some w') : ∃ lease, w.leases[j]? = some lease ∧
    w' = { w with
      adapter := (w.adapter.release lease).1
      leases := w.leases.set j (w.adapter.release lease).2 } := by
  simp only [World.release, Option.bind_eq_bind, Option.bind_eq_some_iff] at h
  obtain ⟨lease, hat, h⟩ := h
  exact ⟨lease, hat, (Option.some.inj h).symm⟩

theorem Sound.release {j : Nat} (h : w.Sound) (hr : w.release j = some w') : w'.Sound := by
  obtain ⟨lease, hat, rfl⟩ := release_some hr
  refine ⟨h.lent.release hat, ?_, h.timed⟩
  have hfresh := h.fresh
  rw [show (w.adapter.release lease).1 = _ from release_frame w.adapter lease]
  exact hfresh

theorem at?_le {clock : Nat} (h : w.at? clock = some w') : w.now ≤ clock ∧ w'.now = clock := by
  unfold World.at? at h
  split at h
  · rename_i hle
    cases h
    exact ⟨hle, rfl⟩
  · cases h

theorem Sound.step {happening : Happening} (h : w.Sound)
    (hs : w.step output happening = some w') : w'.Sound := by
  cases happening with
  | begin session =>
    obtain rfl := Option.some.inj hs
    refine ⟨h.lent, h.fresh, ?_⟩
    rintro pump hmem
    rcases List.mem_append.mp hmem with hmem | hmem
    · exact h.timed pump hmem
    · obtain rfl := List.mem_singleton.mp hmem
      trivial
  | turn i aborted origin issued =>
    simp only [World.step, Option.bind_eq_bind, Option.bind_eq_some_iff] at hs
    obtain ⟨w₁, h₁, w₂, h₂, pump, -, hs⟩ := hs
    have horigin : origin ≤ issued := (at?_le h₁).2 ▸ (at?_le h₂).1
    exact ((h.at? h₁).at? h₂).turn horigin hs
  | answer i reply =>
    simp only [World.step, Option.bind_eq_bind, Option.bind_eq_some_iff] at hs
    obtain ⟨pump, hpump, hs⟩ := hs
    exact h.answer (h.timed pump (List.mem_of_getElem? hpump)) hs
  | deliver i clock =>
    simp only [World.step, Option.bind_eq_bind, Option.bind_eq_some_iff] at hs
    obtain ⟨w₁, h₁, pump, hpump, hs⟩ := hs
    have h := h.at? h₁
    exact h.deliver (h.timed pump (List.mem_of_getElem? hpump)) hs
  | close i =>
    simp only [World.step, Option.bind_eq_bind, Option.bind_eq_some_iff] at hs
    obtain ⟨pump, hpump, hs⟩ := hs
    obtain rfl := Option.some.inj hs
    exact ⟨h.lent, h.fresh, timed_set h.timed (h.timed pump (List.mem_of_getElem? hpump) :)⟩
  | configure profile modeId =>
    obtain rfl := Option.some.inj hs
    exact h.configure profile modeId
  | acquire subscriber clock =>
    simp only [World.step, Option.bind_eq_bind, Option.bind_eq_some_iff] at hs
    obtain ⟨w₁, h₁, hs⟩ := hs
    obtain rfl := Option.some.inj hs
    exact (h.at? h₁).acquire subscriber
  | release j => exact h.release hs

theorem sound_initial (h : World.Initial output w) : w.Sound := by
  obtain ⟨limits, profile, modeId, adapter, now, hcreate, rfl⟩ := h
  obtain rfl := configureProfile_ok hcreate
  refine ⟨⟨rfl, rfl, List.nodup_nil, Nat.zero_le _, ?_, ?_⟩, fresh_unavailable _ _ _, ?_⟩
  · rintro lease hlease
    cases hlease
  · simp [SemanticAdapter.cacheBytes, SemanticAdapter.unavailable]
  · rintro pump hpump
    cases hpump

theorem sound_reachable (h : (World.system output).Reachable w) :
    w.Sound :=
  h.invariant (fun _ => sound_initial) fun _ _ _ hs hstep => hs.step hstep

end World

-- The result

/-- What holds of the snapshots, between the turns: what is lent is counted
and within the limits; a copy is lent of the last frame accepted, of the mode
configured, of which the request is not too old; none is lent once a pump has
ended or the profile has been configured, until a frame is accepted; and a
release is the end of its own lease and of nothing else. -/
structure SnapshotsSound (w : World) : Prop where
  bytes : w.adapter.inFlightBytes = ((live w.leases).map (·.data.length)).sum
  few : (live w.leases).length ≤
    min (w.adapter.limits.value .maxSubscribers) (w.adapter.limits.value .maxQueuedFrames)
  single : ((live w.leases).map (·.subscriber)).Nodup
  budget : w.adapter.cacheBytes + w.adapter.inFlightBytes ≤ w.adapter.limits.value .maxQueuedBytes
  fresh : ∀ subscriber clock adapter lease,
    w.adapter.acquireSnapshot subscriber clock = .ok (adapter, lease) →
      lease.subscriber = subscriber ∧
      ∃ before issued, w.notes = before ++ [.accepted w.adapter.modeId lease.data issued] ∧
        clock ≤ issued + w.adapter.limits.value .maxSnapshotAgeMs * 1000000
  cleared : ∀ before, w.notes = before ++ [.cleared] → ∀ subscriber clock, ∃ fault,
    w.adapter.acquireSnapshot subscriber clock = .error fault
  released : ∀ j lease w', w.leases[j]? = some lease → w.release j = some w' →
    (lease.released = true → w' = w) ∧
    (lease.released = false → live w'.leases = (live w.leases).filter (·.subscriber ≠ lease.subscriber) ∧
      w'.adapter.inFlightBytes = w.adapter.inFlightBytes - lease.data.length) ∧
    (∀ k, k ≠ j → w'.leases[k]? = w.leases[k]?) ∧
    w' = { w with leases := w'.leases, adapter := { w.adapter with
      inFlight := w'.adapter.inFlight
      inFlightBytes := w'.adapter.inFlightBytes } }

theorem snapshots_sound (output : Document → Except AdapterFault Unit) (w : World)
    (h : (World.system output).Reachable w) : SnapshotsSound w := by
  have hsound := World.sound_reachable h
  have hfresh : ∀ subscriber clock adapter lease,
      w.adapter.acquireSnapshot subscriber clock = .ok (adapter, lease) →
        lease.subscriber = subscriber ∧
        ∃ before issued, w.notes = before ++ [.accepted w.adapter.modeId lease.data issued] ∧
          clock ≤ issued + w.adapter.limits.value .maxSnapshotAgeMs * 1000000 := by
    intro subscriber clock adapter lease hok
    obtain ⟨cache, hcache, -, hage, -, -, -, -, rfl⟩ := acquireSnapshot_ok hok
    obtain ⟨before, issued, hnotes, horigin⟩ := hsound.fresh cache hcache
    exact ⟨rfl, before, issued, hnotes, by omega⟩
  refine ⟨?_, hsound.lent.few, hsound.lent.single, hsound.lent.budget, hfresh, ?_, ?_⟩
  · have hwhole : ∀ lease ∈ live w.leases, lease.size = lease.data.length := fun lease hlease =>
      hsound.lent.whole lease (List.mem_of_mem_filter hlease)
    rw [hsound.lent.bytes, List.map_congr_left hwhole]
  · intro before hnotes subscriber clock
    cases hok : w.adapter.acquireSnapshot subscriber clock with
    | error fault => exact ⟨fault, rfl⟩
    | ok result =>
      obtain ⟨-, before', issued, hnotes', -⟩ := hfresh subscriber clock result.1 result.2 hok
      rw [hnotes] at hnotes'
      cases (List.append_inj' hnotes' rfl).2
  · intro j lease w' hat hr
    obtain ⟨lease', hat', rfl⟩ := World.release_some hr
    obtain rfl : lease = lease' := Option.some.inj (hat.symm.trans hat')
    refine ⟨?_, ?_, ?_, ?_⟩
    · intro hreleased
      obtain ⟨hj, hget⟩ := List.getElem?_eq_some_iff.mp hat
      simp only [SemanticAdapter.release, hreleased, if_true]
      rw [← hget, List.set_getElem_self]
    · intro hlive
      have hmem := List.mem_of_getElem? hat
      simp only [SemanticAdapter.release, hlive, Bool.false_eq_true, if_false]
      exact ⟨live_release hat hlive hsound.lent.single, by rw [hsound.lent.whole lease hmem]⟩
    · intro k hk
      exact List.getElem?_set_ne (Ne.symm hk)
    · exact congrArg (fun adapter => { w with adapter, leases := w.leases.set j (w.adapter.release lease).2 })
        (World.release_frame w.adapter lease)

-- A run

def doorProfile : Profile where
  members := [("$attributes", .object [("token", .string "door")])]
  attributes := [("token", .string "door")]
  token := "door"
  attributed := rfl
  named := rfl

def doorMode : ModeRecord where
  modeId := "mf-0123456789abcdef0123456789abcdef"
  nativeSubtype := "MJPG"
  width := 1
  height := 1
  cadence := .null
  stride := 0
  evidenceLocator := ""
  nativeDetails := none

def defaultLimits : Limits := ⟨LimitKey.maximum, by intro key; cases key <;> decide⟩

def pixel : Bytes := [0xff, 0xd8, 0xff, 0xc0, 0, 8, 8, 0, 1, 0, 1, 1, 0xff, 0xd9]

def pixelMetadata : Members :=
  [("kind", .string "frame"), ("generation", .string "1"), ("sequence", .string "1"),
    ("modeId", .string doorMode.modeId), ("width", .number 1), ("height", .number 1), ("format", .string "JPEG"),
    ("payloadBytes", .number 14),
    ("timing", .object [("hostReceiptMonotonicNs", .string "6"), ("pipelinePtsNs", .null), ("source", .null)])]

def doorRun : List Happening :=
  [.begin { mode := doorMode, output := .JPEG, limits := defaultLimits }, .turn 0 false 5 6,
    .answer 0 (.ok (pixelMetadata, pixel)), .deliver 0 7, .acquire "reader" 8, .configure doorProfile doorMode.modeId,
    .release 0, .release 0]

def anyProfile (_ : Document) : Except AdapterFault Unit := .ok ()

def doorWorld (n : Nat) : Option World := do
  let adapter ← (SemanticAdapter.create anyProfile defaultLimits doorProfile doorMode.modeId).toOption
  System.path (World.step anyProfile) { adapter } (doorRun.take n)

theorem doorWorld_reachable {n : Nat} {w : World} (h : doorWorld n = some w) :
    (World.system anyProfile).Reachable w := by
  simp only [doorWorld, Option.bind_eq_bind, Option.bind_eq_some_iff] at h
  obtain ⟨adapter, hadapter, h⟩ := h
  have hcreate : SemanticAdapter.create anyProfile defaultLimits doorProfile doorMode.modeId = .ok adapter := by
    revert hadapter
    cases SemanticAdapter.create anyProfile defaultLimits doorProfile doorMode.modeId with
    | error fault => rintro ⟨⟩
    | ok created => rintro ⟨⟩; rfl
  exact System.Reachable.path (doorRun.take n) _ _ (.start ⟨_, _, _, adapter, 0, hcreate, rfl⟩) h

theorem snapshots_sound_lent : ∃ w, doorWorld 5 = some w ∧ w.adapter.inFlightBytes = 14 ∧ (live w.leases).length = 1 ∧
    SnapshotsSound w := by
  have hrun : (doorWorld 5).any fun w => w.adapter.inFlightBytes = 14 && (live w.leases).length = 1 := by decide +kernel
  obtain ⟨w, hw, hlent⟩ := (Option.any_eq_true _ _).mp hrun
  rw [Bool.and_eq_true, decide_eq_true_eq, decide_eq_true_eq] at hlent
  exact ⟨w, hw, hlent.1, hlent.2, snapshots_sound anyProfile w (doorWorld_reachable hw)⟩

end WotAv.Capture
