import WotAv.Discovery.Heard
import WotAv.Discovery.Receive

/-!
# Earned provenance

A run of the engine with all that arrived in it. Where the device was heard has
been earned there: by an announcement, by a seed, or by a response to a request
that was live then and there.
-/

namespace WotAv.Discovery

open WotAv.Lib

variable {ν : Type}

-- Runs

inductive Receiver.Event (ν : Type)
  | operate (op : Operation ν) (silent : op.silent)
  | inspectSeed (seedId : String) (report : InspectionReport ν) (incoming : Provenance)
  | bind (at_ : Local)
  | receive (at_ : Local) (datagram : Datagram)
  | request (at_ : Local) (wanted : Wanted) (id : String) (sending : Nat)
  | expire (id : String)
  | target (deviceId : String)
  | close
  | clear

def Receiver.step (setting : ReceiverSetting ν) (e : Receiver ν) (call : Int × Receiver.Event ν) : Receiver ν := match call.2 with
  | .operate op _ => { e with inventory := operate setting.inventory call.1 e.inventory op }
  | .inspectSeed seedId report incoming =>
    { e with inventory := operate setting.inventory call.1 e.inventory (.inspectSeed seedId report incoming) }
  | .bind at_ => { e with bindings := e.bindings.insert at_.segmentId at_ }
  | .receive at_ datagram => (Discovery.receive setting call.1 e at_ datagram).1
  | .request at_ wanted id sending => Discovery.request setting call.1 e at_ wanted id sending
  | .expire id => { e with requests := e.requests.erase id }
  | .target deviceId => (Discovery.target setting call.1 e deviceId).1
  | .close => { e with running := false }
  | .clear => { e with requests := ∅, bindings := ∅ }

/-- A message that has arrived, with the requests that there were. -/
structure Arrival where
  now : Int
  at_ : Local
  datagram : Datagram
  message : DiscoveryMessage
  requests : AList fun _ : String => Request

structure Trail (ν : Type) where
  receiver : Receiver ν
  arrivals : List Arrival := []
  seeded : List Provenance := []
  /-- What the inventory had when it was restored. -/
  restored : String → List (Place × Provenance)

namespace Trail

def arrival (e : Receiver ν) (now : Int) (at_ : Local) (datagram : Datagram) : List Arrival := match datagram.data with
  | .ok message => [⟨now, at_, datagram, message, e.requests⟩]
  | .error _ => []

def step (setting : ReceiverSetting ν) (t : Trail ν) (call : Int × Receiver.Event ν) : Trail ν where
  receiver := t.receiver.step setting call
  arrivals := t.arrivals ++ match call.2 with
    | .receive at_ datagram => arrival t.receiver call.1 at_ datagram
    | _ => []
  seeded := t.seeded ++ match call.2 with
    | .inspectSeed _ _ incoming => [incoming]
    | _ => []
  restored := t.restored

def init (setting : ReceiverSetting ν) (t : Trail ν) : Prop :=
  ∃ inventory, (inventory = {} ∨ ∃ snapshot, restore setting.inventory snapshot = some inventory) ∧
    t = { receiver := { inventory }, restored := inventory.heardAt }

def system (setting : ReceiverSetting ν) : System (Trail ν) (Int × Receiver.Event ν) := .ofFun (init setting) (step setting)

end Trail

-- What provenance is earned by

variable (setting : ReceiverSetting ν)

namespace Arrival

def provenance (a : Arrival) : Provenance := Discovery.provenance a.now a.at_ a.datagram a.message

/-- The response came from inside the segment, to a request that was live on the
interface and the segment and of its kind; and one of its matches, which is
about the device and names the place, is what was requested. -/
def Earns (a : Arrival) (id : String) (place : Place) : Prop :=
  inside setting a.at_ a.datagram = .ok true ∧ ∃ requestId request,
    a.message.relatesTo = some requestId ∧ a.requests.lookup requestId = some request ∧
    request.awaits a.now a.at_ a.message.kind ∧
    ∃ entry ∈ a.message.entries, setting.inventory.endpointIdentity entry.endpointReference = id ∧
      (∀ xaddr ∈ place, xaddr ∈ entry.xaddrs) ∧ request.admits setting entry = .ok true

/-- A `Hello` warrants any place; a `Bye` warrants no endpoint. -/
def Warrants (a : Arrival) (id : String) (place : Place) : Prop := match a.message.kind with
  | .hello => True
  | .bye => place = none
  | .probeMatches | .resolveMatches => a.Earns setting id place

end Arrival

namespace Trail

def Origin (t : Trail ν) (id : String) (place : Place) (p : Provenance) : Prop :=
  (place, p) ∈ t.restored id ∨ p ∈ t.seeded ∨ ∃ a ∈ t.arrivals, a.provenance = p ∧ a.Warrants setting id place

def Sound (t : Trail ν) : Prop :=
  ∀ id, ∀ x ∈ t.receiver.inventory.heardAt id, t.Origin setting id x.1 x.2

end Trail

def Receiver.hears (now : Int) (e : Receiver ν) (at_ : Local) (datagram : Datagram) (message : DiscoveryMessage) : Prop :=
  e.running ∧ (e.count setting now).datagrams ≤ setting.maxDatagramsPerRound ∧
    inside setting at_ datagram = .ok true ∧ message.discoveryProxy = false

/-- A response that repeats a remembered message gives nothing but what it earns
again, and a `Bye` names no address that is news. -/
def Arrival.Careful (e : Receiver ν) (a : Arrival) : Prop :=
  (a.message.kind = .probeMatches ∨ a.message.kind = .resolveMatches → ∀ id place,
    Repeats setting.inventory e.inventory a.message a.provenance id place → a.Earns setting id place) ∧
  (a.message.kind = .bye → Stale setting.inventory e.inventory a.provenance a.message.entries)

def Trail.Careful (t : Trail ν) (call : Int × Receiver.Event ν) : Prop := match call.2 with
  | .receive at_ datagram => ∀ a ∈ arrival t.receiver call.1 at_ datagram,
    t.receiver.hears setting call.1 at_ datagram a.message → a.Careful setting t.receiver
  | _ => True

-- One datagram

variable {setting} {now : Int} {e : Receiver ν} {r : Receiver ν × List String} {at_ : Local} {datagram : Datagram} {message : DiscoveryMessage}
  {incoming : Provenance} {id : String}

theorem filterAuxM_ok {ε α : Type} {p : α → Except ε Bool} {l acc l' : List α} (h : l.filterAuxM p acc = .ok l') :
    ∀ a ∈ l', a ∈ acc ∨ a ∈ l ∧ p a = .ok true := by
  induction l generalizing acc with
  | nil =>
    obtain rfl := Except.ok.inj h
    exact fun a ha => .inl ha
  | cons b l ih =>
    obtain ⟨keep, hkeep, h⟩ := except_bind_ok h
    intro a ha
    rcases ih h a ha with hacc | ⟨hl, hp⟩
    · cases keep with
      | false => exact .inl hacc
      | true =>
        rcases List.mem_cons.mp hacc with rfl | hacc
        · exact .inr ⟨List.mem_cons_self, hkeep⟩
        · exact .inl hacc
    · exact .inr ⟨List.mem_cons_of_mem _ hl, hp⟩

theorem filterM_ok {ε α : Type} {p : α → Except ε Bool} {l l' : List α} (h : l.filterM p = .ok l') :
    ∀ a ∈ l', a ∈ l ∧ p a = .ok true := by
  obtain ⟨kept, hkept, h⟩ := except_bind_ok h
  obtain rfl := Except.ok.inj h
  exact fun a ha => (filterAuxM_ok hkept a (List.mem_reverse.mp ha)).resolve_left nofun

theorem observeDuplicate_filtered {setting : Setting ν} {s : Inventory ν}
    (h : (observeDuplicate setting now s message incoming).2 = false) (entries : List DiscoveryMatch) :
    (observeDuplicate setting now s { message with entries } incoming).2 = false := by
  unfold observeDuplicate at h ⊢
  dsimp only
  cases hr : remembered s message.messageId with
  | none => rfl
  | some prior =>
    rw [hr] at h
    dsimp only at h
    split at h <;> cases h

section
variable (hnew : (observeDuplicate setting.inventory now e.inventory message incoming).2 = false)
include hnew

theorem response_adds
    (hinside : inside setting at_ datagram = .ok true) {requestId : String} {request : Request}
    (hrelated : e.related now at_ message = some (requestId, request)) {entries : List DiscoveryMatch}
    (hentries : message.entries.filterM (request.admits setting) = .ok entries) (requests : AList fun _ : String => Request) :
    Adds id (fun x => x.2 = incoming ∧ Arrival.Earns setting ⟨now, at_, datagram, message, e.requests⟩ id x.1) e.inventory
      (({ e with requests } : Receiver ν).observe setting now { message with entries } incoming message).1.inventory := by
  obtain ⟨relatesTo, hto, hrelated⟩ := Option.bind_eq_some_iff.mp hrelated
  obtain ⟨found, hfound, heq⟩ := Option.map_eq_some_iff.mp hrelated
  obtain ⟨rfl, rfl⟩ := Prod.mk.inj heq
  obtain ⟨hlookup, hawaits⟩ := Option.filter_eq_some_iff.mp hfound
  refine (observe_adds e.inventory _ message (.inr (observeDuplicate_filtered hnew entries))).mono ?_
  rintro x ⟨entry, he, hid, hx⟩
  obtain ⟨hmem, hadmits⟩ := filterM_ok hentries entry he
  exact ⟨hx.1, hinside, relatesTo, found, hto, hlookup, hawaits, entry, hmem, hid, hx.2, hadmits⟩

theorem correlate_adds
    (hinside : inside setting at_ datagram = .ok true)
    (hstale : message.kind = .bye → Stale setting.inventory e.inventory incoming message.entries)
    (h : correlate setting now e at_ message incoming = .ok r) :
    Adds id (fun x => x.2 = incoming ∧ Arrival.Warrants setting ⟨now, at_, datagram, message, e.requests⟩ id x.1)
      e.inventory r.1.inventory := by
  unfold correlate at h
  split at h
  case h_1 hkind | h_2 hkind =>
    split at h
    · obtain rfl := Except.ok.inj h
      exact (diagnostic_same _ _ _ _ _).same_adds
    · rename_i requestId request hrelated
      obtain ⟨entries, hentries, h⟩ := except_bind_ok h
      obtain rfl := Except.ok.inj h
      refine (response_adds hnew hinside hrelated hentries _).mono fun x hx => ⟨hx.1, ?_⟩
      unfold Arrival.Warrants
      simpa only [hkind] using hx.2
  · rename_i hkind
    obtain ⟨entries, _, h⟩ := except_bind_ok h
    obtain rfl := Except.ok.inj h
    refine (observe_adds e.inventory _ message (.inr (observeDuplicate_filtered hnew entries))).mono ?_
    rintro x ⟨entry, _, _, hx⟩
    exact ⟨hx.1, by simp [Arrival.Warrants, hkind]⟩
  · rename_i hkind
    obtain rfl := Except.ok.inj h
    rintro ⟨place, p⟩ hx
    cases place with
    | none =>
      have htold := observe_adds e.inventory message message (.inr hnew) (none, p) hx
      exact htold.imp_right fun ⟨entry, _, _, hp⟩ => ⟨hp.1, by simp [Arrival.Warrants, hkind]⟩
    | some xaddr => exact .inl ((observe_rooted hkind e.inventory message (hstale hkind) (.inr hnew) id).rooted_heard hx)

end

theorem inventory_count (setting : ReceiverSetting ν) (now : Int) (e : Receiver ν) :
    (e.count setting now).inventory = e.inventory ∧ (e.count setting now).requests = e.requests := by
  unfold Receiver.count
  dsimp only
  split <;> exact ⟨rfl, rfl⟩

theorem repeats_warrants {a : Arrival} {place : Place} (hcareful : a.Careful setting e)
    (h : Repeats setting.inventory e.inventory a.message a.provenance id place) : a.Warrants setting id place := by
  unfold Arrival.Warrants
  split
  · trivial
  · rename_i hkind
    cases place with
    | none => rfl
    | some xaddr =>
      obtain ⟨prior, -, -, -, d, entry, hd, hentry, hnamed, htakes⟩ := h
      have hid : setting.inventory.endpointIdentity entry.endpointReference = id := by
        simpa using List.find?_some hentry
      have hstale := hcareful.2 hkind entry (List.mem_of_find?_eq_some hentry) d (by rw [hid]; exact hd) xaddr (hnamed xaddr rfl)
      exact absurd htakes hstale.1
  · rename_i hkind
    exact hcareful.1 (.inl hkind) id place h
  · rename_i hkind
    exact hcareful.1 (.inr hkind) id place h

theorem hearDatagram_adds (h : hearDatagram setting now e at_ datagram = .ok r)
    (hcareful : ∀ a ∈ Trail.arrival e now at_ datagram, inside setting at_ datagram = .ok true →
      a.message.discoveryProxy = false → a.Careful setting e) :
    Adds id (fun x => ∃ a ∈ Trail.arrival e now at_ datagram, a.provenance = x.2 ∧ a.Warrants setting id x.1)
      e.inventory r.1.inventory := by
  obtain ⟨within, hinside, h⟩ := except_bind_ok h
  split at h
  · rename_i hwithin
    rw [hwithin] at hinside
    obtain ⟨message, hdata, h⟩ := except_bind_ok h
    have harrival : Trail.arrival e now at_ datagram = [⟨now, at_, datagram, message, e.requests⟩] := by
      rw [Trail.arrival, hdata]
    rw [harrival] at hcareful ⊢
    dsimp only at h
    split at h
    · rename_i hproxy
      obtain rfl := Except.ok.inj h
      unfold Receiver.observe Discovery.observe
      rw [if_pos hproxy]
      exact (diagnostic_same _ _ _ _ _).same_adds
    · rename_i hproxy
      rw [Bool.not_eq_true] at hproxy
      have hstale := (hcareful _ (List.mem_singleton_self _) hinside hproxy).2
      split at h
      · obtain rfl := Except.ok.inj h
        refine (observeDuplicate_adds e.inventory message _).mono ?_
        rintro ⟨place, p⟩ ⟨rfl, hrepeat⟩
        exact ⟨_, List.mem_singleton_self _, rfl, repeats_warrants (hcareful _ (List.mem_singleton_self _) hinside hproxy) hrepeat⟩
      · rename_i hnew
        rw [Bool.not_eq_true] at hnew
        refine (correlate_adds hnew hinside hstale h).mono fun x hx => ⟨_, List.mem_singleton_self _, hx.1.symm, hx.2⟩
  · obtain rfl := Except.ok.inj h
    exact (diagnostic_same _ _ _ _ _).same_adds

theorem receive_adds (hcareful : ∀ a ∈ Trail.arrival e now at_ datagram,
      e.hears setting now at_ datagram a.message → a.Careful setting e) :
    Adds id (fun x => ∃ a ∈ Trail.arrival e now at_ datagram, a.provenance = x.2 ∧ a.Warrants setting id x.1)
      e.inventory (receive setting now e at_ datagram).1.inventory := by
  obtain ⟨hinventory, hrequests⟩ := inventory_count setting now e
  unfold receive
  split
  · exact .of_eq rfl
  · rename_i hrunning
    rw [not_not] at hrunning
    dsimp only
    rw [← hinventory]
    split
    · split
      · exact (diagnostic_same _ _ _ _ _).same_adds
      · exact .of_eq rfl
    · rename_i hadmitted
      have harrival : Trail.arrival (e.count setting now) now at_ datagram = Trail.arrival e now at_ datagram := by
        unfold Trail.arrival
        rw [hrequests]
      split
      · rename_i hheard
        rw [← harrival]
        refine hearDatagram_adds hheard fun a ha hinside hproxy => ?_
        rw [harrival] at ha
        have hcareful := hcareful a ha ⟨hrunning, Nat.le_of_not_lt hadmitted, hinside, hproxy⟩
        unfold Arrival.Careful at hcareful ⊢
        rwa [hinventory]
      · exact (diagnostic_same _ _ _ _ _).same_adds

-- Runs

namespace Trail

variable {t : Trail ν} {call : Int × Receiver.Event ν}

theorem Origin.step {place : Place} {p : Provenance} (h : t.Origin setting id place p) :
    (t.step setting call).Origin setting id place p := by
  rcases h with h | h | ⟨a, ha, h⟩
  · exact .inl h
  · exact .inr (.inl (List.mem_append_left _ h))
  · exact .inr (.inr ⟨a, List.mem_append_left _ ha, h⟩)

theorem inventory_request (setting : ReceiverSetting ν) (now : Int) (e : Receiver ν) (at_ : Local) (wanted : Wanted)
    (requestId : String) (sending : Nat) (Q : Place × Provenance → Prop) :
    Adds id Q e.inventory (request setting now e at_ wanted requestId sending).inventory := by
  unfold request
  split
  · exact (diagnostic_same _ _ _ _ _).same_adds
  · split <;> exact .of_eq rfl

theorem inventory_target (setting : ReceiverSetting ν) (now : Int) (e : Receiver ν) (deviceId : String)
    (Q : Place × Provenance → Prop) : Adds id Q e.inventory (target setting now e deviceId).1.inventory := by
  unfold target
  split
  · exact .of_eq rfl
  · dsimp only
    split
    · exact (diagnostic_same _ _ _ _ _).same_adds
    · exact .of_eq rfl

theorem sound_step (h : t.Sound setting) (hcareful : t.Careful setting call) : (t.step setting call).Sound setting := by
  obtain ⟨now, event⟩ := call
  intro id
  -- What is not new has been there before; what is new is on the trail.
  suffices hadds : Adds id (fun x => (t.step setting (now, event)).Origin setting id x.1 x.2) t.receiver.inventory
      (t.receiver.step setting (now, event)).inventory by
    intro x hx
    exact (hadds x hx).elim (fun hx => (h id x hx).step) fun hx => hx
  cases event with
  | operate op silent => exact ((operate_mute _ _ _ op silent).mono (unheard_hears _).mute).adds
  | inspectSeed seedId report incoming =>
    unfold Receiver.step operate
    dsimp only
    split
    · exact .of_eq rfl
    · refine (inspectSeed_adds _ seedId _ report).mono fun x hx => .inr (.inl ?_)
      exact List.mem_append_right _ (by simpa using hx)
  | bind at_ => exact .of_eq rfl
  | receive at_ datagram =>
    refine (receive_adds hcareful).mono fun x ⟨a, ha, hx⟩ => .inr (.inr ⟨a, ?_, hx⟩)
    exact List.mem_append_right _ ha
  | request at_ wanted requestId sending => exact inventory_request _ _ _ _ _ _ _ _
  | expire requestId => exact .of_eq rfl
  | target deviceId => exact inventory_target _ _ _ _ _
  | close => exact .of_eq rfl
  | clear => exact .of_eq rfl

theorem sound_init (h : init setting t) : t.Sound setting := by
  obtain ⟨inventory, -, rfl⟩ := h
  exact fun id x hx => .inl hx

theorem sound (h : ((system setting).when (Careful setting)).Reachable t) : t.Sound setting := by
  refine h.invariant (fun _ => sound_init) ?_
  rintro t call t' ht ⟨hc, rfl⟩
  exact sound_step ht hc

end Trail

theorem target_endpoint {native : NativeTarget} (h : (target setting now e id).2 = some native) :
    ∃ d endpoint p, e.inventory.device id = some d ∧ endpoint ∈ d.endpoints ∧ endpoint.xaddr = native.xaddr ∧
      endpoint.approved ∧ p ∈ endpoint.provenance ∧ e.opened p ∧ p.interfaceId = native.interfaceId ∧
      p.segmentId = native.segmentId := by
  unfold target at h
  split at h
  · cases h
  · rename_i d hd
    dsimp only at h
    split at h
    · cases h
    · rename_i selected hselected
      obtain ⟨p, hp, rfl⟩ := Option.map_eq_some_iff.mp h
      obtain ⟨hmem, happroved⟩ := List.mem_filter.mp (List.mem_of_getElem? hselected)
      exact ⟨d, selected, p, hd, hmem, rfl, (Bool.and_eq_true_iff.mp happroved).1, List.mem_of_find?_eq_some hp,
        List.find?_some hp, rfl, rfl⟩

/-- Where a device is heard has been earned, and so has every target. -/
theorem provenance_earned {t : Trail ν} (h : ((Trail.system setting).when (Trail.Careful setting)).Reachable t) :
    (∀ id, ∀ x ∈ t.receiver.inventory.heardAt id, t.Origin setting id x.1 x.2) ∧
    ∀ now id native, (target setting now t.receiver id).2 = some native →
      ∃ d endpoint p, t.receiver.inventory.device id = some d ∧ endpoint ∈ d.endpoints ∧ endpoint.xaddr = native.xaddr ∧
        endpoint.approved ∧ p ∈ endpoint.provenance ∧ t.receiver.opened p ∧ p.interfaceId = native.interfaceId ∧
        p.segmentId = native.segmentId ∧ t.Origin setting id (some native.xaddr) p := by
  refine ⟨Trail.sound h, fun now id native hnative => ?_⟩
  obtain ⟨d, endpoint, p, hd, he, hxaddr, happroved, hp, hopened, hinterface, hsegment⟩ := target_endpoint hnative
  refine ⟨d, endpoint, p, hd, he, hxaddr, happroved, hp, hopened, hinterface, hsegment, ?_⟩
  refine Trail.sound h id (some native.xaddr, p) ?_
  rw [Inventory.heardAt, hd, Option.elim_some, heardAt_some]
  exact ⟨endpoint, he, hxaddr, hp⟩

-- A response that is relayed

def relay : ReceiverSetting Unit where
  inventory := plain
  probeIntervalMs := 30000
  probeWindowMs := 3000
  maxDatagramsPerRound := 8
  maxPendingRequests := 8
  scopes := []
  inCidr address cidr := .ok
    (decide ((address, cidr) ∈ [("192.0.2.7", "192.0.2.0/24"), ("198.51.100.7", "198.51.100.0/24")]))
  scopeMatches requested advertised := .ok (requested = advertised)

def lan : Local := ⟨"eth0", .ipv4, "lan", "192.0.2.0/24"⟩

def dmz : Local := ⟨"eth1", .ipv4, "dmz", "198.51.100.0/24"⟩

def probeMatch : DiscoveryMessage where
  kind := .probeMatches
  messageId := "urn:uuid:2"
  relatesTo := some "urn:uuid:1"
  to_ := "http://schemas.xmlsoap.org/ws/2004/08/addressing/role/anonymous"
  sequence := some ⟨"1", none, "1"⟩
  entries := [⟨⟨"urn:uuid:camera", [], []⟩, [DEVICE], [], none, ["http://192.0.2.7/onvif/device_service"], some "1"⟩]
  discoveryProxy := false

def probed : List (Int × Receiver.Event Unit) :=
  [(0, .bind lan), (0, .bind dmz), (0, .request lan .device "urn:uuid:1" 0),
    (10, .receive lan ⟨.ok probeMatch, "192.0.2.7", .ipv4, 3702⟩)]

def relayed : List (Int × Receiver.Event Unit) :=
  probed ++ [(20, .receive dmz ⟨.ok probeMatch, "198.51.100.7", .ipv4, 3702⟩)]

def trailed (calls : List (Int × Receiver.Event Unit)) : Trail Unit :=
  calls.foldl (Trail.step relay) { receiver := {}, restored := fun _ => [] }

theorem trailed_init : Trail.init relay (trailed []) := ⟨{}, .inl rfl, rfl⟩

theorem careful_next {t : Trail Unit} (h : ((Trail.system relay).when (Trail.Careful relay)).Reachable t)
    (call : Int × Receiver.Event Unit) (hc : t.Careful relay call) :
    ((Trail.system relay).when (Trail.Careful relay)).Reachable (t.step relay call) := h.next ⟨hc, rfl⟩

theorem probed_reachable : ((Trail.system relay).when (Trail.Careful relay)).Reachable (trailed probed) := by
  have hbound := careful_next (careful_next (.start trailed_init) (0, .bind lan) trivial) (0, .bind dmz) trivial
  have hrequested := careful_next hbound (0, .request lan .device "urn:uuid:1" 0) trivial
  refine careful_next hrequested (10, .receive lan ⟨.ok probeMatch, "192.0.2.7", .ipv4, 3702⟩) fun a ha _ => ?_
  obtain rfl := List.mem_singleton.mp ha
  exact ⟨fun _ _ _ ⟨_, hprior, _⟩ => absurd hprior nofun, nofun⟩

theorem provenance_earned_probed : ∃ native : NativeTarget, native.segmentId = "lan" ∧
    ∃ p, (trailed probed).receiver.opened p ∧ p.segmentId = native.segmentId ∧
      (trailed probed).Origin relay "urn:uuid:camera" (some native.xaddr) p := by
  obtain ⟨native, hnative, hsegment⟩ := Option.map_eq_some_iff.mp (show
    (target relay 20 (trailed probed).receiver "urn:uuid:camera").2.map (·.segmentId) = some "lan" by decide)
  obtain ⟨_, _, p, -, -, -, -, -, hopened, -, hp, horigin⟩ :=
    (provenance_earned probed_reachable).2 20 "urn:uuid:camera" native hnative
  exact ⟨native, hsegment, p, hopened, hp, horigin⟩

/-- The device has been heard on the other segment, where nothing was requested. -/
theorem provenance_relayed : ¬∀ t, (Trail.system relay).Reachable t → t.Sound relay := by
  intro h
  have hreachable : (Trail.system relay).Reachable (trailed relayed) :=
    ⟨trailed [], relayed, trailed_init, System.run_ofFun.mpr rfl⟩
  have horigin := h _ hreachable "urn:uuid:camera" (none, provenance 20 dmz ⟨.ok probeMatch, "198.51.100.7", .ipv4, 3702⟩ probeMatch)
    (by decide)
  rcases horigin with hrestored | hseeded | ⟨a, ha, hp, hwarrants⟩
  · cases hrestored
  · cases hseeded
  · rcases List.mem_cons.mp ha with rfl | ha
    · exact absurd hp (by decide)
    · obtain rfl := List.mem_singleton.mp ha
      obtain ⟨-, requestId, request, hto, hlookup, hawaits, -⟩ := hwarrants
      obtain rfl := Option.some.inj hto
      obtain rfl := Option.some.inj hlookup
      exact absurd hawaits (by decide)

end WotAv.Discovery
