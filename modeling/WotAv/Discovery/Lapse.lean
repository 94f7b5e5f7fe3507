import WotAv.Discovery.Earned

/-!
# Generations and verification

No call of the inventory takes a generation back, or a device away. After an
announcement a device is verified only if it was, with the same generation.
-/

namespace WotAv.Discovery

open WotAv.Lib

variable {ν : Type} {setting : Setting ν} {now : Int} {s s' s'' : Inventory ν} {id other : String}

-- Verification

def Lapses (a b : Device ν) : Prop :=
  b.state = .verified → a.state = .verified ∧ a.inspectionGeneration = b.inspectionGeneration

theorem Lapses.of_eq {a b : Device ν} (hs : a.state = b.state) (hg : a.inspectionGeneration = b.inspectionGeneration) :
    Lapses a b := fun hv => ⟨hs.trans hv, hg⟩

theorem SameBare.lapses (a b : Device ν) (h : SameBare a b) : Lapses a b := by
  have hbare : bare a = bare b := h
  exact .of_eq (congrArg Device.state hbare :) (congrArg Device.inspectionGeneration hbare :)

theorem enter_lapses (d : Device ν) (instanceId : String) : Lapses d (d.enter instanceId) := by
  intro hv
  unfold Device.enter at hv
  dsimp only at hv
  split at hv <;> simp_all

theorem lapses : Indifferent (Lapses (ν := ν)) where
  same a b h := SameBare.lapses a b (Same.bare a b h)
  trans _ _ _ h h' hv := ⟨(h (h' hv).1).1, (h (h' hv).1).2.trans (h' hv).2⟩
  enter := enter_lapses
  record _ _ _ := .of_eq rfl rfl
  conflict _ := nofun
  types _ _ := .of_eq rfl rfl
  scopes _ _ := .of_eq rfl rfl
  claims _ _ := .of_eq rfl rfl
  metadataVersion _ _ := .of_eq rfl rfl
  identityEvidence _ _ := .of_eq rfl rfl
  quarantine _ := nofun
  updatedAt _ _ := .of_eq rfl rfl
  reads _ _ _ _ := .of_eq rfl rfl
  resources _ _ := .of_eq rfl rfl

theorem accept_lapses (setting : Setting ν) (now : Int) (s : Inventory ν) (other : String) (entry : DiscoveryMatch)
    (message : DiscoveryMessage) (incoming : Provenance) : At id Lapses s (accept setting now s other entry message incoming) := by
  refine lapses.accept (lapses.mergeEndpoints SameBare.lapses (fun _ _ => .of_eq rfl rfl) s other entry.xaddrs incoming)
    (fun s => lapses.mergePresence (fun d hv => ?_) (fun _ _ => .of_eq rfl rfl) (fun _ => nofun) s other message) fun d hv => ?_
  · dsimp only at hv
    split at hv <;> cases hv
  · unfold supersede at hv
    split at hv <;> simp_all

def Lapsed (id : String) (s s' : Inventory ν) : Prop := ∀ d', s'.device id = some d' → d'.state = .verified →
  ∃ d, s.device id = some d ∧ d.state = .verified ∧ d.inspectionGeneration = d'.inspectionGeneration

theorem Lapsed.of_eq (h : s'.device id = s.device id) : Lapsed id s s' := fun d hd hv => ⟨d, h ▸ hd, hv, rfl⟩

theorem Lapsed.trans (h : Lapsed id s s') (h' : Lapsed id s' s'') : Lapsed id s s'' := by
  intro c hc hv
  obtain ⟨b, hb, hv, hbc⟩ := h' c hc hv
  obtain ⟨a, ha, hv, hab⟩ := h b hb hv
  exact ⟨a, ha, hv, hab.trans hbc⟩

theorem At.lapsed (h : At id Lapses s s') : Lapsed id s s' := by
  intro d' hd' hv
  cases hd : s.device id with
  | none =>
    rw [h.2 hd] at hd'
    cases hd'
  | some d =>
    obtain ⟨b, hb, hl⟩ := h.1 d hd
    obtain rfl := Option.some.inj (hd'.symm.trans hb)
    exact ⟨d, rfl, hl hv⟩

theorem chained_lapsed : Chained now fun a b : Option (Device ν) => ∀ d', b = some d' → d'.state = .verified →
    ∃ d, a = some d ∧ d.state = .verified ∧ d.inspectionGeneration = d'.inspectionGeneration where
  refl _ d hd hv := ⟨d, hd, hv, rfl⟩
  trans hab hbc c hc hv := by
    obtain ⟨b, hb, hv, hbc⟩ := hbc c hc hv
    obtain ⟨a, ha, hv, hab⟩ := hab b hb hv
    exact ⟨a, ha, hv, hab.trans hbc⟩
  same hab d' hd hv := by
    obtain rfl := Option.some.inj hd
    exact ⟨_, rfl, lapses.same _ _ hab hv⟩
  new _ d hd hv := by
    obtain rfl := Option.some.inj hd
    cases hv

theorem observeDuplicate_lapses (s : Inventory ν) (message : DiscoveryMessage) (incoming : Provenance) :
    At id Lapses s (observeDuplicate setting now s message incoming).1 :=
  (observeDuplicate_bare message incoming s).mono SameBare.lapses

theorem observe_lapsed (s : Inventory ν) (message : DiscoveryMessage) (incoming : Provenance)
    (fingerprintSource : DiscoveryMessage) : Lapsed id s (observe setting now s message incoming fingerprintSource).1 := by
  refine chained_lapsed.observe (observeDuplicate_lapses s message incoming).lapsed (fun entry _ => ?_) fingerprintSource
  exact chained_lapsed.observeMatch (fun s d _ => (lapses.order s _ d message).lapsed)
    fun s => (accept_lapses setting now s _ entry message incoming).lapsed

-- Generations

def Grows (a b : Device ν) : Prop := a.inspectionGeneration ≤ b.inspectionGeneration

def Ahead (s s' : Inventory ν) : Prop := ∀ id, Onward id Grows s s'

theorem Ahead.refl (s : Inventory ν) : Ahead s s := fun _ => .refl fun _ => le_rfl

theorem Ahead.trans (h : Ahead s s') (h' : Ahead s' s'') : Ahead s s'' := by
  intro id a ha
  obtain ⟨b, hb, hab⟩ := h id a ha
  obtain ⟨c, hc, hbc⟩ := h' id b hb
  exact ⟨c, hc, Nat.le_trans hab hbc⟩

theorem Ahead.of_bare (h : ∀ id, At id SameBare s s') : Ahead s s' := fun id => (h id).1.mono fun a b hab => by
  have hbare : bare a = bare b := hab
  exact (congrArg Device.inspectionGeneration hbare :).le

theorem Ahead.of_same (h : ∀ id, At id Same s s') : Ahead s s' :=
  .of_bare fun id => (h id).mono Same.bare

theorem Ahead.of_step (setting : Setting ν) (st : Step ν) : Ahead s (step setting s st) :=
  fun _ => (step_evolves setting s st).mono fun _ _ h => h.generation

theorem liveness_grows (s : Inventory ν) (other : String) (round : Int) (responsive confirmedTimeout : Bool) :
    Ahead s (liveness s other round responsive confirmedTimeout) := by
  intro id
  unfold liveness
  split
  · exact .refl fun _ => le_rfl
  · split
    · exact .refl fun _ => le_rfl
    · have hmodified : At id Grows s (s.modify other fun d => { d with
          lastLivenessRound := some round
          failedLivenessRounds :=
            if responsive then 0 else if confirmedTimeout then d.failedLivenessRounds + 1 else d.failedLivenessRounds }) :=
        .modify (fun d => Nat.le_refl d.inspectionGeneration) fun _ d _ => Nat.le_refl d.inspectionGeneration
      exact hmodified.1

theorem operate_ahead (setting : Setting ν) (now : Int) (s : Inventory ν) (op : Operation ν) :
    Ahead s (operate setting now s op) := by
  cases op with
  | diagnostic code message deviceId truncated => exact .of_same fun _ => diagnostic_same _ _ _ _ _
  | observe message fingerprintSource incoming =>
    exact .of_step setting (.observe ⟨now, message, incoming, fingerprintSource⟩)
  | observeDuplicate message incoming => exact .of_bare fun _ => observeDuplicate_bare message incoming s
  | beginInspection other => exact .of_step setting (.beginInspection other)
  | commitInspection token report => exact .of_step setting (.commitInspection now token report)
  | liveness other round responsive confirmedTimeout => exact liveness_grows s other _ _ _
  | reconcile => exact .of_step setting (.reconcile now)
  | addSeed seedId seed =>
    unfold operate addSeed
    dsimp only
    repeat' split
    all_goals exact .refl s
  | inspectSeed seedId report incoming => exact .of_step setting (.inspectSeed now seedId report incoming)

-- Datagrams

structure Announces (s s' : Inventory ν) : Prop where
  ahead : Ahead s s'
  lapsed : ∀ id, Lapsed id s s'

theorem Announces.refl (s : Inventory ν) : Announces s s := ⟨.refl s, fun _ => .of_eq rfl⟩

theorem Announces.diagnostic (s : Inventory ν) (code message : String) (deviceId : Option String) (truncated : Bool) :
    Announces s (diagnostic setting now s code message deviceId truncated) :=
  ⟨operate_ahead setting now s (.diagnostic code message deviceId truncated), fun _ => (lapses.diagnostic _ _ _ _ _).lapsed⟩

theorem Announces.duplicate (s : Inventory ν) (message : DiscoveryMessage) (incoming : Provenance) :
    Announces s (observeDuplicate setting now s message incoming).1 :=
  ⟨operate_ahead setting now s (.observeDuplicate message incoming), fun _ => (observeDuplicate_lapses s message incoming).lapsed⟩

section
variable {setting : ReceiverSetting ν} {e : Receiver ν} {at_ : Local} {datagram : Datagram} {message : DiscoveryMessage}
  {incoming : Provenance} {r : Receiver ν × List String}

theorem Announces.observe (e : Receiver ν) (message : DiscoveryMessage) (incoming : Provenance) (fingerprintSource : DiscoveryMessage) :
    Announces e.inventory (e.observe setting now message incoming fingerprintSource).1.inventory :=
  ⟨operate_ahead setting.inventory now e.inventory (.observe message fingerprintSource incoming),
    fun _ => observe_lapsed e.inventory message incoming fingerprintSource⟩

theorem correlate_announces (h : correlate setting now e at_ message incoming = .ok r) : Announces e.inventory r.1.inventory := by
  unfold correlate at h
  split at h
  · split at h
    · obtain rfl := Except.ok.inj h
      exact .diagnostic _ _ _ _ _
    · obtain ⟨entries, _, h⟩ := except_bind_ok h
      obtain rfl := Except.ok.inj h
      exact .observe { e with requests := _ } _ _ _
  · split at h
    · obtain rfl := Except.ok.inj h
      exact .diagnostic _ _ _ _ _
    · obtain ⟨entries, _, h⟩ := except_bind_ok h
      obtain rfl := Except.ok.inj h
      exact .observe { e with requests := _ } _ _ _
  · obtain ⟨entries, _, h⟩ := except_bind_ok h
    obtain rfl := Except.ok.inj h
    exact .observe e _ _ _
  · obtain rfl := Except.ok.inj h
    exact .observe e _ _ _

theorem hearDatagram_announces (h : hearDatagram setting now e at_ datagram = .ok r) :
    Announces e.inventory r.1.inventory := by
  obtain ⟨within, _, h⟩ := except_bind_ok h
  split at h
  · obtain ⟨message, _, h⟩ := except_bind_ok h
    dsimp only at h
    split at h
    · obtain rfl := Except.ok.inj h
      exact .observe e _ _ _
    · split at h
      · obtain rfl := Except.ok.inj h
        exact .duplicate _ _ _
      · exact correlate_announces h
  · obtain rfl := Except.ok.inj h
    exact .diagnostic _ _ _ _ _

theorem receive_announces (setting : ReceiverSetting ν) (now : Int) (e : Receiver ν) (at_ : Local) (datagram : Datagram) :
    Announces e.inventory (receive setting now e at_ datagram).1.inventory := by
  obtain ⟨hinventory, _⟩ := inventory_count setting now e
  unfold receive
  split
  · exact .refl _
  · dsimp only
    rw [← hinventory]
    split
    · split
      · exact .diagnostic _ _ _ _ _
      · exact .refl _
    · split
      · rename_i hheard
        exact hearDatagram_announces hheard
      · exact .diagnostic _ _ _ _ _

end

-- Other calls

section
variable (setting : ReceiverSetting ν) (now : Int) (e : Receiver ν)

theorem target_same (deviceId : String) : At id Same e.inventory (target setting now e deviceId).1.inventory := by
  unfold target
  split
  · exact .refl Same.rfl'
  · dsimp only
    split
    · exact diagnostic_same _ _ _ _ _
    · exact .refl Same.rfl'

theorem receiver_ahead (event : Receiver.Event ν) : Ahead e.inventory (e.step setting (now, event)).inventory := by
  cases event with
  | operate op silent => exact operate_ahead _ _ _ op
  | inspectSeed seedId report incoming => exact operate_ahead _ _ _ (.inspectSeed seedId report incoming)
  | receive at_ datagram => exact (receive_announces setting now e at_ datagram).ahead
  | request at_ wanted requestId sending =>
    unfold Receiver.step request
    dsimp only
    split
    · exact .of_same fun _ => diagnostic_same _ _ _ _ _
    · split <;> exact .refl _
  | target deviceId => exact .of_same fun _ => target_same setting now e deviceId
  | _ => exact .refl _

end

end WotAv.Discovery
