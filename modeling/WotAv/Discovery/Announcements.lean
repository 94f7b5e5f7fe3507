import WotAv.Discovery.Ordering

/-!
# Runs of announcements

Messages in any order, with any repetition: what a device has been told is
never taken back, and nothing is told to it twice.
-/

namespace WotAv.Discovery

variable {ν : Type} (setting : Setting ν) {s : Inventory ν} {id : String} {d : Device ν}

structure Announcement where
  now : Int
  message : DiscoveryMessage
  incoming : Provenance
  fingerprintSource : DiscoveryMessage

def heard (s : Inventory ν) (a : Announcement) : Inventory ν × List String :=
  observe setting a.now s a.message a.incoming a.fingerprintSource

def hear (s : Inventory ν) (announcements : List Announcement) : Inventory ν :=
  announcements.foldl (fun s a => (heard setting s a).1) s

def applied (s : Inventory ν) (a : Announcement) : List (String × Point) := match a.message.sequence with
  | none => []
  | some sequence => (heard setting s a).2.map (·, sequence.point)

def applications : Inventory ν → List Announcement → List (String × Point)
  | _, [] => []
  | s, a :: announcements => applied setting s a ++ applications (heard setting s a).1 announcements

theorem mem_applied {point : Point} (h : (id, point) ∈ applied setting s a) : ∃ sequence,
    a.message.sequence = some sequence ∧
    point = sequence.point ∧ id ∈ (heard setting s a).2 := by
  unfold applied at h
  split at h
  · cases h
  · rename_i sequence hs
    obtain ⟨id', hid, heq⟩ := List.mem_map.mp h
    obtain ⟨rfl, rfl⟩ := Prod.mk.inj heq
    exact ⟨sequence, hs, rfl, hid⟩

theorem hear_moves (announcements : List Announcement) (s : Inventory ν) :
    Onward id (Moves false) s (hear setting s announcements) := by
  induction announcements generalizing s with
  | nil => exact .refl Moves.rfl'
  | cons a announcements ih =>
    exact (observe_moves a.message a.incoming a.fingerprintSource s).trans (fun _ _ _ hab hbc => hab.trans hbc) (ih _)

theorem passed_not_applied {point : Point} (announcements : List Announcement) (hd : s.device id = some d)
    (hp : Passed point d) : (id, point) ∉ applications setting s announcements := by
  induction announcements generalizing s d with
  | nil => exact nofun
  | cons a announcements ih =>
    rw [applications, List.mem_append, not_or]
    refine ⟨fun h => ?_, ?_⟩
    · obtain ⟨sequence, hs, rfl, hid⟩ := mem_applied setting h
      have hi : Ignored a.message d := by simpa [Ignored, hs] using hp
      exact (observe_ignored a.message a.incoming a.fingerprintSource hd hi).2.2 hid
    · have hmoves : Onward id (Moves false) s (heard setting s a).1 := observe_moves a.message a.incoming a.fingerprintSource s
      obtain ⟨d', hd', hm⟩ := hmoves d hd
      exact ih hd' (hp.mono hm.ordered)

theorem applications_nodup (announcements : List Announcement) (s : Inventory ν) :
    (applications setting s announcements).Nodup := by
  induction announcements generalizing s with
  | nil => exact List.nodup_nil
  | cons a announcements ih =>
    refine List.nodup_append.mpr ⟨?_, ih _, ?_⟩
    · unfold applied
      split
      · exact List.nodup_nil
      · rename_i sequence hs
        refine (observe_admits a.message a.incoming a.fingerprintSource hs s).1.map fun x y h => ?_
        exact (Prod.mk.inj h).1
    · rintro ⟨id, point⟩ happlied _ hlater rfl
      obtain ⟨sequence, hs, rfl, hid⟩ := mem_applied setting happlied
      obtain ⟨d, hd, hp⟩ := (observe_admits a.message a.incoming a.fingerprintSource hs s).2 id hid
      exact passed_not_applied setting announcements hd hp hlater

/-- The order of announcements. -/
theorem announcements_ordered (setting : Setting ν) (s : Inventory ν) (announcements : List Announcement) :
    (∀ id d, s.device id = some d → ∃ d', (hear setting s announcements).device id = some d' ∧ Ordered d d') ∧
    (applications setting s announcements).Nodup ∧
    ∀ a id,
      (∀ d, (hear setting s announcements).device id = some d → Ignored a.message d →
        id ∉ (heard setting (hear setting s announcements) a).2 ∧
        ∃ d', (heard setting (hear setting s announcements) a).1.device id = some d' ∧ SameBare d d' ∧
          (¬Duplicate a.message setting (hear setting s announcements) → Same d d')) ∧
      (a.message.kind = .bye → (hear setting s announcements).device id = none →
        (heard setting (hear setting s announcements) a).1.device id = none) := by
  refine ⟨fun id d hd => ?_, applications_nodup setting announcements s, fun a id => ⟨fun d hd hi => ?_, ?_⟩⟩
  · obtain ⟨d', hd', hm⟩ := hear_moves setting announcements s d hd
    exact ⟨d', hd', hm.ordered⟩
  · generalize hear setting s announcements = t at hd ⊢
    have hignored : Onward id SameBare t (heard setting t a).1 ∧
        (¬Duplicate a.message setting t → Onward id Same t (heard setting t a).1) ∧ id ∉ (heard setting t a).2 :=
      observe_ignored a.message a.incoming a.fingerprintSource hd hi
    obtain ⟨hbare, hsame, hnot⟩ := hignored
    obtain ⟨d', hd', hb⟩ := hbare d hd
    refine ⟨hnot, d', hd', hb, fun hnew => ?_⟩
    obtain ⟨d'', hd'', hs⟩ := hsame hnew d hd
    rwa [Option.some.inj (hd'.symm.trans hd'')]
  · exact fun hb h => observe_bye a.message a.incoming a.fingerprintSource hb h

def plain : Setting Unit where
  bounds := ⟨8, 8, 8, 8, 8, 8, 8, 8, 8, 8, 65536⟩
  staleMs := 90000
  departureGraceMs := 60000
  approveXAddr _ := some true
  endpointIdentity endpoint := endpoint.address
  fingerprint message := message.messageId
  assertJson _ _ := true

def hello (interfaceId messageId : String) (sequence : Option AppSequence) : Announcement :=
  let message : DiscoveryMessage :=
    { kind := .hello, messageId, relatesTo := none, to_ := "urn:schemas-xmlsoap-org:ws:2005:04:discovery", sequence
      entries := [⟨⟨"urn:uuid:camera", [], []⟩, [], [], none, [], none⟩], discoveryProxy := false }
  ⟨0, message, ⟨interfaceId, "lan", "192.0.2.7", .ipv4, 3702, 0, messageId⟩, message⟩

def ordered : Inventory Unit :=
  hear plain {} [hello "eth0" "urn:uuid:1" none, hello "eth0" "urn:uuid:2" (some ⟨"1", none, "1"⟩)]

theorem ordered_camera : (ordered.device "urn:uuid:camera").map (fun d => (d.ordering.instanceId.isSome, d.provenance.length)) =
    some (true, 1) := by decide

theorem unsequenced_changes : ¬∀ (a : Announcement) (d : Device Unit), a.message.sequence = none →
    ordered.device "urn:uuid:camera" = some d → d.ordering.instanceId.isSome →
      (heard plain ordered a).1.device "urn:uuid:camera" = some d := by
  intro h
  have hcamera := ordered_camera
  cases hd : ordered.device "urn:uuid:camera" with
  | none => simp [hd] at hcamera
  | some d =>
    simp only [hd, Option.map_some, Option.some.injEq, Prod.mk.injEq] at hcamera
    have hsame := h (hello "eth1" "urn:uuid:1" none) d rfl hd hcamera.1
    have hchanged : ((heard plain ordered (hello "eth1" "urn:uuid:1" none)).1.device "urn:uuid:camera").map
        (·.provenance.length) = some 2 := by decide
    rw [hsame, Option.map_some, hcamera.2] at hchanged
    cases hchanged

end WotAv.Discovery
