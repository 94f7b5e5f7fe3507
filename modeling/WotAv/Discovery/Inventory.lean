import Mathlib.Data.List.AList
import WotAv.Discovery.Device

/-!
# The inventory (`src/discovery/inventory.ts`)

`Inventory`, with its maps as keyed lists. The clock is read once in a call.
What a call needs of the rest of the package is in `Setting`: the check of
native addresses, the two digests, and whether a view of the inventory fits
into so many bytes.
-/

namespace WotAv.Discovery

open WotAv.Binding (QName)

structure Bounds where
  maxDevices : Nat
  maxMessageIds : Nat
  maxSequenceIds : Nat
  maxXAddrs : Nat
  maxProvenance : Nat
  maxDiagnostics : Nat
  maxScopes : Nat
  maxTypes : Nat
  maxServices : Nat
  maxRequestsPerInspection : Nat
  maxStoreBytes : Nat

/-- The digest of a remembered message, and the devices that it was applied to. -/
structure Remembered where
  fingerprint : String
  deviceIds : List String

structure Inventory (ν : Type) where
  devices : AList fun _ : String => Device ν := ∅
  seeds : AList fun _ : String => SeedSnapshot := ∅
  messages : List (String × Remembered) := []
  diagnostics : List Diagnostic := []
  revision : Nat := 0
  truncated : Bool := false

structure InventorySnapshot (ν : Type) where
  revision : Nat
  capturedAt : Int
  devices : List (String × Device ν)
  seeds : List (String × SeedSnapshot)
  diagnostics : List Diagnostic
  truncated : Bool

structure Setting (ν : Type) where
  bounds : Bounds
  staleMs : Int
  departureGraceMs : Int
  /-- `approveXAddr`, which refuses what no native target may be. -/
  approveXAddr : String → Option Bool
  endpointIdentity : DiscoveryEndpointReference → String
  fingerprint : DiscoveryMessage → String
  /-- `assertJson`, with this many bytes. -/
  assertJson : InventorySnapshot ν → Nat → Bool

variable {ν : Type}

namespace Inventory

def device (s : Inventory ν) (id : String) : Option (Device ν) := s.devices.lookup id

def modify (s : Inventory ν) (id : String) (f : Device ν → Device ν) : Inventory ν := match s.device id with
  | none => s
  | some d => { s with devices := s.devices.insert id (f d) }

def touch (s : Inventory ν) (deviceId : Option String) (f : Device ν → Device ν) : Inventory ν := match deviceId with
  | none => s
  | some id => s.modify id f

def sorted {α : Type} (map : AList fun _ : String => α) : List (String × α) :=
  (map.entries.map fun entry => (entry.1, entry.2)).mergeSort fun a b => a.1 ≤ b.1

def view (s : Inventory ν) (now : Int) : InventorySnapshot ν where
  revision := s.revision
  capturedAt := now
  devices := sorted s.devices
  seeds := sorted s.seeds
  diagnostics := s.diagnostics
  truncated := s.truncated

end Inventory

variable (setting : Setting ν) (now : Int)

def fits (s : Inventory ν) (reserved : Nat := 0) : Bool :=
  setting.assertJson (s.view now) (setting.bounds.maxStoreBytes - reserved)

def fitsData (s : Inventory ν) : Bool := fits setting now s (min 1024 (setting.bounds.maxStoreBytes / 4))

-- Diagnostics

def addDiagnostic (finding : Diagnostic) (diagnostics : List Diagnostic) : List Diagnostic :=
  let diagnostics := diagnostics ++ [finding]
  if setting.bounds.maxDiagnostics < diagnostics.length then diagnostics.tail else diagnostics

def shed (deviceId : Option String) : Nat → Inventory ν → Inventory ν
  | 0, s => s
  | n + 1, s =>
    if fits setting now s then s
    else shed deviceId n ({ s with diagnostics := s.diagnostics.tail, truncated := true }.touch deviceId fun d =>
      { d with diagnostics := d.diagnostics.tail })

def diagnostic (s : Inventory ν) (code message : String) (deviceId : Option String := none)
    (truncated : Bool := false) : Inventory ν :=
  let finding : Diagnostic := ⟨code, message, now, deviceId⟩
  let s := { s with
    diagnostics := addDiagnostic setting finding s.diagnostics, revision := s.revision + 1
    truncated := s.truncated || truncated }.touch deviceId fun d =>
      { d with diagnostics := addDiagnostic setting finding d.diagnostics }
  let own := (deviceId.bind s.device).elim 0 (·.diagnostics.length)
  shed setting now deviceId (max s.diagnostics.length own) s

-- What a message says

/-- `create`, which tells whether there is such a device. -/
def create (s : Inventory ν) (endpoint : DiscoveryEndpointReference) : Inventory ν × Bool :=
  let id := setting.endpointIdentity endpoint
  if (s.device id).isSome then (s, true)
  else if setting.bounds.maxDevices ≤ s.devices.entries.length then
    (diagnostic setting now s "CandidateLimit" "Additional identities were not admitted; inventory is incomplete" none true, false)
  else
    let d : Device ν :=
      { endpointReference := endpoint, seenAt := now, updatedAt := now
        information := unknown _ now, services := unknown _ now }
    ({ s with devices := s.devices.insert id d, revision := s.revision + 1 }, true)

def mergeProvenance (s : Inventory ν) (list : List Provenance) (incoming : Provenance) :
    Inventory ν × List Provenance × Bool :=
  if list.any fun item => provenanceKey item = provenanceKey incoming then (s, list, false)
  else if setting.bounds.maxProvenance ≤ list.length then
    (diagnostic setting now s "ProvenanceLimit" "Additional interface provenance was not retained" none true, list, false)
  else (s, list ++ [incoming], true)

def mergeDeviceProvenance (s : Inventory ν) (id : String) (incoming : Provenance) : Inventory ν × Bool :=
  match s.device id with
  | none => (s, false)
  | some d =>
    let (s, list, changed) := mergeProvenance setting now s d.provenance incoming
    (if changed then s.modify id fun d => { d with provenance := list } else s, changed)

def mergeEndpointProvenance (s : Inventory ν) (id : String) (incoming : Provenance) (index : Nat) :
    Inventory ν × Bool :=
  match (s.device id).bind (·.endpoints[index]?) with
  | none => (s, false)
  | some endpoint =>
    let (s, list, changed) := mergeProvenance setting now s endpoint.provenance incoming
    (if changed then s.modify id fun d => { d with endpoints := d.endpoints.modify index ({ · with provenance := list }) } else s,
      changed)

/-- One address of `mergeEndpoints`. -/
def mergeXAddr (s : Inventory ν) (id : String) (incoming : Provenance) (xaddr : String) : Inventory ν × Bool :=
  match s.device id with
  | none => (s, false)
  | some d =>
    match d.endpoints.findIdx? (·.xaddr = xaddr) with
    | some index => ((mergeEndpointProvenance setting now s id incoming index).1, false)
    | none =>
      if setting.bounds.maxXAddrs ≤ d.endpoints.length then
        (diagnostic setting now s "EndpointLimit" "Additional native endpoints were not admitted" (some id) true, false)
      else match setting.approveXAddr xaddr with
        | none => (diagnostic setting now s "RejectedXAddr" "A discovery XAddr failed the native target policy" (some id), false)
        | some approved =>
          let s := s.modify id fun d => { d with endpoints := d.endpoints ++ [⟨xaddr, approved, []⟩] }
          ((mergeEndpointProvenance setting now s id incoming d.endpoints.length).1, true)

def forEach {α σ : Type} (round : σ → α → σ × Bool) : List α → σ × Bool → σ × Bool
  | [], r => r
  | a :: as, r =>
    let next := round r.1 a
    forEach round as (next.1, next.2 || r.2)

def mergeEndpoints (s : Inventory ν) (id : String) (xaddrs : List String) (incoming : Provenance) : Inventory ν × Bool :=
  let (s, changed) := forEach (fun s => mergeXAddr setting now s id incoming) xaddrs (s, false)
  ((mergeDeviceProvenance setting now s id incoming).1, changed)

/-- A remembered message is seen again: what `observeDuplicate` does for one
device. -/
def again (message : DiscoveryMessage) (incoming : Provenance) (s : Inventory ν) (id : String) : Inventory ν :=
  match s.device id, message.entries.find? fun entry => setting.endpointIdentity entry.endpointReference = id with
  | some d, some entry =>
    let indices := (List.range d.endpoints.length).filter fun index =>
      (d.endpoints[index]?).any fun endpoint => entry.xaddrs.contains endpoint.xaddr
    let (s, changed) := forEach (fun s => mergeEndpointProvenance setting now s id incoming) indices
      (mergeDeviceProvenance setting now s id incoming)
    if changed then { s with revision := s.revision + 1 } else s
  | _, _ => s

def remembered (s : Inventory ν) (messageId : String) : Option Remembered :=
  (s.messages.find? (·.1 = messageId)).map (·.2)

def observeDuplicate (s : Inventory ν) (message : DiscoveryMessage) (incoming : Provenance) : Inventory ν × Bool :=
  match remembered s message.messageId with
  | none => (s, false)
  | some prior =>
    if prior.fingerprint ≠ setting.fingerprint message then
      (diagnostic setting now s "MessageIdCollision" "Repeated MessageID has contradictory content", true)
    else (prior.deviceIds.foldl (again setting now message incoming) s, true)

def newer (sequence : AppSequence) (d : Device ν) : Bool := match d.ordering.instanceId with
  | none => true
  | some prior => bigInt prior < bigInt sequence.instanceId

def order (s : Inventory ν) (id : String) (d : Device ν) (message : DiscoveryMessage) : Inventory ν × Bool :=
  match message.sequence with
  | none =>
    (diagnostic setting now s "UnsequencedCandidate" "Unsequenced compatibility traffic cannot replace ordered state" (some id),
      d.ordering.instanceId.isNone && d.verifiedAt.isNone && message.kind ≠ .bye)
  | some sequence =>
    if d.ordering.instanceId.any fun prior => bigInt sequence.instanceId < bigInt prior then
      (diagnostic setting now s "OldInstance" "Delayed message from an older device epoch was ignored" (some id), false)
    else
      let s := if newer sequence d then s.modify id (·.enter sequence.instanceId) else s
      let d := if newer sequence d then d.enter sequence.instanceId else d
      if (d.watermark sequence.sequenceId).any fun mark => bigInt sequence.messageNumber ≤ bigInt mark.messageNumber then
        (diagnostic setting now s "OldMessageNumber" "Duplicate or older message in the same sequence was ignored" (some id), false)
      else if (d.watermark sequence.sequenceId).isNone ∧ setting.bounds.maxSequenceIds ≤ d.ordering.sequences.length then
        (diagnostic setting now s "SequenceLimit" "New incomparable sequence was not admitted; existing watermarks retained"
          (some id) true, false)
      else
        let other := d.ordering.sequences.filter (·.sequenceId ≠ sequence.sequenceId)
        let s := if other.any fun item => decide (item.kind = .bye) ≠ decide (message.kind = .bye) then
            diagnostic setting now (s.modify id ({ · with state := .conflict })) "IncomparablePresence"
              "Different SequenceIds contradict presence; arrival time cannot resolve them" (some id)
          else s
        (s.modify id (·.record sequence message.kind), true)

/-- A loop of `mergeMetadata` over claims of a kind, which ends at its bound. -/
def retainEach {α : Type} [DecidableEq α] (kept : Device ν → List α) (push : α → Device ν → Device ν) (limit : Nat)
    (code message : String) (id : String) : List α → Inventory ν → Inventory ν
  | [], s => s
  | claim :: claims, s => match s.device id with
    | none => s
    | some d =>
      if claim ∈ kept d then retainEach kept push limit code message id claims s
      else if limit ≤ (kept d).length then diagnostic setting now s code message (some id) true
      else retainEach kept push limit code message id claims (s.modify id (push claim))

def mergeTypes (id : String) (types : List QName) (s : Inventory ν) : Inventory ν :=
  retainEach setting now (·.types) (fun type d => { d with types := d.types ++ [type] }) setting.bounds.maxTypes
    "TypeLimit" "Additional type claims were not retained" id types s

def mergeScopes (id : String) (scopes : List String) (s : Inventory ν) : Inventory ν :=
  retainEach setting now (·.scopes) (fun scope d => { d with scopes := d.scopes ++ [scope] }) setting.bounds.maxScopes
    "ScopeLimit" "Additional scope claims were not retained" id scopes s

def mergeVersion (s : Inventory ν) (id : String) (metadataVersion : Option String) : Inventory ν × Bool :=
  match s.device id, metadataVersion with
  | some d, some version =>
    if d.metadataVersion.any fun prior => bigInt version < bigInt prior then
      (diagnostic setting now s "MetadataRegression"
        "MetadataVersion decreased, including across restart; prior watermark retained" (some id), false)
    else if d.metadataVersion ≠ some version then (s.modify id ({ · with metadataVersion := some version }), true)
    else (s, false)
  | _, _ => (s, false)

/-- What `mergeMetadata` makes of the presence of a device. -/
def mergePresence (s : Inventory ν) (id : String) (message : DiscoveryMessage) : Inventory ν × Bool :=
  if message.kind = .bye then
    (s.modify id fun d => { d with
      state := if d.state = .conflict then .conflict else .suspect, suspectSince := d.suspectSince.or (some now) }, true)
  else
    let s := if message.sequence.isSome then s.modify id ({ · with seenAt := now }) else s
    if (s.device id).any (·.state = .departed) then (s.modify id ({ · with state := .candidate }), true) else (s, false)

def mergeMetadata (s : Inventory ν) (id : String) (entry : DiscoveryMatch) (message : DiscoveryMessage)
    (incoming : Provenance) : Inventory ν × Bool :=
  let endpoints := mergeEndpoints setting now s id entry.xaddrs incoming
  let version := mergeVersion setting now endpoints.1 id entry.metadataVersion
  let s := mergeScopes setting now id entry.scopes (mergeTypes setting now id entry.types version.1)
  let s := s.modify id (·.mergeClaims setting.bounds.maxScopes (profileClaims entry.scopes .discoveryScope now))
  let presence := mergePresence now s id message
  (presence.1, presence.2 || version.2 || endpoints.2)

/-- `if (changed)` of `observe`. -/
def supersede (d : Device ν) : Device ν :=
  { d with inspectionGeneration := d.inspectionGeneration + 1, state := if d.state = .verified then .candidate else d.state }

/-- What `observe` makes of a match that is in order. -/
def accept (s : Inventory ν) (id : String) (entry : DiscoveryMatch) (message : DiscoveryMessage) (incoming : Provenance) :
    Inventory ν :=
  let merged := mergeMetadata setting now s id entry message incoming
  (if merged.2 then merged.1.modify id supersede else merged.1).modify id ({ · with updatedAt := now })

def restored (s : Inventory ν) (id : String) (prior : Option (Device ν)) : Inventory ν := match prior with
  | some prior => s.modify id fun _ => prior
  | none => { s with devices := s.devices.erase id }

/-- `device ??= this.create(match.endpointReference)`. -/
def located (s : Inventory ν) (entry : DiscoveryMatch) : Inventory ν :=
  if (s.device (setting.endpointIdentity entry.endpointReference)).isNone then (create setting now s entry.endpointReference).1
  else s

def observeMatch (message : DiscoveryMessage) (incoming : Provenance) (s : Inventory ν) (entry : DiscoveryMatch) :
    Inventory ν × Bool :=
  let id := setting.endpointIdentity entry.endpointReference
  let prior := s.device id
  if prior.isNone ∧ message.kind = .bye then (s, false)
  else
    let s := located setting now s entry
    match s.device id with
    | none => (s, false)
    | some d =>
      let ordered := order setting now s id d message
      if ¬ordered.2 then (ordered.1, false)
      else
        let s := accept setting now ordered.1 id entry message incoming
        if ¬fitsData setting now s then
          (diagnostic setting now (restored s id prior) "InventoryByteLimit"
            "Additional discovery metadata was not admitted to the bounded inventory" none true, false)
        else ({ s with revision := s.revision + 1 }, true)

/-- The loop of `observe`, with the devices that were admitted. -/
def observeMatches (message : DiscoveryMessage) (incoming : Provenance) : List DiscoveryMatch → Inventory ν →
    Inventory ν × List String
  | [], s => (s, [])
  | entry :: entries, s =>
    let r := observeMatch setting now message incoming s entry
    let rest := observeMatches message incoming entries r.1
    (rest.1, if r.2 then setting.endpointIdentity entry.endpointReference :: rest.2 else rest.2)

/-- The message is remembered, and the oldest one forgotten where there are too
many. -/
def remember (s : Inventory ν) (messageId : String) (prior : Remembered) : Inventory ν :=
  let messages := s.messages ++ [(messageId, prior)]
  { s with messages := if setting.bounds.maxMessageIds < messages.length then messages.tail else messages }

def observe (s : Inventory ν) (message : DiscoveryMessage) (incoming : Provenance) (fingerprintSource : DiscoveryMessage) :
    Inventory ν × List String :=
  if message.discoveryProxy then
    (diagnostic setting now s "DiscoveryProxyUnapproved"
      "Proxy announcement is separate from device discovery and does not suppress probes", [])
  else
    let duplicate := observeDuplicate setting now s message incoming
    if duplicate.2 then (duplicate.1, [])
    else
      let r := observeMatches setting now message incoming message.entries duplicate.1
      (remember setting r.1 message.messageId ⟨setting.fingerprint fingerprintSource, r.2⟩, r.2)

end WotAv.Discovery
