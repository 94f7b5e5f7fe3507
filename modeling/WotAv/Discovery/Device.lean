import WotAv.Binding.Soap

/-!
# Devices of the inventory (`src/discovery/types.ts`)

A device as the inventory keeps it. What the inventory does not look into (the
data of reads, features and resources) is a value of the type `ν`. Counters are
the decimal strings that `protocolCounter` makes, compared as numbers.
-/

namespace WotAv.Discovery

open WotAv.Binding (QName XmlNode)

-- Observations

inductive Missing
  | unsupported | denied | fault | timeout | truncated | unknown
  deriving DecidableEq, Repr

inductive ReadResult (α : Type)
  | known (value : α)
  | missing (status : Missing) (code message : String) (part : Option α)
  deriving DecidableEq, Repr

structure ObservationSource where
  operation : String
  xaddr : String
  deriving DecidableEq, Repr

structure LastKnown (α : Type) where
  value : α
  observedAt : Int
  source : Option ObservationSource
  deriving DecidableEq, Repr

structure Observation (α : Type) where
  result : ReadResult α
  observedAt : Int
  source : Option ObservationSource := none
  lastKnown : Option (LastKnown α) := none
  deriving DecidableEq, Repr

def Observation.value? {α : Type} (observation : Observation α) : Option α := match observation.result with
  | .known value => some value
  | .missing .. => none

def unknown (α : Type) (now : Int) : Observation α :=
  { result := .missing .unknown "NotInspected" "No confirmed native observation" none, observedAt := now }

def retained {α : Type} (previous next : Observation α) : Observation α := match next.result with
  | .known _ => next
  | .missing .. =>
    let lastKnown := match previous.result with
      | .known value => some { value, observedAt := previous.observedAt, source := previous.source }
      | .missing .. => previous.lastKnown
    if lastKnown.isNone then next else { next with lastKnown }

-- Messages

def bigInt (text : String) : Nat :=
  text.toList.foldl (fun n ch => if ch.isDigit then 10 * n + (ch.toNat - '0'.toNat) else n) 0

inductive AnnouncementKind
  | hello | bye | probeMatches | resolveMatches
  deriving DecidableEq, Repr

structure AppSequence where
  instanceId : String
  sequenceId : Option String
  messageNumber : String
  deriving DecidableEq, Repr

structure DiscoveryEndpointReference where
  address : String
  referenceProperties : List XmlNode
  referenceParameters : List XmlNode

structure DiscoveryMatch where
  endpointReference : DiscoveryEndpointReference
  types : List QName
  scopes : List String
  scopeMatchBy : Option String
  xaddrs : List String
  metadataVersion : Option String

structure DiscoveryMessage where
  kind : AnnouncementKind
  messageId : String
  relatesTo : Option String
  to_ : String
  sequence : Option AppSequence
  entries : List DiscoveryMatch
  discoveryProxy : Bool

inductive Family
  | ipv4 | ipv6
  deriving DecidableEq, Repr

structure Provenance where
  interfaceId : String
  segmentId : String
  address : String
  family : Family
  port : Nat
  receivedAt : Int
  messageId : String
  deriving DecidableEq, Repr

def provenanceKey (p : Provenance) : String × String × Family × String × Nat :=
  (p.interfaceId, p.segmentId, p.family, p.address, p.port)

-- Devices

inductive DeviceState
  | candidate | verified | suspect | stale | conflict | departed
  deriving DecidableEq, Repr

structure Diagnostic where
  code : String
  message : String
  now : Int
  deviceId : Option String
  deriving DecidableEq, Repr

structure EndpointObservation where
  xaddr : String
  approved : Bool
  provenance : List Provenance
  deriving DecidableEq, Repr

structure SequenceWatermark where
  sequenceId : Option String
  messageNumber : String
  kind : AnnouncementKind
  deriving DecidableEq, Repr

structure Ordering where
  instanceId : Option String
  sequences : List SequenceWatermark
  deriving DecidableEq, Repr

inductive ClaimSource
  | discoveryScope | getScopes
  deriving DecidableEq, Repr

structure ProfileClaim where
  scope : String
  label : String
  source : ClaimSource
  observedAt : Int
  deriving DecidableEq, Repr

/-- `^onvif:\/\/www\.onvif\.org\/(?:Profile|profile)\/([^/?#]+)$`. -/
def profileLabel (scope : String) : Option String :=
  ["onvif://www.onvif.org/Profile/", "onvif://www.onvif.org/profile/"].findSome? fun start =>
    let label := scope.toList.drop start.length
    if start.toList.isPrefixOf scope.toList ∧ label ≠ [] ∧ (label.all fun ch => ch ≠ '/' && ch ≠ '?' && ch ≠ '#') then
      some (String.ofList label)
    else none

def profileClaims (scopes : List String) (source : ClaimSource) (now : Int) : List ProfileClaim :=
  scopes.filterMap fun scope => (profileLabel scope).map fun label => { scope, label, source, observedAt := now }

structure DeviceInformation where
  manufacturer : String
  model : String
  firmwareVersion : String
  serialNumber : String
  hardwareId : String
  deriving DecidableEq, Repr

structure ServiceSnapshot (ν : Type) where
  namespace_ : String
  xaddr : String
  version : Option (Nat × Nat)
  capabilities : Observation ν
  deriving DecidableEq, Repr

inductive ResourceKind
  | mediaProfile | videoSourceConfiguration | videoEncoderConfiguration | metadataConfiguration
  | recording | recordingJob | track | accessPoint | door | accessProfile | schedule | receiver
  | analyticsConfiguration | analyticsModule | analyticsRule
  deriving DecidableEq, Repr

structure ResourceInventory (ν : Type) where
  namespace_ : String
  xaddr : String
  kind : ResourceKind
  outcome : Observation (List ν)
  deriving DecidableEq, Repr

def inventoryKey {ν : Type} (resource : ResourceInventory ν) : String × String × ResourceKind :=
  (resource.namespace_, resource.xaddr, resource.kind)

structure IdentityEvidence where
  authenticated : Bool
  authority : String
  subject : String
  xaddr : String
  observedAt : Int
  deriving DecidableEq, Repr

inductive EvidenceStatus
  | unverified | matched | firmwareMismatch
  deriving DecidableEq, Repr

structure CuratedConformanceEvidence where
  firmwareVersion : String
  reference : String
  status : EvidenceStatus
  deriving DecidableEq, Repr

structure Device (ν : Type) where
  endpointReference : DiscoveryEndpointReference
  state : DeviceState := .candidate
  identityConflict : Bool := false
  epoch : Nat := 0
  inspectionGeneration : Nat := 0
  ordering : Ordering := ⟨none, []⟩
  metadataVersion : Option String := none
  types : List QName := []
  scopes : List String := []
  claims : List ProfileClaim := []
  endpoints : List EndpointObservation := []
  provenance : List Provenance := []
  seenAt : Int
  verifiedAt : Option Int := none
  updatedAt : Int
  suspectSince : Option Int := none
  failedLivenessRounds : Nat := 0
  lastLivenessRound : Option Int := none
  information : Observation DeviceInformation
  services : Observation (List (ServiceSnapshot ν))
  reads : List ν := []
  resources : List (ResourceInventory ν) := []
  observedFeatures : List ν := []
  identityEvidence : List IdentityEvidence := []
  registryEvidence : List CuratedConformanceEvidence := []
  diagnostics : List Diagnostic := []

structure SeedSnapshot where
  xaddr : String
  interfaceId : String
  segmentId : String
  expectedEndpointAddress : Option String
  resolvedDeviceId : Option String
  outcome : Observation String
  deriving DecidableEq, Repr

structure InspectionToken where
  deviceId : String
  epoch : Nat
  generation : Nat
  deriving DecidableEq, Repr

structure InspectionReport (ν : Type) where
  information : Observation DeviceInformation
  services : Observation (List (ServiceSnapshot ν))
  scopes : Observation (List String)
  endpointReference : Observation DiscoveryEndpointReference
  reads : List ν
  resources : List (ResourceInventory ν)
  observedFeatures : List ν
  identityEvidence : List IdentityEvidence
  completedAt : Int
  responsive : Bool
  truncated : Bool

-- Changes of a device

namespace Device
variable {ν : Type}

def enter (instanceId : String) (d : Device ν) : Device ν :=
  { d with
    ordering := ⟨some instanceId, []⟩, epoch := d.epoch + 1, inspectionGeneration := d.inspectionGeneration + 1
    state := if d.state = .conflict then .conflict else .candidate }

def watermark (d : Device ν) (sequenceId : Option String) : Option SequenceWatermark :=
  d.ordering.sequences.find? (·.sequenceId = sequenceId)

def record (sequence : AppSequence) (kind : AnnouncementKind) (d : Device ν) : Device ν :=
  let mark : SequenceWatermark := ⟨sequence.sequenceId, sequence.messageNumber, kind⟩
  { d with ordering := { d.ordering with
      sequences := if (d.watermark sequence.sequenceId).isSome then
          d.ordering.sequences.map fun item => if item.sequenceId = sequence.sequenceId then mark else item
        else d.ordering.sequences ++ [mark] } }

def mergeClaims (limit : Nat) (claims : List ProfileClaim) (d : Device ν) : Device ν :=
  { d with claims := claims.foldl (fun known claim =>
      match known.findIdx? (·.scope = claim.scope) with
      | some index => known.set index claim
      | none => if known.length < limit then known ++ [claim] else known) d.claims }

def updateRegistryEvidence (d : Device ν) : Device ν :=
  { d with registryEvidence := d.registryEvidence.map fun evidence =>
      { evidence with status := match d.information.value? with
          | none => .unverified
          | some information =>
            if information.firmwareVersion = evidence.firmwareVersion then .matched else .firmwareMismatch } }

def retainServices (incoming : Observation (List (ServiceSnapshot ν))) (d : Device ν) : Device ν :=
  let prior := (d.services.value?).or (d.services.lastKnown.map (·.value))
  let services := retained d.services incoming
  match services.result with
  | .known values =>
    { d with services := { services with result := .known (values.map fun service =>
        match (prior.getD []).find? fun item => item.namespace_ = service.namespace_ && item.xaddr = service.xaddr with
        | some previous => { service with capabilities := retained previous.capabilities service.capabilities }
        | none => service) } }
  | .missing .. => { d with services }

end Device

end WotAv.Discovery
