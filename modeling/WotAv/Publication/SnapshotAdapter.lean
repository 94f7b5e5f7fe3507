import WotAv.Discovery.Retention

/-!
# From the inventory to snapshots (`src/publication/snapshot-adapter.ts`)

`adaptInventory` for one device: the members of its snapshot that have a state.
What it looks up in native data is in `NativeData`. The checks of the inventory
before and of the snapshot after are left out: they change nothing.
-/

namespace WotAv.Publication

open WotAv.Discovery

structure ObservationEvidence where
  sourceId : String
  observedAt : Int
  operation : Option String
  detail : Option String
  deriving DecidableEq, Repr

/-- `Observation` of a snapshot: `known` with a value, or another state. -/
structure SnapshotObservation (α : Type) where
  state : Except Missing α
  evidence : List ObservationEvidence
  detail : Option String := none

inductive AdapterError
  | invalidConfiguration (message : String)
  | resourceIdentityConflict (message : String)
  deriving DecidableEq, Repr

structure ReadObservation (ν : Type) where
  /-- Of `operation.bindingQName`. -/
  namespace_ : String
  operation : String
  portType : String
  binding : String
  xaddr : String
  outcome : Observation ν

structure FeatureObservation (ν : Type) where
  namespace_ : String
  feature : String
  outcome : Observation ν

structure NativeResource (ν : Type) where
  token : String
  parentTokens : List String
  fixed : Option Bool
  data : ν

structure NativeData (ν : Type) where
  read : ν → ReadObservation ν
  feature : ν → FeatureObservation ν
  resource : ν → NativeResource ν
  isRecord : ν → Bool
  jsonPointer : ν → String → Except AdapterError (Option ν)
  /-- `data.Capabilities` of a resource. -/
  capabilities : ν → Option ν
  /-- The `references` that are pushed for a resource. -/
  references : ResourceKind → ν → List ν

structure FeatureFactMapping where
  fact : String
  namespace_ : String
  operation : Option String
  pointer : String

structure ReadOutcome (ν : Type) where
  operation : String
  portType : String
  binding : String
  outcome : SnapshotObservation ν

structure AdaptedService (ν : Type) where
  namespace_ : String
  xaddr : String
  version : Option (Nat × Nat)
  evidence : List ObservationEvidence
  capabilities : SnapshotObservation ν
  readOutcomes : List (ReadOutcome ν)

structure AdaptedResource (ν : Type) where
  serviceNamespace : String
  kind : String
  token : String
  parentTokens : List (String × String)
  evidence : List ObservationEvidence
  nativeEndpoint : SnapshotObservation String
  fixed : Option (SnapshotObservation Bool)
  capabilities : Option (SnapshotObservation ν)
  nativeReferences : Option (SnapshotObservation (List ν))

structure AdaptedDevice (ν : Type) where
  identity : SnapshotObservation DeviceInformation
  services : List (AdaptedService ν)
  resources : List (AdaptedResource ν)
  facts : List (String × SnapshotObservation ν)

variable {ν : Type}

def kinds : ResourceKind → String
  | .mediaProfile => "MediaProfile"
  | .videoSourceConfiguration => "VideoSourceConfiguration"
  | .videoEncoderConfiguration => "VideoEncoderConfiguration"
  | .metadataConfiguration => "MetadataConfiguration"
  | .recording => "Recording"
  | .recordingJob => "RecordingJob"
  | .track => "RecordingTrack"
  | .accessPoint => "AccessPoint"
  | .door => "Door"
  | .accessProfile => "AccessProfile"
  | .schedule => "Schedule"
  | .receiver => "Receiver"
  | .analyticsConfiguration => "AnalyticsConfiguration"
  | .analyticsModule => "AnalyticsModule"
  | .analyticsRule => "AnalyticsRule"

def evidence {α : Type} (value : Observation α) (fallback : String) : List ObservationEvidence := match value.source with
  | some source => [{
      sourceId := "native-read:" ++ source.operation, observedAt := value.observedAt, operation := some source.operation
      detail := some ("Exact observed XAddr: " ++ source.xaddr) }]
  | none => [{ sourceId := fallback, observedAt := value.observedAt, operation := none, detail := none }]

def observation {α : Type} (value : Observation α) (fallback : String) : SnapshotObservation α := match value.result with
  | .known known => { state := .ok known, evidence := evidence value fallback }
  | .missing status code message _ =>
    { state := .error status, evidence := evidence value fallback, detail := some (code ++ ": " ++ message) }

variable (data : NativeData ν) (fallback : String)

-- Services

def adaptCapabilities (capabilities : Observation ν) : SnapshotObservation ν := match capabilities.value? with
  | some value =>
    if data.isRecord value then observation capabilities fallback
    else
      { state := .error .fault, evidence := evidence capabilities fallback
        detail := some "Capabilities are not a canonical object; original value is retained in the observation envelope." }
  | none => observation capabilities fallback

def currentServices (d : Device ν) : List (ServiceSnapshot ν) := d.services.value?.getD []

def adaptService (d : Device ν) (service : ServiceSnapshot ν) : AdaptedService ν where
  namespace_ := service.namespace_
  xaddr := service.xaddr
  version := service.version
  evidence := evidence d.services fallback
  capabilities := adaptCapabilities data fallback service.capabilities
  readOutcomes := ((d.reads.map data.read).filter fun read =>
      read.xaddr = service.xaddr && read.namespace_ = service.namespace_).map fun read =>
    { operation := read.operation, portType := read.portType, binding := read.binding
      outcome := observation read.outcome fallback }

-- Resources

def parentKind : ResourceKind → Option String
  | .track => some "Recording"
  | .analyticsModule | .analyticsRule => some "AnalyticsConfiguration"
  | _ => none

def currentResources (resources : List (ResourceInventory ν)) : List (ResourceInventory ν × NativeResource ν) :=
  resources.flatMap fun inventory => (inventory.outcome.value?.getD []).map fun item => (inventory, data.resource item)

def represented (member : ResourceInventory ν × NativeResource ν) : Bool :=
  member.2.parentTokens.isEmpty || ((parentKind member.1.kind).isSome && member.2.parentTokens.length = 1)

def parentTokens (member : ResourceInventory ν × NativeResource ν) : List (String × String) :=
  member.2.parentTokens.map fun token => ((parentKind member.1.kind).getD "", token)

/-- `identity`, before it is made a text. -/
def resourceIdentity (member : ResourceInventory ν × NativeResource ν) : String × ResourceKind × List (String × String) × String :=
  (member.1.namespace_, member.1.kind, parentTokens member, member.2.token)

def adaptResource (member : ResourceInventory ν × NativeResource ν) : AdaptedResource ν :=
  let proof := evidence member.1.outcome fallback
  let references := data.references member.1.kind member.2.data
  { serviceNamespace := member.1.namespace_, kind := kinds member.1.kind, token := member.2.token
    parentTokens := parentTokens member, evidence := proof
    nativeEndpoint := { state := .ok member.1.xaddr, evidence := proof }
    fixed := member.2.fixed.map fun fixed => { state := .ok fixed, evidence := proof }
    capabilities := (data.capabilities member.2.data).map fun capabilities => { state := .ok capabilities, evidence := proof }
    nativeReferences := if references.isEmpty then none else some { state := .ok references, evidence := proof } }

def adaptResources (resources : List (ResourceInventory ν)) : Except AdapterError (List (AdaptedResource ν)) :=
  let members := (currentResources data resources).filter represented
  if (members.map resourceIdentity).Nodup then .ok (members.map (adaptResource data fallback))
  else .error (.resourceIdentityConflict
    "One parent-scoped native resource was reported more than once; endpoint identities cannot be silently merged")

-- Facts

def addFeature (facts : List (String × SnapshotObservation ν)) (feature : FeatureObservation ν) :
    List (String × SnapshotObservation ν) :=
  let key := feature.namespace_ ++ "#" ++ feature.feature
  if facts.any (·.1 = key) then
    facts.map fun fact => if fact.1 = key then
        (key, { state := .error .unknown, evidence := []
                detail := some "Multiple native endpoints supply this feature; a scoped fact mapping is required." })
      else fact
  else facts ++ [(key, observation feature.outcome fallback)]

/-- What a mapping may take its fact from. -/
def mappedOutcomes (d : Device ν) (mapping : FeatureFactMapping) : List (Observation ν) := match mapping.operation with
  | none => ((currentServices d).filter (·.namespace_ = mapping.namespace_)).map (·.capabilities)
  | some operation => ((d.reads.map data.read).filter fun read =>
      read.namespace_ = mapping.namespace_ && read.operation = operation).map (·.outcome)

def mappedFact (outcome : Observation ν) (pointer : String) : Except AdapterError (SnapshotObservation ν) :=
  match outcome.value? with
  | none => .ok (observation outcome fallback)
  | some value => match data.jsonPointer value pointer with
    | .error e => .error e
    | .ok none => .ok { state := .error .unknown, evidence := evidence outcome fallback
                        detail := some "The native field was omitted, not observed false." }
    | .ok (some selected) => .ok { state := .ok selected, evidence := evidence outcome fallback }

def addMapping (d : Device ν) (facts : List (String × SnapshotObservation ν)) (mapping : FeatureFactMapping) :
    Except AdapterError (List (String × SnapshotObservation ν)) :=
  if mapping.fact = "" ∨ facts.any (·.1 = mapping.fact) then
    .error (.invalidConfiguration "Duplicate or empty capability fact mapping")
  else match mappedOutcomes data d mapping with
    | [outcome] => match mappedFact data fallback outcome mapping.pointer with
      | .error e => .error e
      | .ok fact => .ok (facts ++ [(mapping.fact, fact)])
    | _ => .ok (facts ++ [(mapping.fact,
        { state := .error .unknown, evidence := [], detail := some "No unique current native source for this fact." })])

def adaptInventory (mappings : List FeatureFactMapping) (id : String) (d : Device ν) :
    Except AdapterError (AdaptedDevice ν) := do
  let fallback := "discovery:" ++ id
  let resources ← adaptResources data fallback d.resources
  let facts ← mappings.foldlM (addMapping data fallback d) ((d.observedFeatures.map data.feature).foldl (addFeature fallback) [])
  pure {
    identity := observation d.information fallback
    services := (currentServices d).map (adaptService data fallback d)
    resources, facts }

end WotAv.Publication
