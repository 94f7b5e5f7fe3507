import WotAv.Projection.Snapshot

/-!
# The identity of Things

The ids that `src/projection/project.ts` gives to Things, and how
`src/security/logical-endpoint.ts` checks them against the endpoint reference of
a Thing Description. `sha256` takes a text to its hexadecimal digest.
-/

namespace WotAv.Projection

open WotAv.Lib
open WotAv.Lib.Json (get)
open WotAv.Binding (OnvifError require utf16Length WSA_NS)
open WotAv.Catalog (JsonValue JsonRecord)

-- Projected Things

section
variable (sha256 : String → String)

def digest (value : JsonValue) : String := sha256 (Json.canonicalJson value)

def deviceThingId (snapshot : DeviceSnapshot) : String :=
  "urn:onvif:device:" ++ digest sha256 (.array [.string snapshot.address.1, .array snapshot.referenceProperties.1])

def resourceThingId (snapshot : DeviceSnapshot) (resource : Resource) : String :=
  "urn:onvif:resource:" ++ digest sha256 (.array [.string snapshot.address.1, .array snapshot.referenceProperties.1,
    .string resource.serviceNamespace.1, .string resource.kind.1, .array resource.parentTokens.1, .string resource.token.1])

end

/-- The other members of a Thing Description, and what `project` checks and
computes for them. -/
structure Projector where
  checks : JsonValue → Except OnvifError Unit
  device : JsonValue → Except OnvifError (String → JsonValue)
  resource : JsonValue → Resource → Except OnvifError (String → JsonValue)

def named (values : String → JsonValue) (names : List String) : JsonRecord := names.map fun name => (name, values name)

def common (values : String → JsonValue) : JsonRecord :=
  named values ["@context", "securityDefinitions", "security", "onvif:registryDigest", "onvif:requirementsDigest",
    "onvif:claimSemantics"]

def deviceTd (values : String → JsonValue) (id : String) : JsonRecord :=
  common values ++ ("id", .string id) :: named values ["title", "@type", "actions", "links", "onvif:profileClaims",
    "onvif:profileModels", "onvif:observedServices", "onvif:capabilityEvidence", "onvif:conformanceEvidence",
    "onvif:profileAssessments", "onvif:projection"]

def resourceIdentity (snapshot : DeviceSnapshot) (resource : Resource) : JsonRecord :=
  [("epr", .string snapshot.address.1), ("serviceNamespace", .string resource.serviceNamespace.1),
    ("kind", .string resource.kind.1), ("parentTokens", .array resource.parentTokens.1), ("token", .string resource.token.1),
    ("evidence", .array resource.evidence)]

def resourceTd (values : String → JsonValue) (id : String) (snapshot : DeviceSnapshot) (resource : Resource) : JsonRecord :=
  common values ++ ("id", .string id) :: named values ["title", "@type", "actions", "links"] ++
    ("onvif:resourceIdentity", .object (resourceIdentity snapshot resource)) ::
      named values ["onvif:capabilityEvidence", "onvif:projection", "description"]

section
variable (URL : String → Option Url) (sha256 : String → String)

def finishTd (td : JsonRecord) : JsonRecord :=
  let version := digest sha256 (.object td)
  td ++ [("version", .object [("instance", .string version)]), ("onvif:projectionDigest", .string version)]

def resourceMap (snapshot : DeviceSnapshot) : Except OnvifError (List (String × Resource)) := do
  let entries := snapshot.resources.map fun resource => (resourceThingId sha256 snapshot resource, resource)
  assert (entries.map (·.1)).Nodup "duplicate parent-scoped resource identity"
  return entries

def sortByKey {α : Type} (entries : List (String × α)) : List (String × α) :=
  entries.insertionSort fun a b => Json.keyLe a.1 b.1

def deviceThing (projector : Projector) (value : JsonValue) (snapshot : DeviceSnapshot) :
    Except OnvifError (List (String × JsonRecord)) :=
  if snapshot.observed then do
    let values ← projector.device value
    let id := deviceThingId sha256 snapshot
    return [(id, deviceTd values id)]
  else .ok []

def project (projector : Projector) (value : JsonValue) : Except OnvifError (List JsonRecord) := do
  let snapshot ← assertDeviceSnapshot URL value
  projector.checks value
  let entries ← resourceMap sha256 snapshot
  let device ← deviceThing sha256 projector value snapshot
  let resources ← (sortByKey entries).mapM fun (id, resource) => do
    let values ← projector.resource value resource
    return (id, resourceTd values id snapshot resource)
  return (sortByKey (device ++ resources)).map fun (_, td) => finishTd sha256 td

-- Logical endpoints

def denied {α : Type} (message : String) : Except OnvifError α := .error ⟨.policyDenied, message, .notSent⟩

def demand (condition : Prop) [Decidable condition] (message : String) : Except OnvifError Unit :=
  require condition .policyDenied message

/-- `[a-z]` with the flags `iu`, which fold the long s and the Kelvin sign. -/
def isLetter (ch : Char) : Bool := ch.isAlpha || ch.toNat = 0x17f || ch.toNat = 0x212a

def hasUserinfo : List Char → Bool
  | [] => false
  | first :: rest =>
    isLetter first &&
      match rest.dropWhile fun ch => isLetter ch || ch.isDigit || ch = '+' || ch = '.' || ch = '-' with
      | ':' :: '/' :: '/' :: authority => (authority.takeWhile fun ch => ch ≠ '/' && ch ≠ '?' && ch ≠ '#').contains '@'
      | _ => false

def logicalUrl (address : String) : Except OnvifError Url := do
  demand (address ≠ "" ∧ utf16Length address ≤ 16384 ∧ (∀ ch ∈ address.toList, 0x20 < ch.toNat ∧ ch ≠ '\\' ∧ ch ≠ '#') ∧
    hasUserinfo address.toList = false) "Invalid logical endpoint URI"
  match URL address with
  | none => denied "Logical endpoint requires an absolute URI"
  | some url =>
    demand (["urn:", "http:", "https:"].contains url.protocol ∧ url.username = "" ∧ url.password = "")
      "Logical endpoint scheme or userinfo is prohibited"
    return url

def referenceHeaders (value : Option JsonValue) : Except OnvifError (List JsonValue) :=
  match value.bind Json.asArray with
  | none => denied "Invalid projected EPR reference headers"
  | some items => do
    demand (items.length ≤ 64) "Invalid projected EPR reference headers"
    items.forM assertXmlElement
    return items

def WSA_2004_NS : String := "http://schemas.xmlsoap.org/ws/2004/08/addressing"

structure LogicalEndpointReference where
  address : String
  addressingNamespace : String
  referenceProperties : List JsonValue
  referenceParameters : List JsonValue

def isToken (value : Option JsonValue) : Bool :=
  (value.bind Json.asString).any fun token => token ≠ "" && utf16Length token ≤ 4096

def isParentToken (value : JsonValue) : Bool :=
  value.asRecord.any fun parent => (parent.all fun member => ["kind", "token"].contains member.1) &&
    isToken (get "kind" parent) && isToken (get "token" parent)

/-- The checks of a resource identity, and what it adds to the key. -/
def resourceKey (address : String) (resource : JsonValue) : Except OnvifError (List JsonValue) :=
  match resource with
  | .object members => do
    demand (textOf "epr" members = some address ∧ isToken (get "serviceNamespace" members) ∧ isToken (get "kind" members) ∧
      isToken (get "token" members)) "Invalid projected native resource identity"
    match get "serviceNamespace" members, get "kind" members, get "parentTokens" members, get "token" members with
    | some serviceNamespace, some kind, some (.array parents), some token =>
      demand (parents.length ≤ 64 ∧ parents.all isParentToken) "Invalid projected native resource identity"
      return [serviceNamespace, kind, .array parents, token]
    | _, _, _, _ => denied "Invalid projected native resource identity"
  | _ => denied "Invalid projected native resource identity"

def expectedId (address : String) (properties : List JsonValue) : Option (List JsonValue) → String
  | none => "urn:onvif:device:" ++ digest sha256 (.array [.string address, .array properties])
  | some resource => "urn:onvif:resource:" ++ digest sha256 (.array (.string address :: .array properties :: resource))

def projectedEndpointReference (description : JsonRecord) : Except OnvifError (Option LogicalEndpointReference) :=
  match get "onvif:discovery" description with
  | none => .ok none
  | some discovery => do
    let some discovery := discovery.asRecord | denied "Missing projected EPR metadata"
    let some epr := (get "endpointReference" discovery).bind Json.asRecord | denied "Missing projected EPR metadata"
    demand (epr.all fun member => ["address", "referenceProperties", "referenceParameters"].contains member.1)
      "Invalid projected EPR metadata"
    let some address := textOf "address" epr | denied "Invalid projected EPR metadata"
    let _ ← logicalUrl URL address
    let some addressingNamespace := (textOf "addressingNamespace" discovery).filter (fun name => name = WSA_NS ∨ name = WSA_2004_NS)
      | denied "Invalid projected EPR addressing namespace"
    let properties ← referenceHeaders (get "referenceProperties" epr)
    let parameters ← referenceHeaders (get "referenceParameters" epr)
    demand (addressingNamespace = WSA_NS → properties = []) "WS-Addressing 2005 has no identity ReferenceProperties"
    let resource ← (get "onvif:resourceIdentity" description).mapM (resourceKey address)
    demand (textOf "id" description = some (expectedId sha256 address properties resource))
      "Projected Thing identity does not match its full EPR and native resource identity"
    return some ⟨address, addressingNamespace, properties, parameters⟩

end

-- Attaching an endpoint reference

def endpointReference (snapshot : DeviceSnapshot) : JsonRecord :=
  ("address", .string snapshot.address.1) :: ("referenceProperties", .array snapshot.referenceProperties.1) ::
    (snapshot.referenceParameters.map fun parameters => ("referenceParameters", Json.array parameters.1)).toList

def attachDiscovery (td : JsonRecord) (epr : JsonRecord) (addressingNamespace : String) : JsonRecord :=
  td ++ [("onvif:discovery", .object [("endpointReference", .object epr),
    ("addressingNamespace", .string addressingNamespace)])]

end WotAv.Projection
