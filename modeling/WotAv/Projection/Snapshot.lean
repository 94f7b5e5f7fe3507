import WotAv.Binding.Digest
import WotAv.Binding.Soap
import WotAv.Catalog.Assessments

/-!
# Device snapshots (`assertDeviceSnapshot` of `src/projection/project.ts`)

The checks of a snapshot, which is JSON data, and what the projection reads of
it afterwards. `URL` is the constructor of the platform.
-/

namespace WotAv.Projection

open WotAv.Lib
open WotAv.Lib.Json (get)
open WotAv.Binding (OnvifError require utf16Length isNCName)
open WotAv.Catalog (JsonValue JsonRecord isJsonValue stringOf)
open WotAv.Media (isSpace)

structure Url where
  protocol : String
  username : String
  password : String
  deriving DecidableEq, Repr

-- XML elements (`src/xml/parser.ts`, `src/xml/types.ts`)

def textOf (key : String) (members : JsonRecord) : Option String := (get key members).bind Json.asString

def isName (value : Option JsonValue) : Bool := (value.bind Json.asString).any fun name => isNCName name.toList

def isQName (value : Option JsonValue) : Bool :=
  (value.bind Json.asRecord).any fun members =>
    (textOf "namespace" members).isSome && isName (get "localName" members) &&
      members.all fun member => member.1 = "namespace" || member.1 = "localName"

def isPrefix (value : Option JsonValue) : Bool :=
  value.isNone || value.bind Json.asString = some "" || isName value

def isAttribute (value : JsonValue) : Bool :=
  value.asRecord.any fun members =>
    isQName (get "name" members) && (textOf "value" members).isSome && isPrefix (get "prefix" members)

def isContent (child : JsonRecord) : Bool :=
  ((get "kind" child).map stringOf).any (["text", "comment", "processing-instruction"].contains ·) &&
    (textOf "value" child).isSome &&
      (textOf "kind" child != some "processing-instruction" || isName (get "target" child))

/-- `assertXmlElement`, with `levels` levels left of the 64 of `maxDepth`. -/
def assertXmlElementAt : (levels : Nat) → JsonValue → Except OnvifError Unit
  | 0, _ => .error ⟨.xmlLimit, "XML depth limit exceeded", .notSent⟩
  | levels + 1, value => do
    let opaqueElement := "An opaque XML element requires its complete namespace-aware representation"
    let some members := value.asRecord | .error ⟨.invalidValue, opaqueElement, .notSent⟩
    require (textOf "kind" members = some "element" ∧ isQName (get "name" members)) .invalidValue opaqueElement
    let some namespaces := (get "namespaces" members).bind Json.asRecord | .error ⟨.invalidValue, opaqueElement, .notSent⟩
    let some attributes := (get "attributes" members).bind Json.asArray | .error ⟨.invalidValue, opaqueElement, .notSent⟩
    let some children := (get "children" members).bind Json.asArray | .error ⟨.invalidValue, opaqueElement, .notSent⟩
    require (isPrefix (get "prefix" members)) .invalidValue opaqueElement
    require (namespaces.all fun member => member.2.asString.isSome) .invalidValue "Invalid namespace context"
    require (attributes.all isAttribute) .invalidValue "Invalid opaque attribute"
    children.forM fun child => do
      let some record := child.asRecord | .error ⟨.invalidValue, "Invalid opaque XML content", .notSent⟩
      if textOf "kind" record = some "element" then assertXmlElementAt levels child
      else require (isContent record) .invalidValue "Invalid opaque XML content"

def assertXmlElement (value : JsonValue) : Except OnvifError Unit := assertXmlElementAt 64 value

-- Fields

def invalid {α : Type} (message : String) : Except OnvifError α :=
  .error ⟨.invalidValue, "DeviceSnapshot: " ++ message, .notSent⟩

def assert (condition : Prop) [Decidable condition] (message : String) : Except OnvifError Unit :=
  require condition .invalidValue ("DeviceSnapshot: " ++ message)

def keys (value : Option JsonValue) (allowed : List String) (label : String) : Except OnvifError JsonRecord :=
  match value.bind Json.asRecord with
  | none => invalid ("invalid " ++ label ++ " fields")
  | some members => do
    assert (members.all fun member => allowed.contains member.1) ("invalid " ++ label ++ " fields")
    return members

abbrev Text (max : Nat) := { value : String // value ≠ "" ∧ utf16Length value ≤ max }

def text (value : Option JsonValue) (label : String) (max : Nat := 4096) : Except OnvifError (Text max) :=
  match value.bind Json.asString with
  | none => invalid ("invalid " ++ label)
  | some value => do
    assert (value.toList.all fun ch => 0x1f < ch.toNat) ("invalid " ++ label)
    if h : value ≠ "" ∧ utf16Length value ≤ max then return ⟨value, h⟩ else invalid ("invalid " ++ label)

abbrev Items (max : Nat) := { items : List JsonValue // items.length ≤ max }

def list (value : Option JsonValue) (label : String) (max : Nat) : Except OnvifError (Items max) :=
  match value.bind Json.asArray with
  | none => invalid ("invalid/bounded " ++ label ++ " array")
  | some items => if h : items.length ≤ max then .ok ⟨items, h⟩ else invalid ("invalid/bounded " ++ label ++ " array")

def whenDefined {α : Type} (value : Option JsonValue) (check : Option JsonValue → Except OnvifError α) :
    Except OnvifError Unit :=
  if value.isSome then (check value).map fun _ => () else .ok ()

def operationReference (value : JsonValue) : Except OnvifError Unit :=
  require (value.asRecord.any fun members =>
      isQName (get "bindingQName" members) && isQName (get "portTypeQName" members) &&
        (textOf "operation" members).any (· ≠ "")) .invalidRegistry
    "Operation identity requires bindingQName, portTypeQName and operation"

def evidence (value : Option JsonValue) : Except OnvifError (List JsonValue) := do
  let items ← list value "evidence" 128
  items.1.forM fun item => do
    let entry ← keys item ["sourceId", "observedAt", "operation", "detail"] "evidence"
    let _ ← text (get "sourceId" entry) "evidence sourceId"
    whenDefined (get "observedAt" entry) (text · "evidence observedAt" 128)
    whenDefined (get "detail" entry) (text · "evidence detail" 16384)
    (get "operation" entry).forM operationReference
  return items.1

def observation (value : Option JsonValue) : Except OnvifError JsonRecord := do
  let item ← keys value ["state", "value", "evidence", "detail"] "observation"
  assert (((get "state" item).map stringOf).any
    (["known", "unsupported", "denied", "fault", "timeout", "truncated", "unknown"].contains ·)) "unknown observation state"
  let entries ← evidence (get "evidence" item)
  if textOf "state" item = some "known" then
    assert ((get "value" item).any isJsonValue ∧ entries ≠ []) "known observation needs a JSON value and evidence"
  else assert ((get "value" item).isNone) "non-known observation must not carry a success-shaped value"
  whenDefined (get "detail" item) (text · "observation detail" 16384)
  return item

def knownValue (item : JsonRecord) : Option JsonValue := if textOf "state" item = some "known" then get "value" item else none

def facts (value : Option JsonValue) : Except OnvifError Unit :=
  match value.bind Json.asRecord with
  | none => invalid "invalid/bounded facts object"
  | some members => do
    assert (members.length ≤ 10000) "invalid/bounded facts object"
    members.forM fun (name, item) => do
      let _ ← text (some (.string name)) "fact name"
      let _ ← observation item

def nativeReference (value : JsonValue) (extra : List String) : Except OnvifError JsonRecord := do
  let item ← keys value (["operation", "portType", "binding"] ++ extra) "operation observation"
  let _ ← text (get "operation" item) "operation name"
  whenDefined (get "portType" item) (text · "portType")
  whenDefined (get "binding" item) (text · "binding")
  return item

section
variable (URL : String → Option Url)

def xaddr (value : Option JsonValue) : Except OnvifError String := do
  let address ← text value "native XAddr" 16384
  match URL address.1 with
  | none => invalid "native XAddr must be an absolute HTTP(S) URI"
  | some url =>
    assert (["http:", "https:"].contains url.protocol ∧ url.username = "" ∧ url.password = "" ∧
        ∀ ch ∈ address.1.toList, ch ≠ '#' ∧ ¬isSpace ch)
      "native XAddr must be HTTP(S), without userinfo, fragments or whitespace"
    return address.1

-- Snapshots

def isVersionPart (part : Option JsonValue) : Bool :=
  ((part.bind Json.asNumber).bind FiniteNumber.natural?).any (· ≤ 2 ^ 53 - 1)

def identity (value : Option JsonValue) : Except OnvifError Unit := do
  let item ← observation value
  if textOf "state" item = some "known" then
    let fields ← keys (get "value" item) ["manufacturer", "model", "firmwareVersion", "serialNumber", "hardwareId"]
      "native identity"
    assert (fields.all fun member => member.2.asString.any (utf16Length · ≤ 4096)) "native identity fields must remain strings"

def readOutcome (value : JsonValue) : Except OnvifError Unit := do
  let outcome ← nativeReference value ["outcome"]
  let _ ← observation (get "outcome" outcome)

def supportedOperation (value : JsonValue) : Except OnvifError Unit := do
  let reference ← nativeReference value ["support"]
  let support ← observation (get "support" reference)
  assert ((knownValue support).all fun value => match value with | .bool _ => true | _ => false)
    "operation support must be a typed boolean"

/-- The key of a service, among which no two are to be equal. -/
def service (value : JsonValue) : Except OnvifError String := do
  let service ← keys value ["namespace", "xaddr", "version", "evidence", "capabilities", "readOutcomes",
    "supportedOperations"] "service"
  let namespace_ ← text (get "namespace" service) "service namespace"
  let address ← xaddr URL (get "xaddr" service)
  let entries ← evidence (get "evidence" service)
  assert (entries ≠ []) "an observed service needs evidence"
  whenDefined (get "version" service) fun value => do
    let version ← keys value ["major", "minor"] "service version"
    assert (isVersionPart (get "major" version) ∧ isVersionPart (get "minor" version))
      "service version is not a nonnegative integer pair"
  let capabilities ← observation (get "capabilities" service)
  assert ((knownValue capabilities).all fun value => value.asRecord.isSome) "known service capabilities must be an object"
  let outcomes ← list (get "readOutcomes" service) "read outcomes" 2048
  outcomes.1.forM readOutcome
  whenDefined (get "supportedOperations" service) fun value => do
    let operations ← list value "supported operations" 2048
    operations.1.forM supportedOperation
  return Json.canonicalJson (.array [.string namespace_.1, .string address] : JsonValue)

def addService (seen : List String) (value : JsonValue) : Except OnvifError (List String) := do
  let key ← service URL value
  assert (key ∉ seen) "duplicate namespace/XAddr service observations must be reconciled before projection"
  return key :: seen

def profileClaim (value : JsonValue) : Except OnvifError Bool := do
  let claim ← keys value ["profile", "edition", "role", "evidence"] "profile claim"
  let _ ← text (get "profile" claim) "profile"
  whenDefined (get "edition" claim) (text · "profile edition" 64)
  let role := textOf "role" claim
  assert (role = some "device" ∨ role = some "client") "claim role must be device or client"
  let entries ← evidence (get "evidence" claim)
  assert (entries ≠ []) "a profile claim needs provenance"
  return role = some "device"

def IsParent (value : JsonValue) : Prop :=
  ∃ members, value.asRecord = some members ∧ (members.all fun member => ["kind", "token"].contains member.1) ∧
    (∃ kind : Text 128, textOf "kind" members = some kind.1) ∧ ∃ token : Text 4096, textOf "token" members = some token.1

def parentToken (value : JsonValue) : Except OnvifError Unit := do
  let parent ← keys value ["kind", "token"] "parent token"
  let _ ← text (get "kind" parent) "parent kind" 128
  let _ ← text (get "token" parent) "parent token"

theorem assert_bind_ok {α : Type} {p : Prop} [Decidable p] {message : String} {k : Unit → Except OnvifError α} {a : α} :
    (assert p message >>= k) = .ok a ↔ p ∧ k () = .ok a := by
  unfold assert
  exact Binding.require_bind_ok

theorem keys_ok {value : Option JsonValue} {allowed : List String} {label : String} {members : JsonRecord}
    (h : keys value allowed label = .ok members) :
    value.bind Json.asRecord = some members ∧ (members.all fun member => allowed.contains member.1) := by
  unfold keys at h
  split at h
  · cases h
  · rename_i members' hrecord
    obtain ⟨hall, h⟩ := assert_bind_ok.mp h
    cases h
    exact ⟨hrecord, hall⟩

theorem text_ok {value : Option JsonValue} {label : String} {max : Nat} {t : Text max}
    (h : text value label max = .ok t) : value.bind Json.asString = some t.1 := by
  unfold text at h
  split at h
  · cases h
  · rename_i value' hstring
    obtain ⟨-, h⟩ := assert_bind_ok.mp h
    split at h
    · cases h
      exact hstring
    · cases h

theorem parentToken_ok {value : JsonValue} (h : parentToken value = .ok u) : IsParent value := by
  obtain ⟨members, hkeys, h⟩ := except_bind_ok h
  obtain ⟨kind, hkind, h⟩ := except_bind_ok h
  obtain ⟨token, htoken, -⟩ := except_bind_ok h
  obtain ⟨hrecord, hall⟩ := keys_ok hkeys
  exact ⟨members, hrecord, hall, ⟨kind, text_ok hkind⟩, token, text_ok htoken⟩

theorem forM_ok {ε α : Type} {f : α → Except ε Unit} {l : List α} (h : l.forM f = .ok u) :
    ∀ a ∈ l, f a = .ok () := by
  induction l with
  | nil => simp
  | cons b l ih =>
    have h : (f b >>= fun _ => l.forM f) = .ok u := h
    obtain ⟨_, hb, h⟩ := except_bind_ok h
    intro a ha
    rcases List.mem_cons.mp ha with rfl | ha
    · exact hb
    · exact ih h a ha

structure Resource where
  serviceNamespace : Text 4096
  kind : Text 128
  token : Text 4096
  evidence : List JsonValue
  parentTokens : Items 64
  parents : ∀ parent ∈ parentTokens.1, IsParent parent

def resource (value : JsonValue) : Except OnvifError Resource := do
  let resource ← keys value ["serviceNamespace", "kind", "token", "parentTokens", "evidence", "facts", "operations"] "resource"
  let serviceNamespace ← text (get "serviceNamespace" resource) "resource namespace"
  let kind ← text (get "kind" resource) "resource kind" 128
  let token ← text (get "token" resource) "resource token"
  let entries ← evidence (get "evidence" resource)
  assert (entries ≠ []) "a resource needs observation evidence"
  let parentTokens ← list (get "parentTokens" resource) "parent tokens" 64
  match h : parentTokens.1.forM parentToken with
  | .error e => .error e
  | .ok _ =>
    whenDefined (get "facts" resource) facts
    whenDefined (get "operations" resource) fun value => do
      let operations ← list value "resource operations" 2048
      operations.1.forM fun operation => (nativeReference operation []).map fun _ => ()
    return ⟨serviceNamespace, kind, token, entries, parentTokens, fun parent hp => parentToken_ok (forM_ok h parent hp)⟩

def conformanceRecord (value : JsonValue) : Except OnvifError Unit := do
  let item ← keys value ["issuer", "product", "firmware", "profile", "edition", "source"] "registered evidence"
  ["issuer", "product", "firmware", "profile", "source"].forM fun key => do
    let _ ← text (get key item) ("registered " ++ key)
  whenDefined (get "edition" item) (text · "registered edition" 64)

abbrev Headers := { headers : List JsonValue // headers.length ≤ 64 ∧ ∀ header ∈ headers, assertXmlElement header = .ok () }

def referenceList (value : Option JsonValue) (key : String) : Except OnvifError Headers := do
  let items ← list value key 64
  match h : items.1.forM assertXmlElement with
  | .error e => .error e
  | .ok _ => return ⟨items.1, items.2, forM_ok h⟩

/-- What the projection reads of a snapshot for its Things. `observed`: there
is a service, a resource or a device's claim. -/
structure DeviceSnapshot where
  address : Text 4096
  referenceProperties : Headers
  referenceParameters : Option Headers
  resources : List Resource
  observed : Bool

def assertDeviceSnapshot (value : JsonValue) : Except OnvifError DeviceSnapshot := do
  assert (isJsonValue value) "snapshot must contain finite, bounded JSON data"
  let snapshot ← keys value ["schemaVersion", "epr", "identity", "services", "profileClaims", "resources", "facts",
    "conformanceEvidence"] "snapshot"
  assert (((get "schemaVersion" snapshot).bind Json.asNumber).bind FiniteNumber.natural? = some 1) "unsupported schemaVersion"
  let endpoint ← keys (get "epr" snapshot) ["address", "referenceProperties", "referenceParameters"] "EPR"
  let address ← text (get "address" endpoint) "EPR address"
  assert (URL address.1).isSome "EPR Address must be an absolute URI"
  let properties ← referenceList (get "referenceProperties" endpoint) "referenceProperties"
  let parameters ← match get "referenceParameters" endpoint with
    | none => pure none
    | some value => some <$> referenceList (some value) "referenceParameters"
  whenDefined (get "identity" snapshot) identity
  let services ← list (get "services" snapshot) "services" 128
  let _ ← services.1.foldlM (addService URL) []
  let profileClaims ← list (get "profileClaims" snapshot) "profile claims" 64
  let claims ← profileClaims.1.mapM profileClaim
  let items ← list (get "resources" snapshot) "resources" 20000
  let resources ← items.1.mapM resource
  whenDefined (get "facts" snapshot) facts
  whenDefined (get "conformanceEvidence" snapshot) fun value => do
    let records ← list value "registered evidence" 64
    records.1.forM conformanceRecord
  return { address, referenceProperties := properties, referenceParameters := parameters, resources
           observed := services.1 ≠ [] || resources.length ≠ 0 || claims.contains true }

end

end WotAv.Projection
