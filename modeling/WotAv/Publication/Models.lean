import WotAv.Publication.Publisher

/-!
# Published models (`src/publication/models.ts`)

The references of a projection are moved below the base URL of the models, and
a publication is verified by following them. The packaged artifacts, the parser
of URLs, the requests and what a device's envelope says are parameters.
-/

namespace WotAv.Publication.Models

-- References

def ONVIF_BASE : String := "https://example.org/wot/onvif"

def ONVIF_CONTEXT : String := "https://example.org/wot/onvif/context/v0.1"

def begins (text start : String) : Bool := start.toList.isPrefixOf text.toList

def slice (text : String) (start : ℕ) : String := String.ofList (text.toList.drop start)

def ofModels (text : String) : Bool := begins text (ONVIF_BASE ++ "/models/") || begins text (ONVIF_BASE ++ "/schemas/")

def relocatedKeys : List String :=
  ["id", "$id", "href", "tm:ref", "@context", "onvif:sourceDataSchema", "onvif:profileModels", "onvif:clientRequirements"]

def relocateText (baseUrl text : String) : String :=
  if text = ONVIF_CONTEXT then baseUrl ++ "context/v0.1"
  else if ofModels text then baseUrl ++ slice text (ONVIF_BASE.length + 1)
  else text

mutual
def relocate (baseUrl key : String) : Json → Json
  | .string text => .string (if key ∈ relocatedKeys then relocateText baseUrl text else text)
  | .array items => .array (relocateItems baseUrl key items)
  | .object members => .object (relocateMembers baseUrl members)
  | value => value
def relocateItems (baseUrl key : String) : List Json → List Json
  | [] => []
  | item :: items => relocate baseUrl key item :: relocateItems baseUrl key items
def relocateMembers (baseUrl : String) : Members → Members
  | [] => []
  | (name, entry) :: members => (name, relocate baseUrl name entry) :: relocateMembers baseUrl members
end

def modelPath (id baseUrl : String) : Except String String :=
  if begins id baseUrl = false ∨ '#' ∈ id.toList ∨ '?' ∈ id.toList then .error "InvalidModel"
  else .ok (slice id baseUrl.toList.length)

-- Projections

structure Identity where
  serviceNamespace : String
  kind : String
  token : String
  parentTokens : List String
  deriving DecidableEq

structure ResourceSnapshot where
  identity : Identity
  nativeReferences : Option Json := none

structure ProjectedDevice where
  inventoryId : String
  models : List Json
  tds : List ThingDescription
  resources : List ResourceSnapshot
  resourceThingId : ResourceSnapshot → String
  observationSummary : Json
  currentObservationTime : Option Identity → Option Nat
  quarantined : Bool

structure Surroundings where
  readPackagedArtifact : String → Json
  /-- The normal form of a URL that ends with a slash and has no query. -/
  base : String → Except String String

def member (key : String) : Json → Option Json
  | .object members => get key members
  | _ => none

def textOf (key : String) (value : Json) : Option String :=
  match member key value with
  | some (.string text) => some text
  | _ => none

def parentToken (entry : Json) : Except String String :=
  match textOf "token" entry with
  | some token => .ok token
  | none => .error "InvalidModel"

def resourceIdentity : Option Json → Except String (Option Identity)
  | none => .ok none
  | some value =>
    match textOf "serviceNamespace" value, textOf "kind" value, textOf "token" value, member "parentTokens" value with
    | some serviceNamespace, some kind, some token, some (.array parents) => do
      let parentTokens ← parents.mapM parentToken
      pure (some { serviceNamespace, kind, token, parentTokens })
    | _, _, _, _ => .error "InvalidModel"

def linksOf (td : ThingDescription) : List Json :=
  match get "links" td with
  | some (.array links) => links
  | _ => []

def typeLinks (td : ThingDescription) : List Json := (linksOf td).filter (textOf "rel" · = some "type")

def referencesOf (device : ProjectedDevice) (identity : Option Identity) : List Json :=
  match identity.bind fun identity => (device.resources.find? (·.identity = identity)).bind (·.nativeReferences) with
  | some (.array references) => references
  | _ => []

def target (device : ProjectedDevice) (reference : Json) : Option ResourceSnapshot :=
  match textOf "serviceNamespace" reference, textOf "kind" reference, textOf "token" reference with
  | some serviceNamespace, some kind, some token => device.resources.find? (·.identity = ⟨serviceNamespace, kind, token, []⟩)
  | _, _, _ => none

def related (href : String) : Json :=
  .object [("rel", .string "related"), ("href", .string href), ("type", .string "application/td+json")]

def relate (device : ProjectedDevice) (candidate : ThingDescription) (reference : Json) : ThingDescription :=
  match (target device reference).map device.resourceThingId with
  | some href =>
    if (linksOf candidate).any fun link => textOf "rel" link = some "related" && textOf "href" link = some href then candidate
    else set "links" (.array (linksOf candidate ++ [related href])) candidate
  | none => candidate

-- `preparePublication`

abbrev Documents := List (String × Json)

structure Bundle where
  publication : PreparedPublication
  documents : Documents
  modelUrls : List String

def add (values : List String) (value : String) : List String := if value ∈ values then values else values ++ [value]

def publicationContext : Json := .object [("@context", .object [("@version", .number (11 / 10)),
  ("onvif:discovery", .object [("@id", .string "https://example.org/wot/onvif#discovery"), ("@type", .string "@json")]),
  ("onvif:publication", .object [("@id", .string "https://example.org/wot/onvif#publication"), ("@type", .string "@json")]),
  ("onvif:eventPolicyEvidence",
    .object [("@id", .string "https://example.org/wot/onvif#eventPolicyEvidence"), ("@type", .string "@json")])])]

def packagedDocuments : List (String × String) :=
  [("context/v0.1", "context.jsonld"), ("schemas/payloads.schema.json", "payloads.schema.json"),
    ("schemas/form.schema.json", "form.schema.json"), ("schemas/snapshot.schema.json", "snapshot.schema.json"),
    ("schemas/requirements.schema.json", "requirements.schema.json")]

section
variable (c : Context) (env : Surroundings) (baseUrl : String)

def addModel (documents : Documents) (model : Json) : Except String Documents :=
  match textOf "id" (relocate baseUrl "" model) with
  | none => .error "InvalidModel"
  | some id => do
    let path ← modelPath id baseUrl
    if (get path documents).any fun previous => digest c.sha256 previous ≠ digest c.sha256 (relocate baseUrl "" model) then
      .error "ModelConflict"
    else pure (set path (relocate baseUrl "" model) documents)

def prepareThing (device : ProjectedDevice) (td : ThingDescription) : Except String PublicationThing := do
  let candidate := relocateMembers baseUrl td
  assertThingDescription c candidate
  let context ← contextValue ((← contextEntries candidate) ++ [.string (baseUrl ++ "context/publication/v1")])
  let candidate := set "onvif:discovery" device.observationSummary (set "@context" context candidate)
  let identity ← resourceIdentity (get "onvif:resourceIdentity" candidate)
  let candidate := (referencesOf device identity).foldl (relate device) candidate
  match (typeLinks candidate).map (textOf "href") with
  | [some href] =>
    if begins href baseUrl = false ∨ get "profile" candidate ≠ none then .error "InvalidModel"
    else pure {
      deviceId := device.inventoryId, td := versionedThing c.sha256 c.stringOf candidate
      observedAt := device.currentObservationTime identity, quarantined := device.quarantined }
  | _ => .error "InvalidModel"

def packagedModels : Except String (List Json) :=
  match member "models" (env.readPackagedArtifact "models.json") with
  | some (.array models) => .ok models
  | _ => .error "InvalidModel"

def packagedEntries : Documents :=
  packagedDocuments.map (fun entry => (entry.1, relocate baseUrl "" (env.readPackagedArtifact entry.2))) ++
    [("context/publication/v1", publicationContext)]

def overwrite (documents entries : Documents) : Documents :=
  entries.foldl (fun documents entry => set entry.1 entry.2 documents) documents

def typeUrls (thing : PublicationThing) : List String := (typeLinks thing.td).filterMap (textOf "href")

def preparePublication (revision : Int) (devices : List ProjectedDevice) (modelBaseUrl : String) : Except String Bundle := do
  let baseUrl ← env.base modelBaseUrl
  let models ← packagedModels env
  let documents ← (models ++ devices.flatMap (·.models)).foldlM (addModel c baseUrl) []
  let things ← devices.mapM fun device => device.tds.mapM (prepareThing c baseUrl device)
  pure {
    publication := { inventoryRevision := revision, things := things.flatten }
    documents := (overwrite documents (packagedEntries env baseUrl)).insertionSort fun a b => keyLe a.1 b.1
    modelUrls := (things.flatten.flatMap typeUrls).foldl add [] }

end

-- `publishOwned`

def followedKeys : List String := ["href", "tm:ref", "onvif:sourceDataSchema"]

def pathOf (baseUrl url : String) : String := String.ofList ((url.toList.drop baseUrl.toList.length).takeWhile (· ≠ '#'))

def followed (baseUrl key : String) : Json → List String
  | .string text => if key ∈ followedKeys ∧ begins text baseUrl then [pathOf baseUrl text] else []
  | _ => []

mutual
/-- What `visit` adds to the required paths. -/
def visit (baseUrl : String) : Json → List String
  | .array items => visitItems baseUrl items
  | .object members => visitMembers baseUrl members
  | _ => []
def visitItems (baseUrl : String) : List Json → List String
  | [] => []
  | item :: items => visit baseUrl item ++ visitItems baseUrl items
def visitMembers (baseUrl : String) : Members → List String
  | [] => []
  | (key, entry) :: members => followed baseUrl key entry ++ visit baseUrl entry ++ visitMembers baseUrl members
end

structure Answer where
  status : Nat
  /-- `responseJson`. -/
  body : Except String Json

def expectStatus (status : Nat) : Except String Unit :=
  if status = 200 then .ok ()
  else if status = 401 ∨ status = 403 then .error "DirectoryDenied"
  else if status = 409 ∨ status = 412 then .error "DirectoryConflict"
  else if status = 404 ∨ status = 405 ∨ status = 501 then .error "UnsupportedDirectory"
  else if 300 ≤ status ∧ status < 400 then .error "DirectoryRedirect"
  else .error "DirectoryResponse"

section
variable (c : Context) (baseUrl : String) (documents : Documents)

def traverse : ℕ → List String → List String → Option (Except String (List String))
  | _, passed, [] => some (.ok passed)
  | 0, _, _ :: _ => none
  | fuel + 1, passed, path :: pending =>
    match get path documents with
    | none => some (.error "InvalidModel")
    | some value => traverse fuel (passed ++ [path])
        (((visit baseUrl value).foldl add (passed ++ path :: pending)).drop (passed.length + 1))

def verify (request : String → Except String Answer) (path : String) : Except String Unit :=
  match get path documents with
  | none => .error "InvalidModel"
  | some value => do
    let answer ← request (baseUrl ++ path)
    expectStatus answer.status
    let body ← answer.body
    if digest c.sha256 body = digest c.sha256 value then pure () else .error "ModelNotReachable"

/-- `publishOwned` with what the bundle's write gives; a client is there in HTTP verification only. -/
def publishOwned (bundle : Bundle) (written : Except String Unit) (client : Option (String → Except String Answer)) :
    Option (Except String Unit) :=
  match written, client with
  | .error code, _ => some (.error code)
  | .ok (), none => some (.ok ())
  | .ok (), some request =>
    match bundle.modelUrls.mapM (modelPath · baseUrl) with
    | .error code => some (.error code)
    | .ok paths =>
      (traverse baseUrl bundle.documents (bundle.documents.length + 1) []
        ((paths ++ ["context/v0.1", "context/publication/v1"]).foldl add [])).map fun required => do
          (← required).forM (verify c baseUrl bundle.documents request)

end

end WotAv.Publication.Models
