import WotAv.Publication.Documents

/-!
# What a Thing Description has to be (`src/publication/common.ts`)

`assertThingDescription`, check by check. The bounds of `assertJson` and the
parser of URLs are parameters.
-/

namespace WotAv.Publication

structure Validator where
  /-- `assertJson(value, 1000000, 96, 64 * 1024 * 1024)`, with the code of its error. -/
  assertJson : Json → Except String Unit
  isUrl : String → Bool

def demand (holds : Bool) : Except String Unit := if holds then .ok () else .error "InvalidDirectoryResponse"

def Json.isRecord : Json → Bool
  | .object _ => true
  | _ => false

def Json.members : Json → Members
  | .object members => members
  | _ => []

def Json.isText : Json → Bool
  | .string text => text ≠ ""
  | _ => false

/-- An array's items, or the one value that stands for an array of one. -/
def Json.each : Json → List Json
  | .array items => items
  | value => [value]

def isSecurity (definitions : Members) (references : Json) : Bool :=
  references.each ≠ [] && references.each.all fun name => match name with
    | .string name => name ≠ "" && has name definitions
    | _ => false

def isDefinition (definitions : Members) (definition : Json) : Bool :=
  definition.isRecord && ((get "scheme" definition.members).any Json.isText) &&
    (get "allOf" definition.members).all (isSecurity definitions) &&
    (get "oneOf" definition.members).all (isSecurity definitions)

def isForm (definitions : Members) (form : Json) : Bool :=
  form.isRecord && (get "href" form.members).any Json.isText &&
    (get "security" form.members).all (isSecurity definitions) &&
    (get "op" form.members).all fun op => op.each ≠ [] && op.each.all Json.isText

def isForms (definitions : Members) : Json → Bool
  | .array entries => entries ≠ [] && entries.all (isForm definitions)
  | _ => false

mutual
def isSchema : Json → Bool
  | .object members => areSchemas members
  | _ => false
/-- What `schema` asks of the members of an entry. -/
def areSchemas : Members → Bool
  | [] => true
  | ("properties", .object properties) :: members => propertySchemas properties && areSchemas members
  | ("properties", _) :: _ => false
  | ("items", .array items) :: members => itemSchemas items && areSchemas members
  | ("items", item) :: members => isSchema item && areSchemas members
  | _ :: members => areSchemas members
def propertySchemas : Members → Bool
  | [] => true
  | (_, item) :: members => isSchema item && propertySchemas members
def itemSchemas : List Json → Bool
  | [] => true
  | item :: items => isSchema item && itemSchemas items
end

def isAffordance (definitions : Members) (kind : String) (affordance : Json) : Bool :=
  affordance.isRecord && (get "forms" affordance.members).all (isForms definitions) &&
    (kind ≠ "properties" || isSchema affordance) &&
    ["input", "output", "data", "subscription", "cancellation", "dataResponse"].all fun key =>
      (get key affordance.members).all isSchema

def areAffordances (definitions : Members) (td : ThingDescription) (kind : String) : Bool :=
  (get kind td).all fun affordances =>
    affordances.isRecord && affordances.members.all fun affordance => isAffordance definitions kind affordance.2

/-- `assertThingDescription`, of a record. -/
def checkThing (v : Validator) (td : ThingDescription) : Except String Unit := do
  v.assertJson (.object td)
  demand ((get "id" td).any Json.isText && (match get "title" td with | some (.string _) => true | _ => false) &&
    has "@context" td && (get "securityDefinitions" td).any Json.isRecord &&
    match get "security" td with | some (.string _) | some (.array _) => true | _ => false)
  demand (match get "id" td with | some (.string id) => v.isUrl id | _ => false)
  let contexts := ((get "@context" td).map Json.each).getD []
  demand (contexts ≠ [] && contexts.all fun entry => entry.isText || entry.isRecord)
  let _ ← contextValue contexts
  let definitions := ((get "securityDefinitions" td).map Json.members).getD []
  demand (definitions.all fun definition => isDefinition definitions definition.2)
  demand ((get "security" td).all (isSecurity definitions))
  demand ((get "forms" td).all (isForms definitions))
  demand (["properties", "actions", "events"].all (areAffordances definitions td))

end WotAv.Publication
