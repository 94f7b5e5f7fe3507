import WotAv.Binding.Soap
import WotAv.Catalog.Assessments
import WotAv.Catalog.ModelResolver
import WotAv.Lib.JsonCanonical

/-!
# The requirement index (`src/catalog/requirements.ts`)

The rows of the authored ledgers, what the editorial decisions make of them,
and the check of an index that has been written.
-/

namespace WotAv.Catalog.Requirements

open WotAv.Lib
open WotAv.Binding (OnvifError QName isNCName)
open WotAv.Lib.Json (get sortedUnique canonicalJson)

def invalid (message : String) : Except OnvifError α := .error ⟨.invalidRegistry, message, .notSent⟩

def demand (condition : Prop) [Decidable condition] (message : String) : Except OnvifError Unit :=
  if condition then .ok () else invalid message

-- Values

def nonempty (value : Option JsonValue) (description : String) : Except OnvifError String :=
  match value.bind Json.asString with
  | some text => if text = "" then invalid (description ++ " must be a nonempty string") else .ok text
  | none => invalid (description ++ " must be a nonempty string")

/-- `value === undefined ? {} : { key: nonempty(value) }`. -/
def optional (value : Option JsonValue) (description : String) : Except OnvifError (Option String) :=
  match value with
  | none => .ok none
  | some value => some <$> nonempty (some value) description

def items (value : Option JsonValue) (message : String) : Except OnvifError (List JsonValue) :=
  match value.bind Json.asArray with
  | some entries => .ok entries
  | none => invalid message

def strings (value : Option JsonValue) (description : String) (allowEmpty : Bool) : Except OnvifError (List String) := do
  let entries ← items value (description ++ " must be an array")
  demand (allowEmpty ∨ entries.length ≠ 0) (description ++ " must be an array")
  entries.mapM fun entry => nonempty (some entry) description

def record (value : Option JsonValue) (description : String) : Except OnvifError JsonRecord :=
  match value.bind Json.asRecord with
  | some members =>
    if isJsonValue (.object members) then .ok members else invalid (description ++ " must be a finite JSON object")
  | none => invalid (description ++ " must be a finite JSON object")

def orElse (value : Option JsonValue) (fallback : JsonValue) : JsonValue :=
  match value with
  | none | some .null => fallback
  | some value => value

def text? (key : String) (members : JsonRecord) : Option String := (get key members).bind Json.asString

def isQName (value : JsonValue) : Option QName :=
  match value.asRecord with
  | some members =>
    match text? "namespace" members, text? "localName" members with
    | some namespace_, some localName =>
      if isNCName localName.toList ∧ (members.all fun member => member.1 = "namespace" || member.1 = "localName") then
        some ⟨namespace_, localName⟩
      else none
    | _, _ => none
  | none => none

def isLineTerminator (c : Char) : Bool := c = '\n' || c = '\r' || c.toNat = 0x2028 || c.toNat = 0x2029

/-- `/^\{([^}]*)\}(.+)$/u`. -/
def expandedName (text : List Char) : Option (List Char × List Char) :=
  match text with
  | '{' :: rest =>
    match rest.dropWhile (· ≠ '}') with
    | _ :: localName =>
      if localName ≠ [] ∧ localName.all (!isLineTerminator ·) then some (rest.takeWhile (· ≠ '}'), localName) else none
    | [] => none
  | _ => none

def nameOfText (text : String) : Option QName :=
  (expandedName text.toList).bind fun parts =>
    if isNCName parts.2 then some ⟨String.ofList parts.1, String.ofList parts.2⟩ else none

def nativeQName (value : JsonValue) (description : String) : Except OnvifError QName :=
  match isQName value, value.asString.bind nameOfText with
  | some name, _ => .ok name
  | none, some name => .ok name
  | none, none => invalid (description ++ " must be an expanded QName, not an unresolved lexical prefix")

-- Rows

inductive RequirementRole
  | device | client
  deriving DecidableEq, Repr

def RequirementRole.text : RequirementRole → String
  | .device => "device"
  | .client => "client"

inductive RequirementLevel
  | mandatory | conditional | optional
  deriving DecidableEq, Repr

def RequirementLevel.text : RequirementLevel → String
  | .mandatory => "mandatory"
  | .conditional => "conditional"
  | .optional => "optional"

inductive RequirementClassification
  | protocol | schema | capability | behavior | process | notRepresentableTd
  deriving DecidableEq, Repr

def RequirementClassification.text : RequirementClassification → String
  | .protocol => "protocol"
  | .schema => "schema"
  | .capability => "capability"
  | .behavior => "behavior"
  | .process => "process"
  | .notRepresentableTd => "notRepresentableTd"

def choice (choices : List α) (text : α → String) (value : Option JsonValue) (message : String) : Except OnvifError α :=
  match (value.bind Json.asString).bind fun name => choices.find? (text · = name) with
  | some found => .ok found
  | none => invalid message

structure RequirementSource where
  sourceId : String
  pdfPage : FiniteNumber
  printedPage : JsonValue
  clause : String
  table : Option String
  row : Option String

structure NativeRequirementReference where
  serviceNamespace : String
  portType : Option String
  operation : Option String
  typeQName : Option QName
  topic : Option String

structure RequirementAtom where
  id : String
  profile : String
  edition : String
  role : RequirementRole
  source : RequirementSource
  requirementLevel : RequirementLevel
  sourceRequirementLevel : JsonValue
  localLevel : RequirementLevel
  effectiveLevel : RequirementLevel
  feature : String
  featurePath : JsonValue
  sourceScope : JsonValue
  condition : Option Condition
  classification : RequirementClassification
  native : List NativeRequirementReference
  mapping : String × Option String
  evidenceTargets : List String
  editorialDecisionIds : List String
  obligationGroupId : Option String
  raw : JsonRecord
  /-- The decisions of `interpretation`, whose other fields are constants. -/
  interpretation : Option (List String) := none

def parsePages (id : String) (source : JsonRecord) : Except OnvifError (FiniteNumber × JsonValue) := do
  let message := id ++ ": physical and printed page locators must be explicit"
  let pdfPage ←
    match (get "pdfPage" source).bind Json.asNumber with
    | some page => if page.natural?.any fun n => 1 ≤ n ∧ n ≤ 2 ^ 53 - 1 then .ok page else invalid message
    | none => invalid message
  let printedPage ←
    match get "printedPage" source with
    | some .null => .ok .null
    | some (.string page) => .ok (.string page)
    | some (.number page) => .ok (.number page)
    | _ => invalid message
  return (pdfPage, printedPage)

def parseSource (id : String) (source : JsonRecord) (pages : FiniteNumber × JsonValue) :
    Except OnvifError RequirementSource := do
  let sourceId ← nonempty (get "sourceId" source) (id ++ " sourceId")
  let clause ← nonempty (get "clause" source) (id ++ " clause")
  let table ← optional (get "table" source) (id ++ " table")
  let row ← optional (get "row" source) (id ++ " row")
  return { sourceId, pdfPage := pages.1, printedPage := pages.2, clause, table, row }

def expandTopic (id : String) (topicNamespace : Option JsonValue) (topic : Option String) :
    Except OnvifError (Option String) :=
  match topic, topicNamespace.bind Json.asString with
  | some topic, some space =>
    if topic.toList.head? = some '{' then .ok (some topic)
    else do
      let space ← nonempty (some (.string space)) (id ++ " explicit topic namespace")
      return some ("\x7b" ++ space ++ "\x7d" ++ topic)
  | topic, _ => .ok topic

def parseNative (id : String) (entry : JsonValue) : Except OnvifError NativeRequirementReference := do
  let ref ← record (some entry) (id ++ " native reference")
  let topic ← optional (get "topic" ref) (id ++ " topic")
  let topic ← expandTopic id (get "topicNamespace" ref) topic
  let serviceNamespace ← nonempty (get "serviceNamespace" ref) (id ++ " service namespace")
  let portType ← optional (get "portType" ref) (id ++ " portType")
  let operation ← optional (get "operation" ref) (id ++ " operation")
  let typeQName ← (get "typeQName" ref).mapM fun name => nativeQName name (id ++ " native type")
  return { serviceNamespace, portType, operation, typeQName, topic }

def parseCondition (id : String) (value : Option JsonValue) : Except OnvifError (Option Condition) :=
  match value with
  | none => invalid (id ++ ": missing explicit condition (use null when unconditional)")
  | some .null => .ok none
  | some value => .ok (some (condition value))

/-- `value.obligationGroupId ?? membership?.id ?? ...`. -/
def groupIdOf (id : String) (groupId : Option JsonValue) (membership : Option JsonRecord) : Option JsonValue :=
  match orElse groupId (orElse (membership.bind (get "id")) .null) with
  | .null =>
    if ((membership.bind (get "alternatives")).bind Json.asArray).isSome then some (.string ("group-" ++ id)) else none
  | value => some value

def unspecifiedLevel : JsonValue :=
  .object [("state", .string "not-specified"), ("reason", .string "The original ledger stores the authored level but no separate raw source marker; consult the retained exact source assertion.")]

def unspecifiedScope : JsonValue :=
  .string "Native source and fact definitions retain the per-resource/request scope; this is not a universal hardware assertion."

def parseRequirement (input : Option JsonValue) : Except OnvifError RequirementAtom := do
  let value ← record input "Requirement row"
  let id ← nonempty (get "id" value) "Requirement ID"
  let role ← choice [.device, .client] RequirementRole.text (get "role" value) (id ++ ": invalid role")
  let unknown := id ++ ": unknown requirement level/classification"
  let level ← choice [.mandatory, .conditional, .optional] RequirementLevel.text (get "requirementLevel" value) unknown
  let classification ← choice [.protocol, .schema, .capability, .behavior, .process, .notRepresentableTd]
    RequirementClassification.text (get "classification" value) unknown
  let source ← record (get "source" value) (id ++ " source")
  let pages ← parsePages id source
  let mapping ← record (get "mapping" value) (id ++ " mapping")
  let references ← items (get "native" value) (id ++ ": native references must be an array")
  let native ← references.mapM (parseNative id)
  let condition ← parseCondition id (get "condition" value)
  let membership ← (get "obligationGroup" value).mapM fun group => record (some group) (id ++ " obligation group")
  let groupId := groupIdOf id (get "obligationGroupId" value) membership
  let profile ← nonempty (get "profile" value) (id ++ " profile")
  let edition ← nonempty (get "edition" value) (id ++ " edition")
  let source ← parseSource id source pages
  let feature ← nonempty (get "feature" value) (id ++ " feature")
  let kind ← nonempty (get "kind" mapping) (id ++ " mapping kind")
  let reason ← optional (get "reason" mapping) (id ++ " mapping reason")
  let evidenceTargets ← strings (get "evidenceTargets" value) (id ++ " evidence targets") false
  let editorialDecisionIds ← strings (get "editorialDecisionIds" value) (id ++ " editorial decisions") true
  let obligationGroupId ← optional groupId (id ++ " obligation group")
  return {
    id, profile, edition, role, source
    requirementLevel := level
    sourceRequirementLevel := orElse (get "sourceRequirementLevel" value) unspecifiedLevel
    localLevel := level
    effectiveLevel := level
    feature
    featurePath := orElse (get "featurePath" value) (.array [.string feature])
    sourceScope := orElse (get "evaluationScope" value) unspecifiedScope
    condition, classification, native
    mapping := (kind, reason)
    evidenceTargets, editorialDecisionIds, obligationGroupId
    raw := value }

-- Rows as JSON

def withoutZeros : (fuel : Nat) → Nat → Nat
  | 0, n => n
  | fuel + 1, n => if n % 10 = 0 then withoutZeros fuel (n / 10) else n

theorem withoutZeros_tidy {fuel n : Nat} (hn : 0 < n) (h : n ≤ fuel) : withoutZeros fuel n % 10 ≠ 0 := by
  induction fuel generalizing n with
  | zero => omega
  | succ fuel ih =>
    rw [withoutZeros]
    split
    · exact ih (by omega) (by omega)
    · assumption

def numberOf (n : Nat) : FiniteNumber :=
  if h : n = 0 then { negative := false, digits := 0, point := 0, tidy := by decide }
  else
    { negative := false, digits := withoutZeros n n, point := (Nat.toDigits 10 n).length
      tidy := by
        have htidy := withoutZeros_tidy (Nat.pos_of_ne_zero h) (Nat.le_refl n)
        rw [if_neg fun hzero => htidy (by rw [hzero])]
        exact htidy }

def texts (values : List String) : JsonValue := .array (values.map .string)

/-- `value === undefined ? {} : { key: value }`. -/
def member? (key : String) (value : Option JsonValue) : JsonRecord := (value.map fun value => (key, value)).toList

mutual
def conditionJson : Condition → JsonValue
  | .all terms => .object [("all", .array (conditionsJson terms))]
  | .any terms => .object [("any", .array (conditionsJson terms))]
  | .not term => .object [("not", conditionJson term)]
  | .fact fact equals => .object [("fact", .string fact), ("equals", equals)]
  | .atLeast threshold terms =>
    .object [("atLeast", .number (numberOf threshold)), ("of", .array (conditionsJson terms))]
  | .constant value => .object [("constant", .bool value)]
  | .unresolved value reason => .object [("unresolved", value), ("reason", .string reason)]
def conditionsJson : List Condition → List JsonValue
  | [] => []
  | term :: terms => conditionJson term :: conditionsJson terms
end

def qnameJson (name : QName) : JsonValue :=
  .object [("namespace", .string name.namespace_), ("localName", .string name.localName)]

def RequirementSource.json (source : RequirementSource) : JsonValue :=
  .object ([("sourceId", .string source.sourceId), ("pdfPage", .number source.pdfPage),
    ("printedPage", source.printedPage), ("clause", .string source.clause)] ++
    member? "table" (source.table.map .string) ++ member? "row" (source.row.map .string))

def NativeRequirementReference.json (reference : NativeRequirementReference) : JsonValue :=
  .object ([("serviceNamespace", .string reference.serviceNamespace)] ++
    member? "portType" (reference.portType.map .string) ++ member? "operation" (reference.operation.map .string) ++
    member? "typeQName" (reference.typeQName.map qnameJson) ++ member? "topic" (reference.topic.map .string))

def mappingEdition : String := "0.2-proposed"

def releaseGate : String := "named-editor-and-independent-review-before-formal-release"

def interpretationJson (decisionIds : List String) : JsonValue :=
  .object [("mappingEdition", .string mappingEdition), ("decisionIds", texts decisionIds),
    ("approval", .string "pending-named-review"), ("releaseGate", .string releaseGate)]

def RequirementAtom.json (row : RequirementAtom) : JsonValue :=
  .object ([("id", .string row.id), ("profile", .string row.profile), ("edition", .string row.edition),
    ("role", .string row.role.text), ("source", row.source.json),
    ("requirementLevel", .string row.requirementLevel.text), ("sourceRequirementLevel", row.sourceRequirementLevel),
    ("localLevel", .string row.localLevel.text), ("effectiveLevel", .string row.effectiveLevel.text),
    ("feature", .string row.feature), ("featurePath", row.featurePath),
    ("scope", .object [("role", .string row.role.text), ("sourceScope", row.sourceScope)]),
    ("condition", (row.condition.map conditionJson).getD .null), ("classification", .string row.classification.text),
    ("native", .array (row.native.map NativeRequirementReference.json)),
    ("mapping", .object ([("kind", .string row.mapping.1)] ++ member? "reason" (row.mapping.2.map .string))),
    ("evidenceTargets", texts row.evidenceTargets), ("editorialDecisionIds", texts row.editorialDecisionIds)] ++
    member? "obligationGroupId" (row.obligationGroupId.map .string) ++ [("raw", .object row.raw)] ++
    member? "interpretation" (row.interpretation.map interpretationJson))

-- Editorial overrides

inductive OverrideField
  | requirementLevel | condition | classification | native | mapping | obligationGroupId
  deriving DecidableEq, Repr

def OverrideField.text : OverrideField → String
  | .requirementLevel => "requirementLevel"
  | .condition => "condition"
  | .classification => "classification"
  | .native => "native"
  | .mapping => "mapping"
  | .obligationGroupId => "obligationGroupId"

def OverrideField.allowed : List OverrideField :=
  [.requirementLevel, .condition, .classification, .native, .mapping, .obligationGroupId]

def OverrideField.ofText (key : String) : Option OverrideField := allowed.find? (·.text = key)

abbrev Changes := OverrideField → Option JsonValue

def isString (value : Option JsonValue) (text : String) : Bool := value.bind Json.asString = some text

def isFalse (value : Option JsonValue) : Bool :=
  match value with
  | some (.bool false) => true
  | _ => false

def idText (decision : JsonRecord) : String := ((get "id" decision).map stringOf).getD "undefined"

section
variable (sha256 : String → String)

def digest (value : JsonValue) : String := sha256 (canonicalJson value)

def change (id : String) (changes : Changes) (entry : String × JsonValue) : Except OnvifError Changes := do
  let field ←
    match OverrideField.ofText entry.1 with
    | some field => .ok field
    | none => invalid (id ++ ": interpretation cannot change source identity or undeclared field " ++ entry.1)
  demand (∀ prior ∈ changes field, digest sha256 prior = digest sha256 entry.2)
    (id ++ ": conflicting interpretation for " ++ entry.1)
  return Function.update changes field (some entry.2)

def applyOverride (id : String) (decision : JsonRecord) (state : Changes × List String) (candidate : JsonValue) :
    Except OnvifError (Changes × List String) := do
  let override ← record (some candidate) (idText decision ++ " override")
  if isString (get "id" override) id then do
    demand (isString (get "mappingEdition" decision) mappingEdition ∧ isFalse (get "formalReleaseApproved" decision) ∧
      isString (get "releaseGate" decision) releaseGate)
      (idText decision ++ ": interpretation needs its explicit draft edition and release gate")
    let entries ← record (get "changes" override) (id ++ " interpretation changes")
    let changes ← entries.foldlM (change sha256 id) state.1
    let decisionId ← nonempty (get "id" decision) "Interpretation decision ID"
    return (changes, state.2 ++ [decisionId])
  else return state

def overridesOf (decision : JsonRecord) : Except OnvifError (List JsonValue) :=
  match (get "normalization" decision).bind Json.asRecord with
  | none => .ok []
  | some normalization =>
    match get "requirementOverrides" normalization with
    | none => .ok []
    | some overrides => items (some overrides) (idText decision ++ ": invalid requirementOverrides")

def applyDecision (id : String) (state : Changes × List String) (decision : JsonRecord) :
    Except OnvifError (Changes × List String) := do
  let overrides ← overridesOf decision
  overrides.foldlM (applyOverride sha256 id decision) state

def changesFor (id : String) (decisions : List JsonRecord) : Except OnvifError (Changes × List String) := do
  let (changes, decisionIds) ← decisions.foldlM (applyDecision sha256 id) (fun _ => none, [])
  return (changes, sortedUnique decisionIds)

/-- `{ ...raw, ...changes }`. -/
def withChanges (raw : JsonRecord) (changes : Changes) : JsonRecord :=
  OverrideField.allowed.foldl (fun row field =>
    match changes field with
    | some value => setMember field.text value row
    | none => row) raw

def interpretedRequirement (input : Option JsonValue) (decisions : List JsonRecord) :
    Except OnvifError RequirementAtom := do
  let original ← parseRequirement input
  let (changes, decisionIds) ← changesFor sha256 original.id decisions
  if decisionIds = [] then return original
  else do
    let selected ← parseRequirement (some (.object (setMember "editorialDecisionIds"
      (texts (sortedUnique (original.editorialDecisionIds ++ decisionIds))) (withChanges original.raw changes))))
    return { selected with
      raw := original.raw
      sourceRequirementLevel := original.sourceRequirementLevel
      localLevel := original.localLevel
      interpretation := some decisionIds }

-- The check of an index

def foldCase (c : Char) : Char :=
  if c.toNat = 0x17f then 's' else if c.toNat = 0x212a then 'k' else c.toLower

def isSlash (c : Char) : Bool := c = '\\' || c = '/'

def slashed (words : List String) (text : List Char) : Bool :=
  match text with
  | c :: rest => isSlash c && words.any fun word => word.toList.isPrefixOf rest && ((rest.drop word.length).head?.any isSlash)
  | [] => false

def machinePath (text : List Char) : Bool :=
  (match text with
  | c :: ':' :: rest => ('a' ≤ c && c ≤ 'z') && slashed ["users", "git", "repos", "repo"] rest
  | _ => false) ||
  (match text with
  | c :: rest => isSlash c && ".copilot".toList.isPrefixOf rest && slashed ["session-state"] (rest.drop ".copilot".length)
  | [] => false)

/-- The pattern of `publicSource`, anywhere in the text. -/
def machineSpecific (text : String) : Bool := (text.toList.map foldCase).tails.any machinePath

def publicSource (value : Option JsonValue) (description : String) : Except OnvifError String := do
  let source ← nonempty value description
  demand (machineSpecific source = false)
    (description ++ ": machine-specific authoring provenance requires a reviewed source record")
  return source

def isHash (text : String) : Bool := text.toList.length = 64 && text.toList.all fun c => c.isDigit || ('a' ≤ c && c ≤ 'f')

def isArray (key : String) (members : JsonRecord) : Bool := ((get key members).bind Json.asArray).isSome

def isOne (value : Option JsonValue) : Bool := ((value.bind Json.asNumber).bind FiniteNumber.natural?) = some 1

def envelope (members : JsonRecord) : Option String :=
  ((get "digest" members).bind Json.asString).filter fun expected => isOne (get "formatVersion" members) && isHash expected &&
    ["requirements", "resolutions", "obligationGroups", "diagnostics", "editorialDecisions", "profileEditions",
      "files"].all (isArray · members) && ((get "conditionFacts" members).bind Json.asRecord).isSome

def assertDecision (decision : JsonValue) : Except OnvifError JsonRecord := do
  record (some decision) "Indexed interpretation"

def assertOldSource (decision : JsonRecord) : Except OnvifError Unit :=
  match get "oldSource" decision with
  | none => .ok ()
  | some source => do
    let _ ← publicSource (some source) (idText decision ++ " indexed oldSource")
    return ()

def assertRow (decisions : List JsonRecord) (ids : List String) (entry : JsonValue) : Except OnvifError (List String) :=
  match entry.asRecord with
  | none => invalid "Invalid normalized requirement row"
  | some row => do
    let parsed ← interpretedRequirement sha256 (get "raw" row) decisions
    demand (parsed.id ∉ ids ∧ digest sha256 parsed.json = digest sha256 entry)
      "Normalized requirement disagrees with its authored row"
    return ids ++ [parsed.id]

def assertResolution (ids seen : List String) (entry : JsonValue) : Except OnvifError (List String) :=
  match entry.asRecord.bind fun members => (text? "requirementId" members).map fun id => (members, id) with
  | none => invalid "Invalid requirement disposition"
  | some (members, id) => do
    demand (id ∈ ids ∧ id ∉ seen ∧ isArray "operationIds" members ∧ isArray "typeIds" members ∧
      isArray "topics" members ∧ (text? "rationale" members).isSome) "Invalid requirement disposition"
    return seen ++ [id]

def entriesOf (key : String) (members : JsonRecord) : List JsonValue :=
  ((get key members).bind Json.asArray).getD []

def assertRequirementIndex (value : JsonValue) : Except OnvifError Unit := do
  let members ← match value.asRecord with
    | some members => .ok members
    | none => invalid "Invalid requirement index envelope"
  let expected ← match envelope members with
    | some expected => .ok expected
    | none => invalid "Invalid requirement index envelope"
  demand (digest sha256 (.object (members.filter (·.1 ≠ "digest"))) = expected)
    "Requirement index content disagrees with its digest"
  let decisions ← (entriesOf "editorialDecisions" members).mapM assertDecision
  let _ ← decisions.mapM assertOldSource
  let ids ← (entriesOf "requirements" members).foldlM (assertRow sha256 decisions) []
  let seen ← (entriesOf "resolutions" members).foldlM (assertResolution ids) []
  demand (seen.length = ids.length) "Some requirements have no disposition"

end

end WotAv.Catalog.Requirements
