import WotAv.Binding.Digest
import WotAv.Xml.SimpleValues

/-!
# Identity constraints (`src/xml/identity.ts`)

An element object is the path to it: at each level, the number of the child
element. An attribute object is its element with its position there. `bound` is
called for all nodes of a step at once.
-/

namespace WotAv.Xml

open WotAv.Lib WotAv.Binding

def XSI_NS : String := "http://www.w3.org/2001/XMLSchema-instance"

structure XmlNameTest where
  namespace_ : Option String
  localName : Option String
  deriving DecidableEq, Repr

structure IdentityPath where
  descendant : Bool
  elements : List XmlNameTest
  attribute_ : Option XmlNameTest := none
  deriving DecidableEq, Repr

structure UniqueConstraint where
  name : QName
  selector : List IdentityPath
  fields : List (List IdentityPath)

def unsupportedCapability (message : String) : Except OnvifError α := .error ⟨.unsupportedCapability, message, .notSent⟩

-- `parseIdentityXPath`

/-- `name` of `parseIdentityXPath`. -/
def nameTest (namespaces : List (String × String)) (value : List Char) : Except OnvifError XmlNameTest :=
  let testOf (localName : List Char) := if localName = ['*'] then none else some (String.ofList localName)
  if value = ['*'] then .ok ⟨none, none⟩
  else match value.splitOn ':' with
    | [localName] => do
      require (localName = ['*'] ∨ isNCName localName) .unsupportedCapability
        "Identity XPath requires QName child/attribute steps"
      return ⟨some "", testOf localName⟩
    | [start, localName] => do
      require (localName = ['*'] ∨ isNCName localName) .unsupportedCapability
        "Identity XPath requires QName child/attribute steps"
      match namespaces.find? fun entry => isNCName start && entry.1 = String.ofList start with
      | none => unsupportedCapability "Identity XPath has an unbound namespace prefix"
      | some (_, namespace_) => return ⟨some namespace_, testOf localName⟩
    | _ => unsupportedCapability "Identity XPath requires QName child/attribute steps"

def identityPath (namespaces : List (String × String)) (selector : Bool) (alternative : List Char) :
    Except OnvifError IdentityPath :=
  let trimmed := trim alternative
  let descendant := trimmed.take 3 = ".//".toList
  let path := if descendant then trimmed.drop 3 else if trimmed.take 2 = "./".toList then trimmed.drop 2 else trimmed
  if path = ['.'] then .ok ⟨descendant, [], none⟩
  else do
    let steps := path.splitOn '/'
    require (steps.length ≤ 64 ∧ ∀ step ∈ steps, step ≠ [] ∧ step = trim step) .unsupportedCapability
      "Identity XPath path is not in the checked child/descendant subset"
    match steps.getLast? with
    | some ('@' :: last) => do
      require (selector = false) .unsupportedCapability "An identity selector cannot select attributes"
      let test ← nameTest namespaces last
      return ⟨descendant, ← steps.dropLast.mapM (nameTest namespaces), some test⟩
    | _ => return ⟨descendant, ← steps.mapM (nameTest namespaces), none⟩

def parseIdentityXPath (expression : String) (namespaces : List (String × String)) (selector : Bool) :
    Except OnvifError (List IdentityPath) := do
  require (expression ≠ "" ∧ utf16Length expression ≤ 4096) .unsupportedCapability
    "Identity XPath exceeds the supported bound"
  (expression.toList.splitOn '|').mapM (identityPath namespaces selector)

-- Nodes

abbrev Path := List Nat

inductive Target
  | element (path : Path)
  | attribute (path : Path) (index : Nat)
  deriving DecidableEq, Repr

def nodeAt (root : XmlNode) (path : Path) : Option XmlNode := path.foldlM (fun node i => (childElements node)[i]?) root

def childrenAt (root : XmlNode) (path : Path) : List Path :=
  match nodeAt root path with
  | none => []
  | some node => (List.range (childElements node).length).map fun i => path ++ [i]

def attributesOf : XmlNode → List (QName × String)
  | .element _ _ attributes _ => attributes
  | _ => []

mutual

def descendants : Path → XmlNode → List Path
  | path, .element _ _ _ children => descendantsFrom path 0 children
  | _, _ => []

def descendantsFrom : Path → Nat → List XmlNode → List Path
  | _, _, [] => []
  | path, i, child :: children =>
    if child.isElement then (path ++ [i]) :: (descendants (path ++ [i]) child ++ descendantsFrom path (i + 1) children)
    else descendantsFrom path i children

end

def descendantsAt (root : XmlNode) (path : Path) : List Path :=
  match nodeAt root path with
  | none => []
  | some node => descendants path node

def XmlNameTest.accepts (test : XmlNameTest) (name : QName) : Bool :=
  test.namespace_.all (· = name.namespace_) && test.localName.all (· = name.localName)

-- `IdentityValidation`

structure TypedValue where
  type : SimpleType
  value : SimpleValue

structure IdentityValidation where
  root : XmlNode
  ids : String → Option Target := fun _ => none
  values : Target → Option TypedValue := fun _ => none
  /-- The attributes that `defaultAttribute` has added to an element. -/
  defaults : Path → List (QName × String) := fun _ => []
  constraints : List (Path × UniqueConstraint) := []
  work : Nat := 0

namespace IdentityValidation

def workLimit : Nat := 2000000

/-- `bound`, `n` times. -/
def charge (n work : Nat) : Except OnvifError Nat :=
  if workLimit < work + n then .error ⟨.xmlLimit, "XML identity-constraint work bound exceeded", .notSent⟩ else .ok (work + n)

def addId (id : String) (target : Target) (v : IdentityValidation) : Except OnvifError IdentityValidation := do
  require ((v.ids id).all (· = target) = true) .invalidValue "Duplicate document-wide XML ID"
  return { v with ids := Function.update v.ids id (some target) }

def setValue (target : Target) (typed : TypedValue) (v : IdentityValidation) : IdentityValidation :=
  { v with values := Function.update v.values target (some typed) }

mutual

/-- The text that `id` of `record` finds in a value. -/
def idOf : SimpleType → SimpleValue → Option String
  | .restriction base _, value => idOf base value
  | .scalar .ID, value => some (String.ofList value.text)
  | .union members, .member name value => memberId members name value
  | _, _ => none

def memberId : List (String × SimpleType) → String → SimpleValue → Option String
  | [], _, _ => none
  | (name', type) :: members, name, value => if name' = name then idOf type value else memberId members name value

end

def record (target : Target) (type : SimpleType) (value : SimpleValue) (v : IdentityValidation) :
    Except OnvifError IdentityValidation :=
  let v := v.setValue target ⟨type, value⟩
  match idOf type value with
  | none => .ok v
  | some id => v.addId id target

def attributesAt (v : IdentityValidation) (path : Path) : List (QName × String) :=
  ((nodeAt v.root path).map attributesOf).getD [] ++ v.defaults path

def defaultAttribute (path : Path) (added : QName × String) (type : SimpleType) (value : SimpleValue)
    (v : IdentityValidation) : Except OnvifError IdentityValidation :=
  record (.attribute path (v.attributesAt path).length) type value
    { v with defaults := Function.update v.defaults path (v.defaults path ++ [added]) }

def scope (path : Path) (unique : List UniqueConstraint) (v : IdentityValidation) : IdentityValidation :=
  { v with constraints := v.constraints ++ unique.map fun constraint => (path, constraint) }

def visitAttributes (path : Path) : Nat → List (QName × String) → IdentityValidation → Except OnvifError IdentityValidation
  | _, [], v => .ok v
  | index, (name, value) :: attributes, v =>
    if name = ⟨XML_NS, "id"⟩ then do
      let id := collapsed value.toList
      require (isNCName id) .invalidValue "xml:id must be an XML NCName"
      let v ← v.addId (String.ofList id) (.attribute path index)
      visitAttributes path (index + 1) attributes
        (v.setValue (.attribute path index) ⟨.scalar .ID, .string (String.ofList id)⟩)
    else visitAttributes path (index + 1) attributes v

def visit (v : IdentityValidation) (path : Path) : Except OnvifError IdentityValidation := do
  let work ← charge 1 v.work
  visitAttributes path 0 (((nodeAt v.root path).map attributesOf).getD []) { v with work }

def construct (root : XmlNode) : Except OnvifError IdentityValidation :=
  ([] :: descendantsAt root []).foldlM visit { root }

-- `select`

def matchesElement (v : IdentityValidation) (test : XmlNameTest) (path : Path) : Bool :=
  (nodeAt v.root path).any fun node => test.accepts node.elementName

def matchingAttributes (v : IdentityValidation) (test : XmlNameTest) (path : Path) : List Target :=
  ((v.attributesAt path).zipIdx.filter fun entry => test.accepts entry.1.1).map fun entry => .attribute path entry.2

/-- The nodes that the steps of a path lead to, and what the steps cost. -/
def follow (v : IdentityValidation) : List XmlNameTest → List Path → List Path × Nat
  | [], current => (current, 0)
  | step :: steps, current =>
    let next := current.flatMap fun node => (childrenAt v.root node).filter (v.matchesElement step)
    let (reached, work) := v.follow steps next
    (reached, (current.flatMap (childrenAt v.root)).length + work)

def selectPath (v : IdentityValidation) (context : Path) (path : IdentityPath) : List Target × Nat :=
  let below := if path.descendant then descendantsAt v.root context else []
  let (current, work) := v.follow path.elements (context :: below)
  match path.attribute_ with
  | none => (current.map .element, below.length + work)
  | some test => (current.flatMap (v.matchingAttributes test),
      below.length + work + (current.flatMap v.attributesAt).length)

/-- A `Set` keeps the first of what is added twice. -/
def select (v : IdentityValidation) (context : Path) (paths : List IdentityPath) : List Target × Nat :=
  ((paths.flatMap fun path => (v.selectPath context path).1).eraseDups,
    (paths.map fun path => (v.selectPath context path).2).sum)

-- `validate`

/-- `xsi:nil` is written `true` or `1`. -/
def isNil (v : IdentityValidation) : Target → Bool
  | .element path => ((nodeAt v.root path).map attributesOf).any (·.any fun (name, value) =>
      name = ⟨XSI_NS, "nil"⟩ && (value = "true" || value = "1"))
  | .attribute .. => false

/-- The key of a field that selects these; none where it selects nothing. -/
def fieldKey (v : IdentityValidation) : List Target → Except OnvifError (Option String)
  | [] => .ok none
  | [field] =>
    match v.values field with
    | some typed => do return some (← identityValueKey typed.type typed.value)
    | none => if v.isNil field then .ok none
      else unsupportedCapability "Identity field requires a schema-typed simple value"
  | _ => invalidValue "An xs:unique field selected multiple values"

/-- The tuple of a node, if it is complete. -/
def validateFields (v : IdentityValidation) (node : Path) :
    List (List IdentityPath) → Nat → Except OnvifError (Option (List String) × Nat)
  | [], work => .ok (some [], work)
  | paths :: fields, work => do
    let work ← charge (v.select node paths).2 work
    let key ← v.fieldKey (v.select node paths).1
    let (tuple, work) ← v.validateFields node fields work
    return (key.bind fun key => tuple.map (key :: ·), work)

def validateNodes (v : IdentityValidation) (constraint : UniqueConstraint) :
    List Target → List (List Char) → Nat → Except OnvifError Nat
  | [], _, work => .ok work
  | .attribute .. :: _, _, _ => invalidValue "Identity selector did not select an element"
  | .element node :: selected, tuples, work => do
    let (tuple, work) ← v.validateFields node constraint.fields work
    match tuple with
    | none => v.validateNodes constraint selected tuples work
    | some tuple =>
      if stringify tuple ∈ tuples then
        invalidValue ("Duplicate xs:unique tuple in \x7b" ++ constraint.name.namespace_ ++ "\x7d" ++ constraint.name.localName)
      else v.validateNodes constraint selected (stringify tuple :: tuples) work

def validateConstraints (v : IdentityValidation) : List (Path × UniqueConstraint) → Nat → Except OnvifError Nat
  | [], work => .ok work
  | (node, constraint) :: constraints, work => do
    let work ← charge (v.select node constraint.selector).2 work
    let work ← v.validateNodes constraint (v.select node constraint.selector).1 [] work
    v.validateConstraints constraints work

def validate (v : IdentityValidation) : Except OnvifError Unit := do
  let _ ← v.validateConstraints v.constraints v.work
  return ()

-- Runs

/-- What `decode` calls between the constructor and `validate`. -/
inductive Call
  | record (target : Target) (type : SimpleType) (value : SimpleValue)
  | defaultAttribute (path : Path) (added : QName × String) (type : SimpleType) (value : SimpleValue)
  | scope (path : Path) (unique : List UniqueConstraint)

def step (v : IdentityValidation) : Call → Except OnvifError IdentityValidation
  | .record target type value => v.record target type value
  | .defaultAttribute path added type value => v.defaultAttribute path added type value
  | .scope path unique => .ok (v.scope path unique)

def run (root : XmlNode) (calls : List Call) : Except OnvifError IdentityValidation := do
  calls.foldlM step (← construct root)

end IdentityValidation

end WotAv.Xml
