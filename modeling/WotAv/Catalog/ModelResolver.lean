import WotAv.Binding.Errors
import WotAv.Lib.Json

/-!
# Imports of Thing Models (`src/catalog/model-resolver.ts`)

`assertModelImports`, which walks what the models refer to and remembers what it
has checked, and `resolveModel`, which puts the referenced models in. Both bound
the references that are pending; `room` is how many more there may be.
-/

namespace WotAv.Catalog

open WotAv.Lib WotAv.Binding

variable {ν : Type}

abbrev Schema (ν : Type) := List (String × Json ν)

def failure {α : Type} (message : String) : Except OnvifError α := .error ⟨.invalidRegistry, message, .notSent⟩

-- `lookup`

/-- `/~(?![01])/u` -/
def malformedPointer : List Char → Bool
  | '~' :: c :: rest => (c ≠ '0' && c ≠ '1') || malformedPointer (c :: rest)
  | ['~'] => true
  | _ :: rest => malformedPointer rest
  | [] => false

def replaceTilde (digit replacement : Char) : List Char → List Char
  | '~' :: c :: rest =>
    if c = digit then replacement :: replaceTilde digit replacement rest else '~' :: replaceTilde digit replacement (c :: rest)
  | c :: rest => c :: replaceTilde digit replacement rest
  | [] => []

def descend (reference : String) (current : Json ν) (encoded : List Char) : Except OnvifError (Json ν) :=
  if malformedPointer encoded then failure "Malformed JSON Pointer model fragment"
  else match current.asRecord.bind (Json.get (String.ofList (replaceTilde '0' '~' (replaceTilde '1' '/' encoded)))) with
    | some value => .ok value
    | none => failure ("Unresolved model pointer: " ++ reference)

def lookup (reference : String) (models : List (String × Schema ν)) : Except OnvifError (Json ν) :=
  let id := String.ofList (reference.toList.takeWhile (· ≠ '#'))
  match (models.find? (·.1 = id)).map (·.2) with
  | none => failure ("Model import is absent from the offline bundle: " ++ id)
  | some model => match reference.toList.dropWhile (· ≠ '#') with
    | [] | ['#'] => .ok (.object model)
    | _ :: '/' :: pointer => (pointer.splitOn '/').foldlM (descend reference) (.object model)
    | _ => failure "Only JSON Pointer model fragments are supported"

-- Imports

/-- `isRecord(link) && link.rel === "tm:extends"` -/
def isBase (link : Json ν) : Bool := (link.asRecord.bind (Json.get "rel")).bind Json.asString = some "tm:extends"

def bases (source : Schema ν) : List (Json ν) := (((Json.get "links" source).bind Json.asArray).getD []).filter isBase

def baseHref (base : Json ν) : Option String := (base.asRecord.bind (Json.get "href")).bind Json.asString

def isThingModel (source : Schema ν) : Bool := (Json.get "@type" source).bind Json.asString = some "tm:ThingModel"

-- `assertModelImports`

section
variable (visit : String → List String → Except OnvifError (List String))

def visitReference (source : Schema ν) (checked : List String) : Except OnvifError (List String) :=
  match Json.get "tm:ref" source with
  | none => .ok checked
  | some (.string reference) => visit reference checked
  | some _ => failure "tm:ref must be an IRI"

def visitBase (checked : List String) (base : Json ν) : Except OnvifError (List String) :=
  match baseHref base with
  | some href => visit href checked
  | none => failure "Invalid tm:extends link"

def visitBases (source : Schema ν) (checked : List String) : Except OnvifError (List String) :=
  if isThingModel source then
    if 1 < (bases source).length then failure "Generated TMs have exactly one immediate base at most"
    else (bases source).foldlM (visitBase visit) checked
  else .ok checked

mutual
def walk : Json ν → List String → Except OnvifError (List String)
  | .array items, checked => walkItems items checked
  | .object members, checked => do
    let checked ← visitReference visit members checked
    let checked ← visitBases visit members checked
    walkMembers members checked
  | _, checked => .ok checked
def walkItems : List (Json ν) → List String → Except OnvifError (List String)
  | [], checked => .ok checked
  | item :: items, checked => do walkItems items (← walk item checked)
def walkMembers : Schema ν → List String → Except OnvifError (List String)
  | [], checked => .ok checked
  | (_, item) :: members, checked => do walkMembers members (← walk item checked)
end

end

section
variable (models : List (String × Schema ν))

/-- `visit`, with the references that have been checked. -/
def visit : (room : Nat) → (pending : List String) → String → List String → Except OnvifError (List String)
  | room, pending, reference, checked =>
    if reference ∈ pending then failure ("Cyclic model dependency: " ++ reference)
    else if reference ∈ checked then .ok checked
    else match room with
      | 0 => failure "Excessive model import graph"
      | room + 1 => do
        let checked ← walk (visit room (reference :: pending)) (← lookup reference models) checked
        return reference :: checked

def assertModelImports : Except OnvifError Unit := do
  let _ ← (models.map (·.1)).foldlM (fun checked id => visit models 64 [] id checked) []

end

-- `resolveModel`

def setMember (key : String) (item : Json ν) (members : Schema ν) : Schema ν :=
  if members.any (·.1 = key) then members.map fun member => if member.1 = key then (key, item) else member
  else members ++ [(key, item)]

def spread (target source : Schema ν) : Schema ν := source.foldl (fun result member => setMember member.1 member.2 result) target

def putMember (key : String) (expanded : Json ν) (result : Schema ν) : Schema ν :=
  match ["actions", "properties", "events"].contains key, Json.get key result, expanded with
  | true, some (.object prior), .object members => setMember key (.object (spread prior members)) result
  | _, _, _ => setMember key expanded result

/-- `result.links.filter(...)` -/
def withoutBases (result : Schema ν) : Schema ν :=
  match Json.get "links" result with
  | some (.array links) => setMember "links" (.array (links.filter fun link => !isBase link)) result
  | _ => result

section
variable (resolve : String → Except OnvifError (Schema ν))

def baseResult (source : Schema ν) : Except OnvifError (Schema ν) :=
  match bases source with
  | [] => .ok []
  | [base] => match baseHref base with
    | some href => resolve href
    | none => failure "Invalid base model"
  | _ => failure "Multiple immediate base models are not generated"

def withReference (source result : Schema ν) : Except OnvifError (Schema ν) :=
  match Json.get "tm:ref" source with
  | none => .ok result
  | some (.string reference) => do return spread result (← resolve reference)
  | some _ => failure "Invalid model reference"

def inherited (source : Schema ν) : Except OnvifError (Schema ν) := do
  withReference resolve source (← baseResult resolve source)

mutual
def expandValue : Json ν → Except OnvifError (Json ν)
  | .array items => do return .array (← expandItems items)
  | .object members => do
    let result ← inherited resolve members
    return .object (withoutBases (← expandMembers members result))
  | value => .ok value
def expandItems : List (Json ν) → Except OnvifError (List (Json ν))
  | [] => .ok []
  | item :: items => do
    let expanded ← expandValue item
    return expanded :: (← expandItems items)
/-- The loop of `expand` over the source's own members. -/
def expandMembers : Schema ν → Schema ν → Except OnvifError (Schema ν)
  | [], result => .ok result
  | (key, item) :: members, result =>
    if key = "tm:ref" then expandMembers members result
    else do
      let expanded ← expandValue item
      expandMembers members (putMember key expanded result)
end

def expand (source : Schema ν) : Except OnvifError (Schema ν) := do
  let result ← inherited resolve source
  return withoutBases (← expandMembers resolve source result)

end

def resolveReference (models : List (String × Schema ν)) : (room : Nat) → (pending : List String) → String →
    Except OnvifError (Schema ν)
  | 0, _, _ => failure "Cyclic or excessive model import graph"
  | room + 1, pending, reference =>
    if reference ∈ pending then failure "Cyclic or excessive model import graph"
    else do
      match ← lookup reference models with
      | .object source => expand (resolveReference models room (reference :: pending)) source
      | _ => failure "A model import must address a JSON object"

def resolveModel (id : String) (models : List (String × Schema ν)) : Except OnvifError (Schema ν) :=
  resolveReference models 65 [] id

end WotAv.Catalog
