import WotAv.Publication.State

/-!
# The Directory and its client (`src/publication/directory.ts`)

What the client checks of an answer and puts in a request, and the Directory
as a store that honours `If-Match` and `If-None-Match` and gives each
modification a new entity tag. The validator of Thing Descriptions, the
parsers of URLs and instants, the digest and the clock are parameters.
-/

namespace WotAv.Publication

inductive Ownership
  | etag
  | singleWriter
  deriving DecidableEq, Repr

inductive Verification
  | attested
  | ownedRoundtrip (id : String)
  deriving DecidableEq, Repr

inductive Expiry
  | registrationTtl (ttlSeconds : Nat) (patch : Bool)
  | bridgeDelete
  deriving DecidableEq, Repr

structure DirectoryContract where
  verification : Verification
  ownership : Ownership
  expiry : Expiry
  deriving DecidableEq, Repr

structure Context where
  owner : String
  contract : DirectoryContract
  freshMs : Nat
  graceMs : Nat
  renewBeforeMs : Nat
  sha256 : Json → String
  stringOf : Option Json → String
  validThing : ThingDescription → Except String Unit
  resourceUrl : String → Except String Unit
  parseDate : String → Option Int
  /-- An absolute RFC 3339 timestamp. -/
  instant : String → Option Int
  /-- Epoch milliseconds, if the reading is a safe non-negative integer. -/
  clock : Nat → Option Nat
  /-- `assertJson`, with the bounds of the store. -/
  assertJson : PublicationState → Bool

structure DirectoryRecord where
  td : ThingDescription
  etag : Option Nat
  expiresAt : Option Int
  deriving DecidableEq

inductive WriteCondition
  | create
  | etag (tag : Nat)
  | singleWriter
  deriving DecidableEq, Repr

abbrev Resource := ThingDescription × Nat

def assertThingDescription (c : Context) (td : ThingDescription) : Except String Unit :=
  match get "id" td with
  | some (.string id) => if id = "" then .error "InvalidDirectoryResponse" else c.validThing td
  | _ => .error "InvalidDirectoryResponse"

-- Answers

def expires (c : Context) (td : ThingDescription) : Except String (Option Int) :=
  match get "registration" td with
  | some (.object registration) => match get "expires" registration with
    | none => .ok none
    | some (.string value) => match c.instant value with
      | some instant => .ok (some instant)
      | none => .error "InvalidDirectoryResponse"
    | some _ => .error "InvalidDirectoryResponse"
  | _ => .ok none

/-- `DirectoryClient.get`, from the Directory's answer. -/
def DirectoryRecord.read (c : Context) (id : String) : Option Resource → Except String (Option DirectoryRecord)
  | none => .ok none
  | some (td, tag) => do
    assertThingDescription c td
    if get "id" td ≠ some (.string id) then .error "InvalidDirectoryResponse"
    else
      let expiresAt ← expires c td
      pure (some { td, etag := some tag, expiresAt })

inductive Status
  | created
  | noContent
  | notFound
  | preconditionFailed
  deriving DecidableEq, Repr

-- Requests

inductive Precondition
  | ifNoneMatch
  | ifMatch (tag : Nat)
  | unconditional
  deriving DecidableEq, Repr

inductive Body
  | put (document : ThingDescription)
  | patch (ttlSeconds : Option Nat)
  | delete
  deriving DecidableEq

structure Request where
  id : String
  body : Body
  condition : WriteCondition
  precondition : Precondition
  deriving DecidableEq

def Precondition.of (c : Context) : WriteCondition → Except String Precondition
  | .create => .ok (if c.contract.ownership = .etag then .ifNoneMatch else .unconditional)
  | .etag tag => if c.contract.ownership = .etag then .ok (.ifMatch tag) else .error "InvalidConfiguration"
  | .singleWriter => if c.contract.ownership = .singleWriter then .ok .unconditional else .error "InvalidConfiguration"

def withTtl (c : Context) (document : ThingDescription) : Option Nat → Except String ThingDescription
  | none => .ok document
  | some ttl => match c.contract.expiry with
    | .bridgeDelete => .error "UnsupportedDirectory"
    | .registrationTtl ttlSeconds _ =>
      if ttl = 0 ∨ ttl > ttlSeconds then .error "InvalidConfiguration"
      else do
        let contexts ← contextEntries document
        let context ← contextValue
          (if contexts.contains (.string DISCOVERY_CONTEXT) then contexts else contexts ++ [.string DISCOVERY_CONTEXT])
        pure (set "registration" (.object [("ttl", .number ttl)]) (set "@context" context document))

def Request.put (c : Context) (td : ThingDescription) (condition : WriteCondition) (ttl : Option Nat) : Except String Request := do
  assertThingDescription c td
  let document ← withTtl c (erase "registration" td) ttl
  let id := match get "id" document with
    | some (.string id) => id
    | id => c.stringOf id
  c.resourceUrl id
  let precondition ← Precondition.of c condition
  pure { id, body := .put document, condition, precondition }

def Request.renew (c : Context) (id : String) (condition : WriteCondition) (ttl : Option Nat) : Except String Request :=
  match c.contract.expiry with
  | .registrationTtl ttlSeconds true =>
    if ∃ t ∈ ttl, t = 0 ∨ t > ttlSeconds then .error "InvalidConfiguration"
    else do
      c.resourceUrl id
      let precondition ← Precondition.of c condition
      pure { id, body := .patch ttl, condition, precondition }
  | _ => .error "UnsupportedDirectory"

def Request.delete (c : Context) (id : String) (condition : WriteCondition) : Except String Request := do
  c.resourceUrl id
  let precondition ← Precondition.of c condition
  pure { id, body := .delete, condition, precondition }

def unexpected : Status → String
  | .preconditionFailed => "DirectoryConflict"
  | .notFound => "UnsupportedDirectory"
  | _ => "DirectoryResponse"

def Request.expect (request : Request) (status : Status) : Except String Unit :=
  match request.body with
  | .put _ =>
    if status ≠ .created ∧ status ≠ .noContent then .error (unexpected status)
    else if (request.condition = .create) ≠ (status = .created) then .error "DirectoryConflict"
    else .ok ()
  | .patch _ => if status = .noContent then .ok () else .error (unexpected status)
  | .delete => if status = .noContent ∨ status = .notFound then .ok () else .error (unexpected status)

-- The store

structure Directory where
  resources : String → Option Resource
  tags : Nat

def Precondition.admits : Precondition → Option Resource → Bool
  | .ifNoneMatch, resource => resource.isNone
  | .ifMatch tag, some (_, current) => tag = current
  | .ifMatch _, none => false
  | .unconditional, _ => true

def Directory.modify (d : Directory) (id : String) (td : Option ThingDescription) : Directory where
  resources := fun other => if other = id then td.map (·, d.tags) else d.resources other
  tags := d.tags + 1

/-- What a request makes of a resource. The Directory adds its own
registration information. -/
def Body.applied (registration : Option Json) : Body → Option Resource → Option (Option ThingDescription) × Status
  | .put document, resource =>
    (some (some (match registration with | some value => set "registration" value document | none => document)),
      if resource.isNone then .created else .noContent)
  | .patch _, some (td, _) =>
    (some (some (match registration with | some value => set "registration" value td | none => td)), .noContent)
  | .patch _, none => (none, .notFound)
  | .delete, some _ => (some none, .noContent)
  | .delete, none => (none, .notFound)

def Directory.process (d : Directory) (registration : Option Json) (request : Request) : Directory × Bool × Status :=
  if request.precondition.admits (d.resources request.id) then
    match request.body.applied registration (d.resources request.id) with
    | (some td, status) => (d.modify request.id td, true, status)
    | (none, status) => (d, false, status)
  else (d, false, .preconditionFailed)

end WotAv.Publication
