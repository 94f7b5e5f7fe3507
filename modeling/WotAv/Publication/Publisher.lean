import WotAv.Lib.Throwing
import WotAv.Lib.Transition
import WotAv.Publication.Directory

/-!
# The publisher (`src/publication/publisher.ts`)

One process of `DirectoryPublisher`, its durable state and the Directory are
one state. The process is cut at its awaits: `Work` says where `reconcile`
stands and `Boot` where `start` does. A request in flight is processed when
its answer arrives, or at any later time, or never; a crash loses the process
and neither the durable state nor the requests in flight.
-/

namespace WotAv.Publication

open WotAv.Lib

-- Publications

structure PublicationThing where
  deviceId : String
  td : ThingDescription
  observedAt : Option Nat
  quarantined : Bool
  deriving DecidableEq

structure PreparedPublication where
  inventoryRevision : Int
  things : List PublicationThing
  deriving DecidableEq

-- The process

inductive Action
  | created
  | updated
  | renewed
  | unchanged
  | stale
  | retired
  | quarantined
  | failed
  | conflict
  deriving DecidableEq, Repr

structure PublicationChange where
  id : String
  action : Action
  code : Option String := none
  deriving DecidableEq, Repr

structure Round where
  publication : PreparedPublication
  changes : List PublicationChange := []
  failures : List String := []
  deriving DecidableEq

structure Plan where
  producer : ThingDescription
  digest : String
  freshUntil : Nat
  retainUntil : Nat
  stale : Bool
  needsContent : Bool
  ttl : Option Nat
  remote : Option DirectoryRecord
  previous : Option ThingDescription
  deriving DecidableEq

inductive Stage
  | getting
  | adopting (remote : DirectoryRecord)
  | intending (plan : Plan)
  | writing (plan : Plan)
  | confirming (plan : Plan)
  | settling (action : Action)
  | deleting
  | retiring
  deriving DecidableEq

inductive Work
  | idle
  | starting (publication : PreparedPublication)
  | publishing (publication : PreparedPublication)
  | looping (round : Round) (ids : List String)
  | thing (round : Round) (id : String) (rest : List String) (now : Nat) (stage : Stage)
  | failing (round : Round) (id : String) (rest : List String) (code : String)
  | finishing (round : Round)
  deriving DecidableEq

inductive Probe
  | listing
  | checking
  | creating
  | reading
  | relisting (current : DirectoryRecord)
  | updating (current : DirectoryRecord) (changed : ThingDescription)
  | rereading (current : DirectoryRecord) (changed : ThingDescription)
  | colliding (current : DirectoryRecord) (changed : ThingDescription)
  | renewing (current : DirectoryRecord) (changed : ThingDescription)
  | rechecking (current : DirectoryRecord) (changed : ThingDescription)
  | deleting (failed : Bool)
  | gone
  deriving DecidableEq

inductive Boot
  | unstarted
  | loading
  | probing (probe : Probe)
  | started
  | failed
  deriving DecidableEq

inductive Origin
  | preflight
  | reconciliation (publication : PreparedPublication)
  deriving DecidableEq

structure Sent where
  ticket : Nat
  request : Request
  origin : Origin
  deriving DecidableEq

inductive Event
  | saved (state : PublicationState)
  | unsaved
  | conflict (id : String)
  | sent (write : Sent)
  | modified (write : Sent) (replaced : Option ThingDescription)
  | crashed
  deriving DecidableEq

structure Publisher where
  directory : Directory
  durable : Option PublicationState
  flying : List Sent := []
  tickets : Nat := 0
  state : Option PublicationState := none
  boot : Boot := .unstarted
  work : Work := .idle
  ticks : Nat := 0
  log : List Event := []

namespace Publisher

abbrev M := Throwing String Publisher

def note (e : Event) (p : Publisher) : Publisher := { p with log := p.log ++ [e] }

def await (work : Work) : M Unit := .modify fun p => { p with work }

def probe (probe : Probe) : M Unit := .modify fun p => { p with boot := .probing probe }

def registration (id : String) (p : Publisher) : Option RegistrationState :=
  p.state.bind fun state => get id state.registrations

def register (id : String) (record : RegistrationState) : M Unit :=
  .modify fun p => { p with state := p.state.map fun state =>
    { state with registrations := set id record state.registrations } }

def persist : M Unit :=
  .modify fun p => { p with state := p.state.map fun state => { state with revision := state.revision + 1 } }

def send (origin : Origin) (request : Request) : M Unit :=
  .modify fun p =>
    let write : Sent := ⟨p.tickets, request, origin⟩
    { p with tickets := p.tickets + 1, flying := p.flying ++ [write], log := p.log ++ [.sent write] }

def reading (c : Context) : M (Option Nat) := do
  let p ← .get
  .modify fun p => { p with ticks := p.ticks + 1 }
  pure (c.clock p.ticks)

-- The preflight

def probeThing (id : String) : ThingDescription :=
  [("@context", .array [.string "https://www.w3.org/2022/wot/td/v1.1"]), ("id", .string id),
    ("title", .string "Owned ONVIF publication preflight"),
    ("securityDefinitions", .object [("none", .object [("scheme", .string "nosec")])]), ("security", .array [.string "none"])]

def probeTtl (c : Context) : Option Nat :=
  match c.contract.expiry with
  | .registrationTtl ttlSeconds _ => some ttlSeconds
  | .bridgeDelete => none

def probeCondition (c : Context) (record : DirectoryRecord) : Except String WriteCondition :=
  if c.contract.ownership = .singleWriter then .ok .singleWriter
  else match record.etag with
    | some tag => .ok (.etag tag)
    | none => .error "InvalidConfiguration"

def registeredTtl (td : ThingDescription) (ttl : Nat) : Bool :=
  match get "registration" td with
  | some (.object registration) => get "ttl" registration = some (.number ttl)
  | _ => false

/-- The `finally` part of `preflight`: the probe is deleted if it was created. -/
def cleanup (c : Context) (id : String) (current : Option DirectoryRecord) (failed : Bool) : M Unit :=
  if current.isSome ∨ c.contract.ownership = .singleWriter then do
    let condition ← .lift (match current with | some record => probeCondition c record | none => .ok .singleWriter)
    let request ← .lift (Request.delete c id condition)
    send .preflight request
    probe (.deleting failed)
  else .throw "PreflightFailed"

def probeRenew (c : Context) (id : String) (current : DirectoryRecord) (changed : ThingDescription) : M Unit :=
  match c.contract.expiry with
  | .registrationTtl _ true => do
    let condition ← .lift (probeCondition c current)
    let request ← .lift (Request.renew c id condition none)
    send .preflight request
    probe (.renewing current changed)
  | _ => cleanup c id (some current) false

def renewedProbe (c : Context) (before current : DirectoryRecord) (changed : ThingDescription) : Except String Bool := do
  let same ← matchesProducer current.td changed
  pure (match get "registration" current.td, probeTtl c, current.expiresAt with
    | some (.object registration), some ttl, some expiresAt =>
      let retrieved := match get "retrieved" registration with
        | some (.string value) => c.parseDate value
        | _ => none
      same && registeredTtl current.td ttl && before.expiresAt.all (· ≤ expiresAt) &&
        (before.etag.isNone || current.etag ≠ before.etag) &&
        retrieved.all (fun retrieved => retrieved + ttl * 1000 - 1000 ≤ expiresAt) &&
        (before.etag.isSome || current.expiresAt ≠ before.expiresAt)
    | _, _, _ => false)

/-- A part of the `try` of `preflight`: its failure leads to the cleanup of
what it has last retrieved. -/
def guarded (c : Context) (id : String) (current : Option DirectoryRecord) (m : M Unit) : M Unit := fun p =>
  match m p with
  | (.ok (), p') => (.ok (), p')
  | (.error _, p') => cleanup c id current true p'

/-- What the answer to a GET leads to in `preflight`. -/
def probeGot (c : Context) (id : String) (stage : Probe) (answer : Except String (Option DirectoryRecord)) : M Unit :=
  match stage with
  | .checking => do
    match ← .lift answer with
    | some _ => .throw "DirectoryConflict"
    | none =>
      let request ← .lift (Request.put c (probeThing id) .create (probeTtl c))
      send .preflight request
      probe .creating
  | .reading => match answer with
    | .ok (some current) => guarded c id (some current) do
      let same ← .lift (matchesProducer current.td (assign current.td (probeThing id)))
      if ¬same then .throw "InvalidDirectoryResponse"
      else if ∃ ttl ∈ probeTtl c, current.expiresAt = none ∨ ¬registeredTtl current.td ttl then .throw "UnsupportedDirectory"
      else probe (.relisting current)
    | _ => cleanup c id none true
  | .rereading before changed => match answer with
    | .ok (some current) => guarded c id (some current) do
      let same ← .lift (matchesProducer current.td changed)
      if ¬same then .throw "UnsupportedDirectory"
      else match c.contract.ownership, before.etag with
        | .etag, some stale =>
          let request ← .lift (Request.put c (probeThing id) (.etag stale) (probeTtl c))
          send .preflight request
          probe (.colliding current changed)
        | _, _ => probeRenew c id current changed
    | .ok none => cleanup c id none true
    | .error _ => cleanup c id (some before) true
  | .rechecking before changed => match answer with
    | .ok (some current) => guarded c id (some current) do
      let renewed ← .lift (renewedProbe c before current changed)
      if renewed then cleanup c id (some current) false else .throw "UnsupportedDirectory"
    | .ok none => cleanup c id none true
    | .error _ => cleanup c id (some before) true
  | .gone => do
    match ← .lift answer with
    | some _ => .throw "UnsupportedDirectory"
    | none => .modify fun p => { p with boot := .started }
  | _ => pure ()

def probeListed (c : Context) (id : String) (stage : Probe) (answer : Except String Bool) : M Unit :=
  match stage with
  | .relisting current => guarded c id (some current) do
    let listed ← .lift answer
    if ¬listed then .throw "UnsupportedDirectory"
    else
      let changed := set "title" (.string "Owned ONVIF publication preflight update") current.td
      let condition ← .lift (probeCondition c current)
      let request ← .lift (Request.put c changed condition (probeTtl c))
      send .preflight request
      probe (.updating current changed)
  | _ => pure ()

/-- What the outcome of a write leads to in `preflight`. -/
def probeWrote (c : Context) (id : String) (stage : Probe) (outcome : Except String Unit) : M Unit :=
  match stage with
  | .creating => do
    .lift outcome
    probe .reading
  | .updating current changed => match outcome with
    | .ok () => probe (.rereading current changed)
    | .error _ => cleanup c id (some current) true
  | .colliding current changed => match outcome with
    | .error "DirectoryConflict" => guarded c id (some current) (probeRenew c id current changed)
    | _ => cleanup c id (some current) true
  | .renewing current changed => match outcome with
    | .ok () => probe (.rechecking current changed)
    | .error _ => cleanup c id (some current) true
  | .deleting failed => do
    .lift outcome
    if failed then .throw "PreflightFailed" else probe .gone
  | _ => pure ()

/-- A failure of `start` is that of its promise. -/
def booting (m : M Unit) (p : Publisher) : Publisher :=
  match m p with
  | (.ok _, p) => p
  | (.error _, p) => { p with boot := .failed }

-- One registration

def thingId (c : Context) (thing : PublicationThing) : String :=
  match get "id" thing.td with
  | some (.string id) => id
  | id => c.stringOf id

def candidate (c : Context) (publication : PreparedPublication) (id : String) : Option PublicationThing :=
  publication.things.reverse.find? (thingId c · = id)

/-- The discovery summary of a device, as `deviceSummaries` has it. -/
def summary (publication : PreparedPublication) (deviceId : String) : Option Json :=
  (publication.things.reverse.find? (·.deviceId = deviceId)).bind fun thing => get "onvif:discovery" thing.td

def condition (c : Context) (record : DirectoryRecord) : Except String WriteCondition :=
  if c.contract.ownership = .singleWriter then .ok .singleWriter
  else match record.etag with
    | some tag => .ok (.etag tag)
    | none => .error "UnsupportedDirectory"

def assertOwned (remote : DirectoryRecord) (previous : Option RegistrationState) : Except String Unit :=
  match previous with
  | none => .error "DirectoryConflict"
  | some previous => do
    if ← matchesProducer remote.td previous.producer then pure ()
    else match previous.intent with
      | none => .error "DirectoryConflict"
      | some intent => if ← matchesProducer remote.td intent.producer then pure () else .error "DirectoryConflict"

def badExpiry (c : Context) (remote : DirectoryRecord) (retainUntil now : Nat) : Bool :=
  match c.contract.expiry with
  | .registrationTtl _ _ => remote.expiresAt.all fun expiresAt : Int => expiresAt > retainUntil + 1000 || expiresAt ≤ now
  | .bridgeDelete => false

def observed (remote : DirectoryRecord) (record : RegistrationState) : RegistrationState :=
  { record with etag := remote.etag <|> record.etag, expiresAt := remote.expiresAt <|> record.expiresAt }

def adopted (now : Nat) (remote : DirectoryRecord) (intent : Intent) (previous : RegistrationState) : RegistrationState :=
  observed remote { previous with
    producer := intent.producer, digest := intent.digest, freshUntil := intent.freshUntil, retainUntil := intent.retainUntil
    publishedAt := intent.at_, intent := none, failure := none
    status := if now < intent.freshUntil then .active else .stale }

def changed (round : Round) (id : String) (action : Action) (code : Option String := none) : Round :=
  { round with changes := round.changes ++ [⟨id, action, code⟩] }

/-- The intent of `reconcileThing` as a document. -/
def versioned (c : Context) (native : ThingDescription) (currentSummary : Option Json) (stale : Bool)
    (freshUntil retainUntil : Nat) (observedAt : Option Nat) : ThingDescription :=
  let td := match stale, currentSummary with
    | true, some value => set "onvif:discovery" value native
    | _, _ => native
  let lastConfirmedAt : ℚ := match observedAt with
    | some observedAt => observedAt
    | none => freshUntil - c.freshMs
  versionedThing c.sha256 c.stringOf (set "onvif:publication" (.object
    [("state", .string (if stale then "stale" else "current")), ("freshUntil", .number freshUntil),
      ("retainUntil", .number retainUntil), ("lastConfirmedAt", .number lastConfirmedAt),
      ("semantics", .string (if stale then "Last-known native Forms, not a fresh observation or absence claim."
        else "Inspection freshness is separate from registration liveness."))]) td)

def present : Option Json → Option Json
  | some .null => none
  | value => value

section
variable (c : Context) (round : Round) (id : String) (rest : List String) (now : Nat)

/-- `reconcileThing`, up to the first GET. -/
def reconcileThing : M Unit := do
  match ← reading c with
  | none => .throw "InvalidConfiguration"
  | some now =>
    if ∃ thing ∈ candidate c round.publication id, ∃ observedAt ∈ thing.observedAt, observedAt > now then
      .throw "InvalidSnapshot"
    else
      .lift (c.resourceUrl id)
      await (.thing round id rest now .getting)

/-- The end of `reconcileThing` without a further await. -/
def conclude (action : Action) (code : Option String := none) : M Unit := await (.looping (changed round id action code) rest)

def retire (remote : Option DirectoryRecord) : M Unit := do
  let p ← .get
  match remote, p.registration id with
  | some remote, previous =>
    .lift (assertOwned remote previous)
    let condition ← .lift (condition c remote)
    let request ← .lift (Request.delete c id condition)
    send (.reconciliation round.publication) request
    await (.thing round id rest now .deleting)
  | none, some previous =>
    register id { previous with status := .retired, failure := none, intent := none }
    persist
    await (.thing round id rest now .retiring)
  | none, none => conclude round id rest .retired

/-- `retire`, its DELETE done. -/
def deleted : M Unit := do
  let p ← .get
  match p.registration id with
  | some previous =>
    register id { previous with status := .retired, failure := none, intent := none }
    persist
    await (.thing round id rest now .retiring)
  | none => conclude round id rest .retired

def pending (plan : Plan) : RegistrationState :=
  { deviceId := ((candidate c round.publication id).map (·.deviceId)).getD "", producer := plan.producer
    digest := plan.digest, publishedAt := 0, freshUntil := plan.freshUntil, retainUntil := plan.retainUntil
    status := .pending }

def intend (plan : Plan) : M Unit := do
  let p ← .get
  let record := (p.registration id).getD (pending c round id plan)
  let intent : Intent :=
    { producer := plan.producer, digest := plan.digest, at_ := now, freshUntil := plan.freshUntil
      retainUntil := plan.retainUntil }
  register id { record with intent := some intent }
  persist
  await (.thing round id rest now (.intending plan))

def needsRenewal (remote : Option DirectoryRecord) : Bool :=
  match remote, c.contract.expiry with
  | some remote, .registrationTtl _ _ => remote.expiresAt.all fun expiresAt : Int => expiresAt ≤ now + c.renewBeforeMs
  | _, _ => false

def needsContent (hash : String) (remote : Option DirectoryRecord) (previous : Option RegistrationState) : Bool :=
  match remote, previous with
  | some _, some previous => hash ≠ previous.digest || previous.status = .pending || previous.status = .retired
  | _, _ => true

def unchanged (stale : Bool) (remote : Option DirectoryRecord) : M Unit := do
  let p ← .get
  match remote, p.registration id with
  | some remote, some previous =>
    register id (observed remote { previous with status := if stale then .stale else .active, failure := none })
    conclude round id rest (if stale then .stale else .unchanged)
  | _, _ => conclude round id rest (if stale then .stale else .unchanged)

def lifetime (retainUntil : Nat) : Option Nat :=
  match c.contract.expiry with
  | .registrationTtl ttlSeconds _ => some (min ttlSeconds ((retainUntil - now) / 1000))
  | .bridgeDelete => none

def revise (native : ThingDescription) (observedAt : Option Nat) (freshUntil retainUntil : Nat)
    (remote : Option DirectoryRecord) (previous : Option RegistrationState) : M Unit := do
  let candidate := candidate c round.publication id
  let stale := observedAt.isNone || now ≥ freshUntil
  let currentSummary := present (candidate.bind fun thing => get "onvif:discovery" thing.td) <|>
    previous.bind fun previous => summary round.publication previous.deviceId
  let producer := versioned c native currentSummary stale freshUntil retainUntil observedAt
  let digest ← .lift (producerDigest c.sha256 producer)
  let ttl := lifetime c now retainUntil
  let needsContent := needsContent digest remote previous
  if ttl = some 0 then
    match previous, remote.bind (·.expiresAt) with
    | some previous, some expiresAt =>
      if retainUntil ≤ expiresAt ∧ expiresAt ≤ retainUntil + 1000 then
        register id { previous with status := if stale then .stale else .active }
        conclude round id rest (if stale then .stale else .unchanged)
      else .throw "UnsupportedDirectory"
    | _, _ => .throw "UnsupportedDirectory"
  else if ¬needsContent ∧ ¬needsRenewal c now remote then unchanged round id rest stale remote
  else
    let plan : Plan :=
      { producer, digest, freshUntil, retainUntil, stale, needsContent, ttl, remote, previous := previous.map (·.producer) }
    intend c round id rest now plan

/-- `freshUntil` and `retainUntil`. -/
def lease (observedAt : Option Nat) (previous : Option RegistrationState) : Nat × Nat :=
  match observedAt with
  | some observedAt => (observedAt + c.freshMs, observedAt + c.freshMs + c.graceMs)
  | none => ((previous.map (·.freshUntil)).getD 0, (previous.map (·.retainUntil)).getD 0)

/-- The current producer TD, or the retained one. -/
def nativeThing (candidate : Option PublicationThing) (previous : Option RegistrationState) : Option ThingDescription :=
  if (candidate.bind (·.observedAt)).isSome then candidate.map (·.td)
  else previous.map (·.producer) <|> candidate.map (·.td)

/-- `reconcileThing` from the remote registration, an intent adopted. -/
def proceed (remote : Option DirectoryRecord) : M Unit := do
  let p ← .get
  let previous := p.registration id
  let candidate := candidate c round.publication id
  let observedAt := candidate.bind (·.observedAt)
  let (freshUntil, retainUntil) := lease c observedAt previous
  if previous.isNone ∧ observedAt.isNone then conclude round id rest .stale "NoConfirmedNativeObservation"
  else if now ≥ retainUntil ∨ candidate.isNone ∧ previous.isNone then retire c round id rest now remote
  else match nativeThing candidate previous with
    | none => .throw "InvalidPublicationState"
    | some native => revise c round id rest now native observedAt freshUntil retainUntil remote previous

/-- `reconcileThing` from the answer to its first GET. -/
def got (remote : Option DirectoryRecord) : M Unit := do
  let p ← .get
  match remote, p.registration id with
  | none, _ => proceed c round id rest now none
  | some remote, previous =>
    .lift (assertOwned remote previous)
    match previous, previous.bind (·.intent) with
    | some previous, some intent =>
      if ← .lift (matchesProducer remote.td intent.producer) then
        if badExpiry c remote intent.retainUntil now then .throw "UnsupportedDirectory"
        else
          register id (adopted now remote intent previous)
          persist
          await (.thing round id rest now (.adopting remote))
      else proceed c round id rest now (some remote)
    | _, _ => proceed c round id rest now (some remote)

def writeCondition (remote : Option DirectoryRecord) : Except String WriteCondition :=
  match remote with
  | some remote => condition c remote
  | none => .ok .create

def putPlan (plan : Plan) : Except String Request := do
  let document ← mergeProducer (plan.remote.map (·.td)) plan.previous plan.producer
  let condition ← writeCondition c plan.remote
  Request.put c document condition plan.ttl

def planned (plan : Plan) : Except String Request :=
  match plan.needsContent, c.contract.expiry, plan.remote with
  | false, .registrationTtl _ true, some remote => do
    let condition ← condition c remote
    Request.renew c id condition plan.ttl
  | _, _, _ => putPlan c plan

def write (plan : Plan) : M Unit := do
  let request ← .lift (planned c id plan)
  send (.reconciliation round.publication) request
  await (.thing round id rest now (.writing plan))

def confirmed (plan : Plan) (remote : DirectoryRecord) (record : RegistrationState) : RegistrationState :=
  observed remote { record with
    producer := plan.producer, digest := plan.digest, publishedAt := now, freshUntil := plan.freshUntil
    retainUntil := plan.retainUntil, status := if plan.stale then .stale else .active, intent := none, failure := none }

/-- `reconcileThing` from the answer to its second GET. -/
def confirm (plan : Plan) (remote : Option DirectoryRecord) : M Unit := do
  match remote with
  | none => .throw "DirectoryConflict"
  | some remote =>
    if ¬(← .lift (matchesProducer remote.td plan.producer)) then .throw "DirectoryConflict"
    else if badExpiry c remote plan.retainUntil now then .throw "UnsupportedDirectory"
    else
      let p ← .get
      match p.registration id with
      | some record => register id (confirmed now plan remote record)
      | none => pure ()
      persist
      await (.thing round id rest now (.settling
        (if plan.remote.isNone then .created else if plan.stale then .stale else if plan.needsContent then .updated
          else .renewed)))

end

-- A reconciliation

def conflicting (code : String) : Bool := code = "DirectoryConflict" || code = "PublicationConflict"

def failedRound (round : Round) (id code : String) : Round :=
  { changed round id (if conflicting code then .conflict else .failed) code with failures := round.failures ++ [code] }

def failing (code : String) (at_ : Option Nat) (record : RegistrationState) : RegistrationState :=
  { record with failure := some (code, at_), status := if conflicting code then .conflict else record.status }

/-- The catch clause of `reconcileOwned`, up to its save. -/
def caught (c : Context) (round : Round) (id : String) (rest : List String) (code : String) (p : Publisher) : Publisher :=
  match p.registration id with
  | some record => ((do
      let at_ ← reading c
      register id (failing code at_ record)
      if conflicting code then .modify (note (.conflict id)) else pure ()
      persist
      await (.failing round id rest code) : M Unit) p).2
  | none => { p with work := .looping (failedRound round id code) rest }

def attempting (c : Context) (round : Round) (id : String) (rest : List String) (m : M Unit) (p : Publisher) : Publisher :=
  match m p with
  | (.ok _, p) => p
  | (.error code, p) => caught c round id rest code p

/-- `reconcileOwned` from the start to the publication of the models. -/
def accept (publication : PreparedPublication) (p : Publisher) : Publisher :=
  match p.state with
  | none => { p with work := .idle }
  | some state =>
    if publication.inventoryRevision < state.inventoryRevision ∨ ¬(publication.things.map fun thing => get "id" thing.td).Nodup ∨
        publication.things.length > 20000 then { p with work := .idle }
    else { p with work := .publishing publication }

def ids (c : Context) (publication : PreparedPublication) (state : PublicationState) : List String :=
  (publication.things.map (thingId c) ++ state.registrations.map (·.1)).dedup.insertionSort fun a b => keyLe a b

def quarantined (c : Context) (publication : PreparedPublication) (id : String) (p : Publisher) : Bool :=
  (candidate c publication id).any (·.quarantined) || (p.registration id).any (·.status = .conflict)

def settled (c : Context) (publication : PreparedPublication) (id : String) (p : Publisher) : Bool :=
  (candidate c publication id).isNone && (p.registration id).all (·.status = .retired)

/-- The head of the loop of `reconcileOwned`. -/
def loop (c : Context) (round : Round) (p : Publisher) : List String → Publisher
  | [] => ((do
      .modify fun p => { p with state := p.state.map fun state =>
        { state with inventoryRevision := round.publication.inventoryRevision } }
      persist
      await (.finishing round) : M Unit) p).2
  | id :: rest =>
    if quarantined c round.publication id p then
      { p with work := .looping (changed round id .quarantined "IdentityOrPublicationConflict") rest }
    else if settled c round.publication id p then { p with work := .looping round rest }
    else attempting c round id rest (reconcileThing c round id rest) p

-- Steps

def validateRevision (c : Context) (id : String) (producer : ThingDescription) (digest : String) : Bool :=
  (assertThingDescription c producer).toBool && get "id" producer = some (.string id) &&
    producerDigest c.sha256 producer = .ok digest

def validateIntent (c : Context) (id : String) (intent : Intent) : Bool :=
  validateRevision c id intent.producer intent.digest && safe intent.at_ && safe intent.freshUntil && safe intent.retainUntil

def validateRegistration (c : Context) (id : String) (record : RegistrationState) : Bool :=
  validateRevision c id record.producer record.digest &&
    safe record.publishedAt && safe record.freshUntil && safe record.retainUntil &&
    record.expiresAt.all (fun expiresAt : Int => 0 ≤ expiresAt && expiresAt ≤ MAX_SAFE_INTEGER) &&
    record.failure.all (fun failure => failure.2.any safe) && record.intent.all (validateIntent c id)

def validateState (c : Context) (state : PublicationState) : Bool :=
  c.assertJson state && state.owner = c.owner && safe state.revision &&
    (-1 ≤ state.inventoryRevision && state.inventoryRevision ≤ (MAX_SAFE_INTEGER : Int)) &&
    state.registrations.length ≤ 20000 && state.registrations.all fun (id, record) => validateRegistration c id record

inductive Input
  | reconcile (publication : PreparedPublication)
  | turn
  | loaded (result : Except String Unit)
  | listed (result : Except String Bool)
  | got (result : Except String Unit)
  /-- The request is processed and answered, or given up. -/
  | answered (result : Except String (Option Json))
  | published (result : Except String Unit)
  /-- A save that fails may have stored the state nevertheless. -/
  | saved (result : Except String Unit) (stored : Bool)
  | processed (ticket : Nat) (registration : Option Json)
  | other (id : String) (td : Option ThingDescription)
  | crash

def process (write : Sent) (registration : Option Json) (p : Publisher) : Publisher :=
  let (directory, modified, _) := p.directory.process registration write.request
  { p with
    directory, flying := p.flying.filter (·.ticket ≠ write.ticket)
    log := if modified then p.log ++ [.modified write ((p.directory.resources write.request.id).map (·.1))] else p.log }

def outcome (write : Sent) (registration : Option Json) (p : Publisher) : Except String Unit :=
  write.request.expect (p.directory.process registration write.request).2.2

def wrote (c : Context) (outcome : Except String Unit) (p : Publisher) : Publisher :=
  match p.boot, c.contract.verification, p.work with
  | .probing stage, .ownedRoundtrip id, _ => booting (probeWrote c id stage outcome) p
  | _, _, .thing round id rest now (.writing plan) =>
    attempting c round id rest (do .lift outcome; await (.thing round id rest now (.confirming plan))) p
  | _, _, .thing round id rest now .deleting => attempting c round id rest (do .lift outcome; deleted round id rest now) p
  | _, _, _ => p

def awaitsWrite (p : Publisher) : Bool :=
  match p.boot, p.work with
  | .probing (.creating), _ | .probing (.updating ..), _ | .probing (.colliding ..), _ | .probing (.renewing ..), _ |
    .probing (.deleting _), _ | .started, .thing _ _ _ _ (.writing _) | .started, .thing _ _ _ _ .deleting => true
  | _, _ => false

def answered (c : Context) (result : Except String (Option Json)) (p : Publisher) : Publisher :=
  if ¬p.awaitsWrite then p
  else match result with
    | .error code => wrote c (.error code) p
    | .ok registration => match p.flying.find? fun write => write.ticket + 1 = p.tickets with
      | some write => wrote c (outcome write registration p) (process write registration p)
      | none => p

def retrieved (c : Context) (result : Except String Unit) (p : Publisher) (id : String) : Except String (Option DirectoryRecord) :=
  match result with
  | .ok () => DirectoryRecord.read c id (p.directory.resources id)
  | .error code => .error code

def gotAnswer (c : Context) (result : Except String Unit) (p : Publisher) : Publisher :=
  match p.boot, c.contract.verification, p.work with
  | .probing stage, .ownedRoundtrip id, _ => booting (probeGot c id stage (retrieved c result p id)) p
  | _, _, .thing round id rest now .getting =>
    attempting c round id rest (do let remote ← .lift (retrieved c result p id); got c round id rest now remote) p
  | _, _, .thing round id rest now (.confirming plan) =>
    attempting c round id rest (do let remote ← .lift (retrieved c result p id); confirm c round id rest now plan remote) p
  | _, _, _ => p

def listed (c : Context) (result : Except String Bool) (p : Publisher) : Publisher :=
  match p.boot, c.contract.verification with
  | .probing .listing, .attested => { p with boot := if result.toBool then .started else .failed }
  | .probing .listing, .ownedRoundtrip id => booting (do
      let _ ← .lift result
      .lift (c.resourceUrl id)
      probe .checking) p
  | .probing stage, .ownedRoundtrip id => booting (probeListed c id stage result) p
  | _, _ => p

def emptyState (c : Context) : PublicationState :=
  { owner := c.owner, revision := 0, inventoryRevision := -1, registrations := [] }

def loaded (c : Context) (result : Except String Unit) (p : Publisher) : Publisher :=
  match p.boot, p.state, result with
  | .loading, none, .ok () =>
    if validateState c (p.durable.getD (emptyState c)) then
      { p with state := some (p.durable.getD (emptyState c)), boot := .probing .listing }
    else { p with boot := .failed }
  | .loading, none, .error _ => { p with boot := .failed }
  | _, _, _ => p

def store (stored : Bool) (p : Publisher) : Publisher :=
  match stored, p.state with
  | true, some state => { p with durable := some state, log := p.log ++ [.saved state] }
  | _, _ => p.note .unsaved

def persisted (c : Context) (result : Except String Unit) (p : Publisher) : Publisher :=
  match p.work, result with
  | .thing round id rest _ _, .error code => caught c round id rest code p
  | .thing round id rest now (.adopting remote), .ok () => attempting c round id rest (proceed c round id rest now (some remote)) p
  | .thing round id rest now (.intending plan), .ok () => attempting c round id rest (write c round id rest now plan) p
  | .thing round id rest _ (.settling action), .ok () => { p with work := .looping (changed round id action) rest }
  | .thing round id rest _ _, .ok () => { p with work := .looping (changed round id .retired) rest }
  | .failing round id rest code, .ok () => { p with work := .looping (failedRound round id code) rest }
  | .failing _ _ _ _, .error _ => { p with work := .idle }
  | .finishing _, _ => { p with work := .idle }
  | _, _ => p

def awaitsSave : Work → Bool
  | .thing _ _ _ _ (.adopting _) | .thing _ _ _ _ (.intending _) | .thing _ _ _ _ (.settling _) |
    .thing _ _ _ _ .retiring | .failing _ _ _ _ | .finishing _ => true
  | _ => false

def saved (c : Context) (result : Except String Unit) (stored : Bool) (p : Publisher) : Publisher :=
  if ¬awaitsSave p.work then p
  else if p.state.all (validateState c) then persisted c result (store (result.toBool || stored) p)
  else persisted c (.error "InvalidPublicationState") (store false p)

def turn (c : Context) (p : Publisher) : Publisher :=
  match p.work, p.boot with
  | .starting publication, .started => accept publication p
  | .starting _, .failed => { p with work := .idle }
  | .looping round ids, _ => loop c round p ids
  | _, _ => p

def step (c : Context) (p : Publisher) : Input → Publisher
  | .reconcile publication => match p.work with
    | .idle => { p with work := .starting publication, boot := if p.boot = .unstarted then .loading else p.boot }
    | _ => p
  | .turn => turn c p
  | .loaded result => loaded c result p
  | .listed result => listed c result p
  | .got result => gotAnswer c result p
  | .answered result => answered c result p
  | .published result => match p.work, result with
    | .publishing publication, .ok () =>
      { p with work := .looping { publication } ((p.state.map (ids c publication)).getD []) }
    | .publishing _, .error _ => { p with work := .idle }
    | _, _ => p
  | .saved result stored => saved c result stored p
  | .processed ticket registration => match p.flying.find? (·.ticket = ticket) with
    | some write => process write registration p
    | none => p
  | .other id td => { p with directory := p.directory.modify id td }
  | .crash => { p with state := none, boot := .unstarted, work := .idle, log := p.log ++ [.crashed] }

/-- Before a process: any durable state, and any Directory. -/
structure Initial (p : Publisher) : Prop where
  tags : ∀ id td tag, p.directory.resources id = some (td, tag) → tag < p.directory.tags
  fresh : p = { directory := p.directory, durable := p.durable, log := p.durable.toList.map .saved }

def system (c : Context) : System Publisher Input := .ofFun Initial (step c)

end Publisher

end WotAv.Publication
