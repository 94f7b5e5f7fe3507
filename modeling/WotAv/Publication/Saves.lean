import WotAv.Publication.Foreign

/-!
# Saves that are not refused

Each part of a reconciliation makes of a state that passes the checks of the
store another one that does, as long as the clock, the documents and the expiry
dates of the Directory leave room for what is derived from them.
-/

namespace WotAv.Publication.Publisher

open WotAv.Lib Throwing

-- The checks of the store

structure Promised (c : Context) (id : String) (intent : Intent) : Prop where
  revision : validateRevision c id intent.producer intent.digest = true
  at_ : intent.at_ ≤ MAX_SAFE_INTEGER
  freshUntil : intent.freshUntil ≤ MAX_SAFE_INTEGER
  retainUntil : intent.retainUntil ≤ MAX_SAFE_INTEGER

structure Registered (c : Context) (id : String) (record : RegistrationState) : Prop where
  revision : validateRevision c id record.producer record.digest = true
  publishedAt : record.publishedAt ≤ MAX_SAFE_INTEGER
  freshUntil : record.freshUntil ≤ MAX_SAFE_INTEGER
  retainUntil : record.retainUntil ≤ MAX_SAFE_INTEGER
  expiresAt : ∀ expiresAt, record.expiresAt = some expiresAt → 0 ≤ expiresAt ∧ expiresAt ≤ MAX_SAFE_INTEGER
  failure : ∀ failure, record.failure = some failure → ∃ at_, failure.2 = some at_ ∧ at_ ≤ MAX_SAFE_INTEGER
  intent : ∀ intent, record.intent = some intent → Promised c id intent

/-- What `validateState` checks but for `assertJson`. -/
structure Valid (c : Context) (state : PublicationState) : Prop where
  owner : state.owner = c.owner
  revision : state.revision ≤ MAX_SAFE_INTEGER
  inventory : -1 ≤ state.inventoryRevision ∧ state.inventoryRevision ≤ MAX_SAFE_INTEGER
  few : state.registrations.length ≤ 20000
  registrations : ∀ member ∈ state.registrations, Registered c member.1 member.2

variable {c : Context} {p : Publisher} {publication : PreparedPublication} {round : Round} {id : String} {rest : List String}
  {now : Nat} {record : RegistrationState} {memory : PublicationState} {remote : DirectoryRecord} {plan : Plan}

theorem promised_iff {intent : Intent} : validateIntent c id intent = true ↔ Promised c id intent := by
  constructor
  · intro h
    simp only [validateIntent, safe, Bool.and_eq_true, decide_eq_true_eq] at h
    exact ⟨h.1.1.1, h.1.1.2, h.1.2, h.2⟩
  · intro h
    simp only [validateIntent, safe, Bool.and_eq_true, decide_eq_true_eq]
    exact ⟨⟨⟨h.revision, h.at_⟩, h.freshUntil⟩, h.retainUntil⟩

theorem registered_iff {record : RegistrationState} : validateRegistration c id record = true ↔
    Registered c id record := by
  have hexpires : (record.expiresAt.all fun expiresAt : Int => 0 ≤ expiresAt && expiresAt ≤ MAX_SAFE_INTEGER) = true ↔
      ∀ expiresAt, record.expiresAt = some expiresAt → 0 ≤ expiresAt ∧ expiresAt ≤ MAX_SAFE_INTEGER := by
    cases record.expiresAt <;> simp
  have hfailure : (record.failure.all fun failure => failure.2.any safe) = true ↔
      ∀ failure, record.failure = some failure → ∃ at_, failure.2 = some at_ ∧ at_ ≤ MAX_SAFE_INTEGER := by
    cases record.failure with
    | none => simp
    | some failure => cases h : failure.2 <;> simp [safe, h]
  have hintent : record.intent.all (validateIntent c id) = true ↔
      ∀ intent, record.intent = some intent → Promised c id intent := by
    cases record.intent <;> simp [promised_iff]
  unfold validateRegistration
  simp only [Bool.and_eq_true, hexpires, hfailure, hintent, safe, decide_eq_true_eq]
  constructor
  · exact fun h => ⟨h.1.1.1.1.1.1, h.1.1.1.1.1.2, h.1.1.1.1.2, h.1.1.1.2, h.1.1.2, h.1.2, h.2⟩
  · exact fun h => ⟨⟨⟨⟨⟨⟨h.revision, h.publishedAt⟩, h.freshUntil⟩, h.retainUntil⟩, h.expiresAt⟩, h.failure⟩, h.intent⟩

theorem validateState_iff {state : PublicationState} :
    validateState c state = true ↔ c.assertJson state = true ∧ Valid c state := by
  unfold validateState
  simp only [Bool.and_eq_true, List.all_eq_true, registered_iff, safe, decide_eq_true_eq]
  constructor
  · exact fun h => ⟨h.1.1.1.1.1, h.1.1.1.1.2, h.1.1.1.2, h.1.1.2, h.1.2, h.2⟩
  · exact fun h => ⟨⟨⟨⟨⟨h.1, h.2.owner⟩, h.2.revision⟩, h.2.inventory⟩, h.2.few⟩, h.2.registrations⟩

theorem Valid.registered (h : Valid c memory) (hr : get id memory.registrations = some record) :
    Registered c id record := by
  unfold get at hr
  obtain ⟨⟨key, value⟩, hfind, rfl⟩ := Option.map_eq_some_iff.mp hr
  have hkey : key = id := by simpa using List.find?_some hfind
  exact hkey ▸ h.registrations _ (List.mem_of_find?_eq_some hfind)

def Roomy (id : String) (memory : PublicationState) : Prop :=
  has id memory.registrations = true ∨ memory.registrations.length < 20000

theorem Valid.recorded (h : Valid c memory) (hr : Registered c id record) (hroom : Roomy id memory)
    {revisions : Nat}
    (hrevision : memory.revision + revisions ≤ MAX_SAFE_INTEGER) :
    Valid c (recorded id record revisions memory) where
  owner := h.owner
  revision := hrevision
  inventory := h.inventory
  few := by
    unfold Publisher.recorded set
    dsimp only
    split
    · rw [List.length_map]
      exact h.few
    · rename_i hhas
      rw [List.length_append]
      exact hroom.resolve_left hhas
  registrations member hm := by
    unfold Publisher.recorded set at hm
    dsimp only at hm
    split at hm
    · obtain ⟨old, hold, rfl⟩ := List.mem_map.mp hm
      split
      · exact hr
      · exact h.registrations old hold
    · rcases List.mem_append.mp hm with hm | hm
      · exact h.registrations member hm
      · rw [List.mem_singleton.mp hm]
        exact hr

-- What is recorded

/-- The clock leaves room for the leases, `Date.parse` gives a time value, and
what a publisher adds to a Thing Description leaves it one. -/
structure Steady (c : Context) : Prop where
  clock : ∀ tick, ∃ now, c.clock tick = some now ∧ now + c.freshMs + c.graceMs ≤ MAX_SAFE_INTEGER
  instant : ∀ text instant, c.instant text = some instant → instant ≤ 8640000000000000
  versioned : ∀ native currentSummary stale freshUntil retainUntil observedAt, assertThingDescription c native = .ok () →
    assertThingDescription c (versioned c native currentSummary stale freshUntil retainUntil observedAt) = .ok ()

def Dated (c : Context) (remote : DirectoryRecord) : Prop := ∀ expiresAt, remote.expiresAt = some expiresAt →
  expiresAt ≤ MAX_SAFE_INTEGER ∧ (c.contract.expiry = .bridgeDelete → 0 ≤ expiresAt)

def Lasting (remote : DirectoryRecord) : Prop := ∀ expiresAt, remote.expiresAt = some expiresAt →
  0 ≤ expiresAt ∧ expiresAt ≤ MAX_SAFE_INTEGER

theorem Dated.of_badExpiry (h : Dated c remote) {retainUntil : Nat}
    (hb : badExpiry c remote retainUntil now = false) :
    Lasting remote := by
  intro expiresAt he
  refine ⟨?_, (h expiresAt he).1⟩
  unfold badExpiry at hb
  split at hb
  · simp only [he, Option.all_some, Bool.or_eq_false_iff, decide_eq_false_iff_not, not_lt, not_le] at hb
    omega
  · rename_i hmode
    exact (h expiresAt he).2 hmode

theorem Dated.of_needsRenewal (h : Dated c remote) (hn : needsRenewal c now (some remote) = false) :
    Lasting remote := by
  intro expiresAt he
  refine ⟨?_, (h expiresAt he).1⟩
  cases hmode : c.contract.expiry with
  | bridgeDelete => exact (h expiresAt he).2 hmode
  | registrationTtl ttlSeconds patch =>
    simp only [needsRenewal, hmode, he, Option.all_some, decide_eq_false_iff_not, not_le] at hn
    omega

theorem Registered.observed (h : Registered c id record) (he : Lasting remote) :
    Registered c id (observed remote record) where
  revision := h.revision
  publishedAt := h.publishedAt
  freshUntil := h.freshUntil
  retainUntil := h.retainUntil
  expiresAt expiresAt hk := by
    unfold Publisher.observed at hk
    dsimp only at hk
    cases hr : remote.expiresAt with
    | none => exact h.expiresAt expiresAt (by simpa [hr] using hk)
    | some value => exact he expiresAt (by simpa [hr] using hk)
  failure := h.failure
  intent := h.intent

theorem Registered.adopted (h : Registered c id record) {intent : Intent} (hi : record.intent = some intent)
    (he : Lasting remote) : Registered c id (adopted now remote intent record) := by
  have hp := h.intent intent hi
  exact Registered.observed ⟨hp.revision, hp.at_, hp.freshUntil, hp.retainUntil, h.expiresAt,
    fun _ hf => (nomatch hf), fun _ hi => (nomatch hi)⟩ he

/-- A plan whose revision the store accepts. -/
structure Planned (c : Context) (id : String) (plan : Plan) : Prop where
  revision : validateRevision c id plan.producer plan.digest = true
  freshUntil : plan.freshUntil ≤ MAX_SAFE_INTEGER
  retainUntil : plan.retainUntil ≤ MAX_SAFE_INTEGER

theorem Registered.confirmed (h : Registered c id record) (hp : Planned c id plan) (hn : now ≤ MAX_SAFE_INTEGER)
    (he : Lasting remote) : Registered c id (confirmed now plan remote record) :=
  Registered.observed ⟨hp.revision, hn, hp.freshUntil, hp.retainUntil, h.expiresAt,
    fun _ hf => (nomatch hf), fun _ hi => (nomatch hi)⟩ he

theorem Registered.failing (h : Registered c id record) (code : String) {at_ : Nat} (ha : at_ ≤ MAX_SAFE_INTEGER) :
    Registered c id (failing code (some at_) record) :=
  ⟨h.revision, h.publishedAt, h.freshUntil, h.retainUntil, h.expiresAt, fun _ hf => ⟨at_, Option.some.inj hf ▸ rfl, ha⟩, h.intent⟩

-- Documents

/-- A publication whose Things are Thing Descriptions. -/
structure Fit (c : Context) (publication : PreparedPublication) : Prop where
  inventory : -1 ≤ publication.inventoryRevision ∧ publication.inventoryRevision ≤ MAX_SAFE_INTEGER
  things : ∀ thing ∈ publication.things, assertThingDescription c thing.td = .ok ()

theorem versioned_id {native : ThingDescription} {currentSummary : Option Json} {stale : Bool}
    {freshUntil retainUntil : Nat}
    {observedAt : Option Nat} (h : get "id" native = some (.string id)) :
    get "id" (versioned c native currentSummary stale freshUntil retainUntil observedAt) = some (.string id) := by
  unfold versioned versionedThing
  dsimp only
  rw [get_set_other (by decide), get_set_other (by decide), get_erase_other (by decide), get_erase_other (by decide),
    get_set_other (by decide)]
  split
  · rw [get_set_other (by decide)]
    exact h
  · exact h

theorem candidate_native (h : Fit c publication) {thing : PublicationThing}
    (ht : candidate c publication id = some thing) :
    assertThingDescription c thing.td = .ok () ∧ get "id" thing.td = some (.string id) := by
  have hvalid := h.things thing (List.mem_reverse.mp (List.mem_of_find?_eq_some ht))
  have hid : thingId c thing = id := by simpa using List.find?_some ht
  refine ⟨hvalid, ?_⟩
  unfold assertThingDescription at hvalid
  unfold thingId at hid
  split at hvalid
  · rename_i name hname
    rw [hname] at hid
    rw [hname, show name = id from hid]
  · cases hvalid

theorem revision_native {producer : ThingDescription} {digest : String}
    (h : validateRevision c id producer digest = true) :
    assertThingDescription c producer = .ok () ∧ get "id" producer = some (.string id) := by
  simp only [validateRevision, Bool.and_eq_true, decide_eq_true_eq] at h
  refine ⟨?_, h.1.2⟩
  cases hv : assertThingDescription c producer with
  | ok => rfl
  | error e => simp [hv, Except.toBool] at h

theorem revision_of {producer : ThingDescription} {digest : String} (hv : assertThingDescription c producer = .ok ()) (hid : get "id" producer = some (.string id))
    (hd : producerDigest c.sha256 producer = .ok digest) : validateRevision c id producer digest = true := by
  simp [validateRevision, hv, hid, hd, Except.toBool]

-- The invariant

structure Facing (c : Context) (publication : PreparedPublication) (id : String) (now : Nat)
    (state : Option PublicationState) : Prop where
  fit : Fit c publication
  leased : now + c.freshMs + c.graceMs ≤ MAX_SAFE_INTEGER
  past : ∀ thing observedAt, candidate c publication id = some thing → thing.observedAt = some observedAt → observedAt ≤ now
  room : ∀ memory, state = some memory → Roomy id memory

def Doing (c : Context) (state : Option PublicationState) : Work → Prop
  | .idle => True
  | .starting publication | .publishing publication => Fit c publication
  | .looping round _ | .failing round _ _ _ | .finishing round => Fit c round.publication
  | .thing round id _ now stage => Facing c round.publication id now state ∧ match stage with
    | .adopting remote => Dated c remote
    | .intending plan | .writing plan | .confirming plan => Planned c id plan
    | _ => True

structure Savable (c : Context) (p : Publisher) : Prop where
  valid : ∀ memory, p.state = some memory → Valid c memory
  newer : ∀ memory last, p.state = some memory → p.durable = some last →
    last.revision ≤ memory.revision ∧ (awaitsSave p.work → last.revision < memory.revision)
  doing : Doing c p.state p.work
  loaded : p.state.isSome ∨ p.work = .idle ∨ ∃ publication, p.work = .starting publication

structure Able (c : Context) (publication : PreparedPublication) (p : Publisher) : Prop where
  valid : ∀ memory, p.state = some memory → Valid c memory
  newer : ∀ memory last, p.state = some memory → p.durable = some last → last.revision ≤ memory.revision
  low : ∀ memory, p.state = some memory → memory.revision < MAX_SAFE_INTEGER
  fit : Fit c publication
  loaded : p.state.isSome

def Leads (c : Context) (publication : PreparedPublication) : Except String Unit × Publisher → Prop
  | (.ok _, p) => Savable c p
  | (.error _, p) => Able c publication p

variable {state : Option PublicationState}

theorem roomy_recorded {revisions : Nat}
    (h : state.map (recorded id record revisions) = some memory) :
    Roomy id memory := by
  obtain ⟨old, -, rfl⟩ := Option.map_eq_some_iff.mp h
  refine .inl ?_
  rw [has_eq, recorded_sets.self]
  rfl

theorem Facing.recorded (h : Facing c publication id now state)
    (revisions : Nat) :
    Facing c publication id now (state.map (recorded id record revisions)) :=
  ⟨h.fit, h.leased, h.past, fun _ => roomy_recorded⟩

theorem Facing.now_le (h : Facing c publication id now state) :
    now ≤ MAX_SAFE_INTEGER := by
  have := h.leased
  omega

section
variable (h : Able c publication p)
include h

theorem Able.registered (hr : p.registration id = some record) :
    Registered c id record := by
  obtain ⟨memory, hm, hg⟩ := Option.bind_eq_some_iff.mp hr
  exact (h.valid memory hm).registered hg

theorem Able.commit (hr : Registered c id record)
    (hroom : ∀ memory, p.state = some memory → Roomy id memory) {work : Work}
    (hd : Doing c (p.state.map (recorded id record 1)) work) :
    Savable c { p with state := p.state.map (recorded id record 1), work } where
  valid memory hm := by
    obtain ⟨old, ho, rfl⟩ := Option.map_eq_some_iff.mp hm
    exact (h.valid old ho).recorded hr (hroom old ho) (h.low old ho)
  newer memory last hm hl := by
    obtain ⟨old, ho, rfl⟩ := Option.map_eq_some_iff.mp hm
    have hle := h.newer old last ho hl
    exact ⟨hle.trans (Nat.le_succ _), fun _ => Nat.lt_succ_of_le hle⟩
  doing := hd
  loaded := .inl (by simpa using h.loaded)

theorem Able.raise {f : PublicationState → PublicationState}
    (hr : ∀ memory, (f memory).revision = memory.revision + 1)
    (hv : ∀ memory, Valid c memory → memory.revision < MAX_SAFE_INTEGER → Valid c (f memory)) {work : Work}
    (hd : Doing c (p.state.map f) work) : Savable c { p with state := p.state.map f, work } where
  valid memory hm := by
    obtain ⟨old, ho, rfl⟩ := Option.map_eq_some_iff.mp hm
    exact hv old (h.valid old ho) (h.low old ho)
  newer memory last hm hl := by
    obtain ⟨old, ho, rfl⟩ := Option.map_eq_some_iff.mp hm
    have hle := h.newer old last ho hl
    rw [hr]
    exact ⟨hle.trans (Nat.le_succ _), fun _ => Nat.lt_succ_of_le hle⟩
  doing := hd
  loaded := .inl (by simpa using h.loaded)

theorem Able.keep (hr : Registered c id record)
    (hroom : ∀ memory, p.state = some memory → Roomy id memory) :
    Able c publication { p with state := p.state.map (recorded id record 0) } where
  valid memory hm := by
    obtain ⟨old, ho, rfl⟩ := Option.map_eq_some_iff.mp hm
    exact (h.valid old ho).recorded hr (hroom old ho) (h.low old ho).le
  newer memory last hm hl := by
    obtain ⟨old, ho, rfl⟩ := Option.map_eq_some_iff.mp hm
    exact h.newer old last ho hl
  low memory hm := by
    obtain ⟨old, ho, rfl⟩ := Option.map_eq_some_iff.mp hm
    exact h.low old ho
  fit := h.fit
  loaded := by simpa using h.loaded

theorem Able.await {work : Work} (hw : awaitsSave work = false)
    (hd : Doing c p.state work) :
    Savable c { p with work } where
  valid := h.valid
  newer memory last hm hl := ⟨h.newer memory last hm hl, fun hs => by simp [hw] at hs⟩
  doing := hd
  loaded := .inl h.loaded

end

theorem conclude_leads (h : Able c round.publication p) (action : Action) (code : Option String) :
    Leads c round.publication (conclude round id rest action code p) := h.await rfl h.fit

theorem send_leads {request : Request} {work : Work} (h : Able c round.publication p) (hw : awaitsSave work = false)
    (hd : Doing c p.state work) :
    Leads c round.publication ((do send (.reconciliation round.publication) request; await work : M Unit) p) :=
  ⟨h.valid, fun memory last hm hl => ⟨h.newer memory last hm hl, fun hs => by simp [hw] at hs⟩, hd, .inl h.loaded⟩

-- One registration

section
variable (h : Able c round.publication p)
include h

theorem retired_leads (hf : Facing c round.publication id now p.state)
    (hr : p.registration id = some record) :
    Leads c round.publication ((do
      register id { record with status := .retired, failure := none, intent := none }
      persist
      await (.thing round id rest now .retiring) : M Unit) p) := by
  have hold := h.registered hr
  have hretired : Registered c id { record with status := .retired, failure := none, intent := none } :=
    ⟨hold.revision, hold.publishedAt, hold.freshUntil, hold.retainUntil, hold.expiresAt, nofun, nofun⟩
  have hd : Doing c (p.state.map (recorded id { record with status := .retired, failure := none, intent := none } 1))
      (.thing round id rest now .retiring) := ⟨hf.recorded 1, trivial⟩
  rw [run_commit]
  exact h.commit hretired hf.room hd

theorem deleted_leads (hf : Facing c round.publication id now p.state) :
    Leads c round.publication (deleted round id rest now p) := by
  unfold deleted
  simp only [run_get_bind]
  cases hr : p.registration id with
  | some record => exact retired_leads h hf hr
  | none => exact conclude_leads h _ _

theorem retire_leads (hf : Facing c round.publication id now p.state)
    (remote : Option DirectoryRecord) : Leads c round.publication (retire c round id rest now remote p) := by
  unfold retire
  simp only [run_get_bind]
  cases remote with
  | some remote =>
    dsimp only
    exact lift_cases (fun _ _ => lift_cases (fun _ _ => lift_cases (fun _ _ => send_leads h rfl ⟨hf, trivial⟩) fun _ => h)
      fun _ => h) fun _ => h
  | none =>
    cases hr : p.registration id with
    | some record => exact retired_leads h hf hr
    | none => exact conclude_leads h _ _

theorem record_leads (hf : Facing c round.publication id now p.state)
    (hr : Registered c id record) (action : Action) (code : Option String) :
    Leads c round.publication ((do register id record; conclude round id rest action code : M Unit) p) := by
  rw [run_bind, run_register]
  exact conclude_leads (h.keep hr hf.room) _ _

end

variable {remote : Option DirectoryRecord}

theorem unchanged_leads (h : Able c round.publication p) (hf : Facing c round.publication id now p.state)
    (stale : Bool) (he : ∀ record, remote = some record → Lasting record) :
    Leads c round.publication (unchanged round id rest stale remote p) := by
  unfold unchanged
  simp only [run_get_bind]
  cases remote with
  | none => exact conclude_leads h _ _
  | some remote =>
    cases hr : p.registration id with
    | none => exact conclude_leads h _ _
    | some record =>
      have hold := h.registered hr
      have hhealed : Registered c id { record with status := if stale then .stale else .active, failure := none } :=
        ⟨hold.revision, hold.publishedAt, hold.freshUntil, hold.retainUntil, hold.expiresAt, nofun, hold.intent⟩
      exact record_leads h hf (hhealed.observed (he remote rfl)) _ _

theorem intend_leads (h : Able c round.publication p) (hf : Facing c round.publication id now p.state)
    (hp : Planned c id plan) :
    Leads c round.publication (intend c round id rest now plan p) := by
  unfold intend
  simp only [run_get_bind]
  rw [run_commit]
  have hintent : Promised c id ⟨plan.producer, plan.digest, now, plan.freshUntil, plan.retainUntil⟩ :=
    ⟨hp.revision, hf.now_le, hp.freshUntil, hp.retainUntil⟩
  refine h.commit ?_ hf.room ⟨hf.recorded 1, hp⟩
  cases hr : p.registration id with
  | none =>
    exact ⟨hp.revision, Nat.zero_le _, hp.freshUntil, hp.retainUntil, fun _ he => (nomatch he), fun _ hf => (nomatch hf),
      fun _ hi => Option.some.inj hi ▸ hintent⟩
  | some record =>
    have hold := h.registered hr
    exact ⟨hold.revision, hold.publishedAt, hold.freshUntil, hold.retainUntil, hold.expiresAt, hold.failure,
      fun _ hi => Option.some.inj hi ▸ hintent⟩

theorem revise_leads (hs : Steady c) (h : Able c round.publication p)
    (hf : Facing c round.publication id now p.state)
    {native : ThingDescription} (hn : assertThingDescription c native = .ok () ∧ get "id" native = some (.string id))
    (observedAt : Option Nat) {freshUntil retainUntil : Nat} (hfresh : freshUntil ≤ MAX_SAFE_INTEGER)
    (hretain : retainUntil ≤ MAX_SAFE_INTEGER)
    (hd : ∀ record, remote = some record → Dated c record) :
    Leads c round.publication
      (revise c round id rest now native observedAt freshUntil retainUntil remote (p.registration id) p) := by
  unfold revise
  dsimp only
  refine lift_cases (fun digest hdigest => ?_) fun _ => h
  split
  · cases hr : p.registration id with
    | none => exact h
    | some record =>
      cases remote.bind (·.expiresAt) with
      | none => exact h
      | some expiresAt =>
        have hold := h.registered hr
        dsimp only
        split
        · have hchanged : Registered c id
              { record with status := if observedAt.isNone || now ≥ freshUntil then .stale else .active } :=
            ⟨hold.revision, hold.publishedAt, hold.freshUntil, hold.retainUntil, hold.expiresAt, hold.failure, hold.intent⟩
          exact record_leads h hf hchanged _ _
        · exact h
  · split
    · rename_i hneeds
      refine unchanged_leads h hf _ fun record he => ?_
      subst he
      exact (hd record rfl).of_needsRenewal (by simpa using hneeds.2)
    · refine intend_leads h hf ⟨revision_of ?_ ?_ hdigest, hfresh, hretain⟩
      · exact hs.versioned _ _ _ _ _ _ hn.1
      · exact versioned_id hn.2

theorem proceed_leads (hs : Steady c) (h : Able c round.publication p)
    (hf : Facing c round.publication id now p.state) (hd : ∀ record, remote = some record → Dated c record) :
    Leads c round.publication (proceed c round id rest now remote p) := by
  have hlease : (lease c ((candidate c round.publication id).bind (·.observedAt)) (p.registration id)).1 ≤ MAX_SAFE_INTEGER ∧
      (lease c ((candidate c round.publication id).bind (·.observedAt)) (p.registration id)).2 ≤ MAX_SAFE_INTEGER := by
    unfold lease
    split
    · rename_i observedAt hobserved
      obtain ⟨thing, hthing, hobserved⟩ := Option.bind_eq_some_iff.mp hobserved
      have hpast := hf.past thing observedAt hthing hobserved
      have hnow := hf.leased
      exact ⟨by omega, by omega⟩
    · cases hr : p.registration id with
      | none => exact ⟨Nat.zero_le _, Nat.zero_le _⟩
      | some record => exact ⟨(h.registered hr).freshUntil, (h.registered hr).retainUntil⟩
  unfold proceed
  simp only [run_get_bind]
  split
  · exact conclude_leads h _ _
  · split
    · exact retire_leads h hf remote
    · cases hn : nativeThing (candidate c round.publication id) (p.registration id) with
      | none => exact h
      | some native =>
        refine revise_leads hs h hf ?_ _ hlease.1 hlease.2 hd
        have hcandidate (hc : (candidate c round.publication id).map (·.td) = some native) :
            assertThingDescription c native = .ok () ∧ get "id" native = some (.string id) := by
          obtain ⟨thing, hthing, rfl⟩ := Option.map_eq_some_iff.mp hc
          exact candidate_native h.fit hthing
        unfold nativeThing at hn
        split at hn
        · exact hcandidate hn
        · cases hr : p.registration id with
          | none => exact hcandidate (by simpa [hr] using hn)
          | some record =>
            have : record.producer = native := by simpa [hr] using hn
            exact this ▸ revision_native (h.registered hr).revision

theorem got_leads (hs : Steady c) (h : Able c round.publication p) (hf : Facing c round.publication id now p.state) (hd : ∀ record, remote = some record → Dated c record) :
    Leads c round.publication (got c round id rest now remote p) := by
  unfold got
  simp only [run_get_bind]
  cases remote with
  | none => exact proceed_leads hs h hf nofun
  | some remote =>
    refine lift_cases (fun _ _ => ?_) fun _ => h
    cases hr : p.registration id with
    | none => exact proceed_leads hs h hf hd
    | some record =>
      cases hi : record.intent with
      | none =>
        simp only [Option.bind_some, hi]
        exact proceed_leads hs h hf hd
      | some intent =>
        simp only [Option.bind_some, hi]
        refine lift_cases (fun same _ => ?_) fun _ => h
        cases same with
        | false => exact proceed_leads hs h hf hd
        | true =>
          simp only [if_true]
          split
          · exact h
          · rename_i hb
            rw [run_commit]
            exact h.commit ((h.registered hr).adopted hi ((hd remote rfl).of_badExpiry (by simpa using hb))) hf.room
              ⟨hf.recorded 1, hd remote rfl⟩

theorem confirm_leads (h : Able c round.publication p) (hf : Facing c round.publication id now p.state)
    (hp : Planned c id plan) (hd : ∀ record, remote = some record → Dated c record) :
    Leads c round.publication (confirm c round id rest now plan remote p) := by
  unfold confirm
  cases remote with
  | none => exact h
  | some remote =>
    refine lift_cases (fun same _ => ?_) fun _ => h
    split
    · exact h
    · split
      · exact h
      · rename_i hb
        simp only [run_get_bind]
        cases hr : p.registration id with
        | none =>
          refine h.raise (f := fun state => { state with revision := state.revision + 1 }) (fun _ => rfl)
            (fun memory hv hlow => ⟨hv.owner, hlow, hv.inventory, hv.few, hv.registrations⟩)
            ⟨⟨hf.fit, hf.leased, hf.past, ?_⟩, trivial⟩
          rintro memory hm
          obtain ⟨old, ho, rfl⟩ := Option.map_eq_some_iff.mp hm
          exact hf.room old ho
        | some record =>
          dsimp only
          rw [run_commit]
          exact h.commit ((h.registered hr).confirmed hp hf.now_le ((hd remote rfl).of_badExpiry (by simpa using hb))) hf.room
            ⟨hf.recorded 1, trivial⟩

theorem write_leads (h : Able c round.publication p) (hf : Facing c round.publication id now p.state)
    (hp : Planned c id plan) :
    Leads c round.publication (write c round id rest now plan p) :=
  lift_cases (fun _ _ => send_leads h rfl ⟨hf, hp⟩) fun _ => h

-- The reconciliation

theorem Savable.same {p' : Publisher} (h : Savable c p) (hs : p'.state = p.state) (hd : p'.durable = p.durable)
    (hw : p'.work = p.work) : Savable c p' := by
  refine ⟨?_, ?_, ?_, ?_⟩
  · rw [hs]
    exact h.valid
  · rw [hs, hd, hw]
    exact h.newer
  · rw [hs, hw]
    exact h.doing
  · rw [hs, hw]
    exact h.loaded

theorem Able.same {p' : Publisher} (h : Able c publication p) (hs : p'.state = p.state)
    (hd : p'.durable = p.durable) :
    Able c publication p' := by
  refine ⟨?_, ?_, ?_, h.fit, ?_⟩
  · rw [hs]
    exact h.valid
  · rw [hs, hd]
    exact h.newer
  · rw [hs]
    exact h.low
  · rw [hs]
    exact h.loaded

theorem caught_savable (hs : Steady c) (h : Able c round.publication p) (code : String) :
    Savable c (caught c round id rest code p) := by
  cases hr : p.registration id with
  | none =>
    unfold caught
    rw [hr]
    exact h.await rfl h.fit
  | some record =>
    obtain ⟨at_, hat, hle⟩ := hs.clock p.ticks
    have hroom : ∀ memory, p.state = some memory → Roomy id memory := by
      intro memory hm
      refine .inl ?_
      rw [has_eq]
      rw [Publisher.registration, hm] at hr
      rw [show get id memory.registrations = some record from hr]
      rfl
    have hd : Doing c (p.state.map (recorded id (failing code (some at_) record) 1)) (.failing round id rest code) := h.fit
    rw [run_caught hr, hat]
    exact (h.commit ((h.registered hr).failing code (show at_ ≤ MAX_SAFE_INTEGER by omega)) hroom hd).same rfl rfl rfl

theorem attempting_savable (hs : Steady c) {m : M Unit} (h : Leads c round.publication (m p)) :
    Savable c (attempting c round id rest m p) := by
  unfold attempting
  generalize m p = r at h
  obtain ⟨r, p'⟩ := r
  cases r with
  | ok => exact h
  | error code => exact caught_savable hs h code

theorem reconcileThing_leads (hs : Steady c) (h : Able c round.publication p)
    (hroom : ∀ memory, p.state = some memory → Roomy id memory) :
    Leads c round.publication (reconcileThing c round id rest p) := by
  have hticks : Able c round.publication { p with ticks := p.ticks + 1 } := h.same rfl rfl
  unfold reconcileThing reading
  rw [run_bind, run_get_bind, run_modify_bind]
  simp only [run_pure]
  obtain ⟨now, hnow, hle⟩ := hs.clock p.ticks
  rw [hnow]
  dsimp only
  split
  · exact hticks
  · rename_i hpast
    refine lift_cases (fun _ _ => ?_) fun _ => hticks
    have hf : Facing c round.publication id now p.state := by
      refine ⟨h.fit, hle, fun thing observedAt hthing hobserved => ?_, hroom⟩
      by_contra hlt
      exact hpast ⟨thing, hthing, observedAt, hobserved, by omega⟩
    exact hticks.await rfl ⟨hf, trivial⟩

theorem loop_savable (hs : Steady c) (h : Able c round.publication p) {places : List String}
    (hroom : ∀ id rest memory, places = id :: rest → p.state = some memory → Roomy id memory) :
    Savable c (loop c round p places) := by
  cases places with
  | nil =>
    have hv (memory : PublicationState) (hv : Valid c memory) (hlow : memory.revision < MAX_SAFE_INTEGER) :
        Valid c { memory with inventoryRevision := round.publication.inventoryRevision, revision := memory.revision + 1 } :=
      ⟨hv.owner, hlow, h.fit.inventory, hv.few, hv.registrations⟩
    have hd : Doing c (p.state.map fun memory => { memory with
        inventoryRevision := round.publication.inventoryRevision, revision := memory.revision + 1 }) (.finishing round) := h.fit
    refine (h.raise (fun _ => rfl) hv hd).same ?_ rfl rfl
    change (p.state.map _).map _ = _
    cases p.state <;> rfl
  | cons id rest =>
    unfold loop
    dsimp only
    split
    · exact h.await rfl h.fit
    · split
      · exact h.await rfl h.fit
      · exact attempting_savable hs (reconcileThing_leads hs h fun memory => hroom id rest memory rfl)

-- Every step

/-- Revisions are left, what is published are Thing Descriptions, an identifier
that comes up has a registration or room for one, and without a lifetime no
registration has expired before 1970. -/
def Fitting (c : Context) (p : Publisher) (i : Input) : Prop :=
  (∀ memory, p.state = some memory → memory.revision < MAX_SAFE_INTEGER) ∧ match i with
  | .reconcile publication => Fit c publication
  | .turn => ∀ round id rest memory, p.work = .looping round (id :: rest) → p.state = some memory → Roomy id memory
  | .got _ => c.contract.expiry = .bridgeDelete → ∀ id td tag expiresAt, p.directory.resources id = some (td, tag) →
      expires c td = .ok (some expiresAt) → 0 ≤ expiresAt
  | _ => True

theorem Savable.able (h : Savable c p) (hlow : ∀ memory, p.state = some memory → memory.revision < MAX_SAFE_INTEGER)
    (hfit : Fit c publication) (hl : p.state.isSome) : Able c publication p :=
  ⟨h.valid, fun memory last hm hl => (h.newer memory last hm hl).1, hlow, hfit, hl⟩

theorem Savable.some (h : Savable c p) (hi : p.work ≠ .idle) (hs : ∀ publication, p.work ≠ .starting publication) :
    p.state.isSome := by
  rcases h.loaded with hl | hl | ⟨publication, hl⟩
  · exact hl
  · exact absurd hl hi
  · exact absurd hl (hs publication)

theorem store_able (h : Savable c p) (hlow : ∀ memory, p.state = some memory → memory.revision < MAX_SAFE_INTEGER)
    (hfit : Fit c publication) (hl : p.state.isSome) (stored : Bool) : Able c publication (store stored p) := by
  have hable := h.able hlow hfit hl
  unfold store
  split
  · rename_i memory hm
    refine ⟨h.valid, fun now last hn hd => ?_, hlow, hfit, hl⟩
    rw [show last = memory from (Option.some.inj hd).symm, show now = memory from Option.some.inj (hn.symm.trans hm)]
  · exact hable.same rfl rfl

theorem persisted_savable (hs : Steady c) (h : Savable c p) (hw : awaitsSave p.work)
    (hlow : ∀ memory, p.state = some memory → memory.revision < MAX_SAFE_INTEGER) (result : Except String Unit)
    (stored : Bool) :
    Savable c (persisted c result (store stored p)) := by
  obtain ⟨-, hstate, hwork, -⟩ := store_rest stored (p := p)
  have hloaded : p.state.isSome := by
    refine h.some ?_ ?_
    · intro hi
      rw [hi] at hw
      cases hw
    · intro publication hi
      rw [hi] at hw
      cases hw
  have hd := h.doing
  have hable (publication : PreparedPublication) (hfit : Fit c publication) : Able c publication (store stored p) :=
    store_able h hlow hfit hloaded stored
  unfold persisted
  rw [hwork]
  cases hp : p.work with
  | idle | starting | publishing | looping =>
    rw [hp] at hw
    cases hw
  | thing round id rest now stage =>
    rw [hp] at hd hw
    obtain ⟨hf, hstage⟩ := hd
    have ha := hable round.publication hf.fit
    rw [← hstate] at hf
    cases result with
    | error code => exact caught_savable hs ha code
    | ok =>
      cases stage with
      | getting | writing | confirming | deleting => cases hw
      | settling action => exact ha.await rfl hf.fit
      | retiring => exact ha.await rfl hf.fit
      | adopting remote =>
        exact attempting_savable hs (proceed_leads hs ha hf fun record he => Option.some.inj he ▸ hstage)
      | intending plan => exact attempting_savable hs (write_leads ha hf hstage)
  | failing round id rest code =>
    rw [hp] at hd
    cases result with
    | ok => exact (hable round.publication hd).await rfl hd
    | error => exact (hable round.publication hd).await rfl trivial
  | finishing round =>
    rw [hp] at hd
    exact (hable round.publication hd).await rfl trivial

theorem saved_savable (hs : Steady c) (h : Savable c p)
    (hlow : ∀ memory, p.state = some memory → memory.revision < MAX_SAFE_INTEGER)
    (result : Except String Unit) (stored : Bool) : Savable c (saved c result stored p) := by
  unfold saved
  split
  · exact h
  · rename_i hw
    have hw : awaitsSave p.work := by simpa using hw
    split
    · exact persisted_savable hs h hw hlow result _
    · exact persisted_savable hs h hw hlow _ _

theorem booting_savable {m : M Unit} (hm : Keeps Probes m) (h : Savable c p) : Savable c (booting m p) := by
  have hp := hm p
  unfold booting
  generalize m p = r at hp
  obtain ⟨r, p'⟩ := r
  cases r with
  | ok => exact h.same hp.state hp.durable hp.work
  | error => exact h.same hp.state hp.durable hp.work

section
variable (hs : Steady c)
include hs

theorem wrote_savable (h : Savable c p)
    (hlow : ∀ memory, p.state = some memory → memory.revision < MAX_SAFE_INTEGER) (outcome : Except String Unit) :
    Savable c (wrote c outcome p) := by
  have hd := h.doing
  unfold wrote
  split
  · exact booting_savable (probes_wrote _ _) h
  · rename_i round id rest now plan hw _
    rw [hw] at hd
    have ha := h.able hlow hd.1.fit (h.some (by simp [hw]) (by simp [hw]))
    refine attempting_savable hs (lift_cases (fun _ _ => ?_) fun _ => ha)
    exact ha.await rfl hd
  · rename_i round id rest now hw _
    rw [hw] at hd
    have ha := h.able hlow hd.1.fit (h.some (by simp [hw]) (by simp [hw]))
    exact attempting_savable hs (lift_cases (fun _ _ => deleted_leads ha hd.1) fun _ => ha)
  · exact h

theorem answered_savable (h : Savable c p)
    (hlow : ∀ memory, p.state = some memory → memory.revision < MAX_SAFE_INTEGER)
    (result : Except String (Option Json)) :
    Savable c (answered c result p) := by
  unfold answered
  split
  · exact h
  · cases result with
    | error code => exact wrote_savable hs h hlow _
    | ok registration =>
      dsimp only
      split
      · rename_i write _
        have hp : Savable c (process write registration p) := h.same rfl rfl rfl
        exact wrote_savable hs hp hlow _
      · exact h

theorem expires_le {td : ThingDescription} {expiresAt : Int}
    (h : expires c td = .ok (some expiresAt)) :
    expiresAt ≤ MAX_SAFE_INTEGER := by
  have hle : (8640000000000000 : Int) ≤ MAX_SAFE_INTEGER := by decide
  unfold expires at h
  split at h
  · split at h
    · cases h
    · split at h
      · rename_i instant hinstant
        cases h
        exact (hs.instant _ _ hinstant).trans hle
      · cases h
    · cases h
  · cases h

theorem retrieved_dated {result : Except String Unit}
    (h : retrieved c result p id = .ok remote)
    (hb : c.contract.expiry = .bridgeDelete → ∀ id td tag expiresAt, p.directory.resources id = some (td, tag) →
      expires c td = .ok (some expiresAt) → 0 ≤ expiresAt) (record : DirectoryRecord)
      (hr : remote = some record) : Dated c record := by
  subst hr
  cases result with
  | error => cases h
  | ok =>
    unfold retrieved at h
    dsimp only at h
    cases hres : p.directory.resources id with
    | none =>
      rw [hres] at h
      cases h
    | some resource =>
      obtain ⟨td, tag⟩ := resource
      rw [hres] at h
      obtain ⟨_, -, h⟩ := except_bind_ok h
      split at h
      · cases h
      · obtain ⟨expiresAt, hexpires, h⟩ := except_bind_ok h
        cases h
        rintro value hvalue
        rw [show expiresAt = some value from hvalue] at hexpires
        exact ⟨expires_le hs hexpires, fun hmode => hb hmode id td tag value hres hexpires⟩

theorem gotAnswer_savable (h : Savable c p)
    (hlow : ∀ memory, p.state = some memory → memory.revision < MAX_SAFE_INTEGER) {result : Except String Unit}
    (hb : c.contract.expiry = .bridgeDelete → ∀ id td tag expiresAt, p.directory.resources id = some (td, tag) →
      expires c td = .ok (some expiresAt) → 0 ≤ expiresAt) : Savable c (gotAnswer c result p) := by
  have hd := h.doing
  unfold gotAnswer
  split
  · exact booting_savable (probes_got _ _) h
  · rename_i round id rest now hw _
    rw [hw] at hd
    have ha := h.able hlow hd.1.fit (h.some (by simp [hw]) (by simp [hw]))
    refine attempting_savable hs (lift_cases (fun remote hr => ?_) fun _ => ha)
    exact got_leads hs ha hd.1 (retrieved_dated hs hr hb)
  · rename_i round id rest now plan hw _
    rw [hw] at hd
    have ha := h.able hlow hd.1.fit (h.some (by simp [hw]) (by simp [hw]))
    refine attempting_savable hs (lift_cases (fun remote hr => ?_) fun _ => ha)
    exact confirm_leads ha hd.1 hd.2 (retrieved_dated hs hr hb)
  · exact h

end

theorem listed_savable (h : Savable c p) (result : Except String Bool) : Savable c (listed c result p) := by
  unfold listed
  split
  · exact h.same rfl rfl rfl
  · exact booting_savable (.bind (.lift .refl _) fun _ => .bind (.lift .refl _) fun _ => probes_probe _) h
  · exact booting_savable (probes_listed _ _) h
  · exact h

theorem loaded_savable (h : Savable c p) (result : Except String Unit) : Savable c (loaded c result p) := by
  unfold loaded
  split
  · rename_i hnone
    split
    · rename_i hv
      refine ⟨fun memory hm => ?_, fun memory last hm hl => ⟨?_, fun hw => ?_⟩, ?_, .inl rfl⟩
      · exact Option.some.inj hm ▸ (validateState_iff.mp hv).2
      · rw [← Option.some.inj hm, show p.durable = some last from hl]
        rfl
      · rcases h.loaded with hs | hi | ⟨publication, hi⟩
        · simp [hnone] at hs
        · simp [hi, awaitsSave] at hw
        · simp [hi, awaitsSave] at hw
      · have hd := h.doing
        rcases h.loaded with hs | hi | ⟨publication, hi⟩
        · simp [hnone] at hs
        · rw [show p.work = _ from hi]
          trivial
        · rw [hi] at hd
          rw [show p.work = _ from hi]
          exact hd
    · exact h.same rfl rfl rfl
  · exact h.same rfl rfl rfl
  · exact h

theorem step_savable (hs : Steady c) (h : Savable c p) (i : Input) (hf : Fitting c p i) :
    Savable c (step c p i) := by
  obtain ⟨hlow, hf⟩ := hf
  have hd := h.doing
  cases i with
  | reconcile publication =>
    unfold step
    cases hw : p.work with
    | idle =>
      exact ⟨h.valid, fun memory last hm hl => ⟨(h.newer memory last hm hl).1, nofun⟩, hf, .inr (.inr ⟨publication, rfl⟩)⟩
    | _ => exact h
  | turn =>
    change Savable c (turn c p)
    unfold turn
    split
    · rename_i publication hw _
      rw [hw] at hd
      unfold accept
      split
      · exact ⟨h.valid, fun memory last hm hl => ⟨(h.newer memory last hm hl).1, nofun⟩, trivial, .inr (.inl rfl)⟩
      · rename_i memory hm
        split
        · exact ⟨h.valid, fun memory last hm hl => ⟨(h.newer memory last hm hl).1, nofun⟩, trivial, .inr (.inl rfl)⟩
        · exact ⟨h.valid, fun memory last hm hl => ⟨(h.newer memory last hm hl).1, nofun⟩, hd, .inl (by simp [hm])⟩
    · exact ⟨h.valid, fun memory last hm hl => ⟨(h.newer memory last hm hl).1, nofun⟩, trivial, .inr (.inl rfl)⟩
    · rename_i round places hw
      rw [hw] at hd
      refine loop_savable hs (h.able hlow hd (h.some (by simp [hw]) (by simp [hw]))) fun id rest memory he hm => ?_
      exact hf round id rest memory (he ▸ hw) hm
    · exact h
  | loaded result => exact loaded_savable h result
  | listed result => exact listed_savable h result
  | got result => exact gotAnswer_savable hs h hlow hf
  | answered result => exact answered_savable hs h hlow result
  | published result =>
    unfold step
    cases hw : p.work with
    | publishing publication =>
      rw [hw] at hd
      have hl := h.some (by simp [hw]) (by simp [hw])
      cases result with
      | ok => exact (h.able hlow hd hl).await rfl hd
      | error => exact (h.able hlow hd hl).await rfl trivial
    | _ => exact h
  | saved result stored => exact saved_savable hs h hlow result stored
  | processed ticket registration =>
    unfold step
    dsimp only
    split
    · exact h.same rfl rfl rfl
    · exact h
  | other id td => exact h.same rfl rfl rfl
  | crash => exact ⟨nofun, nofun, trivial, .inr (.inl rfl)⟩

theorem savable_initial (h : Initial p) : Savable c p := by
  rw [h.fresh]
  exact ⟨nofun, nofun, trivial, .inr (.inl rfl)⟩

def leased : Context :=
  { small .attested with contract := ⟨.attested, .etag, .registrationTtl 60 true⟩, freshMs := 5000, graceMs := 5000 }

theorem leased_steady : Steady leased where
  clock _ := ⟨5, rfl, by decide⟩
  instant := nofun
  versioned native currentSummary stale freshUntil retainUntil observedAt h := by
    unfold assertThingDescription at h ⊢
    split at h
    · rename_i id hid
      rw [versioned_id hid]
      exact h
    · cases h

/-- `Fitting`, of inputs with a lifetime. -/
def fits (c : Context) (p : Publisher) (i : Input) : Bool :=
  p.state.all (·.revision < MAX_SAFE_INTEGER) && match i with
  | .reconcile publication => -1 ≤ publication.inventoryRevision && publication.inventoryRevision ≤ (MAX_SAFE_INTEGER : Int) &&
      publication.things.all fun thing => decide (assertThingDescription c thing.td = .ok ())
  | .turn => match p.work, p.state with
    | .looping _ (id :: _), some memory => has id memory.registrations || memory.registrations.length < 20000
    | _, _ => true
  | .got _ => c.contract.expiry ≠ .bridgeDelete
  | _ => true

theorem fitting_of_fits (i : Input) (h : fits c p i) : Fitting c p i := by
  unfold fits at h
  rw [Bool.and_eq_true] at h
  refine ⟨fun memory hm => by simpa [hm] using h.1, ?_⟩
  have h := h.2
  cases i with
  | reconcile publication =>
    simp only [Bool.and_eq_true, decide_eq_true_eq, List.all_eq_true] at h
    exact ⟨h.1, h.2⟩
  | turn =>
    intro round id rest memory hw hm
    simpa [hw, hm, Roomy] using h
  | got result => exact fun hmode => by simp [hmode] at h
  | _ => trivial

def intendedRun : List Input :=
  [.reconcile ⟨0, [camera []]⟩, .loaded (.ok ()), .listed (.ok true), .turn, .published (.ok ()), .turn, .got (.ok ())]

def expired : Context := { small .attested with instant := fun _ => some (-315619200000) }

def expiredRun : List Input :=
  intendedRun ++ [.saved (.ok ()) true,
    .answered (.ok (some (.object [("expires", .string "1960-01-01T00:00:00Z")]))), .got (.ok ())]

end WotAv.Publication.Publisher
