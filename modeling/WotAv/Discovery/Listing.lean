import WotAv.Binding.Digest
import WotAv.Discovery.Device
import WotAv.Lib.Json

/-!
# Native lists (`src/discovery/inspect.ts`)

`list` and `tracks` of `ReadonlyInspector`. What a read answers may depend on
the number of the page and on its arguments in any way.
-/

namespace WotAv.Discovery

open WotAv.Binding WotAv.Lib
open WotAv.Lib.Json (get chars)

variable {ν : Type}

abbrev Fields (ν : Type) := List (String × Json ν)

def object : Json ν → Except OnvifError (Fields ν)
  | .object data => .ok data
  | _ => invalidValue "Expected a structured native result"

def string : Option (Json ν) → Except OnvifError String
  | some (.string text) =>
    if utf16Length text ≤ 4096 then .ok text else invalidValue "Expected a bounded native string"
  | _ => invalidValue "Expected a bounded native string"

def array : Option (Json ν) → Except OnvifError (List (Json ν))
  | none => .ok []
  | some (.array items) => .ok items
  | some _ => invalidValue "Native repeated fields must be canonical arrays"

structure NativeResource (ν : Type) where
  token : String
  parentTokens : List String
  fixed : Option Bool
  data : Fields ν

def attributesOf (data : Fields ν) : Except OnvifError (Fields ν) :=
  match get "$attributes" data with
  | none => .ok []
  | some value => object value

def resource (item : Json ν) (tokenField : Option String) (parentTokens : List String) :
    Except OnvifError (NativeResource ν) := do
  let data ← object item
  let attributes ← attributesOf data
  let token ← string (match tokenField with
    | some field => get field data
    | none => get "token" attributes)
  match get "fixed" attributes with
  | none => return ⟨token, parentTokens, none, data⟩
  | some (.bool fixed) => return ⟨token, parentTokens, some fixed, data⟩
  | some _ => invalidValue "Profile fixed flag must be a native boolean"

section
variable [Numerals ν]

def NativeResource.key (value : NativeResource ν) : List Char :=
  chars (.array [.array (value.parentTokens.map .string), .string value.token] : Json ν)

def NativeResource.text (value : NativeResource ν) : List Char :=
  chars (.object [("token", .string value.token), ("parentTokens", .array (value.parentTokens.map .string)),
    ("fixed", value.fixed.elim .null .bool), ("data", .object value.data)])

theorem NativeResource.key_inj {a b : NativeResource ν} :
    a.key = b.key ↔ a.parentTokens = b.parentTokens ∧ a.token = b.token := by
  constructor
  · intro h
    have hvalue := (Json.chars_inj _ _ (r := []) (s := []) (by simp [Json.Ends]) (by simp [Json.Ends])
      (congrArg (· ++ []) h)).1
    simp only [Json.array.injEq, List.cons.injEq, Json.string.injEq, and_true] at hvalue
    exact ⟨List.map_injective_iff.mpr (fun _ _ h => Json.string.inj h) hvalue.1, hvalue.2⟩
  · rintro ⟨hparents, htoken⟩
    rw [NativeResource.key, NativeResource.key, hparents, htoken]

theorem NativeResource.text_inj {a b : NativeResource ν} : a.text = b.text ↔ a = b := by
  constructor
  · intro h
    have hvalue := (Json.chars_inj _ _ (r := []) (s := []) (by simp [Json.Ends]) (by simp [Json.Ends])
      (congrArg (· ++ []) h)).1
    obtain ⟨token, parents, fixed, data⟩ := a
    obtain ⟨token', parents', fixed', data'⟩ := b
    simp only [Json.object.injEq, Json.array.injEq, List.cons.injEq, Prod.mk.injEq, Json.string.injEq, true_and,
      and_true] at hvalue
    obtain ⟨rfl, hparents, hfixed, rfl⟩ := hvalue
    obtain rfl := List.map_injective_iff.mpr (fun _ _ h => Json.string.inj h) hparents
    cases fixed <;> cases fixed' <;> simp at hfixed <;> simp [hfixed]
  · rintro rfl
    rfl

end

-- `list`

structure ListSpec where
  field : String
  kind : ResourceKind
  pagination : Bool
  tokenField : Option String

structure ReadContract where
  namespace_ : String
  operation : String
  list : Option ListSpec

structure ListBounds where
  maxPages : ℕ
  maxResources : ℕ

structure ListArguments where
  limit : Option ℕ
  startReference : Option String

inductive TakeResult (σ : Type)
  | all (s : σ)
  | full (s : σ)
  | failed (s : σ)

def TakeResult.state {σ : Type} : TakeResult σ → σ
  | .all s | .full s | .failed s => s

/-- `values` and `keys`. -/
structure Collected (ν : Type) where
  values : List (NativeResource ν) := []
  keys : List (List Char × List Char) := []

structure Paging (ν : Type) where
  collected : Collected ν := {}
  nextReferences : List String := []
  next : Option String := none

variable [Numerals ν]

def Collected.add (s : Collected ν) (value : NativeResource ν) : Collected ν :=
  { values := s.values ++ [value], keys := s.keys ++ [(value.key, value.text)] }

section
variable (spec : ListSpec) (bounds : ListBounds) (now : Int)

def takeItems : List (Json ν) → Collected ν → TakeResult (Collected ν)
  | [], s => .all s
  | item :: items, s =>
    if bounds.maxResources ≤ s.values.length then .full s
    else match resource item spec.tokenField [] with
      | .error _ => .failed s
      | .ok value => match s.keys.lookup value.key with
        | some previous => if previous = value.text then takeItems items s else .failed s
        | none => takeItems items (s.add value)

abbrev ListOutcome (ν : Type) := Observation (List (NativeResource ν))

def partialOutcome (status : Missing) (code message : String) (observedAt : Int) (values : List (NativeResource ν)) :
    ListOutcome ν :=
  { result := .missing status code message (some values), observedAt }

def inventoryShape (observedAt : Int) (values : List (NativeResource ν)) : ListOutcome ν :=
  partialOutcome .fault "InventoryShape" "Native token or pagination contract is inconsistent" observedAt values

def pageItems (value : Json ν) : Except OnvifError (Fields ν × List (Json ν)) := do
  let data ← object value
  return (data, ← array (get spec.field data))

/-- One turn of the loop over pages, from its answer on: it goes on, or returns. -/
def turn (s : Paging ν) (outcome : Observation (Json ν)) : Except (ListOutcome ν) (Paging ν) :=
  match outcome.result with
  | .missing status code message _ =>
    .error (partialOutcome status code message outcome.observedAt s.collected.values)
  | .known value => match pageItems spec value with
    | .error _ => .error (inventoryShape outcome.observedAt s.collected.values)
    | .ok (data, items) => match takeItems spec bounds items s.collected with
      | .full collected => .error (partialOutcome .truncated "ResourceLimit" "Native resource inventory is incomplete"
          outcome.observedAt collected.values)
      | .failed collected => .error (inventoryShape outcome.observedAt collected.values)
      | .all collected =>
        if ¬spec.pagination ∨ (get "NextStartReference" data).isNone then
          .error { result := .known collected.values, observedAt := outcome.observedAt }
        else match string (get "NextStartReference" data) with
          | .error _ => .error (inventoryShape outcome.observedAt collected.values)
          | .ok next =>
            if next ∈ s.nextReferences then .error (inventoryShape outcome.observedAt collected.values)
            else .ok ⟨collected, s.nextReferences ++ [next], some next⟩

def listArguments (s : Paging ν) : ListArguments where
  limit := if spec.pagination then some (min bounds.maxResources 128) else none
  startReference := s.next

variable (read : ℕ → ListArguments → Observation (Json ν))

def pages : ℕ → ℕ → Paging ν → List (Observation (Json ν)) × ListOutcome ν
  | 0, _, s =>
    ([], partialOutcome .truncated "PageLimit" "Native inventory pagination budget exhausted" now s.collected.values)
  | fuel + 1, page, s =>
    let outcome := read page (listArguments spec bounds s)
    match turn spec bounds s outcome with
    | .error returned => ([outcome], returned)
    | .ok s =>
      let rest := pages fuel (page + 1) s
      (outcome :: rest.1, rest.2)

end

/-- What `list` returns, with the answers it read. -/
structure Listed (ν : Type) where
  reads : List (Observation (Json ν))
  inventory : ResourceInventory (NativeResource ν)

def list (bounds : ListBounds) (now : Int) (contract : ReadContract) (xaddr : String)
    (read : ℕ → ListArguments → Observation (Json ν)) : Except OnvifError (Listed ν) :=
  match contract.list with
  | none => invalidValue "Missing read inventory contract"
  | some spec =>
    let run := pages spec bounds now read bounds.maxPages 0 {}
    .ok { reads := run.1, inventory :=
      { namespace_ := contract.namespace_, xaddr, kind := spec.kind
        outcome := { run.2 with source := some ⟨contract.operation, xaddr⟩ } } }

-- `tracks`

section
variable (bounds : ListBounds) (now : Int)

def takeTracks (token : String) : List (Json ν) → List (NativeResource ν) → TakeResult (List (NativeResource ν))
  | [], values => .all values
  | track :: tracks, values =>
    if bounds.maxResources ≤ values.length then .full values
    else match resource track (some "TrackToken") [token] with
      | .error _ => .failed values
      | .ok value => takeTracks token tracks (values ++ [value])

def tracksOf (recording : NativeResource ν) : Except OnvifError (List (Json ν)) := do
  let tracks ← object ((get "Tracks" recording.data).getD .null)
  array (get "Track" tracks)

def takeRecordings : List (NativeResource ν) → List (NativeResource ν) → TakeResult (List (NativeResource ν))
  | [], values => .all values
  | recording :: recordings, values => match tracksOf recording with
    | .error _ => .failed values
    | .ok tracks => match takeTracks bounds recording.token tracks values with
      | .all values => takeRecordings recordings values
      | stopped => stopped

def tracks (recordings : ResourceInventory (NativeResource ν)) :
    Except OnvifError (ResourceInventory (NativeResource ν)) :=
  match recordings.outcome.result with
  | .missing .. => invalidValue "Tracks require a confirmed recording inventory"
  | .known found =>
    let outcome := match takeRecordings bounds found [] with
      | .full values => partialOutcome .truncated "TrackLimit" "Recording track inventory exceeds its bound" now values
      | .failed values =>
        partialOutcome .fault "TrackShape" "Recording tracks do not match their parent-token contract" now values
      | .all values => { result := .known values, observedAt := now, source := recordings.outcome.source }
    .ok { recordings with kind := .track, outcome }

end

end WotAv.Discovery
