import Mathlib.Data.List.Lex
import Mathlib.Data.List.Sort
import Mathlib.Data.Rat.Defs

/-!
# Thing Descriptions as documents (`src/publication/common.ts`)

JSON values, the canonical form that `canonicalJson` writes, and the parts of
a Thing Description that are the producer's. A failure is known by the code
that `errorCode` reads of it.
-/

namespace WotAv.Publication

-- JSON

inductive Json
  | null
  | bool (value : Bool)
  | number (value : ℚ)
  | string (value : String)
  | array (items : List Json)
  | object (members : List (String × Json))

mutual
def Json.decEq : (a b : Json) → Decidable (a = b)
  | .null, b => match b with
    | .null => isTrue rfl
    | .bool _ | .number _ | .string _ | .array _ | .object _ => isFalse nofun
  | .bool a, b => match b with
    | .bool b => decidable_of_iff (a = b) (by simp)
    | .null | .number _ | .string _ | .array _ | .object _ => isFalse nofun
  | .number a, b => match b with
    | .number b => decidable_of_iff (a = b) (by simp)
    | .null | .bool _ | .string _ | .array _ | .object _ => isFalse nofun
  | .string a, b => match b with
    | .string b => decidable_of_iff (a = b) (by simp)
    | .null | .bool _ | .number _ | .array _ | .object _ => isFalse nofun
  | .array a, b => match b with
    | .array b => have := decEqItems a b; decidable_of_iff (a = b) (by simp)
    | .null | .bool _ | .number _ | .string _ | .object _ => isFalse nofun
  | .object a, b => match b with
    | .object b => have := decEqMembers a b; decidable_of_iff (a = b) (by simp)
    | .null | .bool _ | .number _ | .string _ | .array _ => isFalse nofun
def decEqItems : (a b : List Json) → Decidable (a = b)
  | [], [] => isTrue rfl
  | [], _ :: _ => isFalse nofun
  | _ :: _, [] => isFalse nofun
  | a :: as, b :: bs =>
    have := a.decEq b
    have := decEqItems as bs
    decidable_of_iff (a = b ∧ as = bs) (by simp)
def decEqMembers : (a b : List (String × Json)) → Decidable (a = b)
  | [], [] => isTrue rfl
  | [], _ :: _ => isFalse nofun
  | _ :: _, [] => isFalse nofun
  | (key, a) :: as, (key', b) :: bs =>
    have := a.decEq b
    have := decEqMembers as bs
    decidable_of_iff (key = key' ∧ a = b ∧ as = bs) (by simp [and_assoc])
end

instance : DecidableEq Json := Json.decEq

abbrev Members := List (String × Json)

section
variable {α : Type}

def get (key : String) (value : List (String × α)) : Option α := (value.find? (·.1 = key)).map (·.2)

def has (key : String) (value : List (String × α)) : Bool := value.any (·.1 = key)

def erase (key : String) (value : List (String × α)) : List (String × α) := value.filter (·.1 ≠ key)

def set (key : String) (item : α) (value : List (String × α)) : List (String × α) :=
  if has key value then value.map fun member => if member.1 = key then (key, item) else member
  else value ++ [(key, item)]

theorem get_eq_none {key : String} {value : List (String × α)} (h : has key value = false) :
    get key value = none := by
  rw [get, Option.map_eq_none_iff, List.find?_eq_none]
  intro member hm
  have := List.any_eq_false.mp h member hm
  simpa using this

theorem get_set_self (key : String) (item : α) (value : List (String × α)) :
    get key (set key item value) = some item := by
  unfold set
  split
  · rename_i h
    obtain ⟨member, hm, hk⟩ := List.any_eq_true.mp h
    induction value with
    | nil => cases hm
    | cons first value ih =>
      by_cases hf : first.1 = key
      · simp [get, hf]
      · have hm : member ∈ value := (List.mem_cons.mp hm).resolve_left fun he => hf (he ▸ by simpa using hk)
        simpa [get, hf] using ih (List.any_eq_true.mpr ⟨member, hm, hk⟩) hm
  · rename_i h
    have hnone := get_eq_none (Bool.eq_false_iff.mpr h)
    rw [get, Option.map_eq_none_iff] at hnone
    simp [get, List.find?_append, hnone]

theorem has_eq (key : String) (value : List (String × α)) : has key value = (get key value).isSome := by
  rw [get, Option.isSome_map, List.isSome_find?]
  rfl

theorem get_append (key : String) (a b : List (String × α)) : get key (a ++ b) = (get key a).or (get key b) := by
  unfold get
  rw [List.find?_append]
  cases List.find? (fun member => decide (member.1 = key)) a <;> rfl

theorem get_map (key : String) (f : String → α → α) (value : List (String × α)) :
    get key (value.map fun member => (member.1, f member.1 member.2)) = (get key value).map (f key) := by
  unfold get
  induction value with
  | nil => rfl
  | cons first value ih =>
    by_cases hf : first.1 = key
    · simp [hf]
    · simpa [hf] using ih

theorem get_filter (key : String) (keep : String → Bool) (value : List (String × α)) :
    get key (value.filter fun member => keep member.1) = if keep key then get key value else none := by
  unfold get
  induction value with
  | nil => simp
  | cons first value ih =>
    by_cases hf : first.1 = key
    · by_cases hk : keep key
      · simp [hf, hk]
      · simpa [hf, hk] using ih
    · by_cases hk : keep first.1
      · simpa [hf, hk] using ih
      · simpa [hf, hk] using ih

theorem get_erase_other {key other : String} (h : other ≠ key) (value : List (String × α)) :
    get other (erase key value) = get other value := by
  rw [erase, get_filter other fun name => decide (name ≠ key), if_pos (by simpa using h)]

theorem get_set_other {key other : String} (h : other ≠ key) (item : α) (value : List (String × α)) :
    get other (set key item value) = get other value := by
  unfold set
  split
  · rename_i hhas
    clear hhas
    unfold get
    induction value with
    | nil => rfl
    | cons first value ih =>
      rw [List.map_cons, List.find?_cons, List.find?_cons]
      by_cases hf : first.1 = key
      · have hk : first.1 ≠ other := fun he => h (he.symm.trans hf)
        simpa [hf, h.symm, hk] using ih
      · by_cases ho : first.1 = other
        · simp [ho, h]
        · simpa [hf, ho] using ih
  · simp [get, List.find?_append, h.symm]

end

def assign (target source : Members) : Members :=
  target.map (fun member => (member.1, (get member.1 source).getD member.2)) ++ source.filter fun member => !has member.1 target

theorem get_assign (key : String) (target source : Members) :
    get key (assign target source) = (get key source).or (get key target) := by
  unfold assign
  rw [get_append, get_map key (fun key item => (get key source).getD item), get_filter key fun key => !has key target, has_eq]
  cases get key target <;> cases get key source <;> rfl

def utf16 (c : Char) : List Nat :=
  if c.toNat < 0x10000 then [c.toNat] else [0xd800 + (c.toNat - 0x10000) / 0x400, 0xdc00 + (c.toNat - 0x10000) % 0x400]

def keyLe (a b : String) : Bool := a.toList.flatMap utf16 ≤ b.toList.flatMap utf16

mutual
/-- What `canonicalJson` writes: every record by its keys in order. -/
def canonical : Json → Json
  | .array items => .array (canonicalItems items)
  | .object members => .object ((canonicalMembers members).insertionSort fun a b => keyLe a.1 b.1)
  | value => value
def canonicalItems : List Json → List Json
  | [] => []
  | item :: items => canonical item :: canonicalItems items
def canonicalMembers : Members → Members
  | [] => []
  | (key, item) :: members => (key, canonical item) :: canonicalMembers members
end

def sameJson (a b : Json) : Bool := decide (canonical a = canonical b)

-- Thing Descriptions

abbrev ThingDescription := Members

def DISCOVERY_CONTEXT : String := "https://www.w3.org/2022/wot/discovery"

/-- A spread of what is neither a string nor an array fails without a code. -/
def contextEntries (td : ThingDescription) : Except String (List Json) :=
  match get "@context" td with
  | some (.string context) => .ok [.string context]
  | some (.array entries) => .ok entries
  | _ => .error "PublicationFailure"

def contextValue (entries : List Json) : Except String Json :=
  match entries with
  | .string first :: _ =>
    if first = "https://www.w3.org/2022/wot/td/v1.1" ∨ first = "https://www.w3.org/2019/wot/td/v1" then .ok (.array entries)
    else .error "InvalidDirectoryResponse"
  | _ => .error "InvalidDirectoryResponse"

def producerContent (td : ThingDescription) : Except String ThingDescription :=
  let copy := erase "registration" td
  match get "@context" copy with
  | some (.array entries) => do
    let context ← contextValue (entries.filter (· ≠ .string DISCOVERY_CONTEXT))
    pure (set "@context" context copy)
  | _ => .ok copy

def matchesProducer (actual expected : ThingDescription) : Except String Bool := do
  let received ← producerContent actual
  let wanted ← producerContent expected
  let context ← contextValue (← contextEntries received)
  let wantedContext ← contextValue (← contextEntries wanted)
  pure (sameJson (.object (set "@context" context received)) (.object (set "@context" wantedContext wanted)))

def contextArray (td : ThingDescription) : Option (List Json) :=
  match get "@context" td with
  | some (.array entries) => some entries
  | _ => none

def mergeProducer (remote previous : Option ThingDescription) (desired : ThingDescription) :
    Except String ThingDescription := do
  let merged := ((previous.getD []).map (·.1)).foldl
    (fun value key => if has key desired then value else erase key value) (remote.getD desired)
  let contexts := (remote.bind contextArray).getD []
  let merged := assign merged desired
  let merged ← match contextArray desired with
    | some desiredContexts => do
      let owned := (previous.bind contextArray).getD []
      let extra := contexts.filter fun entry =>
        entry ≠ .string DISCOVERY_CONTEXT && !owned.any (sameJson · entry) && !desiredContexts.any (sameJson · entry)
      pure (set "@context" (← contextValue (desiredContexts ++ extra)) merged)
    | none => pure merged
  pure (erase "registration" merged)

section
variable (sha256 : Json → String) (stringOf : Option Json → String)

def digest (value : Json) : String := sha256 (canonical value)

def producerDigest (td : ThingDescription) : Except String String := do
  pure (digest sha256 (.object (← producerContent td)))

def versionedThing (td : ThingDescription) : ThingDescription :=
  let modelVersion := stringOf (get "onvif:registryDigest" td) ++ "." ++ stringOf (get "onvif:requirementsDigest" td)
  let copy := erase "onvif:projectionDigest" (erase "version" td)
  let instance_ := digest sha256 (.object copy)
  set "onvif:projectionDigest" (.string instance_)
    (set "version" (.object [("model", .string modelVersion), ("instance", .string instance_)]) copy)

end

example : matchesProducer
    [("@context", .array [.string "https://www.w3.org/2019/wot/td/v1", .string DISCOVERY_CONTEXT]), ("id", .string "urn:a"),
      ("registration", .null)]
    [("id", .string "urn:a"), ("@context", .string "https://www.w3.org/2019/wot/td/v1")] = .ok true := by
  decide +kernel

end WotAv.Publication
