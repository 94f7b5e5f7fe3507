import WotAv.Catalog.Requirements

/-!
# Rows and the order of properties

Nothing that a row is parsed into depends on the order of the properties of
what it is parsed from, but for the values that are passed on as they stand.
-/

namespace WotAv.Catalog.Requirements

open WotAv.Lib
open WotAv.Lib.Json
open WotAv.Binding (OnvifError QName isNCName)

-- Values

section
variable {ε α β γ : Type}

theorem map_bind (x : Except ε α) (f : α → β) (g : β → Except ε γ) : (f <$> x) >>= g = x >>= fun a => g (f a) := by
  cases x <;> rfl

theorem bind_map (x : Except ε α) (f : α → Except ε β) (g : β → γ) : g <$> (x >>= f) = x >>= fun a => g <$> f a := by
  cases x <;> rfl

end

@[simp] theorem asString_canonical (value : JsonValue) : (canonical value).asString = value.asString := by
  cases value <;> rfl

@[simp] theorem asNumber_canonical (value : JsonValue) : (canonical value).asNumber = value.asNumber := by
  cases value <;> rfl

@[simp] theorem asArray_canonical (value : JsonValue) :
    (canonical value).asArray = value.asArray.map (List.map canonical) := by
  cases value with
  | array entries => rw [canonical_array]; rfl
  | _ => rfl

@[simp] theorem asRecord_canonical (value : JsonValue) :
    (canonical value).asRecord = value.asRecord.map canonicalRecord := by
  cases value <;> rfl

section
variable (value : Option JsonValue)

@[simp] theorem bind_asString_canonical : (value.map canonical).bind Json.asString = value.bind Json.asString := by
  cases value <;> simp

@[simp] theorem bind_asNumber_canonical : (value.map canonical).bind Json.asNumber = value.bind Json.asNumber := by
  cases value <;> simp

@[simp] theorem bind_asArray_canonical :
    (value.map canonical).bind Json.asArray = (value.bind Json.asArray).map (List.map canonical) := by
  cases value <;> simp

@[simp] theorem bind_asRecord_canonical :
    (value.map canonical).bind Json.asRecord = (value.bind Json.asRecord).map canonicalRecord := by
  cases value <;> simp

end

theorem itemsWithin_eq (levels : Nat) (entries : List JsonValue) :
    itemsWithin levels entries = entries.all (withinBounds levels) := by
  induction entries with
  | nil => rfl
  | cons entry entries ih => rw [itemsWithin, ih, List.all_cons]

theorem membersWithin_eq (levels : Nat) (members : JsonRecord) :
    membersWithin levels members = members.all fun member => withinBounds levels member.2 := by
  induction members with
  | nil => rfl
  | cons member members ih =>
    obtain ⟨key, item⟩ := member
    rw [membersWithin, ih, List.all_cons]

@[simp] theorem withinBounds_canonical (levels : Nat) (value : JsonValue) :
    withinBounds levels (canonical value) = withinBounds levels value := by
  induction levels generalizing value with
  | zero => simp [withinBounds]
  | succ levels ih =>
    cases value with
    | array entries =>
      rw [canonical_array]
      simp only [withinBounds, itemsWithin_eq, List.length_map, List.all_map, Function.comp_def, ih]
    | object members =>
      rw [canonical_object]
      simp only [withinBounds, membersWithin_eq, length_canonicalRecord, (canonicalRecord_perm members).all_eq,
        List.all_map, Function.comp_def, ih]
    | _ => rfl

@[simp] theorem isJsonValue_canonical (value : JsonValue) : isJsonValue (canonical value) = isJsonValue value :=
  withinBounds_canonical 65 value

section
variable (value : Option JsonValue) (description : String)

@[simp] theorem nonempty_canonical : nonempty (value.map canonical) description = nonempty value description := by
  simp only [nonempty, bind_asString_canonical]

@[simp] theorem nonempty_some_canonical (value : JsonValue) :
    nonempty (some (canonical value)) description = nonempty (some value) description :=
  nonempty_canonical (some value) description

@[simp] theorem optional_canonical : optional (value.map canonical) description = optional value description := by
  cases value <;> simp [optional]

@[simp] theorem items_canonical :
    items (value.map canonical) description = List.map canonical <$> items value description := by
  simp only [items, bind_asArray_canonical]
  cases value.bind Json.asArray <;> rfl

@[simp] theorem strings_canonical (allowEmpty : Bool) :
    strings (value.map canonical) description allowEmpty = strings value description allowEmpty := by
  simp only [strings, items_canonical, map_bind, List.length_map, List.mapM_map, Function.comp_def,
    nonempty_some_canonical]

@[simp] theorem record_canonical :
    record (value.map canonical) description = canonicalRecord <$> record value description := by
  simp only [record, bind_asRecord_canonical]
  cases value.bind Json.asRecord with
  | none => rfl
  | some members =>
    have hbounds : isJsonValue (.object (canonicalRecord members)) = isJsonValue (.object members) :=
      isJsonValue_canonical (.object members)
    simp only [Option.map_some, hbounds]
    split <;> rfl

@[simp] theorem record_some_canonical (value : JsonValue) :
    record (some (canonical value)) description = canonicalRecord <$> record (some value) description :=
  record_canonical (some value) description

@[simp] theorem orElse_canonical (fallback : JsonValue) :
    orElse (value.map canonical) (canonical fallback) = canonical (orElse value fallback) := by
  rcases value with _ | value
  · rfl
  · cases value with
    | array entries => simp [orElse, canonical_array]
    | _ => rfl

@[simp] theorem choice_canonical {α : Type} (choices : List α) (text : α → String) :
    choice choices text (value.map canonical) description = choice choices text value description := by
  simp only [choice, bind_asString_canonical]

end

@[simp] theorem text?_canonical (key : String) (members : JsonRecord) :
    text? key (canonicalRecord members) = text? key members := by
  simp only [text?, get_canonicalRecord, bind_asString_canonical]

@[simp] theorem isQName_canonical (value : JsonValue) : isQName (canonical value) = isQName value := by
  unfold isQName
  rw [asRecord_canonical]
  cases value.asRecord with
  | none => rfl
  | some members =>
    simp only [Option.map_some, text?_canonical,
      all_keys_canonicalRecord (fun key => key = "namespace" || key = "localName") members]

@[simp] theorem nativeQName_canonical (value : JsonValue) (description : String) :
    nativeQName (canonical value) description = nativeQName value description := by
  simp only [nativeQName, isQName_canonical, asString_canonical]

-- Conditions

mutual
def conditionCanonical : Condition → Condition
  | .all terms => .all (conditionsCanonical terms)
  | .any terms => .any (conditionsCanonical terms)
  | .not term => .not (conditionCanonical term)
  | .fact fact equals => .fact fact (canonical equals)
  | .atLeast threshold terms => .atLeast threshold (conditionsCanonical terms)
  | .constant value => .constant value
  | .unresolved value reason => .unresolved (canonical value) reason
def conditionsCanonical : List Condition → List Condition
  | [] => []
  | term :: terms => conditionCanonical term :: conditionsCanonical terms
end

theorem conditionsCanonical_eq (terms : List Condition) : conditionsCanonical terms = terms.map conditionCanonical := by
  induction terms with
  | nil => rfl
  | cons term terms ih => rw [conditionsCanonical, ih, List.map_cons]

section
variable (members : JsonRecord)

theorem operands_canonical (operator : String) :
    operands operator (canonicalRecord members) = (operands operator members).map (List.map canonical) := by
  have hget : ((get operator members).map canonical).bind (fun terms => terms.asArray) =
      ((get operator members).bind fun terms => terms.asArray).map (List.map canonical) :=
    bind_asArray_canonical (get operator members)
  simp only [operands, length_canonicalRecord, get_canonicalRecord, hget]
  split
  · cases (get operator members).bind fun terms => terms.asArray with
    | none => rfl
    | some terms => cases terms <;> rfl
  · rfl

theorem negated_canonical : negated (canonicalRecord members) = (negated members).map canonical := by
  simp only [negated, length_canonicalRecord, get_canonicalRecord]
  split
  · cases get "not" members with
    | none => rfl
    | some term =>
      simp only [Option.map_some, Option.filter_some, isJsonValue_canonical]
      split <;> rfl
  · rfl

theorem constantOf_canonical : constantOf (canonicalRecord members) = constantOf members := by
  simp only [constantOf, get_canonicalRecord, length_canonicalRecord]
  rcases get "constant" members with _ | value
  · rfl
  · cases value <;> rfl

theorem factOf_canonical :
    factOf (canonicalRecord members) = (factOf members).map fun fact => (fact.1, canonical fact.2) := by
  simp only [factOf, get_canonicalRecord,
    all_keys_canonicalRecord (fun key => key = "fact" || key = "equals") members]
  rcases get "fact" members with _ | value
  · rfl
  · cases value with
    | string fact =>
      have hall : ((get "equals" members).map canonical).all isJsonValue = (get "equals" members).all isJsonValue := by
        cases get "equals" members <;> simp
      simp only [Option.map_some, canonical, hall]
      split
      · cases get "equals" members <;> rfl
      · rfl
    | _ => rfl

theorem thresholdOf_canonical : thresholdOf (canonicalRecord members) =
    (thresholdOf members).map fun threshold => (threshold.1, threshold.2.map canonical) := by
  simp only [thresholdOf, get_canonicalRecord, length_canonicalRecord]
  rcases get "atLeast" members with _ | atLeast
  · rfl
  · cases atLeast with
    | number atLeast =>
      rcases get "of" members with _ | terms
      · rfl
      · cases terms with
        | array terms =>
          simp only [Option.map_some, canonical, canonicalItems_eq, List.length_map]
          cases atLeast.natural? with
          | none => rfl
          | some n =>
            simp only
            split <;> rfl
        | _ => rfl
    | _ => rfl

end

theorem conditionAt_canonical (levels : Nat) (value : JsonValue) :
    conditionAt levels (canonical value) = conditionCanonical (conditionAt levels value) := by
  induction levels generalizing value with
  | zero => simp [conditionAt, conditionCanonical]
  | succ levels ih =>
    have hterms : ∀ terms : List JsonValue, (terms.map canonical).map (conditionAt levels) =
        conditionsCanonical (terms.map (conditionAt levels)) := by
      intro terms
      rw [conditionsCanonical_eq, List.map_map, List.map_map]
      exact List.map_congr_left fun term _ => ih term
    cases value with
    | object members =>
      rw [canonical_object]
      simp only [conditionAt, operands_canonical, negated_canonical, constantOf_canonical, factOf_canonical,
        thresholdOf_canonical]
      cases operands "all" members with
      | some terms => simp only [Option.map_some, hterms, conditionCanonical]
      | none =>
      cases operands "any" members with
      | some terms => simp only [Option.map_some, Option.map_none, hterms, conditionCanonical]
      | none =>
      cases negated members with
      | some term => simp only [Option.map_some, Option.map_none, ih, conditionCanonical]
      | none =>
      cases constantOf members with
      | some value => simp only [Option.map_none, conditionCanonical]
      | none =>
      cases factOf members with
      | some fact => simp only [Option.map_some, Option.map_none, conditionCanonical]
      | none =>
      cases thresholdOf members with
      | some threshold => simp only [Option.map_some, Option.map_none, hterms, conditionCanonical]
      | none => simp only [Option.map_none, conditionCanonical, canonical_object]
    | array entries => rw [canonical_array]; simp [conditionAt, conditionCanonical, canonical_array]
    | _ => rfl

theorem condition_canonical (value : JsonValue) : condition (canonical value) = conditionCanonical (condition value) :=
  conditionAt_canonical 65 value

@[simp] theorem parseCondition_canonical (id : String) (value : Option JsonValue) :
    parseCondition id (value.map canonical) = Option.map conditionCanonical <$> parseCondition id value := by
  rcases value with _ | value
  · rfl
  · cases value with
    | null => rfl
    | array entries =>
      have h := condition_canonical (.array entries)
      rw [canonical_array] at h
      simp only [parseCondition, Option.map_some, canonical_array, h]
      rfl
    | bool value => exact congrArg (fun c => Except.ok (some c)) (condition_canonical (.bool value))
    | number value => exact congrArg (fun c => Except.ok (some c)) (condition_canonical (.number value))
    | string value => exact congrArg (fun c => Except.ok (some c)) (condition_canonical (.string value))
    | object members => exact congrArg (fun c => Except.ok (some c)) (condition_canonical (.object members))

-- Rows

@[simp] theorem parsePages_canonical (id : String) (source : JsonRecord) :
    parsePages id (canonicalRecord source) = parsePages id source := by
  simp only [parsePages, get_canonicalRecord, bind_asNumber_canonical]
  rcases get "printedPage" source with _ | page
  · rfl
  · cases page <;> rfl

@[simp] theorem parseSource_canonical (id : String) (source : JsonRecord) (pages : FiniteNumber × JsonValue) :
    parseSource id (canonicalRecord source) pages = parseSource id source pages := by
  simp only [parseSource, get_canonicalRecord, nonempty_canonical, optional_canonical]

@[simp] theorem expandTopic_canonical (id : String) (topicNamespace : Option JsonValue) (topic : Option String) :
    expandTopic id (topicNamespace.map canonical) topic = expandTopic id topicNamespace topic := by
  simp only [expandTopic, bind_asString_canonical]

@[simp] theorem parseNative_canonical (id : String) (entry : JsonValue) :
    parseNative id (canonical entry) = parseNative id entry := by
  have htype : ∀ (name : Option JsonValue) (description : String),
      ((name.map canonical).mapM fun name => nativeQName name description) =
        name.mapM fun name => nativeQName name description := by
    rintro (_ | name) description
    · rfl
    · simp
  simp only [parseNative, record_some_canonical, map_bind, get_canonicalRecord, optional_canonical,
    expandTopic_canonical, nonempty_canonical, htype]

@[simp] theorem groupIdOf_canonical (id : String) (groupId : Option JsonValue) (membership : Option JsonRecord) :
    groupIdOf id (groupId.map canonical) (membership.map canonicalRecord) =
      (groupIdOf id groupId membership).map canonical := by
  have hget : ∀ key, (membership.map canonicalRecord).bind (get key) = (membership.bind (get key)).map canonical := by
    intro key
    cases membership <;> simp
  have hinner : orElse ((membership.bind (get "id")).map canonical) .null =
      canonical (orElse (membership.bind (get "id")) .null) := orElse_canonical (membership.bind (get "id")) .null
  have houter := orElse_canonical groupId (orElse (membership.bind (get "id")) .null)
  simp only [groupIdOf, hget, hinner, houter, bind_asArray_canonical, Option.isSome_map]
  cases orElse groupId (orElse (membership.bind (get "id")) .null) with
  | null =>
    have hnull : canonical (.null : JsonValue) = .null := rfl
    simp only [hnull]
    split <;> rfl
  | array entries => simp [canonical_array]
  | _ => rfl

def RequirementAtom.canonical (row : RequirementAtom) : RequirementAtom :=
  { row with
    sourceRequirementLevel := Json.canonical row.sourceRequirementLevel
    featurePath := Json.canonical row.featurePath
    sourceScope := Json.canonical row.sourceScope
    condition := row.condition.map conditionCanonical
    raw := canonicalRecord row.raw }

theorem membership_canonical (value : Option JsonValue) (description : String) :
    ((value.map canonical).mapM fun group => record (some group) description) =
      Option.map canonicalRecord <$> value.mapM fun group => record (some group) description := by
  rcases value with _ | group
  · rfl
  · simp only [Option.map_some, Option.mapM_some, record_some_canonical]
    cases record (some group) description <;> rfl

theorem canonicalRecord_idem (members : JsonRecord) :
    canonicalRecord (canonicalRecord members) = canonicalRecord members :=
  Json.object.inj (canonical_idem (.object members))

mutual
theorem conditionCanonical_idem : ∀ expression : Condition,
    conditionCanonical (conditionCanonical expression) = conditionCanonical expression
  | .all terms => congrArg Condition.all (conditionsCanonical_idem terms)
  | .any terms => congrArg Condition.any (conditionsCanonical_idem terms)
  | .not term => congrArg Condition.not (conditionCanonical_idem term)
  | .fact fact equals => congrArg (Condition.fact fact) (canonical_idem equals)
  | .atLeast threshold terms => congrArg (Condition.atLeast threshold) (conditionsCanonical_idem terms)
  | .constant _ => rfl
  | .unresolved value reason => congrArg (Condition.unresolved · reason) (canonical_idem value)
theorem conditionsCanonical_idem : ∀ terms : List Condition,
    conditionsCanonical (conditionsCanonical terms) = conditionsCanonical terms
  | [] => rfl
  | term :: terms => congrArg₂ List.cons (conditionCanonical_idem term) (conditionsCanonical_idem terms)
end

theorem canonical_orElse (value : Option JsonValue) (fallback : JsonValue) :
    canonical (orElse (value.map canonical) fallback) = canonical (orElse value fallback) := by
  rcases value with _ | value
  · rfl
  · cases value with
    | null => rfl
    | array entries =>
      have h := canonical_idem (.array entries : JsonValue)
      rw [canonical_array] at h
      simpa [orElse, canonical_array] using h
    | bool value => exact canonical_idem (.bool value)
    | number value => exact canonical_idem (.number value)
    | string value => exact canonical_idem (.string value)
    | object members => exact canonical_idem (.object members)

theorem parseRequirement_canonical (input : Option JsonValue) :
    RequirementAtom.canonical <$> parseRequirement (input.map canonical) =
      RequirementAtom.canonical <$> parseRequirement input := by
  have hcondition : ∀ expression : Option Condition, (expression.map conditionCanonical).map conditionCanonical =
      expression.map conditionCanonical := by
    rintro (_ | expression)
    · rfl
    · exact congrArg some (conditionCanonical_idem expression)
  simp only [parseRequirement, record_canonical, map_bind, bind_map, get_canonicalRecord, nonempty_canonical,
    choice_canonical, parsePages_canonical, items_canonical, List.mapM_map, Function.comp_def, parseNative_canonical,
    parseCondition_canonical, membership_canonical, groupIdOf_canonical, parseSource_canonical, optional_canonical,
    strings_canonical, map_pure, RequirementAtom.canonical, canonical_orElse, hcondition, canonicalRecord_idem]

end WotAv.Catalog.Requirements
