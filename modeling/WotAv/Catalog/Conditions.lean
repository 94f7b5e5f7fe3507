import WotAv.Lib.Json
import WotAv.Lib.Kleene

/-!
# Typed conditions (`src/catalog/conditions.ts`)

The parser of condition expressions, and their evaluation over the facts that
have been observed.
-/

namespace WotAv.Catalog

open WotAv.Lib

abbrev JsonValue := Json FiniteNumber

abbrev JsonRecord := List (String × JsonValue)

-- Observations (`src/catalog/snapshot.ts`)

inductive ObservationState
  | unsupported | denied | fault | timeout | truncated | unknown
  deriving DecidableEq, Repr

def ObservationState.text : ObservationState → String
  | .unsupported => "unsupported"
  | .denied => "denied"
  | .fault => "fault"
  | .timeout => "timeout"
  | .truncated => "truncated"
  | .unknown => "unknown"

inductive Observation (ε : Type)
  | known (value : JsonValue) (evidence : List ε)
  | missing (state : ObservationState) (evidence : List ε)

abbrev Facts (ε : Type) := List (String × Observation ε)

variable {ε : Type}

def observation (facts : Facts ε) (fact : String) : Option (Observation ε) :=
  (facts.find? (·.1 = fact)).map (·.2)

def Observation.state : Observation ε → String
  | .known .. => "known"
  | .missing state _ => state.text

-- Parsing

mutual
/-- `isJsonValue`, of a value that has `levels` levels left. -/
def withinBounds : (levels : Nat) → JsonValue → Bool
  | 0, _ => false
  | levels + 1, .array items => items.length ≤ 20000 && itemsWithin levels items
  | levels + 1, .object members => members.length ≤ 20000 && membersWithin levels members
  | _ + 1, _ => true
def itemsWithin (levels : Nat) : List JsonValue → Bool
  | [] => true
  | item :: items => withinBounds levels item && itemsWithin levels items
def membersWithin (levels : Nat) : JsonRecord → Bool
  | [] => true
  | (_, item) :: members => withinBounds levels item && membersWithin levels members
end

def isJsonValue (value : JsonValue) : Bool := withinBounds 65 value

inductive Condition
  | all (terms : List Condition)
  | any (terms : List Condition)
  | not (term : Condition)
  | fact (fact : String) (equals : JsonValue)
  | atLeast (threshold : Nat) (of : List Condition)
  | constant (value : Bool)
  | unresolved (value : JsonValue) (reason : String)

def operands (operator : String) (members : JsonRecord) : Option (List JsonValue) :=
  if members.length = 1 then
    ((Json.get operator members).bind fun terms => terms.asArray).filter fun terms => !terms.isEmpty
  else none

def negated (members : JsonRecord) : Option JsonValue :=
  if members.length = 1 then (Json.get "not" members).filter isJsonValue else none

def constantOf (members : JsonRecord) : Option Bool :=
  match Json.get "constant" members with
  | some (.bool value) => if members.length = 1 then some value else none
  | _ => none

/-- A fact that is named without a value is compared with `true`. -/
def factOf (members : JsonRecord) : Option (String × JsonValue) :=
  match Json.get "fact" members with
  | some (.string fact) =>
    let equals := Json.get "equals" members
    if fact ≠ "" ∧ (members.all fun member => member.1 = "fact" || member.1 = "equals") ∧ equals.all isJsonValue then
      some (fact, equals.getD (.bool true))
    else none
  | _ => none

def thresholdOf (members : JsonRecord) : Option (Nat × List JsonValue) :=
  match Json.get "atLeast" members, Json.get "of" members with
  | some (.number atLeast), some (.array terms) =>
    match atLeast.natural? with
    | some n =>
      if members.length = 2 ∧ n ≤ 2 ^ 53 - 1 ∧ 1 ≤ n ∧ n ≤ terms.length then some (n, terms) else none
    | none => none
  | _, _ => none

/-- `condition`, of an expression that has `levels` levels left: of 65, those
from its depth to 64. -/
def conditionAt : (levels : Nat) → JsonValue → Condition
  | 0, value => .unresolved value "Condition nesting exceeds the supported bound."
  | levels + 1, .object members =>
    if let some terms := operands "all" members then .all (terms.map (conditionAt levels))
    else if let some terms := operands "any" members then .any (terms.map (conditionAt levels))
    else if let some term := negated members then .not (conditionAt levels term)
    else if let some value := constantOf members then .constant value
    else if let some (fact, equals) := factOf members then .fact fact equals
    else if let some (n, terms) := thresholdOf members then .atLeast n (terms.map (conditionAt levels))
    else .unresolved (.object members)
      "Condition operator, operands, or annotations have no declared evaluator; no false default is inferred."
  | _ + 1, value => .unresolved value "An explicit typed condition expression is required."

def condition (value : JsonValue) : Condition := conditionAt 65 value

-- Evaluation

inductive ConditionCode
  | unknownFact | factTypeMismatch | unresolvedCondition
  deriving DecidableEq, Repr

structure ConditionDiagnostic where
  code : ConditionCode
  fact : Option String := none
  message : String
  deriving DecidableEq, Repr

structure ConditionResult where
  value : Truth
  facts : List String
  diagnostics : List ConditionDiagnostic

def valueKind : JsonValue → String
  | .null => "null"
  | .bool _ => "boolean"
  | .number _ => "number"
  | .string _ => "string"
  | .array _ => "array"
  | .object _ => "object"

def unknownFact (fact : String) (state : String) : ConditionResult :=
  ⟨.unknown, [fact], [⟨.unknownFact, fact, "Fact " ++ fact ++ " has no known, evidenced value (" ++ state ++ ")."⟩]⟩

def factResult (facts : Facts ε) (fact : String) (equals : JsonValue) : ConditionResult :=
  match observation facts fact with
  | some (.known value (_ :: _)) =>
    if valueKind value ≠ valueKind equals then
      ⟨.unknown, [fact], [⟨.factTypeMismatch, fact,
        "Fact " ++ fact ++ " is " ++ valueKind value ++ ", not " ++ valueKind equals ++ "; coercion is forbidden."⟩]⟩
    else ⟨if Json.canonicalJson value = Json.canonicalJson equals then .true else .false, [fact], []⟩
  | some found => unknownFact fact found.state
  | none => unknownFact fact "unobserved"

/-- The terms of an `all`, an `any` or an `atLeast`. -/
def counted (threshold : Nat) (results : List ConditionResult) : ConditionResult :=
  let positive := (results.map (·.value)).count .true
  let unknown := (results.map (·.value)).count .unknown
  { value := if threshold ≤ positive then .true else if positive + unknown < threshold then .false else .unknown
    facts := (results.flatMap (·.facts)).eraseDups.insertionSort (fun a b => Json.keyLe a b)
    diagnostics := results.flatMap (·.diagnostics) }

mutual
def evaluate (facts : Facts ε) : Condition → ConditionResult
  | .all terms => counted terms.length (evaluateTerms facts terms)
  | .any terms => counted 1 (evaluateTerms facts terms)
  | .not term =>
    let result := evaluate facts term
    { result with value := result.value.not }
  | .fact fact equals => factResult facts fact equals
  | .atLeast threshold terms => counted threshold (evaluateTerms facts terms)
  | .constant value => ⟨.ofBool value, [], []⟩
  | .unresolved _ reason => ⟨.unknown, [], [{ code := .unresolvedCondition, message := reason }]⟩
def evaluateTerms (facts : Facts ε) : List Condition → List ConditionResult
  | [] => []
  | term :: terms => evaluate facts term :: evaluateTerms facts terms
end

def evaluateCondition (expression : Option Condition) (facts : Facts ε) : ConditionResult :=
  match expression with
  | none => ⟨.true, [], []⟩
  | some expression => evaluate facts expression

-- Verdicts

mutual
/-- The value of an expression whose leaves have these verdicts. -/
def verdict (fact : String → JsonValue → Truth) (unresolved : JsonValue → Truth) : Condition → Truth
  | .all terms => Truth.atLeast (fun n => terms.length ≤ n) (verdicts fact unresolved terms)
  | .any terms => Truth.atLeast (fun n => 1 ≤ n) (verdicts fact unresolved terms)
  | .not term => (verdict fact unresolved term).not
  | .fact name equals => fact name equals
  | .atLeast threshold terms => Truth.atLeast (fun n => threshold ≤ n) (verdicts fact unresolved terms)
  | .constant value => .ofBool value
  | .unresolved value _ => unresolved value
def verdicts (fact : String → JsonValue → Truth) (unresolved : JsonValue → Truth) : List Condition → List Truth
  | [] => []
  | term :: terms => verdict fact unresolved term :: verdicts fact unresolved terms
end

theorem counted_value (threshold : Nat) (results : List ConditionResult) :
    (counted threshold results).value = Truth.atLeast (fun n => threshold ≤ n) (results.map (·.value)) := by
  simp only [counted, Truth.atLeast, decide_eq_true_eq]
  split
  · rfl
  · split <;> split <;> first | rfl | omega

mutual
theorem evaluate_value (facts : Facts ε) : ∀ expression,
    (evaluate facts expression).value = verdict (fun fact equals => (factResult facts fact equals).value) (fun _ => .unknown) expression
  | .all terms => by rw [evaluate, counted_value, evaluateTerms_value, verdict]
  | .any terms => by rw [evaluate, counted_value, evaluateTerms_value, verdict]
  | .not term => by rw [evaluate, verdict, ← evaluate_value facts term]
  | .fact fact equals => by rw [evaluate, verdict]
  | .atLeast threshold terms => by rw [evaluate, counted_value, evaluateTerms_value, verdict]
  | .constant value => by rw [evaluate, verdict]
  | .unresolved value reason => by rw [evaluate, verdict]
theorem evaluateTerms_value (facts : Facts ε) : ∀ terms, (evaluateTerms facts terms).map (·.value) =
    verdicts (fun fact equals => (factResult facts fact equals).value) (fun _ => .unknown) terms
  | [] => rfl
  | term :: terms => by
    rw [evaluateTerms, verdicts, List.map_cons, evaluate_value facts term, evaluateTerms_value facts terms]
end

section
variable {fact fact' : String → JsonValue → Truth} {unresolved unresolved' : JsonValue → Truth}

mutual
theorem verdict_below (hf : ∀ name equals, Truth.Below (fact name equals) (fact' name equals))
    (hu : ∀ value, Truth.Below (unresolved value) (unresolved' value)) : ∀ expression,
    Truth.Below (verdict fact unresolved expression) (verdict fact' unresolved' expression)
  | .all terms => Truth.atLeast_below (by simp; omega) (verdicts_below hf hu terms)
  | .any terms => Truth.atLeast_below (by simp; omega) (verdicts_below hf hu terms)
  | .not term => (verdict_below hf hu term).not
  | .fact name equals => hf name equals
  | .atLeast threshold terms => Truth.atLeast_below (by simp; omega) (verdicts_below hf hu terms)
  | .constant value => Truth.Below.refl _
  | .unresolved value _ => hu value
theorem verdicts_below (hf : ∀ name equals, Truth.Below (fact name equals) (fact' name equals))
    (hu : ∀ value, Truth.Below (unresolved value) (unresolved' value)) : ∀ terms,
    List.Forall₂ Truth.Below (verdicts fact unresolved terms) (verdicts fact' unresolved' terms)
  | [] => .nil
  | term :: terms => .cons (verdict_below hf hu term) (verdicts_below hf hu terms)
end

end

-- The classical reading

/-- A value for every fact, and a truth value for every expression that has no
evaluator. -/
structure Assignment where
  facts : String → JsonValue
  opinion : JsonValue → Bool

/-- The assignment has what is known and evidenced, and anything else. -/
def Assignment.Agrees (a : Assignment) (facts : Facts ε) : Prop :=
  ∀ fact value first rest, observation facts fact = some (.known value (first :: rest)) → a.facts fact = value

instance (a b : JsonValue) : Decidable (Json.Same a b) :=
  decidable_of_iff (Json.canonicalJson a = Json.canonicalJson b) Json.canonicalJson_inj

mutual
def reading (a : Assignment) : Condition → Bool
  | .all terms => (readings a terms).all id
  | .any terms => (readings a terms).any id
  | .not term => !reading a term
  | .fact fact equals => Json.Same (a.facts fact) equals
  | .atLeast threshold terms => threshold ≤ (readings a terms).count true
  | .constant value => value
  | .unresolved value _ => a.opinion value
def readings (a : Assignment) : List Condition → List Bool
  | [] => []
  | term :: terms => reading a term :: readings a terms
end

/-- No condition at all holds. -/
def readingOf (a : Assignment) (expression : Option Condition) : Bool := expression.all (reading a)

@[simp] theorem readings_length (a : Assignment) (terms : List Condition) : (readings a terms).length = terms.length := by
  induction terms with
  | nil => rfl
  | cons term terms ih => simp [readings, ih]

mutual
theorem verdict_reading (a : Assignment) : ∀ expression,
    verdict (fun fact equals => .ofBool (Json.Same (a.facts fact) equals)) (fun value => .ofBool (a.opinion value)) expression =
      .ofBool (reading a expression)
  | .all terms => by
    rw [verdict, verdicts_readings, Truth.atLeast_ofBool, Truth.ofBool_inj, reading, ← readings_length a terms]
    generalize readings a terms = bs
    have hle := List.count_le_length (a := true) (l := bs)
    rw [Bool.eq_iff_iff, decide_eq_true_eq, List.all_eq_true]
    constructor
    · intro h b hb
      exact (List.count_eq_length.mp (by omega : bs.count true = bs.length) b hb).symm
    · intro h
      exact Nat.le_of_eq (List.count_eq_length.mpr fun b hb => (h b hb).symm).symm
  | .any terms => by
    rw [verdict, verdicts_readings, Truth.atLeast_ofBool, Truth.ofBool_inj, reading]
    generalize readings a terms = bs
    rw [Bool.eq_iff_iff, decide_eq_true_eq, List.any_eq_true]
    constructor
    · intro h
      exact ⟨true, List.count_pos_iff.mp h, rfl⟩
    · rintro ⟨b, hb, rfl⟩
      exact List.count_pos_iff.mpr hb
  | .not term => by rw [verdict, verdict_reading a term, Truth.not_ofBool, reading]
  | .fact fact equals => by rw [verdict, reading]
  | .atLeast threshold terms => by rw [verdict, verdicts_readings, Truth.atLeast_ofBool, reading]
  | .constant value => by rw [verdict, reading]
  | .unresolved value _ => by rw [verdict, reading]
theorem verdicts_readings (a : Assignment) : ∀ terms,
    verdicts (fun fact equals => .ofBool (Json.Same (a.facts fact) equals)) (fun value => .ofBool (a.opinion value)) terms =
      (readings a terms).map .ofBool
  | [] => rfl
  | term :: terms => by rw [verdicts, readings, List.map_cons, verdict_reading a term, verdicts_readings a terms]
end

-- Soundness and monotonicity

/-- What the second facts know besides, the first do not know. -/
def Extends (facts facts' : Facts ε) : Prop :=
  ∀ fact value first rest, observation facts fact = some (.known value (first :: rest)) →
    ∃ first' rest', observation facts' fact = some (.known value (first' :: rest'))

def SoundFor (facts : Facts ε) (verdict : Truth) (reading : Assignment → Bool) : Prop :=
  ∀ b, verdict = .ofBool b → ∀ a : Assignment, a.Agrees facts → reading a = b

theorem factResult_known (facts : Facts ε) (fact : String) (equals : JsonValue) :
    (factResult facts fact equals).value = .unknown ∨
      ∃ value first rest, observation facts fact = some (.known value (first :: rest)) ∧ valueKind value = valueKind equals ∧
        (factResult facts fact equals).value = .ofBool (Json.Same value equals) := by
  unfold factResult
  split
  · rename_i value first rest ho
    by_cases hk : valueKind value = valueKind equals
    · refine .inr ⟨value, first, rest, ho, hk, ?_⟩
      by_cases hs : Json.Same value equals <;> simp [hk, hs, Json.canonicalJson_inj, Truth.ofBool]
    · exact .inl (by simp [hk])
  · exact .inl rfl
  · exact .inl rfl

theorem factResult_below {facts facts' : Facts ε} (h : Extends facts facts') (fact : String) (equals : JsonValue) :
    Truth.Below (factResult facts fact equals).value (factResult facts' fact equals).value := by
  rcases factResult_known facts fact equals with hu | ⟨value, first, rest, ho, hk, hv⟩
  · exact .inl hu
  · obtain ⟨first', rest', ho'⟩ := h fact value first rest ho
    right
    simp only [factResult, ho, ho', hk]

theorem factResult_sound {facts : Facts ε} {a : Assignment} (h : a.Agrees facts) (fact : String) (equals : JsonValue) :
    Truth.Below (factResult facts fact equals).value (.ofBool (Json.Same (a.facts fact) equals)) := by
  rcases factResult_known facts fact equals with hu | ⟨value, first, rest, ho, -, hv⟩
  · exact .inl hu
  · exact .inr (by rw [hv, h fact value first rest ho])

theorem evaluate_sound {facts : Facts ε} {a : Assignment} (h : a.Agrees facts) (expression : Condition) :
    Truth.Below (evaluate facts expression).value (.ofBool (reading a expression)) := by
  rw [evaluate_value, ← verdict_reading]
  exact verdict_below (factResult_sound h) (fun _ => Truth.unknown_below _) expression

theorem evaluate_below {facts facts' : Facts ε} (h : Extends facts facts') (expression : Condition) :
    Truth.Below (evaluate facts expression).value (evaluate facts' expression).value := by
  rw [evaluate_value, evaluate_value]
  exact verdict_below (factResult_below h) (fun _ => Truth.unknown_below _) expression

theorem evaluateCondition_sound (facts : Facts ε) (expression : Option Condition) :
    SoundFor facts (evaluateCondition expression facts).value (readingOf · expression) := by
  intro b hb a ha
  cases expression with
  | none => exact Truth.ofBool_inj.mp hb
  | some expression => exact Truth.ofBool_inj.mp ((evaluate_sound ha expression).definite hb)

theorem evaluateCondition_below {facts facts' : Facts ε} (h : Extends facts facts') (expression : Option Condition) :
    Truth.Below (evaluateCondition expression facts).value (evaluateCondition expression facts').value := by
  cases expression with
  | none => exact Truth.Below.refl _
  | some expression => exact evaluate_below h expression

end WotAv.Catalog
