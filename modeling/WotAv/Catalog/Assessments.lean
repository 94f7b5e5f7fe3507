import Mathlib.Data.List.Infix
import WotAv.Binding.Errors
import WotAv.Catalog.Conditions
import WotAv.Lib.Throwing

/-!
# Assessments of requirements (`src/projection/project.ts`)

`assessments` and `groupAssessments`. What a row says beyond its condition is
passed on as it stands.
-/

namespace WotAv.Catalog

open WotAv.Lib
open WotAv.Binding (OnvifError require)
open WotAv.Lib.Json (get)

variable {ε : Type}

-- The requirement index (`src/catalog/requirements.ts`)

structure RequirementAtom where
  id : String
  profile : String
  edition : String
  role : String
  source : JsonValue
  requirementLevel : String
  condition : Option Condition
  editorialDecisionIds : List String
  obligationGroupId : Option String
  interpretation : Option JsonValue

structure RequirementResolution where
  requirementId : String
  operationIds : List String
  disposition : String
  rationale : String

structure RequirementIndex where
  requirements : List RequirementAtom
  resolutions : List RequirementResolution
  obligationGroups : List JsonRecord
  editorialDecisions : List JsonRecord

mutual
def stringOf : JsonValue → String
  | .null => "null"
  | .bool value => if value then "true" else "false"
  | .number value => String.ofList value.toChars
  | .string value => value
  | .array items => ",".intercalate (joined items)
  | .object _ => "[object Object]"
/-- What `join` makes of the items. -/
def joined : List JsonValue → List String
  | [] => []
  | .null :: items => "" :: joined items
  | item :: items => stringOf item :: joined items
end

-- Rows

structure ProjectionDiagnostic where
  code : String
  severity : String
  message : String
  requirementId : Option String := none

structure RequirementAssessment where
  requirementId : String
  profile : String
  edition : String
  role : String
  applicability : Truth
  condition : ConditionResult
  requirementLevel : String
  source : JsonValue
  representation : String
  rationale : String
  observedOperationIds : List String
  runtimeEvidence : String := "not-established-by-projection"
  obligationGroupId : Option String
  unresolvedEditorialDecisionIds : List String
  interpretation : Option JsonValue

def isUnresolved (decision : JsonRecord) : Bool :=
  "unresolved".toList <:+: ((get "status" decision).elim "undefined" stringOf).toList

def editorialOf (index : RequirementIndex) (row : RequirementAtom) : List String :=
  row.editorialDecisionIds.filter fun id => index.editorialDecisions.any fun decision =>
    (get "id" decision).bind (·.asString) = some id && isUnresolved decision

def assessment (index : RequirementIndex) (facts : Facts ε) (exposed : List String) (row : RequirementAtom) :
    Except OnvifError (RequirementAssessment × List ProjectionDiagnostic) := do
  let evaluated := evaluateCondition row.condition facts
  let editorial := editorialOf index row
  let applicability := if editorial ≠ [] then .unknown else evaluated.value
  let diagnostics : List ProjectionDiagnostic :=
    if applicability ≠ .unknown then []
    else if editorial ≠ [] then
      [{ code := "unresolved-editorial-condition", severity := "info", requirementId := row.id
         message := "Normative interpretation remains unresolved: " ++ ", ".intercalate editorial ++ "." }]
    else
      [{ code := "unknown-requirement-condition", severity := "info", requirementId := row.id
         message := " ".intercalate (evaluated.diagnostics.map (·.message)) }]
  match index.resolutions.find? (·.requirementId = row.id) with
  | none => .error ⟨.invalidRegistry, "No disposition for " ++ row.id, .notSent⟩
  | some resolution =>
    .ok ({ requirementId := row.id, profile := row.profile, edition := row.edition, role := row.role
           applicability, condition := evaluated, requirementLevel := row.requirementLevel, source := row.source
           representation := resolution.disposition, rationale := resolution.rationale
           observedOperationIds := resolution.operationIds.filter exposed.contains
           obligationGroupId := row.obligationGroupId, unresolvedEditorialDecisionIds := editorial
           interpretation := row.interpretation }, diagnostics)

def assessments (index : RequirementIndex) (facts : Facts ε) (exposed : List String) (rows : List RequirementAtom) :
    Except OnvifError (List RequirementAssessment × List ProjectionDiagnostic) := do
  let assessed ← rows.mapM (assessment index facts exposed)
  return (assessed.map (·.1), assessed.flatMap (·.2))

-- Obligation groups

structure BranchAssessment where
  id : Option JsonValue
  implementationEvidence : Truth
  diagnostics : List ConditionDiagnostic

structure GroupAssessment where
  id : Option JsonValue
  applicability : Truth
  implementationEvidence : Truth
  atLeast : Option FiniteNumber := none
  branches : List BranchAssessment := []
  reason : Option String := none
  source : JsonRecord

def memberCondition (index : RequirementIndex) (id : JsonValue) : Except OnvifError Condition :=
  match index.requirements.find? fun candidate => id.asString = some candidate.id with
  | none => .error ⟨.invalidRegistry, "Dangling obligation member", .notSent⟩
  | some row => .ok (.all [row.condition.getD (.constant true), .fact ("requirement:" ++ row.id) (.bool true)])

def targetCondition (target : JsonValue) : Condition := .fact ("evidence:" ++ stringOf target) (.bool true)

def branchConditions (index : RequirementIndex) (entry : JsonValue) : Except OnvifError (List Condition) :=
  match entry with
  | .object branch =>
    match get "requirementIds" branch, get "evidenceTargets" branch with
    | some (.array ids), _ => ids.mapM (memberCondition index)
    | _, some (.array targets) => .ok (targets.map targetCondition)
    | _, _ => .ok []
  | _ => .error ⟨.invalidRegistry, "Malformed normalized obligation branch", .notSent⟩

def branchId (entry : JsonValue) : Option JsonValue := entry.asRecord.bind (get "id")

def branchAssessment (index : RequirementIndex) (facts : Facts ε) (entry : JsonValue) : Except OnvifError BranchAssessment := do
  let conditions ← branchConditions index entry
  let result := if conditions = [] then ⟨.unknown, [], []⟩ else evaluate facts (.all conditions)
  return ⟨branchId entry, result.value, result.diagnostics⟩

/-- A group without a condition, or with `null`, is triggered. -/
def triggerOf (group : JsonRecord) : Option Condition :=
  match get "condition" group with
  | none | some .null => none
  | some value => some (condition value)

def interpretation (group : JsonRecord) : Option (FiniteNumber × List JsonValue) :=
  match get "operator" group, get "branches" group, get "atLeast" group with
  | some (.string "atLeastN"), some (.array branches), some (.number atLeast) => some (atLeast, branches)
  | _, _, _ => none

def groupAssessment (index : RequirementIndex) (facts : Facts ε) (group : JsonRecord) : Except OnvifError GroupAssessment :=
  let applicability := evaluateCondition (triggerOf group) facts
  match interpretation group with
  | none => .ok
    { id := get "id" group, applicability := applicability.value, implementationEvidence := .unknown
      reason := "The group interpretation is not implemented; its members are not independent universal requirements."
      source := group }
  | some (atLeast, entries) => do
    let branches ← entries.mapM (branchAssessment index facts)
    let passed := (branches.map (·.implementationEvidence)).count .true
    let unknown := (branches.map (·.implementationEvidence)).count .unknown
    let state : Truth := if atLeast.value ≤ passed then .true else if (passed + unknown : ℚ) < atLeast.value then .false else .unknown
    return { id := get "id" group, applicability := applicability.value
             implementationEvidence := if applicability.value = .true then state else .unknown
             atLeast, branches, source := group }

def groupAssessments (groups : List JsonRecord) (index : RequirementIndex) (facts : Facts ε) :
    Except OnvifError (List GroupAssessment) :=
  groups.mapM (groupAssessment index facts)

-- The classical reading of a group

def branchReading (a : Assignment) (entry : JsonValue) (conditions : List Condition) : Bool :=
  if conditions = [] then a.opinion entry else reading a (.all conditions)

def groupReading (index : RequirementIndex) (group : JsonRecord) (a : Assignment) : Bool :=
  match interpretation group with
  | none => a.opinion (.object group)
  | some (atLeast, entries) =>
    match entries.mapM (branchConditions index) with
    | .error _ => a.opinion (.object group)
    | .ok conditions => atLeast.value ≤ (List.zipWith (branchReading a) entries conditions).count true

/-- What a group's assessment says for the facts, it says truly. -/
structure GroupSound (index : RequirementIndex) (facts : Facts ε) (group : JsonRecord) (assessed : GroupAssessment) : Prop where
  applicable : SoundFor facts assessed.applicability (readingOf · (triggerOf group))
  evidence : ∀ b, assessed.implementationEvidence = .ofBool b → ∀ a : Assignment, a.Agrees facts →
    readingOf a (triggerOf group) = true ∧ groupReading index group a = b
  branches : ∀ branch ∈ assessed.branches, ∃ entry conditions, branchConditions index entry = .ok conditions ∧
    SoundFor facts branch.implementationEvidence (branchReading · entry conditions)

/-- Each verdict of the second says at least what that of the first says. -/
structure GroupBelow (assessed assessed' : GroupAssessment) : Prop where
  applicability : Truth.Below assessed.applicability assessed'.applicability
  evidence : Truth.Below assessed.implementationEvidence assessed'.implementationEvidence
  branches : List.Forall₂ (fun branch branch' => Truth.Below branch.implementationEvidence branch'.implementationEvidence)
    assessed.branches assessed'.branches

-- Branches

def branchTruth (facts : Facts ε) (conditions : List Condition) : Truth :=
  if conditions = [] then .unknown else (evaluate facts (.all conditions)).value

variable {index : RequirementIndex} {facts : Facts ε}

theorem branchAssessment_ok {entry : JsonValue} {branch : BranchAssessment} :
    branchAssessment index facts entry = .ok branch ↔ ∃ conditions, branchConditions index entry = .ok conditions ∧
      branch = ⟨branchId entry, branchTruth facts conditions,
        if conditions = [] then [] else (evaluate facts (.all conditions)).diagnostics⟩ := by
  unfold branchAssessment branchTruth
  cases branchConditions index entry with
  | error e => simp [bind, Except.bind]
  | ok conditions =>
    by_cases h : conditions = [] <;> simp [bind, Except.bind, pure, Except.pure, h, eq_comm]

theorem branchTruth_sound {a : Assignment} (ha : a.Agrees facts) (entry : JsonValue)
    (conditions : List Condition) : Truth.Below (branchTruth facts conditions) (.ofBool (branchReading a entry conditions)) := by
  unfold branchTruth branchReading
  split
  · exact Truth.unknown_below _
  · exact evaluate_sound ha _

variable {facts facts' : Facts ε}

theorem branchTruth_below (h : Extends facts facts') (conditions : List Condition) :
    Truth.Below (branchTruth facts conditions) (branchTruth facts' conditions) := by
  unfold branchTruth
  split
  · exact Truth.Below.refl _
  · exact evaluate_below h _

variable {entries : List JsonValue} {branches : List BranchAssessment}

section
variable (h : entries.mapM (branchAssessment index facts) = .ok branches)
include h

theorem branches_ok :
    ∃ conditions, entries.mapM (branchConditions index) = .ok conditions ∧
      branches.map (·.implementationEvidence) = conditions.map (branchTruth facts) := by
  induction entries generalizing branches with
  | nil =>
    obtain rfl : [] = branches := Except.ok.inj h
    exact ⟨[], rfl, rfl⟩
  | cons entry entries ih =>
    obtain ⟨branch, rest, hb, hr, rfl⟩ := except_mapM_cons.mp h
    obtain ⟨conditions, hc, rfl⟩ := branchAssessment_ok.mp hb
    obtain ⟨others, ho, he⟩ := ih hr
    exact ⟨conditions :: others, except_mapM_cons.mpr ⟨_, _, hc, ho, rfl⟩, by simp [he]⟩

theorem branches_sound :
    ∀ branch ∈ branches, ∃ entry conditions, branchConditions index entry = .ok conditions ∧
      SoundFor facts branch.implementationEvidence (branchReading · entry conditions) := by
  induction entries generalizing branches with
  | nil =>
    obtain rfl : [] = branches := Except.ok.inj h
    simp
  | cons entry entries ih =>
    obtain ⟨first, rest, hb, hr, rfl⟩ := except_mapM_cons.mp h
    obtain ⟨conditions, hc, rfl⟩ := branchAssessment_ok.mp hb
    intro branch hm
    rcases List.mem_cons.mp hm with rfl | hm
    · exact ⟨entry, conditions, hc, fun b hb a ha => Truth.ofBool_inj.mp ((branchTruth_sound ha entry conditions).definite hb)⟩
    · exact ih hr branch hm

end

theorem branches_below (hx : Extends facts facts')
    (h : entries.mapM (branchAssessment index facts) = .ok branches) :
    ∃ branches', entries.mapM (branchAssessment index facts') = .ok branches' ∧
      List.Forall₂ (fun branch branch' => Truth.Below branch.implementationEvidence branch'.implementationEvidence)
        branches branches' := by
  induction entries generalizing branches with
  | nil =>
    obtain rfl : [] = branches := Except.ok.inj h
    exact ⟨[], rfl, .nil⟩
  | cons entry entries ih =>
    obtain ⟨first, rest, hb, hr, rfl⟩ := except_mapM_cons.mp h
    obtain ⟨conditions, hc, rfl⟩ := branchAssessment_ok.mp hb
    obtain ⟨rest', hr', hf⟩ := ih hr
    exact ⟨_ :: rest', except_mapM_cons.mpr ⟨_, _, branchAssessment_ok.mpr ⟨conditions, hc, rfl⟩, hr', rfl⟩,
      .cons (branchTruth_below hx conditions) hf⟩

-- Groups

variable {assessed : GroupAssessment}

variable {group : JsonRecord}

theorem groupAssessment_interpreted
    {atLeast : FiniteNumber} (hi : interpretation group = some (atLeast, entries)) :
    groupAssessment index facts group = .ok assessed ↔
      ∃ branches, entries.mapM (branchAssessment index facts) = .ok branches ∧ assessed =
        { id := get "id" group, applicability := (evaluateCondition (triggerOf group) facts).value
          implementationEvidence := if (evaluateCondition (triggerOf group) facts).value = .true then
            Truth.atLeast (fun n => atLeast.value ≤ (n : ℚ)) (branches.map (·.implementationEvidence)) else .unknown
          atLeast, branches, source := group } := by
  simp only [groupAssessment, hi]
  cases entries.mapM (branchAssessment index facts) with
  | error e => simp [bind, Except.bind]
  | ok branches =>
    have hstate : ∀ p u : Nat, (if atLeast.value ≤ (p : ℚ) then Truth.true
        else if ((p : ℚ) + (u : ℚ)) < atLeast.value then .false else .unknown) =
        if atLeast.value ≤ (p : ℚ) then .true else if atLeast.value ≤ ((p + u : Nat) : ℚ) then .unknown else .false := by
      intro p u
      push_cast
      by_cases h : atLeast.value ≤ (p : ℚ) + u
      · rw [if_neg (not_lt.mpr h), if_pos h]
      · rw [if_pos (not_le.mp h), if_neg h]
    simp [bind, Except.bind, pure, Except.pure, Truth.atLeast, hstate, eq_comm]

theorem enough_mono (threshold : ℚ) : ∀ m n : Nat, m ≤ n → decide (threshold ≤ (m : ℚ)) = true → decide (threshold ≤ (n : ℚ)) = true := by
  intro m n hmn
  simp only [decide_eq_true_eq]
  intro h
  exact h.trans (by exact_mod_cast hmn)

theorem branchTruths_below {a : Assignment} (ha : a.Agrees facts) {conditions : List (List Condition)} (h : entries.mapM (branchConditions index) = .ok conditions) :
    List.Forall₂ Truth.Below (conditions.map (branchTruth facts))
      ((List.zipWith (branchReading a) entries conditions).map .ofBool) := by
  induction entries generalizing conditions with
  | nil =>
    obtain rfl : [] = conditions := Except.ok.inj h
    exact .nil
  | cons entry entries ih =>
    obtain ⟨first, rest, -, hr, rfl⟩ := except_mapM_cons.mp h
    exact .cons (branchTruth_sound ha entry first) (ih hr)

theorem groupAssessment_sound
    (h : groupAssessment index facts group = .ok assessed) : GroupSound index facts group assessed := by
  have hc := evaluateCondition_sound facts (triggerOf group)
  cases hi : interpretation group with
  | none =>
    simp only [groupAssessment, hi, Except.ok.injEq] at h
    subst h
    exact ⟨hc, fun b hb => absurd hb.symm Truth.ofBool_ne_unknown, by simp⟩
  | some found =>
    obtain ⟨atLeast, entries⟩ := found
    obtain ⟨branches, hb, rfl⟩ := (groupAssessment_interpreted hi).mp h
    obtain ⟨conditions, hcs, he⟩ := branches_ok hb
    refine ⟨hc, ?_, branches_sound hb⟩
    intro b hv a ha
    simp only at hv
    split at hv
    · rename_i ht
      refine ⟨hc true ht a ha, ?_⟩
      rw [he] at hv
      have hbelow := Truth.atLeast_below (enough_mono atLeast.value) (branchTruths_below ha hcs)
      have hval := hbelow.definite hv
      rw [Truth.atLeast_ofBool, Truth.ofBool_inj] at hval
      simpa only [groupReading, hi, hcs] using hval
    · exact absurd hv.symm Truth.ofBool_ne_unknown

theorem groupAssessment_below (hx : Extends facts facts') (h : groupAssessment index facts group = .ok assessed) :
    ∃ assessed', groupAssessment index facts' group = .ok assessed' ∧ GroupBelow assessed assessed' := by
  have hc := evaluateCondition_below hx (triggerOf group)
  cases hi : interpretation group with
  | none =>
    simp only [groupAssessment, hi, Except.ok.injEq] at h ⊢
    subst h
    exact ⟨_, rfl, hc, Truth.Below.refl _, .nil⟩
  | some found =>
    obtain ⟨atLeast, entries⟩ := found
    obtain ⟨branches, hb, rfl⟩ := (groupAssessment_interpreted hi).mp h
    obtain ⟨branches', hb', hf⟩ := branches_below hx hb
    refine ⟨_, (groupAssessment_interpreted hi).mpr ⟨branches', hb', rfl⟩, hc, ?_, hf⟩
    simp only
    split
    · rename_i ht
      rw [if_pos (show (evaluateCondition (triggerOf group) facts').value = Truth.true from hc.definite (b := true) ht)]
      exact Truth.atLeast_below (enough_mono atLeast.value)
        (List.forall₂_map_left_iff.mpr (List.forall₂_map_right_iff.mpr hf))
    · exact Truth.unknown_below _

theorem groupAssessments_sound {groups : List JsonRecord}
    {assessed : List GroupAssessment} (h : groupAssessments groups index facts = .ok assessed) :
    List.Forall₂ (GroupSound index facts) groups assessed := by
  unfold groupAssessments at h
  induction groups generalizing assessed with
  | nil =>
    obtain rfl : [] = assessed := Except.ok.inj h
    exact .nil
  | cons group groups ih =>
    obtain ⟨first, rest, hf, hr, rfl⟩ := except_mapM_cons.mp h
    exact .cons (groupAssessment_sound hf) (ih hr)

theorem groupAssessments_below (hx : Extends facts facts')
    {groups : List JsonRecord} {assessed : List GroupAssessment} (h : groupAssessments groups index facts = .ok assessed) :
    ∃ assessed', groupAssessments groups index facts' = .ok assessed' ∧ List.Forall₂ GroupBelow assessed assessed' := by
  unfold groupAssessments at h ⊢
  induction groups generalizing assessed with
  | nil =>
    obtain rfl : [] = assessed := Except.ok.inj h
    exact ⟨[], rfl, .nil⟩
  | cons group groups ih =>
    obtain ⟨first, rest, hf, hr, rfl⟩ := except_mapM_cons.mp h
    obtain ⟨first', hf', hb⟩ := groupAssessment_below hx hf
    obtain ⟨rest', hr', hbs⟩ := ih hr
    exact ⟨first' :: rest', except_mapM_cons.mpr ⟨_, _, hf', hr', rfl⟩, .cons hb hbs⟩

-- Rows

variable {row : RequirementAtom} {assessed : RequirementAssessment × List ProjectionDiagnostic}

variable {exposed : List String}

theorem assessment_ok (h : assessment index facts exposed row = .ok assessed) :
    assessed.1.applicability = if editorialOf index row ≠ [] then .unknown else (evaluateCondition row.condition facts).value := by
  simp only [assessment] at h
  split at h
  · cases h
  · obtain rfl := Except.ok.inj h
    rfl

theorem applicability_sound (h : assessment index facts exposed row = .ok assessed) :
    SoundFor facts assessed.1.applicability (readingOf · row.condition) := by
  rw [assessment_ok h]
  split
  · exact fun b hb => absurd hb.symm Truth.ofBool_ne_unknown
  · exact evaluateCondition_sound facts row.condition

theorem applicability_below (hx : Extends facts facts') {assessed assessed' : RequirementAssessment × List ProjectionDiagnostic}
    (h : assessment index facts exposed row = .ok assessed) (h' : assessment index facts' exposed row = .ok assessed') :
    Truth.Below assessed.1.applicability assessed'.1.applicability := by
  rw [assessment_ok h, assessment_ok h']
  split
  · exact Truth.Below.refl _
  · exact evaluateCondition_below hx row.condition

-- Missing evidence

/-- What is reported of conditions and groups is true whatever the unknown
facts are, and stays reported when more of them become known. -/
theorem verdicts_sound (index : RequirementIndex) (groups : List JsonRecord) (facts facts' : Facts ε) :
    (∀ expression, SoundFor facts (evaluateCondition expression facts).value (readingOf · expression)) ∧
    (∀ assessed, groupAssessments groups index facts = .ok assessed →
      List.Forall₂ (GroupSound index facts) groups assessed) ∧
    (Extends facts facts' →
      (∀ expression, Truth.Below (evaluateCondition expression facts).value (evaluateCondition expression facts').value) ∧
      ∀ assessed, groupAssessments groups index facts = .ok assessed →
        ∃ assessed', groupAssessments groups index facts' = .ok assessed' ∧ List.Forall₂ GroupBelow assessed assessed') :=
  ⟨evaluateCondition_sound facts, fun _ h => groupAssessments_sound h,
    fun hx => ⟨evaluateCondition_below hx, fun _ h => groupAssessments_below hx h⟩⟩

def eitherTarget : JsonRecord :=
  [("id", .string "storage"), ("operator", .string "atLeastN"), ("atLeast", .number ⟨false, 1, 1, by decide⟩),
    ("branches", .array [.object [("id", .string "edge"), ("evidenceTargets", .array [.string "sd"])],
      .object [("id", .string "remote"), ("evidenceTargets", .array [.string "nas"])]])]

def noRequirements : RequirementIndex := ⟨[], [], [], []⟩

def edgeFacts : Facts Unit := [("evidence:sd", .known (.bool true) [()]), ("evidence:nas", .missing .timeout [])]

def remoteFacts : Facts Unit := [("evidence:sd", .known (.bool true) [()]), ("evidence:nas", .known (.bool false) [()])]

theorem edge_extends : Extends edgeFacts remoteFacts := by
  intro fact value first rest h
  simp only [observation, edgeFacts, remoteFacts, List.find?_cons] at h ⊢
  by_cases hs : fact = "evidence:sd"
  · subst hs
    simp only [decide_true, Option.map_some, Option.some.injEq, Observation.known.injEq] at h ⊢
    obtain ⟨rfl, -⟩ := h
    exact ⟨(), [], rfl, rfl⟩
  · by_cases hn : fact = "evidence:nas" <;> simp [hs, hn, eq_comm] at h

theorem edge_assessed : ∃ first, groupAssessments [eitherTarget] noRequirements edgeFacts = .ok [first] ∧
    first.implementationEvidence = .true :=
  ⟨_, rfl, by decide +kernel⟩

theorem verdicts_sound_edge :
    ∃ first later, groupAssessments [eitherTarget] noRequirements edgeFacts = .ok [first] ∧
      groupAssessments [eitherTarget] noRequirements remoteFacts = .ok [later] ∧
      first.implementationEvidence = .true ∧ later.implementationEvidence = .true ∧
      ∀ a : Assignment, a.Agrees edgeFacts → groupReading noRequirements eitherTarget a = true := by
  obtain ⟨-, hsound, hmono⟩ := verdicts_sound noRequirements [eitherTarget] edgeFacts remoteFacts
  obtain ⟨first, hf, ht⟩ := edge_assessed
  obtain ⟨assessed', hl, hb⟩ := (hmono edge_extends).2 _ hf
  obtain ⟨later, _, hbelow, hnil, rfl⟩ := List.forall₂_cons_left_iff.mp hb
  obtain rfl := List.forall₂_nil_left_iff.mp hnil
  obtain ⟨hgroup, -⟩ := List.forall₂_cons.mp (hsound _ hf)
  exact ⟨first, later, hf, hl, ht, hbelow.evidence.definite (b := true) ht, fun a ha => (hgroup.evidence true ht a ha).2⟩

end WotAv.Catalog
