import Mathlib.Logic.Equiv.Basic
import WotAv.Catalog.RequirementsCanonical

/-!
# Interpretations of requirements

What the editorial decisions make of a row does not depend on their order,
and can be made of its raw row again.
-/

namespace WotAv.Catalog.Requirements

open WotAv.Lib
open WotAv.Lib.Json
open WotAv.Binding (OnvifError QName isNCName)

-- Rows as JSON

mutual
theorem conditionJson_canonical : ∀ expression : Condition,
    canonical (conditionJson (conditionCanonical expression)) = canonical (conditionJson expression)
  | .all terms => by
    simp only [conditionCanonical, conditionJson, canonical, canonicalMembers, conditionsJson_canonical terms]
  | .any terms => by
    simp only [conditionCanonical, conditionJson, canonical, canonicalMembers, conditionsJson_canonical terms]
  | .not term => by
    simp only [conditionCanonical, conditionJson, canonical, canonicalMembers, conditionJson_canonical term]
  | .fact fact equals => by
    simp only [conditionCanonical, conditionJson, canonical, canonicalMembers, canonical_idem]
  | .atLeast threshold terms => by
    simp only [conditionCanonical, conditionJson, canonical, canonicalMembers, conditionsJson_canonical terms]
  | .constant value => rfl
  | .unresolved value reason => by
    simp only [conditionCanonical, conditionJson, canonical, canonicalMembers, canonical_idem]
theorem conditionsJson_canonical : ∀ terms : List Condition,
    canonicalItems (conditionsJson (conditionsCanonical terms)) = canonicalItems (conditionsJson terms)
  | [] => rfl
  | term :: terms => by
    simp only [conditionsCanonical, conditionsJson, canonicalItems, conditionJson_canonical term,
      conditionsJson_canonical terms]
end

variable {members members' : JsonRecord}

theorem object_congr
    (h : (members.map fun member => (member.1, canonical member.2)) =
      members'.map fun member => (member.1, canonical member.2)) :
    canonical (.object members) = canonical (.object members') := by
  rw [canonical_object, canonical_object, canonicalRecord, canonicalMembers_eq, h, ← canonicalMembers_eq]
  rfl

theorem json_canonical (row : RequirementAtom) : canonical row.canonical.json = canonical row.json := by
  have hcondition : canonical (((row.condition.map conditionCanonical).map conditionJson).getD .null) =
      canonical ((row.condition.map conditionJson).getD .null) := by
    cases row.condition with
    | none => rfl
    | some expression => exact conditionJson_canonical expression
  have hraw : canonical (.object (canonicalRecord row.raw)) = canonical (.object row.raw) :=
    canonical_idem (.object row.raw)
  have hscope : canonical (.object [("role", .string row.role.text), ("sourceScope", canonical row.sourceScope)]) =
      canonical (.object [("role", .string row.role.text), ("sourceScope", row.sourceScope)] : JsonValue) :=
    object_congr (by simp only [List.map_cons, List.map_nil, canonical_idem])
  refine object_congr ?_
  simp only [RequirementAtom.canonical, List.map_append, List.map_cons, List.map_nil, canonical_idem, hcondition,
    hscope, hraw]

theorem json_same {row row' : RequirementAtom} (h : row.canonical = row'.canonical) : Same row.json row'.json := by
  rw [Same, ← json_canonical row, h, json_canonical]

-- What a row is parsed from

theorem record_ok {value : Option JsonValue} {description : String} {members : JsonRecord}
    (h : record value description = .ok members) : value = some (.object members) := by
  unfold record at h
  split at h
  · split at h
    · obtain rfl := Except.ok.inj h
      rename_i hvalue _
      obtain ⟨value, rfl, hvalue⟩ := Option.bind_eq_some_iff.mp hvalue
      cases value with
      | object members => exact congrArg some (congrArg Json.object (Option.some.inj hvalue))
      | _ => cases hvalue
    · cases h
  · cases h


structure Parsed (members : JsonRecord) (row : RequirementAtom) : Prop where
  raw : row.raw = members
  id : nonempty (get "id" members) "Requirement ID" = .ok row.id
  profile : nonempty (get "profile" members) (row.id ++ " profile") = .ok row.profile
  edition : nonempty (get "edition" members) (row.id ++ " edition") = .ok row.edition
  role : choice [.device, .client] RequirementRole.text (get "role" members) (row.id ++ ": invalid role") = .ok row.role
  source : ∃ source pages, record (get "source" members) (row.id ++ " source") = .ok source ∧
    parsePages row.id source = .ok pages ∧ parseSource row.id source pages = .ok row.source

theorem except_bind_ok {α β : Type} {x : Except OnvifError α} {f : α → Except OnvifError β} {b : β} :
    (x >>= f) = .ok b ↔ ∃ a, x = .ok a ∧ f a = .ok b := by
  cases x <;> simp [bind, Except.bind]

theorem demand_ok {condition : Prop} [Decidable condition] {message : String} {u : Unit} :
    demand condition message = .ok u ↔ condition := by
  unfold demand
  split
  · simp_all
  · simp_all [invalid]

theorem parseRequirement_ok {input : Option JsonValue} {row : RequirementAtom}
    (h : parseRequirement input = .ok row) : ∃ members, input = some (.object members) ∧ Parsed members row := by
  simp only [parseRequirement, except_bind_ok] at h
  obtain ⟨members, hinput, id, hid, role, hrole, level, -, classification, -, source, hsource, pages, hpages, mapping,
    -, references, -, native, -, condition, -, membership, -, profile, hprofile, edition, hedition, rowSource,
    hrowSource, feature, -, kind, -, reason, -, evidence, -, editorial, -, group, -, h⟩ := h
  obtain rfl := Except.ok.inj h
  exact ⟨members, record_ok hinput, rfl, hid, hprofile, hedition, hrole, source, pages, hsource, hpages, hrowSource⟩

theorem parsed_unique {row row' : RequirementAtom} (h : Parsed members row)
    (h' : Parsed members' row') (hid : get "id" members' = get "id" members)
    (hprofile : get "profile" members' = get "profile" members)
    (hedition : get "edition" members' = get "edition" members) (hrole : get "role" members' = get "role" members)
    (hsource : get "source" members' = get "source" members) :
    row'.id = row.id ∧ row'.profile = row.profile ∧ row'.edition = row.edition ∧ row'.role = row.role ∧
      row'.source = row.source := by
  have hids : row'.id = row.id := Except.ok.inj ((hid ▸ h'.id).symm.trans h.id)
  obtain ⟨source, pages, h₁, h₂, h₃⟩ := h.source
  obtain ⟨source', pages', h₁', h₂', h₃'⟩ := h'.source
  rw [hsource, hids, h₁] at h₁'
  obtain rfl := Except.ok.inj h₁'
  rw [hids, h₂] at h₂'
  obtain rfl := Except.ok.inj h₂'
  rw [hids, h₃] at h₃'
  have hprofiles := h'.profile
  rw [hprofile, hids, h.profile] at hprofiles
  have heditions := h'.edition
  rw [hedition, hids, h.edition] at heditions
  have hroles := h'.role
  rw [hrole, hids, h.role] at hroles
  exact ⟨hids, (Except.ok.inj hprofiles).symm, (Except.ok.inj heditions).symm, (Except.ok.inj hroles).symm,
    (Except.ok.inj h₃').symm⟩

-- A row with its changes

theorem get_setMember_ne {key other : String} (h : other ≠ key) (item : JsonValue) (members : JsonRecord) :
    get key (setMember other item members) = get key members := by
  unfold setMember
  split
  · clear * - h
    induction members with
    | nil => rfl
    | cons member members ih =>
      rw [List.map_cons, get_cons, get_cons, ih]
      by_cases hmember : member.1 = other
      · simp [hmember, h]
      · simp [hmember]
  · induction members with
    | nil => simp [get_cons, h]
    | cons member members ih =>
      rename_i hany
      have hrest : ¬(members.any fun member => decide (member.1 = other)) = true := by
        simp only [List.any_cons, Bool.or_eq_true, not_or] at hany
        exact hany.2
      rw [List.cons_append, get_cons, get_cons, ih hrest]

theorem get_withChanges {key : String} (h : ∀ field : OverrideField, field.text ≠ key) (raw : JsonRecord)
    (changes : Changes) : get key (withChanges raw changes) = get key raw := by
  unfold withChanges
  induction OverrideField.allowed generalizing raw with
  | nil => rfl
  | cons field fields ih =>
    rw [List.foldl_cons, ih]
    split
    · exact get_setMember_ne (h field) _ _
    · rfl

theorem canonicalMembers_setMember (key : String) (item : JsonValue) (members : JsonRecord) :
    canonicalMembers (setMember key item members) = setMember key (canonical item) (canonicalMembers members) := by
  have hany : ((members.map fun member => (member.1, canonical member.2)).any fun member => decide (member.1 = key)) =
      members.any fun member => decide (member.1 = key) := by
    rw [List.any_map]
    rfl
  simp only [canonicalMembers_eq, setMember, hany]
  split
  · rw [List.map_map, List.map_map]
    refine List.map_congr_left fun member _ => ?_
    simp only [Function.comp_apply]
    split <;> rfl
  · rw [List.map_append]
    rfl

def Changes.Alike (changes changes' : Changes) : Prop :=
  ∀ field, (changes field).map canonical = (changes' field).map canonical

theorem withChanges_alike {changes changes' : Changes} (h : changes.Alike changes') (raw : JsonRecord) :
    canonicalMembers (withChanges raw changes) = canonicalMembers (withChanges raw changes') := by
  refine List.foldl_rel (r := fun raw raw' => canonicalMembers raw = canonicalMembers raw') rfl
    fun field _ raw raw' hraw => ?_
  have hfield := h field
  cases hc : changes field with
  | none =>
    rw [hc, Option.map_none, eq_comm, Option.map_eq_none_iff] at hfield
    simpa only [hfield] using hraw
  | some value =>
    rw [hc, Option.map_some, eq_comm, Option.map_eq_some_iff] at hfield
    obtain ⟨value', hvalue', hsame⟩ := hfield
    simp only [hvalue', canonicalMembers_setMember, hraw, hsame]

-- Changes

abbrev Assigned := List (OverrideField × JsonValue)

/-- The changes grow by what is assigned: what was there, or is assigned,
stays, up to the order of properties, and nothing else is there. -/
structure Grows (changes changes' : Changes) (assigned : Assigned) : Prop where
  kept : ∀ field value, changes field = some value ∨ (field, value) ∈ assigned →
    ∃ value', changes' field = some value' ∧ Same value value'
  only : ∀ field value, changes' field = some value → changes field = some value ∨ (field, value) ∈ assigned

theorem Grows.refl (changes : Changes) : Grows changes changes [] where
  kept _ value h := ⟨value, h.resolve_right List.not_mem_nil, Same.refl value⟩
  only _ _ h := .inl h

theorem Grows.trans {changes changes₁ changes₂ : Changes} {assigned assigned' : Assigned}
    (h : Grows changes changes₁ assigned) (h' : Grows changes₁ changes₂ assigned') :
    Grows changes changes₂ (assigned ++ assigned') where
  kept := by
    rintro field value hvalue
    have hcases : (changes field = some value ∨ (field, value) ∈ assigned) ∨ (field, value) ∈ assigned' := by
      rw [List.mem_append] at hvalue
      tauto
    rcases hcases with hvalue | hvalue
    · obtain ⟨value₁, h₁, hsame⟩ := h.kept field value hvalue
      obtain ⟨value₂, h₂, hsame'⟩ := h'.kept field value₁ (.inl h₁)
      exact ⟨value₂, h₂, hsame.trans hsame'⟩
    · exact h'.kept field value (.inr hvalue)
  only := by
    rintro field value hvalue
    rcases h'.only field value hvalue with hvalue | hvalue
    · exact (h.only field value hvalue).imp_right fun hmem => List.mem_append_left _ hmem
    · exact .inr (List.mem_append_right _ hvalue)

def Agrees (values : OverrideField → JsonValue) (changes : Changes) : Prop :=
  ∀ field value, changes field = some value → canonical value = values field

theorem Agrees.grows {values : OverrideField → JsonValue} {changes changes' : Changes} {assigned : Assigned}
    (h : Agrees values changes) (hg : Grows changes changes' assigned)
    (ha : ∀ entry ∈ assigned, canonical entry.2 = values entry.1) : Agrees values changes' := by
  intro field value hvalue
  rcases hg.only field value hvalue with hvalue | hvalue
  · exact h field value hvalue
  · exact ha _ hvalue

/-- A step that assigns: it succeeds iff its own checks do and what it assigns
agrees with what is there. -/
structure Assigns {σ α : Type} (changesOf : σ → Changes) (idsOf : σ → List String)
    (step : σ → α → Except OnvifError σ) (valid : α → Prop) (assigned : α → Assigned) (ids : α → List String) :
    Prop where
  sound : ∀ s a s', step s a = .ok s' →
    valid a ∧ Grows (changesOf s) (changesOf s') (assigned a) ∧ idsOf s' = idsOf s ++ ids a
  complete : ∀ s a values, valid a → Agrees values (changesOf s) →
    (∀ entry ∈ assigned a, canonical entry.2 = values entry.1) → ∃ s', step s a = .ok s'

theorem Assigns.fold {σ α : Type} {changesOf : σ → Changes} {idsOf : σ → List String}
    {step : σ → α → Except OnvifError σ} {valid : α → Prop} {assigned : α → Assigned} {ids : α → List String}
    (h : Assigns changesOf idsOf step valid assigned ids) :
    Assigns changesOf idsOf (fun s (l : List α) => l.foldlM step s) (fun l => ∀ a ∈ l, valid a)
      (·.flatMap assigned) (·.flatMap ids) where
  sound := by
    intro s l
    induction l generalizing s with
    | nil =>
      rintro s' hs
      obtain rfl := Except.ok.inj hs
      exact ⟨by simp, Grows.refl _, by simp⟩
    | cons a l ih =>
      intro s' hs
      rw [List.foldlM_cons, except_bind_ok] at hs
      obtain ⟨s₁, h₁, hs⟩ := hs
      obtain ⟨hvalid, hgrows, hids⟩ := h.sound s a s₁ h₁
      obtain ⟨hvalid', hgrows', hids'⟩ := ih s₁ s' hs
      refine ⟨List.forall_mem_cons.mpr ⟨hvalid, hvalid'⟩, hgrows.trans hgrows', ?_⟩
      rw [hids', hids, List.append_assoc, List.flatMap_cons]
  complete := by
    intro s l
    induction l generalizing s with
    | nil => exact fun values _ _ _ => ⟨s, rfl⟩
    | cons a l ih =>
      intro values hvalid hagrees hassigned
      obtain ⟨hvalid, hvalids⟩ := List.forall_mem_cons.mp hvalid
      have hhere : ∀ entry ∈ assigned a, canonical entry.2 = values entry.1 := fun entry hentry =>
        hassigned entry (by simp [hentry])
      obtain ⟨s₁, h₁⟩ := h.complete s a values hvalid hagrees hhere
      have hagrees₁ := hagrees.grows (h.sound s a s₁ h₁).2.1 hhere
      obtain ⟨s', hs'⟩ := ih s₁ values hvalids hagrees₁ fun entry hentry => hassigned entry (by
        rw [List.flatMap_cons]
        exact List.mem_append_right _ hentry)
      exact ⟨s', by rw [List.foldlM_cons, h₁]; exact hs'⟩

def CollisionFree (sha256 : String → String) : Prop :=
  ∀ a b : JsonValue, sha256 (canonicalJson a) = sha256 (canonicalJson b) → canonicalJson a = canonicalJson b

variable {sha256 : String → String}

theorem digest_eq (hsha : CollisionFree sha256) {a b : JsonValue} : digest sha256 a = digest sha256 b ↔ Same a b := by
  constructor
  · exact fun h => canonicalJson_inj.mp (hsha a b h)
  · intro h
    rw [digest, digest, canonicalJson_inj.mpr h]

def entryAssigned (entry : String × JsonValue) : Assigned :=
  ((OverrideField.ofText entry.1).map fun field => (field, entry.2)).toList

theorem change_assigns (hsha : CollisionFree sha256) (id : String) :
    Assigns (fun changes : Changes => changes) (fun _ => []) (change sha256 id)
      (fun entry => (OverrideField.ofText entry.1).isSome) entryAssigned fun _ => [] where
  sound := by
    intro changes entry changes' h
    cases hof : OverrideField.ofText entry.1 with
    | none =>
      simp only [change, hof] at h
      cases h
    | some found =>
      simp only [change, hof, except_bind_ok, demand_ok] at h
      obtain ⟨field, hfield, _, hprior, h⟩ := h
      obtain rfl := Except.ok.inj hfield
      obtain rfl := Except.ok.inj h
      have hassigned : entryAssigned entry = [(found, entry.2)] := by simp [entryAssigned, hof]
      refine ⟨rfl, ?_, rfl⟩
      rw [hassigned]
      constructor
      · rintro other value hvalue
        by_cases hother : other = found
        · subst hother
          refine ⟨entry.2, Function.update_self .., ?_⟩
          rcases hvalue with hvalue | hvalue
          · exact (digest_eq hsha).mp (hprior value hvalue)
          · obtain rfl : value = entry.2 := by simpa using hvalue
            exact Same.refl _
        · rcases hvalue with hvalue | hvalue
          · exact ⟨value, by rw [Function.update_of_ne hother, hvalue], Same.refl _⟩
          · exact absurd (by simpa using hvalue : other = found ∧ value = entry.2).1 hother
      · rintro other value hvalue
        by_cases hother : other = found
        · subst hother
          rw [Function.update_self] at hvalue
          exact .inr (by simp [Option.some.inj hvalue])
        · rw [Function.update_of_ne hother] at hvalue
          exact .inl hvalue
  complete := by
    intro changes entry values hvalid hagrees hassigned
    obtain ⟨field, hfield⟩ := Option.isSome_iff_exists.mp hvalid
    have hvalue : canonical entry.2 = values field := hassigned (field, entry.2) (by simp [entryAssigned, hfield])
    have hprior : ∀ prior ∈ changes field, digest sha256 prior = digest sha256 entry.2 := by
      intro prior hprior
      exact (digest_eq hsha).mpr ((hagrees field prior hprior).trans hvalue.symm)
    refine ⟨Function.update changes field (some entry.2), ?_⟩
    simp only [change, hfield]
    exact except_bind_ok.mpr ⟨field, rfl, except_bind_ok.mpr ⟨(), demand_ok.mpr hprior, rfl⟩⟩

-- Overrides and decisions

def entriesFor (id : String) (candidate : JsonValue) : Option JsonRecord :=
  candidate.asRecord.bind fun override =>
    if isString (get "id" override) id then some (((get "changes" override).bind Json.asRecord).getD []) else none

def overrideAssigned (id : String) (candidate : JsonValue) : Assigned :=
  ((entriesFor id candidate).getD []).flatMap entryAssigned

def overrideIds (id : String) (decision : JsonRecord) (candidate : JsonValue) : List String :=
  if (entriesFor id candidate).isSome then [(text? "id" decision).getD ""] else []

def OverrideValid (id : String) (decision : JsonRecord) (candidate : JsonValue) : Prop :=
  ∃ override, record (some candidate) (idText decision ++ " override") = .ok override ∧
    (isString (get "id" override) id →
      (isString (get "mappingEdition" decision) mappingEdition ∧ isFalse (get "formalReleaseApproved" decision) ∧
        isString (get "releaseGate" decision) releaseGate) ∧
      (∃ entries, record (get "changes" override) (id ++ " interpretation changes") = .ok entries ∧
        ∀ entry ∈ entries, (OverrideField.ofText entry.1).isSome) ∧
      ∃ decisionId, nonempty (get "id" decision) "Interpretation decision ID" = .ok decisionId)

theorem nonempty_ok {value : Option JsonValue} {description text : String}
    (h : nonempty value description = .ok text) : value.bind Json.asString = some text := by
  unfold nonempty at h
  split at h
  · rename_i found hfound
    split at h
    · cases h
    · rw [hfound, Except.ok.inj h]
  · cases h

theorem override_assigns (hsha : CollisionFree sha256) (id : String) (decision : JsonRecord) :
    Assigns Prod.fst Prod.snd (applyOverride sha256 id decision) (OverrideValid id decision) (overrideAssigned id)
      (overrideIds id decision) where
  sound := by
    intro s candidate s' h
    simp only [applyOverride, except_bind_ok] at h
    obtain ⟨override, hrecord, h⟩ := h
    have hcandidate : candidate = .object override := Option.some.inj (record_ok hrecord)
    split at h
    · rename_i hid
      simp only [except_bind_ok, demand_ok] at h
      obtain ⟨_, hgate, entries, hentries, changes, hchanges, decisionId, hdecision, h⟩ := h
      obtain rfl := Except.ok.inj h
      have hfor : entriesFor id candidate = some entries := by
        simp only [entriesFor, hcandidate, Json.asRecord, Option.bind_some, if_pos hid, record_ok hentries,
          Option.getD_some]
      obtain ⟨hvalid, hgrows, -⟩ := (change_assigns hsha id).fold.sound s.1 entries changes hchanges
      refine ⟨⟨override, hrecord, fun _ => ⟨hgate, ⟨entries, hentries, hvalid⟩, decisionId, hdecision⟩⟩, ?_, ?_⟩
      · simpa only [overrideAssigned, hfor, Option.getD_some] using hgrows
      · have hid := nonempty_ok hdecision
        simp only [overrideIds, hfor, Option.isSome_some, if_true, text?, hid, Option.getD_some]
    · rename_i hid
      obtain rfl := Except.ok.inj h
      have hfor : entriesFor id candidate = none := by
        simp only [entriesFor, hcandidate, Json.asRecord, Option.bind_some, if_neg hid]
      refine ⟨⟨override, hrecord, fun h => absurd h hid⟩, ?_, ?_⟩
      · simpa only [overrideAssigned, hfor, Option.getD_none, List.flatMap_nil] using Grows.refl s.1
      · simp [overrideIds, hfor]
  complete := by
    rintro s candidate values ⟨override, hrecord, hvalid⟩ hagrees hassigned
    have hcandidate : candidate = .object override := Option.some.inj (record_ok hrecord)
    by_cases hid : isString (get "id" override) id = true
    · obtain ⟨hgate, ⟨entries, hentries, hfields⟩, decisionId, hdecision⟩ := hvalid hid
      have hfor : entriesFor id candidate = some entries := by
        simp only [entriesFor, hcandidate, Json.asRecord, Option.bind_some, if_pos hid, record_ok hentries,
          Option.getD_some]
      simp only [overrideAssigned, hfor, Option.getD_some] at hassigned
      obtain ⟨changes, hchanges⟩ := (change_assigns hsha id).fold.complete s.1 entries values hfields hagrees hassigned
      refine ⟨(changes, s.2 ++ [decisionId]), ?_⟩
      refine except_bind_ok.mpr ⟨override, hrecord, ?_⟩
      rw [if_pos hid]
      exact except_bind_ok.mpr ⟨(), demand_ok.mpr hgate, except_bind_ok.mpr ⟨entries, hentries,
        except_bind_ok.mpr ⟨changes, hchanges, except_bind_ok.mpr ⟨decisionId, hdecision, rfl⟩⟩⟩⟩
    · refine ⟨s, except_bind_ok.mpr ⟨override, hrecord, ?_⟩⟩
      rw [if_neg hid]
      rfl

def overridesFor (decision : JsonRecord) : List JsonValue := (overridesOf decision).toOption.getD []

theorem decision_assigns (hsha : CollisionFree sha256) (id : String) :
    Assigns Prod.fst Prod.snd (applyDecision sha256 id)
      (fun decision => ∃ overrides, overridesOf decision = .ok overrides ∧
        ∀ candidate ∈ overrides, OverrideValid id decision candidate)
      (fun decision => (overridesFor decision).flatMap (overrideAssigned id))
      fun decision => (overridesFor decision).flatMap (overrideIds id decision) where
  sound := by
    intro s decision s' h
    simp only [applyDecision, except_bind_ok] at h
    obtain ⟨overrides, hoverrides, h⟩ := h
    obtain ⟨hvalid, hgrows, hids⟩ := (override_assigns hsha id decision).fold.sound s overrides s' h
    have hfor : overridesFor decision = overrides := by simp [overridesFor, hoverrides, Except.toOption]
    rw [hfor]
    exact ⟨⟨overrides, hoverrides, hvalid⟩, hgrows, hids⟩
  complete := by
    rintro s decision values ⟨overrides, hoverrides, hvalid⟩ hagrees hassigned
    have hfor : overridesFor decision = overrides := by simp [overridesFor, hoverrides, Except.toOption]
    rw [hfor] at hassigned
    obtain ⟨s', hs'⟩ := (override_assigns hsha id decision).fold.complete s overrides values hvalid hagrees hassigned
    exact ⟨s', except_bind_ok.mpr ⟨overrides, hoverrides, hs'⟩⟩

def assignedBy (id : String) (decisions : List JsonRecord) : Assigned :=
  decisions.flatMap fun decision => (overridesFor decision).flatMap (overrideAssigned id)

variable {result : Changes × List String}

theorem changesFor_ok (hsha : CollisionFree sha256) {id : String} {decisions : List JsonRecord} (h : changesFor sha256 id decisions = .ok result) :
    Grows (fun _ => none) result.1 (assignedBy id decisions) := by
  simp only [changesFor, except_bind_ok] at h
  obtain ⟨s, hs, h⟩ := h
  obtain rfl := Except.ok.inj h
  exact ((decision_assigns hsha id).fold.sound _ decisions s hs).2.1

theorem changesFor_perm (hsha : CollisionFree sha256) {id : String} {decisions decisions' : List JsonRecord}
    (hperm : decisions.Perm decisions')
    (h : changesFor sha256 id decisions = .ok result) :
    ∃ changes, changesFor sha256 id decisions' = .ok (changes, result.2) ∧ result.1.Alike changes := by
  simp only [changesFor, except_bind_ok] at h
  obtain ⟨s, hs, h⟩ := h
  obtain rfl := Except.ok.inj h
  obtain ⟨hvalid, hgrows, hids⟩ := (decision_assigns hsha id).fold.sound _ decisions s hs
  have hassigned : ∀ entry ∈ assignedBy id decisions',
      canonical entry.2 = ((s.1 entry.1).map canonical).getD .null := by
    rintro ⟨field, value⟩ hentry
    have hentry : (field, value) ∈ assignedBy id decisions := (hperm.flatMap_right _).mem_iff.mpr hentry
    obtain ⟨value', hvalue', hsame⟩ := hgrows.kept field value (.inr hentry)
    simp only [hvalue', Option.map_some, Option.getD_some]
    exact hsame
  obtain ⟨s', hs'⟩ := (decision_assigns hsha id).fold.complete (fun _ => none, []) decisions'
    (fun field => ((s.1 field).map canonical).getD .null) (fun decision hd => hvalid decision (hperm.mem_iff.mpr hd))
    (fun field value hnone => nomatch hnone) hassigned
  obtain ⟨-, hgrows', hids'⟩ := (decision_assigns hsha id).fold.sound _ decisions' s' hs'
  have hsorted : sortedUnique s'.2 = sortedUnique s.2 := by
    rw [hids, hids']
    exact (sortedUnique_perm ((hperm.flatMap_right _).append_left _)).symm
  refine ⟨s'.1, ?_, ?_⟩
  · simp only [changesFor, hs', bind, Except.bind]
    rw [hsorted]
    rfl
  · intro field
    have hsame : ∀ value, (field, value) ∈ assignedBy id decisions ↔ (field, value) ∈ assignedBy id decisions' :=
      fun value => (hperm.flatMap_right _).mem_iff
    cases hvalue : s.1 field with
    | some value =>
      have hmem := (hgrows.only field value hvalue).resolve_left nofun
      obtain ⟨value', hvalue', hcanonical⟩ := hgrows'.kept field value (.inr ((hsame value).mp hmem))
      rw [hvalue', Option.map_some, Option.map_some, hcanonical]
    | none =>
      cases hvalue' : s'.1 field with
      | none => rfl
      | some value =>
        have hmem := (hgrows'.only field value hvalue').resolve_left nofun
        obtain ⟨_, hkept, -⟩ := hgrows.kept field value (.inr ((hsame value).mpr hmem))
        rw [hvalue] at hkept
        cases hkept

-- Interpretations

def changedRow (original : RequirementAtom) (changes : Changes) (decisionIds : List String) : JsonRecord :=
  setMember "editorialDecisionIds" (texts (sortedUnique (original.editorialDecisionIds ++ decisionIds)))
    (withChanges original.raw changes)

def restored (original selected : RequirementAtom) (decisionIds : List String) : RequirementAtom :=
  { selected with
    raw := original.raw
    sourceRequirementLevel := original.sourceRequirementLevel
    localLevel := original.localLevel
    interpretation := some decisionIds }

variable {input : Option JsonValue} {decisions : List JsonRecord} {row : RequirementAtom}

theorem interpretedRequirement_ok : interpretedRequirement sha256 input decisions = .ok row ↔
    ∃ original changes decisionIds, parseRequirement input = .ok original ∧
      changesFor sha256 original.id decisions = .ok (changes, decisionIds) ∧
      ((decisionIds = [] ∧ row = original) ∨ (decisionIds ≠ [] ∧ ∃ selected,
        parseRequirement (some (.object (changedRow original changes decisionIds))) = .ok selected ∧
        row = restored original selected decisionIds)) := by
  simp only [interpretedRequirement, except_bind_ok]
  constructor
  · rintro ⟨original, horiginal, ⟨changes, decisionIds⟩, hchanges, h⟩
    refine ⟨original, changes, decisionIds, horiginal, hchanges, ?_⟩
    by_cases hnone : decisionIds = []
    · rw [if_pos hnone] at h
      exact .inl ⟨hnone, (Except.ok.inj h).symm⟩
    · rw [if_neg hnone, except_bind_ok] at h
      obtain ⟨selected, hselected, h⟩ := h
      exact .inr ⟨hnone, selected, hselected, (Except.ok.inj h).symm⟩
  · rintro ⟨original, changes, decisionIds, horiginal, hchanges, h⟩
    refine ⟨original, horiginal, (changes, decisionIds), hchanges, ?_⟩
    rcases h with ⟨hnone, rfl⟩ | ⟨hnone, selected, hselected, rfl⟩
    · exact if_pos hnone
    · rw [if_neg hnone, except_bind_ok]
      exact ⟨selected, hselected, rfl⟩

theorem parseRequirement_alike (h : canonicalMembers members = canonicalMembers members')
    (hok : parseRequirement (some (.object members)) = .ok row) :
    ∃ row', parseRequirement (some (.object members')) = .ok row' ∧ row.canonical = row'.canonical := by
  have hsame : canonical (.object members) = canonical (.object members') := by
    rw [canonical_object, canonical_object, canonicalRecord, canonicalRecord, h]
  have h₁ := parseRequirement_canonical (some (.object members))
  have h₂ := parseRequirement_canonical (some (.object members'))
  rw [Option.map_some, hsame, hok] at h₁
  rw [Option.map_some, h₁] at h₂
  cases hrow : parseRequirement (some (.object members')) with
  | error fault => rw [hrow] at h₂; cases h₂
  | ok row' =>
    rw [hrow] at h₂
    exact ⟨row', rfl, Except.ok.inj h₂⟩

theorem interpreted_perm (hsha : CollisionFree sha256) {decisions' : List JsonRecord}
    (hperm : decisions.Perm decisions') (h : interpretedRequirement sha256 input decisions = .ok row) :
    ∃ row', interpretedRequirement sha256 input decisions' = .ok row' ∧ Same row.json row'.json := by
  obtain ⟨original, changes, decisionIds, horiginal, hchanges, h⟩ := interpretedRequirement_ok.mp h
  obtain ⟨changes', hchanges', halike⟩ := changesFor_perm hsha hperm hchanges
  rcases h with ⟨hnone, rfl⟩ | ⟨hnone, selected, hselected, rfl⟩
  · exact ⟨row, interpretedRequirement_ok.mpr
      ⟨row, changes', decisionIds, horiginal, hchanges', .inl ⟨hnone, rfl⟩⟩, Same.refl _⟩
  · have hmembers : canonicalMembers (changedRow original changes decisionIds) =
        canonicalMembers (changedRow original changes' decisionIds) := by
      rw [changedRow, changedRow, canonicalMembers_setMember, canonicalMembers_setMember,
        withChanges_alike halike]
    obtain ⟨selected', hselected', hsame⟩ := parseRequirement_alike hmembers hselected
    refine ⟨restored original selected' decisionIds, interpretedRequirement_ok.mpr
      ⟨original, changes', decisionIds, horiginal, hchanges', .inr ⟨hnone, selected', hselected', rfl⟩⟩, ?_⟩
    exact json_same (congrArg (fun selected : RequirementAtom => { selected with
      raw := canonicalRecord original.raw
      sourceRequirementLevel := canonical original.sourceRequirementLevel
      localLevel := original.localLevel
      interpretation := some decisionIds }) hsame)

theorem interpreted_identity {original : RequirementAtom} (horiginal : parseRequirement input = .ok original)
    (h : interpretedRequirement sha256 input decisions = .ok row) :
    row.id = original.id ∧ row.profile = original.profile ∧ row.edition = original.edition ∧
      row.role = original.role ∧ row.source = original.source ∧ row.raw = original.raw := by
  obtain ⟨original', changes, decisionIds, horiginal', -, h⟩ := interpretedRequirement_ok.mp h
  obtain rfl : original = original' := Except.ok.inj (horiginal.symm.trans horiginal')
  rcases h with ⟨-, rfl⟩ | ⟨-, selected, hselected, rfl⟩
  · exact ⟨rfl, rfl, rfl, rfl, rfl, rfl⟩
  · obtain ⟨members, -, hparsed⟩ := parseRequirement_ok horiginal
    obtain ⟨members', hmembers', hparsed'⟩ := parseRequirement_ok hselected
    obtain rfl : changedRow original changes decisionIds = members' := Json.object.inj (Option.some.inj hmembers')
    obtain rfl := hparsed.raw
    have hget : ∀ key, key ≠ "editorialDecisionIds" → (∀ field : OverrideField, field.text ≠ key) →
        get key (changedRow original changes decisionIds) = get key original.raw := by
      intro key hkey hfields
      rw [changedRow, get_setMember_ne (Ne.symm hkey), get_withChanges hfields]
    have hfields : ∀ key ∈ ["id", "profile", "edition", "role", "source"], ∀ field : OverrideField, field.text ≠ key := by
      intro key hkey field
      cases field <;> revert key <;> decide
    obtain ⟨hid, hprofile, hedition, hrole, hsource⟩ := parsed_unique hparsed hparsed'
      (hget "id" (by decide) (hfields _ (by simp))) (hget "profile" (by decide) (hfields _ (by simp)))
      (hget "edition" (by decide) (hfields _ (by simp))) (hget "role" (by decide) (hfields _ (by simp)))
      (hget "source" (by decide) (hfields _ (by simp)))
    exact ⟨hid, hprofile, hedition, hrole, hsource, rfl⟩

theorem interpreted_again (h : interpretedRequirement sha256 input decisions = .ok row) :
    interpretedRequirement sha256 (some (.object row.raw)) decisions = .ok row := by
  obtain ⟨original, _, _, horiginal, -, -⟩ := interpretedRequirement_ok.mp h
  obtain ⟨members, rfl, hparsed⟩ := parseRequirement_ok horiginal
  rw [(interpreted_identity horiginal h).2.2.2.2.2, hparsed.raw]
  exact h

def Gives (id : String) (decision : JsonRecord) (key : String) (value : JsonValue) : Prop :=
  ∃ overrides override entries, overridesOf decision = .ok overrides ∧ .object override ∈ overrides ∧
    isString (get "id" override) id ∧ get "changes" override = some (.object entries) ∧ (key, value) ∈ entries

theorem Gives.assigned {id key : String} {decision : JsonRecord} {value : JsonValue} {field : OverrideField}
    (h : Gives id decision key value) (hfield : OverrideField.ofText key = some field)
    (hdecision : decision ∈ decisions) : (field, value) ∈ assignedBy id decisions := by
  obtain ⟨overrides, override, entries, hoverrides, hmem, hid, hchanges, hentry⟩ := h
  have hfor : overridesFor decision = overrides := by simp [overridesFor, hoverrides, Except.toOption]
  have hentries : entriesFor id (.object override) = some entries := by
    simp only [entriesFor, Json.asRecord, Option.bind_some, if_pos hid, hchanges, Option.getD_some]
  refine List.mem_flatMap.mpr ⟨decision, hdecision, List.mem_flatMap.mpr ⟨.object override, hfor ▸ hmem, ?_⟩⟩
  rw [overrideAssigned, hentries]
  exact List.mem_flatMap.mpr ⟨(key, value), hentry, by simp [entryAssigned, hfield]⟩

theorem Gives.field (hsha : CollisionFree sha256) {id key : String} {decision : JsonRecord} {value : JsonValue}
    (h : Gives id decision key value) (hdecision : decision ∈ decisions)
    (hok : changesFor sha256 id decisions = .ok result) : ∃ field, OverrideField.ofText key = some field := by
  obtain ⟨overrides, override, entries, hoverrides, hmem, hid, hchanges, hentry⟩ := h
  simp only [changesFor, except_bind_ok] at hok
  obtain ⟨s, hs, -⟩ := hok
  obtain ⟨overrides', hoverrides', hvalid⟩ := ((decision_assigns hsha id).fold.sound _ decisions s hs).1 decision hdecision
  obtain rfl : overrides = overrides' := Except.ok.inj (hoverrides.symm.trans hoverrides')
  obtain ⟨override', hrecord, hvalid⟩ := hvalid _ hmem
  obtain rfl : override = override' := Json.object.inj (Option.some.inj (record_ok hrecord))
  obtain ⟨-, ⟨entries', hentries', hfields⟩, -⟩ := hvalid hid
  obtain rfl : entries = entries' := Json.object.inj (Option.some.inj (hchanges.symm.trans (record_ok hentries')))
  exact Option.isSome_iff_exists.mp (hfields _ hentry)

theorem gives_same (hsha : CollisionFree sha256) {id key : String} {decision decision' : JsonRecord}
    {value value' : JsonValue} (hok : changesFor sha256 id decisions = .ok result)
    (hd : decision ∈ decisions) (hd' : decision' ∈ decisions) (h : Gives id decision key value)
    (h' : Gives id decision' key value') : Same value value' := by
  obtain ⟨field, hfield⟩ := h.field hsha hd hok
  have hgrows := changesFor_ok hsha hok
  obtain ⟨kept, hkept, hsame⟩ := hgrows.kept field value (.inr (h.assigned hfield hd))
  obtain ⟨kept', hkept', hsame'⟩ := hgrows.kept field value' (.inr (h'.assigned hfield hd'))
  obtain rfl : kept = kept' := Option.some.inj (hkept.symm.trans hkept')
  exact hsame.trans hsame'.symm

-- The index

theorem json_members (row : RequirementAtom) :
    ∃ members, row.json = .object members ∧ get "raw" members = some (.object row.raw) := by
  refine ⟨_, rfl, ?_⟩
  cases row.obligationGroupId <;> rfl

theorem assertRow_again {ids : List String} (h : interpretedRequirement sha256 input decisions = .ok row)
    (hids : row.id ∉ ids) : assertRow sha256 decisions ids row.json = .ok (ids ++ [row.id]) := by
  obtain ⟨members, hjson, hraw⟩ := json_members row
  have hagain := interpreted_again h
  unfold assertRow
  rw [hjson, ← hjson]
  simp only [hjson, Json.asRecord, hraw]
  exact except_bind_ok.mpr ⟨row, hagain, except_bind_ok.mpr ⟨(), demand_ok.mpr ⟨hids, by rw [hjson]⟩, rfl⟩⟩

theorem assertRows_again {rows : List RequirementAtom} {ids : List String}
    (hrows : ∀ row ∈ rows, ∃ input, interpretedRequirement sha256 input decisions = .ok row)
    (hids : (ids ++ rows.map (·.id)).Nodup) :
    (rows.map RequirementAtom.json).foldlM (assertRow sha256 decisions) ids = .ok (ids ++ rows.map (·.id)) := by
  induction rows generalizing ids with
  | nil => simp [pure, Except.pure]
  | cons row rows ih =>
    obtain ⟨⟨input, hrow⟩, hrows⟩ := List.forall_mem_cons.mp hrows
    have hfresh : row.id ∉ ids := by
      intro hmem
      exact List.disjoint_of_nodup_append hids hmem (by simp)
    rw [List.map_cons, List.foldlM_cons, assertRow_again hrow hfresh]
    have hnext : ((ids ++ [row.id]) ++ rows.map (·.id)).Nodup := by simpa using hids
    simpa [bind, Except.bind] using ih hrows hnext

def Resolved (ids : List String) (resolutions : List JsonValue) : Prop :=
  ∃ seen, resolutions.foldlM (assertResolution ids) [] = .ok seen ∧ seen.length = ids.length

theorem mapM_ok {α β : Type} {f : α → Except OnvifError β} {g : α → β} (l : List α) (h : ∀ a ∈ l, f a = .ok (g a)) :
    l.mapM f = .ok (l.map g) := by
  induction l with
  | nil => rfl
  | cons a l ih =>
    obtain ⟨ha, hl⟩ := List.forall_mem_cons.mp h
    rw [List.mapM_cons, ha, ih hl]
    rfl

structure InterpretationSound (sha256 : String → String) (input : Option JsonValue) (decisions : List JsonRecord) :
    Prop where
  /-- In any order they are rejected, or make the same row. -/
  permuted : ∀ decisions', decisions.Perm decisions' →
    ((∃ fault, interpretedRequirement sha256 input decisions = .error fault) ∧
      ∃ fault, interpretedRequirement sha256 input decisions' = .error fault) ∨
    ∃ row row', interpretedRequirement sha256 input decisions = .ok row ∧
      interpretedRequirement sha256 input decisions' = .ok row' ∧ Same row.json row'.json
  agreed : ∀ row, interpretedRequirement sha256 input decisions = .ok row →
    ∀ decision ∈ decisions, ∀ decision' ∈ decisions, ∀ key value value',
      Gives row.id decision key value → Gives row.id decision' key value' → Same value value'
  identity : ∀ original row, parseRequirement input = .ok original →
    interpretedRequirement sha256 input decisions = .ok row →
      row.id = original.id ∧ row.profile = original.profile ∧ row.edition = original.edition ∧
        row.role = original.role ∧ row.source = original.source
  again : ∀ row, interpretedRequirement sha256 input decisions = .ok row →
    interpretedRequirement sha256 (some (.object row.raw)) decisions = .ok row
  /-- An index of such rows is accepted, its envelope, its decisions and its
  resolutions being what they should. -/
  indexed : ∀ (members : JsonRecord) (rows : List RequirementAtom) (expected : String), envelope members = some expected →
    digest sha256 (.object (members.filter (·.1 ≠ "digest"))) = expected →
    entriesOf "editorialDecisions" members = decisions.map .object →
    (∀ decision ∈ decisions, isJsonValue (.object decision) ∧ assertOldSource decision = .ok ()) →
    entriesOf "requirements" members = rows.map RequirementAtom.json →
    (∀ row ∈ rows, ∃ input, interpretedRequirement sha256 input decisions = .ok row) →
    (rows.map (·.id)).Nodup → Resolved (rows.map (·.id)) (entriesOf "resolutions" members) →
    assertRequirementIndex sha256 (.object members) = .ok ()

theorem interpretation_sound (sha256 : String → String) (hsha : CollisionFree sha256) (input : Option JsonValue)
    (decisions : List JsonRecord) : InterpretationSound sha256 input decisions where
  permuted := by
    intro decisions' hperm
    cases h : interpretedRequirement sha256 input decisions with
    | ok row =>
      obtain ⟨row', hrow', hsame⟩ := interpreted_perm hsha hperm h
      exact .inr ⟨row, row', rfl, hrow', hsame⟩
    | error fault =>
      cases h' : interpretedRequirement sha256 input decisions' with
      | error fault' => exact .inl ⟨⟨fault, rfl⟩, fault', rfl⟩
      | ok row' =>
        obtain ⟨row, hrow, -⟩ := interpreted_perm hsha hperm.symm h'
        rw [h] at hrow
        cases hrow
  agreed := by
    intro row hok decision hd decision' hd' key value value' hgives hgives'
    obtain ⟨original, changes, decisionIds, horiginal, hchanges, -⟩ := interpretedRequirement_ok.mp hok
    rw [(interpreted_identity horiginal hok).1] at hgives hgives'
    exact gives_same hsha hchanges hd hd' hgives hgives'
  identity := by
    intro original row horiginal hok
    obtain ⟨hid, hprofile, hedition, hrole, hsource, -⟩ := interpreted_identity horiginal hok
    exact ⟨hid, hprofile, hedition, hrole, hsource⟩
  again := fun row hok => interpreted_again hok
  indexed := by
    intro members rows expected henvelope hdigest hdecisions hvalid hrequirements hrows hids ⟨seen, hseen, hlength⟩
    have hrecords : (decisions.map Json.object).mapM assertDecision = .ok decisions := by
      have hrecord : ∀ decision ∈ decisions, (assertDecision ∘ Json.object) decision = .ok decision := by
        intro decision hd
        simp [assertDecision, record, Json.asRecord, (hvalid decision hd).1]
      rw [List.mapM_map, mapM_ok (g := fun decision => decision) decisions hrecord, List.map_id']
    have hsources : decisions.mapM assertOldSource = .ok (decisions.map fun _ => ()) :=
      mapM_ok decisions fun decision hd => (hvalid decision hd).2
    have hchecked : (rows.map RequirementAtom.json).foldlM (assertRow sha256 decisions) [] =
        .ok ([] ++ rows.map (·.id)) := assertRows_again hrows (by simpa using hids)
    unfold assertRequirementIndex
    refine except_bind_ok.mpr ⟨members, rfl, ?_⟩
    simp only [henvelope, hdecisions, hrequirements]
    refine except_bind_ok.mpr ⟨expected, rfl, except_bind_ok.mpr ⟨(), demand_ok.mpr hdigest, ?_⟩⟩
    refine except_bind_ok.mpr ⟨decisions, hrecords, except_bind_ok.mpr ⟨_, hsources, ?_⟩⟩
    refine except_bind_ok.mpr ⟨_, hchecked, except_bind_ok.mpr ⟨seen, ?_, ?_⟩⟩
    · simpa using hseen
    · exact demand_ok.mpr (by simpa using hlength)

def optionalSha256 : String → String :=
  Equiv.swap "\"optional\"" "47d1d0b33374b93a697dddf5b4b1947f2247dccef58b3eab195e7678da749d52"

def levelDecision (id : String) : JsonRecord :=
  [("id", .string id), ("mappingEdition", .string mappingEdition), ("formalReleaseApproved", .bool false),
    ("releaseGate", .string releaseGate),
    ("normalization", .object [("requirementOverrides", .array [.object [("id", .string "ST-1"),
      ("changes", .object [("requirementLevel", .string "optional")])]])])]

def levelRow : JsonValue :=
  .object [("id", .string "ST-1"), ("profile", .string "S"), ("edition", .string "1.0"), ("role", .string "device"),
    ("requirementLevel", .string "mandatory"), ("classification", .string "process"), ("feature", .string "Discovery"),
    ("source", .object [("sourceId", .string "profile-s"), ("pdfPage", .number (numberOf 12)), ("printedPage", .null),
      ("clause", .string "7.1")]),
    ("mapping", .object [("kind", .string "process"), ("reason", .string "No affordance")]), ("native", .array []),
    ("condition", .null), ("evidenceTargets", .array [.string "review"]), ("editorialDecisionIds", .array [])]

theorem interpretation_sound_level :
    ((interpretedRequirement optionalSha256 (some levelRow) [levelDecision "D-2", levelDecision "D-1"]).toOption.map
      fun row => (row.requirementLevel, row.localLevel, row.interpretation)) =
      some (.optional, .mandatory, some ["D-1", "D-2"]) ∧
    InterpretationSound optionalSha256 (some levelRow) [levelDecision "D-2", levelDecision "D-1"] :=
  ⟨by decide +kernel, interpretation_sound optionalSha256 (fun _ _ h => (Equiv.injective _) h) _ _⟩

end WotAv.Catalog.Requirements
