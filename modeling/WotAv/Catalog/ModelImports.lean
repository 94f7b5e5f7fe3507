import WotAv.Catalog.ModelResolver
import WotAv.Lib.Chains
import WotAv.Lib.Throwing

/-!
# What checked imports are good for

The checker and the resolver are both read as traversals of a graph of
references: what they require of a record, and which references they follow
from it. The checker follows the bases of Thing Models only, the resolver those
of every record.
-/

namespace WotAv.Catalog

open WotAv.Lib WotAv.Binding

variable {ν : Type}

-- The records of a value

section
variable (skip : String → Bool)

mutual
def records : Json ν → List (Schema ν)
  | .array items => itemRecords items
  | .object members => members :: memberRecords members
  | _ => []
def itemRecords : List (Json ν) → List (Schema ν)
  | [] => []
  | item :: items => records item ++ itemRecords items
def memberRecords : Schema ν → List (Schema ν)
  | [] => []
  | (key, item) :: members => (if skip key then [] else records item) ++ memberRecords members
end

end

mutual
def Proper : Json ν → Prop
  | .array items => ProperItems items
  | .object members => (members.map (·.1)).Nodup ∧ ProperMembers members
  | _ => True
def ProperItems : List (Json ν) → Prop
  | [] => True
  | item :: items => Proper item ∧ ProperItems items
def ProperMembers : Schema ν → Prop
  | [] => True
  | (_, item) :: members => Proper item ∧ ProperMembers members
end

structure Models (ν : Type) where
  entries : List (String × Schema ν)
  keyed : (entries.map (·.1)).Nodup
  proper : ∀ entry ∈ entries, Proper (.object entry.2)

def referenceFine (source : Schema ν) : Bool := (Json.get "tm:ref" source).all fun value => value.asString.isSome

def basesFine (source : Schema ν) : Bool := (bases source).length ≤ 1 && (bases source).all fun base => (baseHref base).isSome

def reference? (source : Schema ν) : List String := ((Json.get "tm:ref" source).bind Json.asString).toList

-- What the checker asks of a record, and follows from it.

def checkedFine (source : Schema ν) : Bool := referenceFine source && (!isThingModel source || basesFine source)

def checkedReferences (source : Schema ν) : List String :=
  reference? source ++ if isThingModel source then (bases source).filterMap baseHref else []

-- And the resolver.

def resolvedFine (source : Schema ν) : Bool := basesFine source && referenceFine source

def resolvedReferences (source : Schema ν) : List String := (bases source).filterMap baseHref ++ reference? source

-- The checker

section
variable (visit : String → List String → Except OnvifError (List String))

def visitAll (references : List String) (checked : List String) : Except OnvifError (List String) :=
  references.foldlM (fun checked reference => visit reference checked) checked

theorem visitAll_append (xs ys : List String) (checked : List String) :
    visitAll visit (xs ++ ys) checked = visitAll visit xs checked >>= visitAll visit ys := List.foldlM_append ..

variable {checked checked' : List String}

theorem visitReference_ok {source : Schema ν} :
    visitReference visit source checked = .ok checked' ↔
      referenceFine source ∧ visitAll visit (reference? source) checked = .ok checked' := by
  unfold visitReference referenceFine reference? visitAll
  cases hr : Json.get "tm:ref" source with
  | none => simp [pure, Except.pure]
  | some value =>
    cases value with
    | string reference => simp [Json.asString]
    | _ => simp [Json.asString, failure]

theorem visitBase_all {links : List (Json ν)} :
    links.foldlM (visitBase visit) checked = .ok checked' ↔
      (links.all fun base => (baseHref base).isSome) ∧ visitAll visit (links.filterMap baseHref) checked = .ok checked' := by
  induction links generalizing checked with
  | nil => simp [visitAll]
  | cons link links ih =>
    rw [List.foldlM_cons, visitBase]
    cases hh : baseHref link with
    | none => simp [hh, failure, bind, Except.bind]
    | some href =>
      rw [List.filterMap_cons_some hh, visitAll, List.foldlM_cons]
      simp only [List.all_cons, hh, Option.isSome_some, Bool.true_and]
      cases hv : visit href checked with
      | error e => simp [bind, Except.bind]
      | ok checked₁ => exact ih

theorem visitBases_ok {source : Schema ν} :
    visitBases visit source checked = .ok checked' ↔ (!isThingModel source || basesFine source) ∧
      visitAll visit (if isThingModel source then (bases source).filterMap baseHref else []) checked = .ok checked' := by
  unfold visitBases
  by_cases ht : isThingModel source
  · by_cases hl : 1 < (bases source).length
    · simp [ht, hl, basesFine, failure, Nat.not_le.mpr hl]
    · simp [ht, hl, basesFine, visitBase_all, Nat.not_lt.mp hl]
  · simp [ht, visitAll, pure, Except.pure]

theorem walk_append {m n : List String → Except OnvifError (List String)} {F G : Prop} {first second : List String}
    (hm : ∀ c c', m c = .ok c' ↔ F ∧ visitAll visit first c = .ok c')
    (hn : ∀ c c', n c = .ok c' ↔ G ∧ visitAll visit second c = .ok c') : (m checked >>= n) = .ok checked' ↔
      (F ∧ G) ∧ (visitAll visit first checked >>= visitAll visit second) = .ok checked' := by
  constructor
  · intro h
    obtain ⟨checked₁, h₁, h₂⟩ := except_bind_ok h
    obtain ⟨hf₁, hv₁⟩ := (hm _ _).mp h₁
    obtain ⟨hf₂, hv₂⟩ := (hn _ _).mp h₂
    exact ⟨⟨hf₁, hf₂⟩, by rw [hv₁]; exact hv₂⟩
  · rintro ⟨⟨hf₁, hf₂⟩, hv⟩
    obtain ⟨checked₁, hv₁, hv₂⟩ := except_bind_ok hv
    rw [(hm _ _).mpr ⟨hf₁, hv₁⟩]
    exact (hn _ _).mpr ⟨hf₂, hv₂⟩

mutual
theorem walk_ok : ∀ (value : Json ν) (checked checked' : List String), walk visit value checked = .ok checked' ↔
    (∀ source ∈ records (fun _ => false) value, checkedFine source) ∧
      visitAll visit ((records (fun _ => false) value).flatMap checkedReferences) checked = .ok checked'
  | .array items, checked, checked' => walkItems_ok items checked checked'
  | .object members, checked, checked' => by
    have hm := walkMembers_ok members
    simp only [walk, records, List.flatMap_cons, List.forall_mem_cons, checkedReferences, visitAll_append, checkedFine,
      Bool.and_eq_true]
    constructor
    · intro h
      obtain ⟨checked₁, h₁, h⟩ := except_bind_ok h
      obtain ⟨checked₂, h₂, h₃⟩ := except_bind_ok h
      obtain ⟨hf₁, hv₁⟩ := (visitReference_ok visit).mp h₁
      obtain ⟨hf₂, hv₂⟩ := (visitBases_ok visit).mp h₂
      obtain ⟨hf₃, hv₃⟩ := (hm _ _).mp h₃
      refine ⟨⟨⟨hf₁, hf₂⟩, fun source hs => by simpa [checkedFine] using hf₃ source hs⟩, ?_⟩
      rw [hv₁]
      change (visitAll visit _ checked₁ >>= _) = _
      rw [hv₂]
      exact hv₃
    · rintro ⟨⟨⟨hf₁, hf₂⟩, hf₃⟩, hv⟩
      obtain ⟨checked₂, hv₂, hv₃⟩ := except_bind_ok hv
      obtain ⟨checked₁, hv₁, hv₂⟩ := except_bind_ok hv₂
      rw [(visitReference_ok visit).mpr ⟨hf₁, hv₁⟩]
      change (visitBases visit members checked₁ >>= _) = _
      rw [(visitBases_ok visit).mpr ⟨hf₂, hv₂⟩]
      exact (hm _ _).mpr ⟨fun source hs => by simpa [checkedFine] using hf₃ source hs, hv₃⟩
  | .null, _, _ => by simp [walk, records, visitAll, pure, Except.pure]
  | .bool _, _, _ => by simp [walk, records, visitAll, pure, Except.pure]
  | .number _, _, _ => by simp [walk, records, visitAll, pure, Except.pure]
  | .string _, _, _ => by simp [walk, records, visitAll, pure, Except.pure]
theorem walkItems_ok : ∀ (items : List (Json ν)) (checked checked' : List String),
    walkItems visit items checked = .ok checked' ↔
      (∀ source ∈ itemRecords (fun _ => false) items, checkedFine source) ∧
        visitAll visit ((itemRecords (fun _ => false) items).flatMap checkedReferences) checked = .ok checked'
  | [], _, _ => by simp [walkItems, itemRecords, visitAll, pure, Except.pure]
  | item :: items, checked, checked' => by
    have hi := walk_ok item
    have his := walkItems_ok items
    simp only [walkItems, itemRecords, List.flatMap_append, List.forall_mem_append, visitAll_append]
    exact walk_append visit hi his
theorem walkMembers_ok : ∀ (members : Schema ν) (checked checked' : List String),
    walkMembers visit members checked = .ok checked' ↔
      (∀ source ∈ memberRecords (fun _ => false) members, checkedFine source) ∧
        visitAll visit ((memberRecords (fun _ => false) members).flatMap checkedReferences) checked = .ok checked'
  | [], _, _ => by simp [walkMembers, memberRecords, visitAll, pure, Except.pure]
  | (_, item) :: members, checked, checked' => by
    have hi := walk_ok item
    have his := walkMembers_ok members
    simp only [walkMembers, memberRecords, Bool.false_eq_true, if_false, List.flatMap_append, List.forall_mem_append,
      visitAll_append]
    exact walk_append visit hi his
end

variable {references : List String}

theorem visitAll_keeps {P : List String → List String → Prop} (hrefl : ∀ c, P c c) (htrans : ∀ a b c, P a b → P b c → P a c) (hvisit : ∀ r ∈ references, ∀ c c', visit r c = .ok c' → P c c')
    (h : visitAll visit references checked = .ok checked') : P checked checked' := by
  induction references generalizing checked with
  | nil => exact Except.ok.inj h ▸ hrefl checked
  | cons r references ih =>
    rw [visitAll, List.foldlM_cons] at h
    obtain ⟨checked₁, h₁, h₂⟩ := except_bind_ok h
    exact htrans _ _ _ (hvisit r List.mem_cons_self _ _ h₁)
      (ih (fun r hr => hvisit r (List.mem_cons_of_mem _ hr)) h₂)

theorem visitAll_marks
    (hvisit : ∀ r c c', visit r c = .ok c' → c ⊆ c' ∧ r ∈ c')
    (h : visitAll visit references checked = .ok checked') : ∀ r ∈ references, r ∈ checked' := by
  induction references generalizing checked with
  | nil => exact nofun
  | cons r references ih =>
    rw [visitAll, List.foldlM_cons] at h
    obtain ⟨checked₁, h₁, h₂⟩ := except_bind_ok h
    have hsub : checked₁ ⊆ checked' := visitAll_keeps visit (P := (· ⊆ ·)) (fun _ => List.Subset.refl _)
      (fun _ _ _ => List.Subset.trans) (fun r _ c c' h => (hvisit r c c' h).1) h₂
    rintro r' (_ | hr')
    · exact hsub (hvisit r _ _ h₁).2
    · exact ih h₂ r' ‹_›

theorem visitAll_succeeds (hvisit : ∀ r ∈ references, ∀ c, ∃ c', visit r c = .ok c')
    (checked : List String) : ∃ checked', visitAll visit references checked = .ok checked' := by
  induction references generalizing checked with
  | nil => exact ⟨checked, rfl⟩
  | cons r references ih =>
    obtain ⟨checked₁, h₁⟩ := hvisit r List.mem_cons_self checked
    obtain ⟨checked', h'⟩ := ih (fun r hr => hvisit r (List.mem_cons_of_mem _ hr)) checked₁
    refine ⟨checked', ?_⟩
    rw [visitAll, List.foldlM_cons, h₁]
    exact h'

end

section
variable (models : List (String × Schema ν))

def CheckedGood (reference : String) : Prop :=
  ∃ value, lookup reference models = .ok value ∧ ∀ source ∈ records (fun _ => false) value, checkedFine source

def CheckedEdge (reference next : String) : Prop :=
  ∃ value, lookup reference models = .ok value ∧ next ∈ (records (fun _ => false) value).flatMap checkedReferences

def ResolvedGood (reference : String) : Prop :=
  ∃ members, lookup reference models = .ok (.object members) ∧
    ∀ source ∈ records (· = "tm:ref") (.object members), resolvedFine source

def ResolvedEdge (reference next : String) : Prop :=
  ∃ value, lookup reference models = .ok value ∧ next ∈ (records (· = "tm:ref") value).flatMap resolvedReferences

def Checkable (n : Nat) (reference : String) : Prop := Within (CheckedGood models) (CheckedEdge models) n reference

def Resolvable (n : Nat) (reference : String) : Prop := Within (ResolvedGood models) (ResolvedEdge models) n reference

variable {models}

open Relation in
theorem visit_succeeds {room : Nat} {pending : List String} {reference : String} (h : Checkable models room reference)
    (hpending : ∀ p ∈ pending, TransGen (CheckedEdge models) p reference) (checked : List String) :
    ∃ checked', visit models room pending reference checked = .ok checked' := by
  induction room generalizing pending reference checked with
  | zero => exact h.elim
  | succ room ih =>
    have hfresh : reference ∉ pending := fun hp => h.acyclic (hpending reference hp)
    by_cases hc : reference ∈ checked
    · exact ⟨checked, by rw [visit, if_neg hfresh, if_pos hc]⟩
    · obtain ⟨value, hlookup, hfine⟩ := h.1
      have hnext : ∀ r ∈ (records (fun _ => false) value).flatMap checkedReferences, ∀ c,
          ∃ c', visit models room (reference :: pending) r c = .ok c' := by
        intro r hr c
        have hedge : CheckedEdge models reference r := ⟨value, hlookup, hr⟩
        refine ih (h.next hedge) (fun p hp => ?_) c
        rcases List.mem_cons.mp hp with rfl | hp
        · exact .single hedge
        · exact (hpending p hp).tail hedge
      obtain ⟨checked', hall⟩ := visitAll_succeeds (visit models room (reference :: pending)) hnext checked
      have hwalk := (walk_ok (visit models room (reference :: pending)) value checked checked').mpr ⟨hfine, hall⟩
      refine ⟨reference :: checked', ?_⟩
      rw [visit, if_neg hfresh, if_neg hc]
      simp only [hlookup, bind, Except.bind, hwalk, pure, Except.pure]

theorem visit_marks {room : Nat} {pending : List String} {reference : String} {checked checked' : List String}
    (h : visit models room pending reference checked = .ok checked') : checked ⊆ checked' ∧ reference ∈ checked' := by
  induction room generalizing pending reference checked checked' with
  | zero =>
    rw [visit] at h
    split at h
    · cases h
    · split at h
      · rename_i hc
        exact Except.ok.inj h ▸ ⟨List.Subset.refl _, hc⟩
      · cases h
  | succ room ih =>
    rw [visit] at h
    split at h
    · cases h
    · split at h
      · rename_i hc
        exact Except.ok.inj h ▸ ⟨List.Subset.refl _, hc⟩
      · obtain ⟨value, hlookup, h⟩ := except_bind_ok h
        obtain ⟨checked₁, hwalk, h⟩ := except_bind_ok h
        obtain rfl := Except.ok.inj h
        have hall := ((walk_ok _ _ _ _).mp hwalk).2
        refine ⟨fun c hc => List.mem_cons_of_mem _ ?_, List.mem_cons_self⟩
        exact visitAll_keeps _ (P := (· ⊆ ·)) (fun _ => List.Subset.refl _) (fun _ _ _ => List.Subset.trans)
          (fun r _ c c' h => (ih h).1) hall hc

theorem visit_checkable {room : Nat} {pending : List String} {reference : String} {checked checked' : List String}
    (h : visit models room pending reference checked = .ok checked') (hc : ∀ c ∈ checked, ∃ n, Checkable models n c) :
    ∀ c ∈ checked', ∃ n, Checkable models n c := by
  induction room generalizing pending reference checked checked' with
  | zero =>
    rw [visit] at h
    split at h
    · cases h
    · split at h
      · exact Except.ok.inj h ▸ hc
      · cases h
  | succ room ih =>
    rw [visit] at h
    split at h
    · cases h
    · split at h
      · exact Except.ok.inj h ▸ hc
      · obtain ⟨value, hlookup, h⟩ := except_bind_ok h
        obtain ⟨checked₁, hwalk, h⟩ := except_bind_ok h
        obtain rfl := Except.ok.inj h
        obtain ⟨hfine, hall⟩ := (walk_ok _ _ _ _).mp hwalk
        have hchecked : ∀ c ∈ checked₁, ∃ n, Checkable models n c :=
          visitAll_keeps _ (P := fun a b => (∀ c ∈ a, ∃ n, Checkable models n c) → ∀ c ∈ b, ∃ n, Checkable models n c)
            (fun _ h => h) (fun _ _ _ h h' ha => h' (h ha)) (fun r _ c c' h hc => ih h hc) hall hc
        have hmarked := visitAll_marks _ (fun r c c' h => visit_marks h) hall
        obtain ⟨n, hn⟩ := Within.bounded fun r hr => hchecked r (hmarked r hr)
        rintro c (_ | hc)
        · refine ⟨n + 1, ⟨value, hlookup, hfine⟩, fun r ⟨value', hlookup', hr⟩ => ?_⟩
          obtain rfl := Except.ok.inj (hlookup.symm.trans hlookup')
          exact hn r hr
        · exact hchecked c ‹_›

end

-- The resolver

def Succeeds {α : Type} (x : Except OnvifError α) : Prop := ∃ a, x = .ok a

theorem succeeds_bind {α β : Type} {x : Except OnvifError α} {f : α → Except OnvifError β} :
    Succeeds (x >>= f) ↔ ∃ a, x = .ok a ∧ Succeeds (f a) := by
  constructor
  · rintro ⟨b, h⟩
    obtain ⟨a, ha, hb⟩ := except_bind_ok h
    exact ⟨a, ha, b, hb⟩
  · rintro ⟨a, rfl, b, hb⟩
    exact ⟨b, hb⟩

theorem succeeds_ok {α : Type} (a : α) : Succeeds (.ok a) := ⟨a, rfl⟩

theorem not_succeeds_failure {α : Type} (message : String) : ¬Succeeds (failure message : Except OnvifError α) := nofun

theorem succeeds_bind_all {α β : Type} {x : Except OnvifError α} {f : α → Except OnvifError β} {P : Prop}
    (h : ∀ a, Succeeds (f a) ↔ P) : Succeeds (x >>= f) ↔ Succeeds x ∧ P := by
  rw [succeeds_bind]
  constructor
  · rintro ⟨a, ha, hf⟩
    exact ⟨⟨a, ha⟩, (h a).mp hf⟩
  · rintro ⟨⟨a, ha⟩, hp⟩
    exact ⟨a, ha, (h a).mpr hp⟩

theorem succeeds_pure {α β : Type} {x : Except OnvifError α} {g : α → β} : Succeeds (x >>= fun a => pure (g a)) ↔ Succeeds x := by
  have h (a : α) : Succeeds (pure (g a) : Except OnvifError β) ↔ True := iff_true_intro ⟨g a, rfl⟩
  rw [succeeds_bind_all h, and_true]

section
variable (resolve : String → Except OnvifError (Schema ν))

theorem baseResult_succeeds (source : Schema ν) : Succeeds (baseResult resolve source) ↔
    basesFine source ∧ ∀ r ∈ (bases source).filterMap baseHref, Succeeds (resolve r) := by
  unfold baseResult basesFine
  match bases source with
  | [] => simp [succeeds_ok]
  | [base] =>
    cases hh : baseHref base with
    | none => simp [hh, not_succeeds_failure]
    | some href => simp [hh]
  | _ :: _ :: _ => simp [not_succeeds_failure]

theorem withReference_succeeds (source result : Schema ν) : Succeeds (withReference resolve source result) ↔
    referenceFine source ∧ ∀ r ∈ reference? source, Succeeds (resolve r) := by
  unfold withReference referenceFine reference?
  cases Json.get "tm:ref" source with
  | none => simp [succeeds_ok]
  | some value =>
    cases value with
    | string reference =>
      dsimp only
      rw [succeeds_pure]
      simp [Json.asString]
    | _ => simp [Json.asString, not_succeeds_failure]

theorem inherited_succeeds (source : Schema ν) : Succeeds (inherited resolve source) ↔
    resolvedFine source ∧ ∀ r ∈ resolvedReferences source, Succeeds (resolve r) := by
  rw [inherited, succeeds_bind_all (withReference_succeeds resolve source), baseResult_succeeds, resolvedFine,
    resolvedReferences, Bool.and_eq_true, List.forall_mem_append]
  tauto

mutual
theorem expandValue_succeeds : ∀ value : Json ν, Succeeds (expandValue resolve value) ↔
    (∀ source ∈ records (· = "tm:ref") value, resolvedFine source) ∧
      ∀ r ∈ (records (· = "tm:ref") value).flatMap resolvedReferences, Succeeds (resolve r)
  | .array items => by
    rw [expandValue, succeeds_pure, records]
    exact expandItems_succeeds items
  | .object members => by
    rw [expandValue, succeeds_bind_all fun result => succeeds_pure.trans (expandMembers_succeeds members result),
      inherited_succeeds, records, List.flatMap_cons, List.forall_mem_cons, List.forall_mem_append]
    tauto
  | .null => by simp [expandValue, records, succeeds_ok]
  | .bool _ => by simp [expandValue, records, succeeds_ok]
  | .number _ => by simp [expandValue, records, succeeds_ok]
  | .string _ => by simp [expandValue, records, succeeds_ok]
theorem expandItems_succeeds : ∀ items : List (Json ν), Succeeds (expandItems resolve items) ↔
    (∀ source ∈ itemRecords (· = "tm:ref") items, resolvedFine source) ∧
      ∀ r ∈ (itemRecords (· = "tm:ref") items).flatMap resolvedReferences, Succeeds (resolve r)
  | [] => by simp [expandItems, itemRecords, succeeds_ok]
  | item :: items => by
    rw [expandItems, succeeds_bind_all fun _ => succeeds_pure.trans (expandItems_succeeds items), expandValue_succeeds item, itemRecords, List.flatMap_append, List.forall_mem_append, List.forall_mem_append]
    tauto
theorem expandMembers_succeeds : ∀ (members result : Schema ν), Succeeds (expandMembers resolve members result) ↔
    (∀ source ∈ memberRecords (· = "tm:ref") members, resolvedFine source) ∧
      ∀ r ∈ (memberRecords (· = "tm:ref") members).flatMap resolvedReferences, Succeeds (resolve r)
  | [], result => by simp [expandMembers, memberRecords, succeeds_ok]
  | (key, item) :: members, result => by
    rw [expandMembers, memberRecords]
    by_cases hk : key = "tm:ref"
    · rw [if_pos hk, if_pos (decide_eq_true hk), List.nil_append]
      exact expandMembers_succeeds members result
    · rw [if_neg hk, if_neg (by simpa using hk), List.flatMap_append, List.forall_mem_append, List.forall_mem_append,
        succeeds_bind_all fun expanded => expandMembers_succeeds members (putMember key expanded result),
        expandValue_succeeds item]
      tauto
end

theorem expand_succeeds (source : Schema ν) : Succeeds (expand resolve source) ↔
    (∀ source' ∈ records (· = "tm:ref") (.object source), resolvedFine source') ∧
      ∀ r ∈ (records (· = "tm:ref") (.object source)).flatMap resolvedReferences, Succeeds (resolve r) := by
  rw [← expandValue_succeeds]
  unfold expand
  rw [expandValue]
  simp only [succeeds_bind, pure, Except.pure, succeeds_ok, and_true]

end

section
variable {models : List (String × Schema ν)}

open Relation in
theorem resolveReference_succeeds {room : Nat} {pending : List String} {reference : String}
    (h : Resolvable models room reference) (hpending : ∀ p ∈ pending, TransGen (ResolvedEdge models) p reference) :
    Succeeds (resolveReference models room pending reference) := by
  induction room generalizing pending reference with
  | zero => exact h.elim
  | succ room ih =>
    have hfresh : reference ∉ pending := fun hp => h.acyclic (hpending reference hp)
    obtain ⟨members, hlookup, hfine⟩ := h.1
    rw [resolveReference, if_neg hfresh, hlookup]
    refine (expand_succeeds _ members).mpr ⟨hfine, fun r hr => ?_⟩
    have hedge : ResolvedEdge models reference r := ⟨_, hlookup, hr⟩
    refine ih (h.next hedge) fun p hp => ?_
    rcases List.mem_cons.mp hp with rfl | hp
    · exact .single hedge
    · exact (hpending p hp).tail hedge

theorem resolvable_of_succeeds {room : Nat} {pending : List String} {reference : String}
    (h : Succeeds (resolveReference models room pending reference)) : Resolvable models room reference := by
  induction room generalizing pending reference with
  | zero => exact absurd h (not_succeeds_failure _)
  | succ room ih =>
    rw [resolveReference] at h
    split at h
    · exact absurd h (not_succeeds_failure _)
    · obtain ⟨value, hlookup, h⟩ := succeeds_bind.mp h
      cases value with
      | object members =>
        obtain ⟨hfine, hall⟩ := (expand_succeeds _ members).mp h
        refine ⟨⟨members, hlookup, hfine⟩, fun r ⟨value, hlookup', hr⟩ => ih (hall r ?_)⟩
        obtain rfl := Except.ok.inj (hlookup.symm.trans hlookup')
        exact hr
      | _ => exact absurd h (not_succeeds_failure _)

end

-- What is resolved

def linkFree (links : Json ν) : Bool := (links.asArray.getD []).all fun link => !isBase link

mutual
/-- There is no `tm:ref` and no `tm:extends` link in a value. -/
def Clean : Json ν → Prop
  | .array items => CleanItems items
  | .object members => CleanMembers members
  | _ => True
def CleanItems : List (Json ν) → Prop
  | [] => True
  | item :: items => Clean item ∧ CleanItems items
def CleanMembers : Schema ν → Prop
  | [] => True
  | (key, item) :: members => (key ≠ "tm:ref" ∧ (key = "links" → linkFree item) ∧ Clean item) ∧ CleanMembers members
end

theorem cleanItems_iff {items : List (Json ν)} : CleanItems items ↔ ∀ item ∈ items, Clean item := by
  induction items with
  | nil => simp [CleanItems]
  | cons item items ih => rw [CleanItems, List.forall_mem_cons, ih]

theorem cleanMembers_iff {members : Schema ν} : CleanMembers members ↔
    ∀ member ∈ members, member.1 ≠ "tm:ref" ∧ (member.1 = "links" → linkFree member.2) ∧ Clean member.2 := by
  induction members with
  | nil => simp [CleanMembers]
  | cons member members ih => rw [CleanMembers, List.forall_mem_cons, ih]

structure Loose (result : Schema ν) : Prop where
  keyed : (result.map (·.1)).Nodup
  members : ∀ member ∈ result, member.1 ≠ "tm:ref" ∧ Clean member.2

structure Resolved (result : Schema ν) : Prop where
  keyed : (result.map (·.1)).Nodup
  clean : Clean (.object result)

theorem Resolved.loose {result : Schema ν} (h : Resolved result) : Loose result :=
  ⟨h.keyed, fun member hm => ⟨(cleanMembers_iff.mp h.clean member hm).1, (cleanMembers_iff.mp h.clean member hm).2.2⟩⟩

section
variable {key : String} {item : Json ν} {members : Schema ν}

theorem mem_setMember {member : String × Json ν} (h : member ∈ setMember key item members) :
    member = (key, item) ∨ member ∈ members ∧ member.1 ≠ key := by
  unfold setMember at h
  split at h
  · obtain ⟨old, ho, rfl⟩ := List.mem_map.mp h
    by_cases hk : old.1 = key
    · exact .inl (if_pos hk)
    · rw [if_neg hk]
      exact .inr ⟨ho, hk⟩
  · rename_i hnot
    rcases List.mem_append.mp h with h | h
    · refine .inr ⟨h, fun hk => hnot ?_⟩
      exact List.any_eq_true.mpr ⟨member, h, by simpa using hk⟩
    · exact .inl (List.mem_singleton.mp h)

theorem keyed_setMember (h : (members.map (·.1)).Nodup) : ((setMember key item members).map (·.1)).Nodup := by
  unfold setMember
  split
  · have hkeys : (members.map fun member => if member.1 = key then (key, item) else member).map (·.1) = members.map (·.1) := by
      rw [List.map_map]
      refine List.map_congr_left fun member _ => ?_
      by_cases hk : member.1 = key
      · simp [hk]
      · simp [hk]
    rw [hkeys]
    exact h
  · rename_i hnot
    rw [List.map_append]
    refine List.nodup_append.mpr ⟨h, List.nodup_singleton key, ?_⟩
    rintro other ho _ hk rfl
    obtain ⟨member, hm, hmk⟩ := List.mem_map.mp ho
    rw [List.map_singleton, List.mem_singleton] at hk
    exact hnot (List.any_eq_true.mpr ⟨member, hm, by simpa using hmk.trans hk⟩)

variable {source : Schema ν}

theorem mem_spread {member : String × Json ν} (h : member ∈ spread members source) :
    member ∈ members ∨ member ∈ source := by
  induction source generalizing members with
  | nil => exact .inl h
  | cons first source ih =>
    rcases ih h with h | h
    · rcases mem_setMember h with rfl | ⟨h, -⟩
      · exact .inr List.mem_cons_self
      · exact .inl h
    · exact .inr (List.mem_cons_of_mem _ h)

theorem keyed_spread (h : (members.map (·.1)).Nodup) : ((spread members source).map (·.1)).Nodup := by
  induction source generalizing members with
  | nil => exact h
  | cons first source ih => exact ih (keyed_setMember h)

section
variable (h : Loose members)
include h

theorem Loose.spread (h' : Loose source) : Loose (spread members source) :=
  ⟨keyed_spread h.keyed, fun member hm => (mem_spread hm).elim (h.members member) (h'.members member)⟩

theorem Loose.setMember (hk : key ≠ "tm:ref") (hi : Clean item) : Loose (setMember key item members) := by
  refine ⟨keyed_setMember h.keyed, fun member hm => ?_⟩
  rcases mem_setMember hm with rfl | ⟨hm, -⟩
  · exact ⟨hk, hi⟩
  · exact h.members member hm

theorem Loose.putMember (hk : key ≠ "tm:ref") (hi : Clean item) : Loose (putMember key item members) := by
  unfold Catalog.putMember
  split
  · rename_i prior new _ hget
    refine h.setMember hk ?_
    have hprior : Clean (.object prior) := by
      obtain ⟨member, hfind, hvalue⟩ := Option.map_eq_some_iff.mp hget
      exact hvalue ▸ (h.members member (List.mem_of_find?_eq_some hfind)).2
    refine cleanMembers_iff.mpr fun member hm => ?_
    exact (mem_spread hm).elim (cleanMembers_iff.mp hprior member) (cleanMembers_iff.mp hi member)
  · exact h.setMember hk hi

theorem Loose.withoutBases : Resolved (withoutBases members) := by
  unfold Catalog.withoutBases
  split
  · rename_i links hget
    have hlinks : Clean (.array links) := by
      obtain ⟨member, hfind, hvalue⟩ := Option.map_eq_some_iff.mp hget
      exact hvalue ▸ (h.members member (List.mem_of_find?_eq_some hfind)).2
    refine ⟨keyed_setMember h.keyed, cleanMembers_iff.mpr fun member hm => ?_⟩
    rcases mem_setMember hm with rfl | ⟨hm, hk⟩
    · refine ⟨(by decide : "links" ≠ "tm:ref"), fun _ => by simp [linkFree, Json.asArray], cleanItems_iff.mpr fun item hi => ?_⟩
      exact cleanItems_iff.mp hlinks item (List.mem_filter.mp hi).1
    · exact ⟨(h.members member hm).1, fun hl => absurd hl hk, (h.members member hm).2⟩
  · rename_i hnot
    refine ⟨h.keyed, cleanMembers_iff.mpr fun member hm => ⟨(h.members member hm).1, fun hl => ?_, (h.members member hm).2⟩⟩
    -- The keys are distinct, so these are the links that were looked at.
    have hget : Json.get "links" members = some member.2 := by
      have hfirst : members.find? (·.1 = "links") = some member := by
        have hsome : (members.find? (·.1 = "links")).isSome := List.find?_isSome.mpr ⟨member, hm, decide_eq_true hl⟩
        obtain ⟨first, hfind⟩ := Option.isSome_iff_exists.mp hsome
        have hkey := List.find?_some hfind
        rw [decide_eq_true_eq] at hkey
        rw [hfind, List.inj_on_of_nodup_map h.keyed (List.mem_of_find?_eq_some hfind) hm (hkey.trans hl.symm)]
      rw [Json.get, hfirst, Option.map_some]
    unfold linkFree
    cases hv : member.2 with
    | array links => exact absurd (hget.trans (congrArg some hv)) (hnot links)
    | _ => rfl

end

end

section
variable {resolve : String → Except OnvifError (Schema ν)}

theorem inherited_loose (hresolve : ∀ r result, resolve r = .ok result → Resolved result) {source result : Schema ν}
    (h : inherited resolve source = .ok result) : Loose result := by
  obtain ⟨base, hbase, h⟩ := except_bind_ok h
  have hloose : Loose base := by
    unfold baseResult at hbase
    split at hbase
    · exact Except.ok.inj hbase ▸ ⟨List.nodup_nil, nofun⟩
    · split at hbase
      · exact (hresolve _ _ hbase).loose
      · cases hbase
    · cases hbase
  unfold withReference at h
  split at h
  · exact Except.ok.inj h ▸ hloose
  · obtain ⟨referenced, hr, h⟩ := except_bind_ok h
    exact Except.ok.inj h ▸ hloose.spread (hresolve _ _ hr).loose
  · cases h

mutual
theorem expandValue_clean (hresolve : ∀ r result, resolve r = .ok result → Resolved result) :
    ∀ (value : Json ν) {expanded : Json ν}, expandValue resolve value = .ok expanded → Clean expanded
  | .array items, expanded, h => by
    rw [expandValue] at h
    obtain ⟨expandeds, hitems, h⟩ := except_bind_ok h
    obtain rfl := Except.ok.inj h
    exact cleanItems_iff.mpr (expandItems_clean hresolve items hitems)
  | .object members, expanded, h => by
    rw [expandValue] at h
    obtain ⟨result, hinherited, h⟩ := except_bind_ok h
    obtain ⟨result', hmembers, h⟩ := except_bind_ok h
    obtain rfl := Except.ok.inj h
    exact (expandMembers_loose hresolve members (inherited_loose hresolve hinherited) hmembers).withoutBases.clean
  | .null, _, h => Except.ok.inj h ▸ trivial
  | .bool _, _, h => Except.ok.inj h ▸ trivial
  | .number _, _, h => Except.ok.inj h ▸ trivial
  | .string _, _, h => Except.ok.inj h ▸ trivial
theorem expandItems_clean (hresolve : ∀ r result, resolve r = .ok result → Resolved result) :
    ∀ (items : List (Json ν)) {expanded : List (Json ν)}, expandItems resolve items = .ok expanded → ∀ item ∈ expanded, Clean item
  | [], _, h => by rw [expandItems] at h; exact Except.ok.inj h ▸ nofun
  | item :: items, _, h => by
    rw [expandItems] at h
    obtain ⟨expanded, hitem, h⟩ := except_bind_ok h
    obtain ⟨expandeds, hitems, h⟩ := except_bind_ok h
    obtain rfl := Except.ok.inj h
    exact List.forall_mem_cons.mpr ⟨expandValue_clean hresolve item hitem, expandItems_clean hresolve items hitems⟩
theorem expandMembers_loose (hresolve : ∀ r result, resolve r = .ok result → Resolved result) :
    ∀ (members : Schema ν) {result result' : Schema ν}, Loose result → expandMembers resolve members result = .ok result' → Loose result'
  | [], _, _, hl, h => by rw [expandMembers] at h; exact Except.ok.inj h ▸ hl
  | (key, item) :: members, result, result', hl, h => by
    rw [expandMembers] at h
    split at h
    · exact expandMembers_loose hresolve members hl h
    · rename_i hk
      obtain ⟨expanded, hitem, h⟩ := except_bind_ok h
      exact expandMembers_loose hresolve members (hl.putMember hk (expandValue_clean hresolve item hitem)) h
end

end

theorem resolveReference_resolved {models : List (String × Schema ν)} {room : Nat} {pending : List String} {reference : String}
    {result : Schema ν} (h : resolveReference models room pending reference = .ok result) : Resolved result := by
  induction room generalizing pending reference result with
  | zero => cases h
  | succ room ih =>
    rw [resolveReference] at h
    split at h
    · cases h
    · obtain ⟨value, -, h⟩ := except_bind_ok h
      cases value with
      | object source =>
        obtain ⟨result₁, hinherited, h⟩ := except_bind_ok h
        obtain ⟨result₂, hmembers, h⟩ := except_bind_ok h
        obtain rfl := Except.ok.inj h
        exact (expandMembers_loose (fun _ _ => ih) source (inherited_loose (fun _ _ => ih) hinherited) hmembers).withoutBases
      | _ => cases h

-- The checker sees no more than the resolver

mutual
theorem records_skip : ∀ value : Json ν, Proper value → (∀ source ∈ records (· = "tm:ref") value, resolvedFine source) →
    records (fun _ => false) value = records (· = "tm:ref") value
  | .array items, hp, h => itemRecords_skip items hp h
  | .object members, hp, h => by
    obtain ⟨hown, hrest⟩ := List.forall_mem_cons.mp h
    refine congrArg (members :: ·) (memberRecords_skip members hp.2 (fun member hm hk => ?_) hrest)
    rw [resolvedFine, Bool.and_eq_true, referenceFine] at hown
    have hget : Json.get "tm:ref" members = some member.2 := by
      have hsome : (members.find? (·.1 = "tm:ref")).isSome := List.find?_isSome.mpr ⟨member, hm, decide_eq_true hk⟩
      obtain ⟨first, hfind⟩ := Option.isSome_iff_exists.mp hsome
      have hkey := List.find?_some hfind
      rw [decide_eq_true_eq] at hkey
      rw [Json.get, hfind, List.inj_on_of_nodup_map hp.1 (List.mem_of_find?_eq_some hfind) hm (hkey.trans hk.symm)]
      rfl
    simpa [hget] using hown.2
  | .null, _, _ => rfl
  | .bool _, _, _ => rfl
  | .number _, _, _ => rfl
  | .string _, _, _ => rfl
theorem itemRecords_skip : ∀ items : List (Json ν), ProperItems items →
    (∀ source ∈ itemRecords (· = "tm:ref") items, resolvedFine source) →
    itemRecords (fun _ => false) items = itemRecords (· = "tm:ref") items
  | [], _, _ => rfl
  | item :: items, hp, h => by
    obtain ⟨hitem, hitems⟩ := List.forall_mem_append.mp h
    rw [itemRecords, itemRecords, records_skip item hp.1 hitem, itemRecords_skip items hp.2 hitems]
theorem memberRecords_skip : ∀ members : Schema ν, ProperMembers members →
    (∀ member ∈ members, member.1 = "tm:ref" → member.2.asString.isSome) →
    (∀ source ∈ memberRecords (· = "tm:ref") members, resolvedFine source) →
    memberRecords (fun _ => false) members = memberRecords (· = "tm:ref") members
  | [], _, _, _ => rfl
  | (key, item) :: members, hp, hs, h => by
    obtain ⟨hitem, hitems⟩ := List.forall_mem_append.mp h
    obtain ⟨hself, hothers⟩ := List.forall_mem_cons.mp hs
    rw [memberRecords, memberRecords, memberRecords_skip members hp.2 hothers hitems]
    by_cases hk : key = "tm:ref"
    · have htext := hself hk
      cases item with
      | string text => simp [records]
      | _ => simp [Json.asString] at htext
    · simp only [hk, decide_false, Bool.false_eq_true, if_false] at hitem ⊢
      rw [records_skip item hp.1 hitem]
end

theorem properMembers_iff {members : Schema ν} : ProperMembers members ↔ ∀ member ∈ members, Proper member.2 := by
  induction members with
  | nil => simp [ProperMembers]
  | cons member members ih => rw [ProperMembers, List.forall_mem_cons, ih]

theorem descend_proper {reference : String} {tokens : List (List Char)} {current value : Json ν} (hc : Proper current)
    (h : tokens.foldlM (descend reference) current = .ok value) : Proper value := by
  induction tokens generalizing current with
  | nil => exact Except.ok.inj h ▸ hc
  | cons token tokens ih =>
    rw [List.foldlM_cons] at h
    obtain ⟨next, hnext, h⟩ := except_bind_ok h
    refine ih ?_ h
    unfold descend at hnext
    split at hnext
    · cases hnext
    · split at hnext
      · rename_i item hitem
        obtain rfl := Except.ok.inj hnext
        cases current with
        | object members =>
          obtain ⟨member, hfind, rfl⟩ := Option.map_eq_some_iff.mp hitem
          exact properMembers_iff.mp hc.2 member (List.mem_of_find?_eq_some hfind)
        | _ => simp [Json.asRecord] at hitem
      · cases hnext

namespace Models

def ids (models : Models ν) : List String := models.entries.map (·.1)

theorem lookup_proper (models : Models ν) {reference : String} {value : Json ν}
    (h : lookup reference models.entries = .ok value) : Proper value := by
  unfold lookup at h
  dsimp only at h
  split at h
  · cases h
  · rename_i model hmodel
    obtain ⟨entry, hfind, rfl⟩ := Option.map_eq_some_iff.mp hmodel
    have hproper := models.proper entry (List.mem_of_find?_eq_some hfind)
    split at h
    · exact Except.ok.inj h ▸ hproper
    · exact Except.ok.inj h ▸ hproper
    · exact descend_proper hproper h
    · cases h

theorem checkable (models : Models ν) {n : Nat} {reference : String} (h : Resolvable models.entries n reference) :
    Checkable models.entries n reference := by
  refine Within.sub ?_ ?_ h
  · rintro a ⟨members, hlookup, hfine⟩
    refine ⟨_, hlookup, fun source hs => ?_⟩
    rw [records_skip _ (models.lookup_proper hlookup) hfine] at hs
    have := hfine source hs
    rw [resolvedFine, Bool.and_eq_true] at this
    simp [checkedFine, this]
  · rintro a b ⟨members, hlookup, hfine⟩ ⟨value, hlookup', hb⟩
    obtain rfl := Except.ok.inj (hlookup.symm.trans hlookup')
    refine ⟨_, hlookup, ?_⟩
    rw [records_skip _ (models.lookup_proper hlookup) hfine] at hb
    obtain ⟨source, hs, hb⟩ := List.mem_flatMap.mp hb
    refine List.mem_flatMap.mpr ⟨source, hs, ?_⟩
    unfold checkedReferences at hb
    unfold resolvedReferences
    rcases List.mem_append.mp hb with hb | hb
    · exact List.mem_append_right _ hb
    · split at hb
      · exact List.mem_append_left _ hb
      · cases hb

-- Any order

theorem find_eq_some {α : Type} {entries : List (String × α)} (h : (entries.map (·.1)).Nodup) {id : String}
    {entry : String × α} : entries.find? (·.1 = id) = some entry ↔ entry ∈ entries ∧ entry.1 = id := by
  constructor
  · intro hf
    have hkey := List.find?_some hf
    exact ⟨List.mem_of_find?_eq_some hf, of_decide_eq_true hkey⟩
  · rintro ⟨hm, hk⟩
    have hsome : (entries.find? (·.1 = id)).isSome := List.find?_isSome.mpr ⟨entry, hm, decide_eq_true hk⟩
    obtain ⟨first, hf⟩ := Option.isSome_iff_exists.mp hsome
    have hfirst := List.find?_some hf
    have hkey : first.1 = id := of_decide_eq_true hfirst
    rw [hf, List.inj_on_of_nodup_map h (List.mem_of_find?_eq_some hf) hm (hkey.trans hk.symm)]

variable {models models' : Models ν}

theorem lookup_perm (h : models'.entries.Perm models.entries) (reference : String) :
    lookup reference models'.entries = lookup reference models.entries := by
  have hfind (id : String) : models'.entries.find? (·.1 = id) = models.entries.find? (·.1 = id) :=
    Option.ext fun entry => by
      rw [find_eq_some models'.keyed, find_eq_some models.keyed, h.mem_iff]
  unfold lookup
  simp only [hfind]

theorem checkable_perm (h : models'.entries.Perm models.entries) (n : Nat) (reference : String) :
    Checkable models'.entries n reference ↔ Checkable models.entries n reference := by
  unfold Checkable CheckedGood CheckedEdge
  simp only [lookup_perm h]

def Accepts (models : Models ν) : Prop := assertModelImports models.entries = .ok ()

theorem accepts_iff : models.Accepts ↔ ∃ checked,
    visitAll (fun r c => visit models.entries 64 [] r c) models.ids [] = .ok checked := by
  unfold Accepts assertModelImports visitAll ids
  constructor
  · intro h
    obtain ⟨checked, h, -⟩ := except_bind_ok h
    exact ⟨checked, h⟩
  · rintro ⟨checked, h⟩
    rw [h]
    rfl

theorem accepts_of_checkable (h : ∀ id ∈ models.ids, Checkable models.entries 64 id) : models.Accepts :=
  accepts_iff.mpr (visitAll_succeeds _ (fun id hid checked => visit_succeeds (h id hid) (List.forall_mem_nil _) checked) [])

theorem checkable_of_accepts (h : models.Accepts) : ∀ id ∈ models.ids, ∃ n, Checkable models.entries n id := by
  obtain ⟨checked, hall⟩ := accepts_iff.mp h
  have hchecked : ∀ c ∈ checked, ∃ n, Checkable models.entries n c :=
    visitAll_keeps _ (P := fun a b => (∀ c ∈ a, ∃ n, Checkable models.entries n c) →
        ∀ c ∈ b, ∃ n, Checkable models.entries n c)
      (fun _ h => h) (fun _ _ _ h h' ha => h' (h ha)) (fun r _ c c' h hc => visit_checkable h hc) hall nofun
  exact fun id hid => hchecked id (visitAll_marks _ (fun r c c' h => visit_marks h) hall id hid)

def Resolves (models : Models ν) : Prop :=
  ∀ id ∈ models.ids, ∃ result, resolveModel id models.entries = .ok result ∧ Clean (.object result)

theorem resolves_iff : models.Resolves ↔ ∀ id ∈ models.ids, Resolvable models.entries 65 id := by
  constructor
  · intro h id hid
    obtain ⟨result, hr, -⟩ := h id hid
    exact resolvable_of_succeeds ⟨result, hr⟩
  · intro h id hid
    obtain ⟨result, hr⟩ : Succeeds (resolveReference models.entries 65 [] id) := resolveReference_succeeds (h id hid) nofun
    exact ⟨result, hr, (resolveReference_resolved hr).clean⟩

/-- What is accepted resolves, and the order of the models does not matter. -/
def Trusted (models : Models ν) : Prop :=
  (models.Accepts → models.Resolves) ∧
    ∀ models' : Models ν, models'.entries.Perm models.entries → (models'.Accepts ↔ models.Accepts)

/-- The checker meets a fault or a cycle in any order, or the resolver meets none within 64
references. -/
def Settled (models : Models ν) : Prop :=
  (∃ id ∈ models.ids, ∀ n, ¬Checkable models.entries n id) ∨ ∀ id ∈ models.ids, Resolvable models.entries 64 id

theorem trusted_of_settled (h : models.Settled) : models.Trusted := by
  rcases h with ⟨id, hid, hfault⟩ | h
  · have hnot : ∀ models' : Models ν, models'.entries.Perm models.entries → ¬models'.Accepts := by
      intro models' hperm haccepts
      obtain ⟨n, hn⟩ := checkable_of_accepts haccepts id ((hperm.map (·.1)).mem_iff.mpr hid)
      exact hfault n ((checkable_perm hperm n id).mp hn)
    have hself := hnot models (List.Perm.refl _)
    exact ⟨fun ha => absurd ha hself, fun models' hperm => iff_of_false (hnot models' hperm) hself⟩
  · have hall : ∀ models' : Models ν, models'.entries.Perm models.entries → models'.Accepts := by
      intro models' hperm
      refine accepts_of_checkable fun id hid => (checkable_perm hperm 64 id).mpr ?_
      exact models.checkable (h id ((hperm.map (·.1)).mem_iff.mp hid))
    refine ⟨fun _ => resolves_iff.mpr fun id hid => (h id hid).succ, fun models' hperm => ?_⟩
    exact iff_of_true (hall models' hperm) (hall models (List.Perm.refl _))

end Models

/-- What checked imports are good for, and how far that is from what is checked: a map that is trusted
without being settled has a chain of more than 64 references. -/
theorem imports_trusted (models : Models ν) :
    (models.Settled → models.Trusted) ∧
    (models.Accepts → (models.Resolves ↔ ∀ id ∈ models.ids, Resolvable models.entries 65 id)) ∧
    (models.Trusted → models.Settled ∨ ∃ id ∈ models.ids,
      (Resolvable models.entries 65 id ∧ ¬Resolvable models.entries 64 id) ∨
        (∃ n, Checkable models.entries n id) ∧ ¬Checkable models.entries 64 id) := by
  refine ⟨Models.trusted_of_settled, fun _ => Models.resolves_iff, fun h => ?_⟩
  by_cases hsettled : models.Settled
  · exact .inl hsettled
  · obtain ⟨hcheckable, hlong⟩ := not_or.mp hsettled
    push Not at hcheckable hlong
    obtain ⟨id, hid, hlong⟩ := hlong
    by_cases haccepts : models.Accepts
    · exact .inr ⟨id, hid, .inl ⟨Models.resolves_iff.mp (h.1 haccepts) id hid, hlong⟩⟩
    · have hrefused : ∃ id ∈ models.ids, ¬Checkable models.entries 64 id := by
        by_contra hall
        push Not at hall
        exact haccepts (Models.accepts_of_checkable hall)
      obtain ⟨id, hid, hrefused⟩ := hrefused
      exact .inr ⟨id, hid, .inr ⟨hcheckable id hid, hrefused⟩⟩

def referring (reference : String) : Models Unit where
  entries := [("urn:a", [("id", .string "urn:a"), ("title", .string "A"), ("actions", .object [("go", .object [])]),
    ("properties", .object [("p", .object [("tm:ref", .string reference)])])])]
  keyed := by simp
  proper := by simp [Proper, ProperMembers]

theorem imports_trusted_actions : (referring "urn:a#/actions/go").Resolves := by
  have hsettled : (referring "urn:a#/actions/go").Settled := by
    refine .inr fun id hid => ?_
    obtain rfl : id = "urn:a" := by simpa [Models.ids, referring] using hid
    exact @resolvable_of_succeeds _ _ _ [] _ ⟨_, rfl⟩
  exact ((imports_trusted _).1 hsettled).1 rfl

/-- A reference to a text is accepted, and cannot be resolved. -/
theorem imports_untrusted : ¬∀ models : Models Unit, models.Accepts → models.Resolves := by
  intro h
  obtain ⟨result, hr, -⟩ := h (referring "urn:a#/title") rfl "urn:a" (by decide)
  have hfails : resolveModel "urn:a" (referring "urn:a#/title").entries = failure "A model import must address a JSON object" := rfl
  rw [hfails] at hr
  cases hr

end WotAv.Catalog
