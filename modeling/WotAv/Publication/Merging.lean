import Mathlib.Data.List.Nodup
import WotAv.Lib.Throwing
import WotAv.Publication.Directory
import WotAv.Publication.Validation

/-!
# Merging and matching (`src/publication/common.ts`)

What `matchesProducer` compares of two descriptions, what `mergeProducer` keeps
of each of its three, and when the one accepts what the other makes.
-/

namespace WotAv.Publication

open WotAv.Lib

-- Records in canonical form

theorem utf16_ne_nil (c : Char) : utf16 c ≠ [] := by
  unfold utf16
  split <;> simp

theorem utf16_inj {c d : Char} {r s : List Nat} (h : utf16 c ++ r = utf16 d ++ s) : c = d ∧ r = s := by
  have hvalid (c : Char) : c.toNat < 0xd800 ∨ 0xdfff < c.toNat ∧ c.toNat < 0x110000 := c.valid
  have hc := hvalid c
  have hd := hvalid d
  have named (hn : c.toNat = d.toNat) : c = d := by rw [← Char.ofNat_toNat c, hn, Char.ofNat_toNat]
  unfold utf16 at h
  split at h
  · split at h
    · simp only [List.cons_append, List.nil_append, List.cons.injEq] at h
      exact ⟨named h.1, h.2⟩
    · simp only [List.cons_append, List.nil_append, List.cons.injEq] at h
      omega
  · split at h
    · simp only [List.cons_append, List.nil_append, List.cons.injEq] at h
      omega
    · simp only [List.cons_append, List.nil_append, List.cons.injEq] at h
      exact ⟨named (by omega), h.2.2⟩

theorem flatMap_utf16_inj {a b : List Char} (h : a.flatMap utf16 = b.flatMap utf16) : a = b := by
  induction a generalizing b with
  | nil =>
    cases b with
    | nil => rfl
    | cons d b => simp [utf16_ne_nil] at h
  | cons c a ih =>
    cases b with
    | nil => simp [utf16_ne_nil] at h
    | cons d b =>
      rw [List.flatMap_cons, List.flatMap_cons] at h
      obtain ⟨rfl, hrest⟩ := utf16_inj h
      rw [ih hrest]

theorem keyLe_antisymm {a b : String} (h : keyLe a b) (h' : keyLe b a) : a = b := by
  simp only [keyLe, decide_eq_true_eq] at h h'
  exact String.toList_injective (flatMap_utf16_inj (le_antisymm h h'))

theorem keyLe_trans {a b c : String} (h : keyLe a b) (h' : keyLe b c) : keyLe a c := by
  simp only [keyLe, decide_eq_true_eq] at h h' ⊢
  exact le_trans h h'

theorem keyLe_total (a b : String) : keyLe a b ∨ keyLe b a := by
  simp only [keyLe, decide_eq_true_eq]
  exact le_total _ _

section
variable {α β : Type} {a b : List (String × α)} {key : String}

def Keyed (members : List (String × α)) : Prop := (members.map (·.1)).Nodup

instance (members : List (String × α)) : Decidable (Keyed members) := inferInstanceAs (Decidable (members.map (·.1)).Nodup)

theorem get_eq_some (ha : Keyed a) {item : α} : get key a = some item ↔ (key, item) ∈ a := by
  unfold get
  induction a with
  | nil => simp
  | cons first a ih =>
    rw [Keyed, List.map_cons, List.nodup_cons] at ha
    by_cases hf : first.1 = key
    · subst hf
      have hnot : (first.1, item) ∉ a := fun h => ha.1 (List.mem_map_of_mem (f := (·.1)) h)
      simp only [List.find?_cons_of_pos, decide_true, Option.map_some, Option.some.injEq, List.mem_cons, hnot, or_false]
      exact ⟨fun h => h ▸ rfl, fun h => (Prod.ext_iff.mp h).2.symm⟩
    · have hne : (key, item) ≠ first := fun h => hf (h ▸ rfl)
      rw [List.find?_cons_of_neg (by simpa using hf), ih ha.2, List.mem_cons, or_iff_right hne]

theorem perm_iff_get (ha : Keyed a) (hb : Keyed b) : a.Perm b ↔ ∀ key, get key a = get key b := by
  have hmem : (∀ key, get key a = get key b) ↔ ∀ member, member ∈ a ↔ member ∈ b := by
    constructor
    · rintro h ⟨key, item⟩
      rw [← get_eq_some ha, ← get_eq_some hb, h key]
    · intro h key
      refine Option.ext fun item => ?_
      rw [get_eq_some ha, get_eq_some hb, h]
  rw [hmem]
  exact ⟨fun h member => h.mem_iff,
    fun h => (List.perm_ext_iff_of_nodup ha.of_map hb.of_map).mpr h⟩

theorem get_map_snd (f : α → β) (a : List (String × α)) (key : String) :
    get key (a.map fun member => (member.1, f member.2)) = (get key a).map f := by
  unfold get
  rw [List.find?_map, Option.map_map, Option.map_map]
  rfl

theorem Keyed.map_snd (h : Keyed a) (f : α → β) : Keyed (a.map fun member => (member.1, f member.2)) := by
  simpa [Keyed, Function.comp_def] using h

end

theorem canonicalItems_eq (items : List Json) : canonicalItems items = items.map canonical := by
  induction items with
  | nil => rfl
  | cons item items ih => rw [canonicalItems, ih, List.map_cons]

theorem canonicalMembers_eq (members : Members) :
    canonicalMembers members = members.map fun member => (member.1, canonical member.2) := by
  induction members with
  | nil => rfl
  | cons member members ih => rw [canonicalMembers, ih, List.map_cons]

theorem sorted_eq_iff {a b : Members} (ha : Keyed a) :
    a.insertionSort (fun x y => keyLe x.1 y.1) = b.insertionSort (fun x y => keyLe x.1 y.1) ↔ a.Perm b := by
  let r (x y : String × Json) : Prop := keyLe x.1 y.1 = true
  have : IsTrans _ r := ⟨fun _ _ _ => keyLe_trans⟩
  have : Std.Total r := ⟨fun _ _ => keyLe_total _ _⟩
  constructor
  · intro h
    exact (List.perm_insertionSort r a).symm.trans (h ▸ List.perm_insertionSort r b)
  · intro h
    have hperm := ((List.perm_insertionSort r a).trans h).trans (List.perm_insertionSort r b).symm
    refine List.Perm.eq_of_pairwise ?_ (List.pairwise_insertionSort r a) (List.pairwise_insertionSort r b) hperm
    rintro x y hx hy hxy hyx
    have hx := (List.mem_insertionSort r).mp hx
    have hy := h.mem_iff.mpr ((List.mem_insertionSort r).mp hy)
    have hkey : x.1 = y.1 := keyLe_antisymm hxy hyx
    have hvalue := (get_eq_some ha).mpr hx
    rw [hkey, (get_eq_some ha).mpr hy] at hvalue
    exact Prod.ext hkey (Option.some.inj hvalue).symm

theorem sameJson_object {a b : Members} (ha : Keyed a) (hb : Keyed b) :
    sameJson (.object a) (.object b) = true ↔ ∀ key, (get key a).map canonical = (get key b).map canonical := by
  rw [sameJson, decide_eq_true_eq, canonical, canonical, Json.object.injEq, canonicalMembers_eq, canonicalMembers_eq,
    sorted_eq_iff (ha.map_snd canonical), perm_iff_get (ha.map_snd canonical) (hb.map_snd canonical)]
  simp only [get_map_snd]

-- Keys of changed records

section
variable {α : Type} {a b : List (String × α)} {key : String}

theorem Keyed.erase (h : Keyed a) (key : String) : Keyed (erase key a) :=
  List.Nodup.sublist (List.Sublist.map _ List.filter_sublist) h

theorem set_keys (key : String) (item : α) (a : List (String × α)) :
    (set key item a).map (·.1) = if has key a then a.map (·.1) else a.map (·.1) ++ [key] := by
  unfold set
  split
  · rw [List.map_map]
    refine List.map_congr_left fun member _ => ?_
    by_cases hk : member.1 = key
    · simp [hk]
    · simp [hk]
  · rw [List.map_append]
    rfl

theorem has_iff : has key a = true ↔ key ∈ a.map (·.1) := by
  rw [has, List.any_eq_true, List.mem_map]
  simp only [decide_eq_true_eq]

theorem Keyed.set (h : Keyed a) (key : String) (item : α) : Keyed (set key item a) := by
  rw [Keyed, set_keys]
  split
  · exact h
  · rename_i hnot
    refine List.nodup_append.mpr ⟨h, List.nodup_singleton _, ?_⟩
    rintro other ho _ hk rfl
    rw [List.mem_singleton] at hk
    exact hnot (has_iff.mpr (hk ▸ ho))

theorem get_erase_self (key : String) (a : List (String × α)) : get key (erase key a) = none := by
  rw [erase, get_filter key fun name => decide (name ≠ key)]
  simp

theorem set_set (key : String) (item item' : α) (a : List (String × α)) :
    set key item (set key item' a) = set key item a := by
  have hhas : has key (set key item' a) = true := by
    rw [has_eq, get_set_self]
    rfl
  rw [set, if_pos hhas]
  unfold set
  split
  · rw [List.map_map]
    refine List.map_congr_left fun member _ => ?_
    by_cases hk : member.1 = key
    · simp [hk]
    · simp [hk]
  · rename_i hnot
    rw [List.map_append, List.map_singleton, if_pos rfl]
    congr 1
    refine (List.map_congr_left fun member hm => ?_).trans (List.map_id a)
    have : member.1 ≠ key := fun hk => hnot (has_iff.mpr (hk ▸ List.mem_map_of_mem hm))
    rw [if_neg this]
    rfl

end

theorem Keyed.assign {target source : Members} (ht : Keyed target) (hs : Keyed source) : Keyed (assign target source) := by
  rw [Keyed, Publication.assign, List.map_append, List.map_map]
  refine List.nodup_append.mpr ⟨ht, List.Nodup.sublist (List.Sublist.map _ List.filter_sublist) hs, ?_⟩
  rintro key hk _ hk' rfl
  obtain ⟨member, hm, rfl⟩ := List.mem_map.mp hk'
  have hnot := (List.mem_filter.mp hm).2
  rw [Bool.not_eq_true', Bool.eq_false_iff] at hnot
  exact hnot (has_iff.mpr hk)

-- Contexts

def isThingContext (context : String) : Bool :=
  context = "https://www.w3.org/2022/wot/td/v1.1" || context = "https://www.w3.org/2019/wot/td/v1"

def plainEntries (td : ThingDescription) : List Json :=
  match get "@context" td with
  | some (.string context) => [.string context]
  | some (.array entries) => entries.filter (· ≠ .string DISCOVERY_CONTEXT)
  | _ => []

def Contextual (td : ThingDescription) : Prop := ∃ first rest, plainEntries td = .string first :: rest ∧ isThingContext first

theorem contextValue_ok {entries : List Json} (h : ∃ first rest, entries = .string first :: rest ∧ isThingContext first) :
    contextValue entries = .ok (.array entries) := by
  obtain ⟨first, rest, rfl, h⟩ := h
  simp only [isThingContext, Bool.or_eq_true, decide_eq_true_eq] at h
  rw [contextValue, if_pos h]

theorem contextValue_eq_ok {entries : List Json} {context : Json} (h : contextValue entries = .ok context) :
    ∃ first rest, entries = .string first :: rest ∧ isThingContext first := by
  unfold contextValue at h
  split at h
  · rename_i first rest
    split at h
    · rename_i hfirst
      exact ⟨first, rest, rfl, by simpa [isThingContext] using hfirst⟩
    · cases h
  · cases h

theorem ne_discovery {first : String} (h : isThingContext first) : first ≠ DISCOVERY_CONTEXT := by
  rintro rfl
  exact absurd h (by decide)

structure Accepted (v : Validator) (td : ThingDescription) : Prop where
  keyed : Keyed td
  valid : checkThing v td = .ok ()

variable {td : ThingDescription}

theorem Accepted.context {v : Validator} (h : Accepted v td) :
    (∃ context, get "@context" td = some (.string context) ∧ isThingContext context) ∨
      ∃ first rest, get "@context" td = some (.array (.string first :: rest)) ∧ isThingContext first := by
  have hv := h.valid
  rw [checkThing] at hv
  obtain ⟨_, -, hv⟩ := except_bind_ok hv
  obtain ⟨_, -, hv⟩ := except_bind_ok hv
  obtain ⟨_, -, hv⟩ := except_bind_ok hv
  obtain ⟨_, -, hv⟩ := except_bind_ok hv
  obtain ⟨_, hvalue, -⟩ := except_bind_ok hv
  obtain ⟨first, rest, hentries, hfirst⟩ := contextValue_eq_ok hvalue
  cases hc : get "@context" td with
  | none => simp [hc] at hentries
  | some context =>
    simp only [hc, Option.map_some, Option.getD_some] at hentries
    cases context with
    | string context =>
      obtain ⟨hc', -⟩ := List.cons.inj hentries
      obtain rfl := Json.string.inj hc'
      exact .inl ⟨context, rfl, hfirst⟩
    | array entries =>
      rw [Json.each] at hentries
      exact .inr ⟨first, rest, by rw [hentries], hfirst⟩
    | _ => simp [Json.each] at hentries

theorem Accepted.contextual {v : Validator} (h : Accepted v td) : Contextual td := by
  rcases h.context with ⟨context, hc, hf⟩ | ⟨first, rest, hc, hf⟩
  · exact ⟨context, [], by simp only [plainEntries, hc], hf⟩
  · refine ⟨first, rest.filter (· ≠ .string DISCOVERY_CONTEXT), ?_, hf⟩
    simp [plainEntries, hc, ne_discovery hf]

def normal (td : ThingDescription) : ThingDescription :=
  set "@context" (.array (plainEntries td)) (erase "registration" td)

theorem Keyed.normal (h : Keyed td) : Keyed (normal td) := (h.erase _).set _ _

theorem get_normal_other {key : String} (hr : key ≠ "registration") (hc : key ≠ "@context") (td : ThingDescription) :
    get key (normal td) = get key td := by
  rw [normal, get_set_other hc, get_erase_other hr]

theorem get_normal_context (td : ThingDescription) : get "@context" (normal td) = some (.array (plainEntries td)) :=
  get_set_self _ _ _

theorem get_normal_registration (td : ThingDescription) : get "registration" (normal td) = none := by
  rw [normal, get_set_other (by decide), get_erase_self]

theorem Contextual.context (h : Contextual td) :
    (∃ first, get "@context" td = some (.string first) ∧ isThingContext first) ∨
      ∃ entries, get "@context" td = some (.array entries) := by
  obtain ⟨first, rest, he, hf⟩ := h
  unfold plainEntries at he
  split at he
  · rename_i context hc
    obtain ⟨rfl, rfl⟩ : context = first ∧ rest = [] := by simpa using he
    exact .inl ⟨context, hc, hf⟩
  · exact .inr ⟨_, ‹_›⟩
  · cases he

theorem producerContent_text {context : String} (h : get "@context" td = some (.string context)) :
    producerContent td = .ok (erase "registration" td) := by
  have hc : get "@context" (erase "registration" td) = some (.string context) := by
    rw [get_erase_other (by decide), h]
  simp only [producerContent, hc]

theorem producerContent_array {entries : List Json} (ht : Contextual td)
    (h : get "@context" td = some (.array entries)) : producerContent td = .ok (normal td) := by
  have hc : get "@context" (erase "registration" td) = some (.array entries) := by
    rw [get_erase_other (by decide), h]
  have hplain : plainEntries td = entries.filter (· ≠ .string DISCOVERY_CONTEXT) := by
    simp only [plainEntries, h]
  have hvalue := contextValue_ok ht
  rw [hplain] at hvalue
  simp only [producerContent, hc, hvalue, normal, hplain]
  rfl

theorem producerContent_normal (h : Contextual td) :
    ∃ content entries, producerContent td = .ok content ∧ contextEntries content = .ok entries ∧
      contextValue entries = .ok (.array (plainEntries td)) ∧
      set "@context" (.array (plainEntries td)) content = normal td := by
  have hvalue := contextValue_ok h
  rcases h.context with ⟨context, hc, hf⟩ | ⟨entries, hc⟩
  · refine ⟨_, _, producerContent_text hc, ?_, hvalue, rfl⟩
    have hc' : get "@context" (erase "registration" td) = some (.string context) := by
      rw [get_erase_other (by decide), hc]
    simp only [contextEntries, hc', plainEntries, hc]
  · refine ⟨_, plainEntries td, producerContent_array h hc, ?_, hvalue, set_set _ _ _ _⟩
    simp only [contextEntries, get_normal_context]

theorem matchesProducer_eq {actual expected : ThingDescription} (ha : Contextual actual) (he : Contextual expected) :
    matchesProducer actual expected = .ok (sameJson (.object (normal actual)) (.object (normal expected))) := by
  obtain ⟨received, entries, h₁, h₂, h₃, h₄⟩ := producerContent_normal ha
  obtain ⟨wanted, entries', h₁', h₂', h₃', h₄'⟩ := producerContent_normal he
  simp only [matchesProducer, h₁, h₁', h₂, h₂', h₃, h₃', h₄, h₄', bind, Except.bind, pure, Except.pure]

/-- The same producer's description. -/
structure Alike (a b : ThingDescription) : Prop where
  members : ∀ key, key ≠ "registration" → key ≠ "@context" → (get key a).map canonical = (get key b).map canonical
  context : (plainEntries a).map canonical = (plainEntries b).map canonical

theorem Alike.refl (a : ThingDescription) : Alike a a := ⟨fun _ _ _ => rfl, rfl⟩

variable {a b : ThingDescription}

theorem Alike.symm (h : Alike a b) : Alike b a :=
  ⟨fun key hr hc => (h.members key hr hc).symm, h.context.symm⟩

theorem Alike.trans {a b c : ThingDescription} (h : Alike a b) (h' : Alike b c) : Alike a c :=
  ⟨fun key hr hc => (h.members key hr hc).trans (h'.members key hr hc), h.context.trans h'.context⟩

theorem normal_alike (ha : Keyed a) (hb : Keyed b) :
    sameJson (.object (normal a)) (.object (normal b)) = true ↔ Alike a b := by
  rw [sameJson_object ha.normal hb.normal]
  constructor
  · intro h
    refine ⟨fun key hr hc => ?_, ?_⟩
    · simpa only [get_normal_other hr hc] using h key
    · have := h "@context"
      simpa only [get_normal_context, Option.map_some, canonical, canonicalItems_eq, Option.some.injEq,
        Json.array.injEq] using this
  · intro h key
    by_cases hc : key = "@context"
    · subst hc
      simp only [get_normal_context, Option.map_some, canonical, canonicalItems_eq, h.context]
    · by_cases hr : key = "registration"
      · subst hr
        simp only [get_normal_registration]
      · simpa only [get_normal_other hr hc] using h.members key hr hc

theorem matches_iff (ha : Keyed a) (hb : Keyed b) (hca : Contextual a) (hcb : Contextual b) :
    matchesProducer a b = .ok true ↔ Alike a b := by
  rw [matchesProducer_eq hca hcb, Except.ok.injEq, normal_alike ha hb]

-- What is merged

def withoutRemoved (remote previous desired : ThingDescription) : ThingDescription :=
  (previous.map (·.1)).foldl (fun value key => if has key desired then value else erase key value) remote

def extraEntries (remote previous : ThingDescription) (desiredContexts : List Json) : List Json :=
  ((contextArray remote).getD []).filter fun entry =>
    entry ≠ .string DISCOVERY_CONTEXT && !((contextArray previous).getD []).any (sameJson · entry) &&
      !desiredContexts.any (sameJson · entry)

def merged (remote previous desired : ThingDescription) : ThingDescription :=
  erase "registration" (match contextArray desired with
    | some entries =>
      set "@context" (.array (entries ++ extraEntries remote previous entries))
        (assign (withoutRemoved remote previous desired) desired)
    | none => assign (withoutRemoved remote previous desired) desired)

section
variable {v : Validator} {remote previous desired : ThingDescription}

variable {entries : List Json}

theorem contextArray_eq {td : ThingDescription} (h : contextArray td = some entries) :
    get "@context" td = some (.array entries) := by
  unfold contextArray at h
  split at h
  · rename_i hc
    rw [hc, Option.some.inj h]
  · cases h

theorem mergeProducer_eq (hd : Accepted v desired) :
    mergeProducer (some remote) (some previous) desired = .ok (merged remote previous desired) := by
  unfold mergeProducer merged
  cases hc : contextArray desired with
  | none => rfl
  | some entries =>
    have hvalue : contextValue (entries ++ extraEntries remote previous entries) =
        .ok (.array (entries ++ extraEntries remote previous entries)) := by
      have hget := contextArray_eq hc
      rcases hd.context with ⟨context, hcontext, -⟩ | ⟨first, rest, hcontext, hf⟩
      · simp [hget] at hcontext
      · obtain rfl := Json.array.inj (Option.some.inj (hget.symm.trans hcontext))
        exact contextValue_ok ⟨first, _, List.cons_append, hf⟩
    unfold extraEntries at hvalue
    simp only [Option.getD_some, Option.bind_some, hvalue, withoutRemoved, extraEntries]
    rfl

theorem get_withoutRemoved (key : String) :
    get key (withoutRemoved remote previous desired) =
      if key ∈ previous.map (·.1) ∧ has key desired = false then none else get key remote := by
  unfold withoutRemoved
  generalize previous.map (·.1) = keys
  induction keys generalizing remote with
  | nil => simp
  | cons first keys ih =>
    rw [List.foldl_cons, ih]
    by_cases hk : key = first
    · subst hk
      by_cases hh : has key desired
      · simp [hh]
      · simp [hh, get_erase_self]
    · have hsame : get key (if has first desired then remote else erase first remote) = get key remote := by
        split
        · rfl
        · exact get_erase_other hk _
      simp [hsame, hk]

theorem Keyed.withoutRemoved (h : Keyed remote) : Keyed (withoutRemoved remote previous desired) := by
  unfold Publication.withoutRemoved
  generalize previous.map (·.1) = keys
  induction keys generalizing remote with
  | nil => exact h
  | cons first keys ih =>
    refine ih ?_
    dsimp only
    split
    · exact h
    · exact h.erase _

theorem Keyed.merged (hr : Keyed remote) (hd : Keyed desired) : Keyed (merged remote previous desired) := by
  unfold Publication.merged
  refine Keyed.erase ?_ _
  split
  · exact (hr.withoutRemoved.assign hd).set _ _
  · exact hr.withoutRemoved.assign hd

theorem get_merged_other {key : String} (hr : key ≠ "registration") (hc : key ≠ "@context") :
    get key (merged remote previous desired) = (get key desired).or (get key (withoutRemoved remote previous desired)) := by
  rw [merged, get_erase_other hr]
  split
  · rw [get_set_other hc, get_assign]
  · rw [get_assign]

theorem get_merged_registration : get "registration" (merged remote previous desired) = none := get_erase_self _ _

theorem get_merged_array (hc : contextArray desired = some entries) :
    get "@context" (merged remote previous desired) =
      some (.array (entries ++ extraEntries remote previous entries)) := by
  rw [merged, get_erase_other (by decide), hc]
  exact get_set_self _ _ _

theorem get_merged_text {context : String} (hc : get "@context" desired = some (.string context)) :
    get "@context" (merged remote previous desired) = some (.string context) := by
  have hnone : contextArray desired = none := by simp only [contextArray, hc]
  rw [merged, get_erase_other (by decide), hnone, get_assign, hc]
  rfl

-- When the merge matches

theorem extra_ne_discovery (entries : List Json) :
    ∀ entry ∈ extraEntries remote previous entries, entry ≠ .string DISCOVERY_CONTEXT := by
  intro entry he
  have := (List.mem_filter.mp he).2
  simp only [Bool.and_eq_true, decide_eq_true_eq] at this
  exact this.1.1

theorem plainEntries_merged (hc : contextArray desired = some entries) :
    plainEntries (merged remote previous desired) = plainEntries desired ++ extraEntries remote previous entries := by
  have hextra : (extraEntries remote previous entries).filter (· ≠ .string DISCOVERY_CONTEXT) =
      extraEntries remote previous entries :=
    List.filter_eq_self.mpr fun entry he => by simpa using extra_ne_discovery entries entry he
  simp only [plainEntries, get_merged_array hc, contextArray_eq hc, List.filter_append, hextra]

theorem get_merged_member (h : Alike remote previous) {key : String} (hr : key ≠ "registration") (hc : key ≠ "@context") :
    get key (merged remote previous desired) = get key desired := by
  rw [get_merged_other hr hc, get_withoutRemoved]
  cases hd : get key desired with
  | some item => rfl
  | none =>
    rw [Option.none_or]
    split
    · rfl
    · rename_i hnot
      have hhas : has key desired = false := by rw [has_eq, hd]; rfl
      have hprevious : get key previous = none := get_eq_none (by
        rw [Bool.eq_false_iff, Ne, has_iff]
        exact fun hk => hnot ⟨hk, hhas⟩)
      have := h.members key hr hc
      rwa [hprevious, Option.map_none, Option.map_eq_none_iff] at this

theorem merged_alike (h : Alike remote previous)
    (hx : ∀ entries, contextArray desired = some entries → extraEntries remote previous entries = [])
    (hd : Contextual desired) : Alike (merged remote previous desired) desired := by
  refine ⟨fun key hr hc => by rw [get_merged_member h hr hc], ?_⟩
  rcases hd.context with ⟨context, hc, -⟩ | ⟨entries, hc⟩
  · simp only [plainEntries, get_merged_text hc, hc]
  · have hc' : contextArray desired = some entries := by simp only [contextArray, hc]
    rw [plainEntries_merged hc', hx entries hc', List.append_nil]

/-- The previous context is known where the remote one is compared with it: it is
an array, or one of the desired entries. -/
def OwnsContext (remote previous desired : ThingDescription) : Prop :=
  match contextArray desired, contextArray remote, contextArray previous with
  | some entries, some _, none => ∃ context, get "@context" previous = some context ∧ entries.any (sameJson · context)
  | _, _, _ => True

theorem sameJson_iff {a b : Json} : sameJson a b = true ↔ canonical a = canonical b := by rw [sameJson, decide_eq_true_eq]

theorem canonical_string {a : Json} {text : String} (h : canonical a = .string text) : a = .string text := by
  cases a with
  | array items => cases h
  | object members => cases h
  | _ => exact h

theorem extra_eq_nil (h : Alike remote previous) (hp : Contextual previous)
    (hc : contextArray desired = some entries) :
    extraEntries remote previous entries = [] ↔ OwnsContext remote previous desired := by
  unfold extraEntries OwnsContext
  rw [hc]
  cases hr : contextArray remote with
  | none => simp
  | some contexts =>
    have hplain : plainEntries remote = contexts.filter (· ≠ .string DISCOVERY_CONTEXT) := by
      simp only [plainEntries, contextArray_eq hr]
    have hsame := h.context
    cases hq : contextArray previous with
    | some owned =>
      have howned : plainEntries previous = owned.filter (· ≠ .string DISCOVERY_CONTEXT) := by
        simp only [plainEntries, contextArray_eq hq]
      simp only [Option.getD_some, iff_true]
      refine List.filter_eq_nil_iff.mpr fun entry he hkept => ?_
      simp only [Bool.and_eq_true, decide_eq_true_eq, Bool.not_eq_true', List.any_eq_false] at hkept
      have hmem : canonical entry ∈ (plainEntries remote).map canonical :=
        List.mem_map_of_mem (hplain ▸ List.mem_filter.mpr ⟨he, by simpa using hkept.1.1⟩)
      rw [hsame, howned] at hmem
      obtain ⟨item, hi, heq⟩ := List.mem_map.mp hmem
      exact hkept.1.2 item (List.mem_filter.mp hi).1 (sameJson_iff.mpr heq)
    | none =>
      rcases hp.context with ⟨context, hcontext, -⟩ | ⟨owned, howned⟩
      · -- The one remote entry is the previous context.
        have hone : plainEntries remote = [.string context] := by
          have hprevious : plainEntries previous = [.string context] := by simp only [plainEntries, hcontext]
          rw [hprevious, List.map_singleton] at hsame
          obtain ⟨entry, he, hcanonical⟩ := List.map_eq_singleton_iff.mp hsame
          rw [he, canonical_string hcanonical]
        rw [hplain] at hone
        have hsplit : contexts.filter (fun entry => entry ≠ .string DISCOVERY_CONTEXT &&
            !([] : List Json).any (sameJson · entry) && !entries.any (sameJson · entry)) =
            [Json.string context].filter fun entry => !entries.any (sameJson · entry) := by
          rw [← hone, List.filter_filter]
          refine List.filter_congr fun entry _ => ?_
          simp [Bool.and_comm]
        simp only [Option.getD_some, Option.getD_none, hsplit, hcontext, Option.some.injEq, exists_eq_left']
        cases hany : entries.any (sameJson · (.string context)) with
        | true => simp [hany]
        | false => simp only [List.filter_cons, hany, Bool.not_false, if_true, reduceCtorEq, Bool.false_eq_true]
      · simp [contextArray, howned] at hq

/-- The Directory has changed nothing but its registration information and its
entry of the context. -/
structure Confined (a b : ThingDescription) : Prop where
  keyed : Keyed b
  members : ∀ key, key ≠ "registration" → key ≠ "@context" → get key a = get key b
  context : plainEntries a = plainEntries b

theorem Confined.alike {a b : ThingDescription} (h : Confined a b) : Alike a b :=
  ⟨fun key hr hc => by rw [h.members key hr hc], by rw [h.context]⟩

theorem Contextual.same {a b : ThingDescription} (h : Contextual a) (hab : plainEntries a = plainEntries b) : Contextual b := by
  obtain ⟨first, rest, he, hf⟩ := h
  exact ⟨first, rest, hab ▸ he, hf⟩

theorem plainEntries_erase (td : ThingDescription) : plainEntries (erase "registration" td) = plainEntries td := by
  unfold plainEntries
  rw [get_erase_other (by decide)]

theorem withTtl_confined {c : Context} {td document : ThingDescription} {ttl : Option Nat} (hk : Keyed td)
    (h : withTtl c (erase "registration" td) ttl = .ok document) : Confined td document := by
  have herase : Confined td (erase "registration" td) :=
    ⟨hk.erase _, fun key hr _ => (get_erase_other hr td).symm, (plainEntries_erase td).symm⟩
  generalize erase "registration" td = erased at h herase
  unfold withTtl at h
  split at h
  · obtain rfl := Except.ok.inj h
    exact herase
  · split at h
    · cases h
    · split at h
      · cases h
      · obtain ⟨contexts, hcontexts, h⟩ := except_bind_ok h
        obtain ⟨context, hcontext, h⟩ := except_bind_ok h
        obtain rfl := Except.ok.inj h
        obtain ⟨first, rest, he, hf⟩ := contextValue_eq_ok hcontext
        rw [contextValue_ok ⟨first, rest, he, hf⟩] at hcontext
        obtain rfl := Except.ok.inj hcontext
        refine ⟨(herase.keyed.set _ _).set _ _, fun key hr hc => ?_, ?_⟩
        · rw [get_set_other hr, get_set_other hc, herase.members key hr hc]
        · rw [herase.context]
          have hadded : (if contexts.contains (.string DISCOVERY_CONTEXT) then contexts
              else contexts ++ [.string DISCOVERY_CONTEXT]).filter (· ≠ .string DISCOVERY_CONTEXT) =
              contexts.filter (· ≠ .string DISCOVERY_CONTEXT) := by
            split
            · rfl
            · simp
          unfold plainEntries
          rw [get_set_other (by decide), get_set_self]
          dsimp only
          rw [hadded]
          unfold contextEntries at hcontexts
          split at hcontexts
          · rename_i text htext
            obtain rfl := Except.ok.inj hcontexts
            have hthing : isThingContext text := by
              split at he
              · simp_all
              · obtain ⟨ht, -⟩ := List.cons.inj he
                exact Json.string.inj ht ▸ hf
            simp [htext, ne_discovery hthing]
          · rename_i entries hentries
            obtain rfl := Except.ok.inj hcontexts
            simp [hentries]
          · cases hcontexts

/-- The merge is accepted as the desired description, also with its lifetime, and
after any change of the Directory's own. -/
def Faithful (c : Context) (remote previous desired : ThingDescription) : Prop :=
  ∃ merged, mergeProducer (some remote) (some previous) desired = .ok merged ∧
    matchesProducer merged desired = .ok true ∧
    ∀ ttl document, withTtl c (erase "registration" merged) ttl = .ok document →
      matchesProducer document desired = .ok true ∧
      ∀ stored, Confined document stored → matchesProducer stored desired = .ok true

theorem Contextual.merged (hd : Accepted v desired) : Contextual (merged remote previous desired) := by
  rcases hd.context with ⟨context, hc, hf⟩ | ⟨first, rest, hc, hf⟩
  · exact ⟨context, [], by simp only [plainEntries, get_merged_text hc], hf⟩
  · have hc' : contextArray desired = some (.string first :: rest) := by simp only [contextArray, hc]
    obtain ⟨first', rest', he, hf'⟩ := hd.contextual
    exact ⟨first', rest' ++ extraEntries remote previous (.string first :: rest),
      by rw [plainEntries_merged hc', he, List.cons_append], hf'⟩

theorem faithful_iff (c : Context) (hr : Accepted v remote) (hp : Accepted v previous) (hd : Accepted v desired)
    (h : Alike remote previous) : Faithful c remote previous desired ↔ OwnsContext remote previous desired := by
  have hk : Keyed (merged remote previous desired) := hr.keyed.merged hd.keyed
  have hcontext : Contextual (merged remote previous desired) := .merged hd
  constructor
  · rintro ⟨m, hm, hmatches, -⟩
    obtain rfl := Except.ok.inj ((mergeProducer_eq hd).symm.trans hm)
    have halike := (matches_iff hk hd.keyed hcontext hd.contextual).mp hmatches
    cases hc : contextArray desired with
    | none => simp only [OwnsContext, hc]
    | some entries =>
      -- An extra entry makes the context longer.
      have hlength := congrArg List.length halike.context
      rw [plainEntries_merged hc, List.length_map, List.length_map, List.length_append] at hlength
      exact (extra_eq_nil h hp.contextual hc).mp (List.length_eq_zero_iff.mp (by omega))
  · intro howns
    have halike : Alike (merged remote previous desired) desired := merged_alike h
      (fun entries hc => (extra_eq_nil h hp.contextual hc).mpr howns) hd.contextual
    refine ⟨_, mergeProducer_eq hd, (matches_iff hk hd.keyed hcontext hd.contextual).mpr halike, ?_⟩
    intro ttl document hdocument
    have hconfined := withTtl_confined hk hdocument
    have hdoc := hcontext.same hconfined.context
    refine ⟨(matches_iff hconfined.keyed hd.keyed hdoc hd.contextual).mpr (hconfined.alike.symm.trans halike), ?_⟩
    intro stored hstored
    refine (matches_iff hstored.keyed hd.keyed (hdoc.same hstored.context) hd.contextual).mpr ?_
    exact hstored.alike.symm.trans (hconfined.alike.symm.trans halike)

-- Merging again

theorem extraEntries_merged (hc : contextArray desired = some entries) :
    extraEntries (merged remote previous desired) previous entries = extraEntries remote previous entries := by
  have hown : contextArray (merged remote previous desired) = some (entries ++ extraEntries remote previous entries) := by
    simp only [contextArray, get_merged_array hc]
  rw [extraEntries, hown, Option.getD_some, List.filter_append]
  have hdesired : entries.filter (fun entry => entry ≠ .string DISCOVERY_CONTEXT &&
      !((contextArray previous).getD []).any (sameJson · entry) && !entries.any (sameJson · entry)) = [] := by
    refine List.filter_eq_nil_iff.mpr fun entry he hkept => ?_
    simp only [Bool.and_eq_true, Bool.not_eq_true', List.any_eq_false] at hkept
    exact hkept.2 entry he (sameJson_iff.mpr rfl)
  rw [hdesired, List.nil_append]
  refine List.filter_eq_self.mpr fun entry he => ?_
  exact (List.mem_filter.mp he).2

theorem withoutRemoved_merged (hd : has "@context" desired = true) :
    withoutRemoved (merged remote previous desired) previous desired = merged remote previous desired := by
  have habsent : ∀ key ∈ previous.map (·.1), has key desired = false →
      has key (merged remote previous desired) = false := by
    intro key hk hh
    have hc : key ≠ "@context" := by
      rintro rfl
      rw [hd] at hh
      cases hh
    rw [has_eq]
    by_cases hr : key = "registration"
    · rw [hr, get_merged_registration]
      rfl
    · have hdesired : get key desired = none := get_eq_none hh
      rw [get_merged_other hr hc, hdesired, Option.none_or, get_withoutRemoved, if_pos ⟨hk, hh⟩]
      rfl
  unfold withoutRemoved
  generalize merged remote previous desired = m at habsent ⊢
  generalize previous.map (·.1) = keys at habsent ⊢
  induction keys with
  | nil => rfl
  | cons first keys ih =>
    have hfirst : (if has first desired then m else erase first m) = m := by
      split
      · rfl
      · rename_i hnot
        have hm := habsent first List.mem_cons_self (Bool.eq_false_iff.mpr hnot)
        refine List.filter_eq_self.mpr fun member hmember => ?_
        simpa using List.any_eq_false.mp hm member hmember
    rw [List.foldl_cons, hfirst]
    exact ih fun key hk => habsent key (List.mem_cons_of_mem _ hk)

theorem has_merged {key : String} (h : has key desired = true) (hr : key ≠ "registration") :
    has key (merged remote previous desired) = true := by
  rw [has_eq] at h ⊢
  by_cases hc : key = "@context"
  · subst hc
    rw [merged, get_erase_other hr]
    split
    · rw [get_set_self]
      rfl
    · rw [get_assign]
      obtain ⟨item, hi⟩ := Option.isSome_iff_exists.mp h
      rw [hi]
      rfl
  · rw [get_merged_other hr hc]
    obtain ⟨item, hi⟩ := Option.isSome_iff_exists.mp h
    rw [hi]
    rfl

theorem merged_again (hr : Accepted v remote) (hd : Accepted v desired) :
    merged (merged remote previous desired) previous desired = merged remote previous desired := by
  have hk : Keyed (merged remote previous desired) := hr.keyed.merged hd.keyed
  have hhas : has "@context" desired = true := by
    rw [has_eq]
    rcases hd.context with ⟨_, hc, -⟩ | ⟨_, _, hc, -⟩
    · rw [hc]; rfl
    · rw [hc]; rfl
  have hnew : ∀ member ∈ desired.filter (fun member => !has member.1 (merged remote previous desired)),
      member.1 = "registration" := by
    intro member hm
    obtain ⟨hm, hnot⟩ := List.mem_filter.mp hm
    by_contra hreg
    rw [has_merged (has_iff.mpr (List.mem_map_of_mem hm)) hreg] at hnot
    cases hnot
  generalize hm : merged remote previous desired = m at hk hnew ⊢
  have hself : erase "registration" m = m := by
    have hnone : get "registration" m = none := hm ▸ get_merged_registration
    refine List.filter_eq_self.mpr fun member hmember => ?_
    rw [decide_eq_true_eq]
    intro hkey
    have hget := (get_eq_some hk).mpr (show (member.1, member.2) ∈ m from hmember)
    rw [hkey, hnone] at hget
    cases hget
  have hvalue : ∀ member ∈ m, member.1 ≠ "@context" → (get member.1 desired).getD member.2 = member.2 := by
    intro member hmember hc
    have hget := (get_eq_some hk).mpr hmember
    have hreg : member.1 ≠ "registration" := by
      have := List.filter_eq_self.mp hself member hmember
      simpa using this
    rw [← hm, get_merged_other hreg hc] at hget
    cases hd' : get member.1 desired with
    | none => rfl
    | some item =>
      rw [hd', Option.some_or] at hget
      exact Option.some.inj hget
  rw [merged, ← hm, withoutRemoved_merged hhas, hm]
  cases hc : contextArray desired with
  | none =>
    have hmap : m.map (fun member => (member.1, (get member.1 desired).getD member.2)) = m := by
      refine (List.map_congr_left fun member hmember => ?_).trans (List.map_id _)
      by_cases hkey : member.1 = "@context"
      · rcases hd.context with ⟨context, hcontext, -⟩ | ⟨first, rest, hcontext, -⟩
        · have hget := (get_eq_some hk).mpr hmember
          rw [hkey, ← hm, get_merged_text hcontext] at hget
          rw [hkey, hcontext, Option.getD_some, Option.some.inj hget, ← hkey]
          rfl
        · simp [contextArray, hcontext] at hc
      · rw [hvalue member hmember hkey]
        rfl
    dsimp only
    rw [assign, hmap, erase, List.filter_append]
    exact (congrArg₂ _ hself (List.filter_eq_nil_iff.mpr fun member hmember => by simpa using hnew member hmember)).trans
      (List.append_nil m)
  | some entries =>
    have hextra : extraEntries m previous entries = extraEntries remote previous entries := hm ▸ extraEntries_merged hc
    have hset : has "@context" (assign m desired) = true := by
      have hin : has "@context" m = true := hm ▸ has_merged hhas (by decide)
      obtain ⟨item, hi⟩ := Option.isSome_iff_exists.mp ((has_eq _ _).symm.trans hhas)
      rw [has_eq, get_assign, hi]
      rfl
    have hmap : (m.map fun member => (member.1, (get member.1 desired).getD member.2)).map
        (fun member => if member.1 = "@context" then
          ("@context", .array (entries ++ extraEntries remote previous entries)) else member) = m := by
      rw [List.map_map]
      refine (List.map_congr_left fun member hmember => ?_).trans (List.map_id _)
      by_cases hkey : member.1 = "@context"
      · have hget := (get_eq_some hk).mpr hmember
        rw [hkey, ← hm, get_merged_array hc] at hget
        simp only [Function.comp_apply, hkey, if_true, Option.some.inj hget]
        rw [← hkey]
        rfl
      · simp only [Function.comp_apply, hkey, if_false, hvalue member hmember hkey]
        rfl
    dsimp only
    rw [hextra, set, if_pos hset, assign, List.map_append, hmap, erase, List.filter_append]
    refine (congrArg₂ _ hself (List.filter_eq_nil_iff.mpr fun member hmember => ?_)).trans (List.append_nil m)
    obtain ⟨member', hmember', rfl⟩ := List.mem_map.mp hmember
    simp [hnew member' hmember']

theorem merge_again (hr : Accepted v remote) (hd : Accepted v desired) {m : ThingDescription}
    (hm : mergeProducer (some remote) (some previous) desired = .ok m) :
    mergeProducer (some m) (some previous) desired = .ok m := by
  obtain rfl := Except.ok.inj ((mergeProducer_eq hd).symm.trans hm)
  rw [mergeProducer_eq hd, merged_again hr hd]

end

-- Digests

def Collides (sha256 : Json → String) (a b : ThingDescription) : Prop :=
  ∃ x y, producerContent a = .ok x ∧ producerContent b = .ok y ∧ canonical (.object x) ≠ canonical (.object y) ∧
    sha256 (canonical (.object x)) = sha256 (canonical (.object y))

theorem producerDigest_array (sha256 : Json → String) (h : Contextual td)
    (hc : (contextArray td).isSome) : producerDigest sha256 td = .ok (sha256 (canonical (.object (normal td)))) := by
  obtain ⟨entries, hc⟩ := Option.isSome_iff_exists.mp hc
  rw [producerDigest, producerContent_array h (contextArray_eq hc)]
  rfl

theorem digest_iff {v : Validator} (sha256 : Json → String) (ha : Accepted v a) (hb : Accepted v b)
    (hca : (contextArray a).isSome) (hcb : (contextArray b).isSome) (hcollide : ¬Collides sha256 a b) :
    matchesProducer a b = .ok true ↔ producerDigest sha256 a = producerDigest sha256 b := by
  rw [matchesProducer_eq ha.contextual hb.contextual, producerDigest_array sha256 ha.contextual hca,
    producerDigest_array sha256 hb.contextual hcb, Except.ok.injEq, Except.ok.injEq, sameJson_iff]
  refine ⟨fun h => by rw [h], fun h => ?_⟩
  obtain ⟨_, hca⟩ := Option.isSome_iff_exists.mp hca
  obtain ⟨_, hcb⟩ := Option.isSome_iff_exists.mp hcb
  by_contra hne
  exact hcollide ⟨_, _, producerContent_array ha.contextual (contextArray_eq hca),
    producerContent_array hb.contextual (contextArray_eq hcb), hne, h⟩

def camera (context : Json) : ThingDescription :=
  [("@context", context), ("id", .string "urn:dev:camera"), ("title", .string "camera"),
    ("securityDefinitions", .object [("nosec", .object [("scheme", .string "nosec")])]), ("security", .string "nosec")]

def anyHost : Validator := ⟨fun _ => .ok (), fun _ => true⟩

def td11 : Json := .string "https://www.w3.org/2022/wot/td/v1.1"

def td1 : Json := .string "https://www.w3.org/2019/wot/td/v1"

def daily : Context where
  owner := "owner"
  contract := ⟨.attested, .etag, .registrationTtl 86400 true⟩
  freshMs := 60000
  graceMs := 60000
  renewBeforeMs := 30000
  sha256 _ := ""
  stringOf _ := ""
  validThing _ := .ok ()
  resourceUrl _ := .ok ()
  parseDate _ := none
  instant _ := none
  clock n := some n
  assertJson _ := true

end WotAv.Publication
