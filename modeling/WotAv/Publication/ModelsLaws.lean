import WotAv.Publication.Merging
import WotAv.Publication.Models

/-!
# Publications and their references

Every reference to the models, the schemas or the context is moved below the
base. What `publishOwned` verifies is closed under the references it follows.
-/

namespace WotAv.Publication.Models

open WotAv.Lib

-- Texts

def Points (text : String) : Prop := text = ONVIF_CONTEXT ∨ ofModels text = true

def Outside (baseUrl : String) : Prop := begins baseUrl (ONVIF_BASE ++ "/") = false

theorem begins_iff {text start : String} : begins text start = true ↔ start.toList <+: text.toList := List.isPrefixOf_iff_prefix

theorem toList_slice (text : String) (start : ℕ) : (slice text start).toList = text.toList.drop start := String.toList_ofList

theorem append_slice {text start : String} (h : begins text start = true) :
    text = start ++ slice text start.toList.length := by
  obtain ⟨rest, hrest⟩ := begins_iff.mp h
  rw [← String.toList_inj, String.toList_append, toList_slice, ← hrest, List.drop_left]

theorem Points.below {text : String} (h : Points text) (baseUrl : String) : ∃ rest, text = ONVIF_BASE ++ "/" ++ rest ∧
    relocateText baseUrl text = baseUrl ++ rest ∧
    ∃ start ∈ ["context/", "models/", "schemas/"], begins rest start = true := by
  have hstart (start : String) (hbegins : begins text (ONVIF_BASE ++ "/" ++ start) = true) :
      ∃ rest, text = ONVIF_BASE ++ "/" ++ rest ∧ rest = slice text (ONVIF_BASE.length + 1) ∧ begins rest start = true := by
    have happend := append_slice hbegins
    generalize slice text (ONVIF_BASE ++ "/" ++ start).toList.length = rest at happend
    refine ⟨start ++ rest, by rw [happend, String.append_assoc], ?_, ?_⟩
    · have hlength : ONVIF_BASE.length + 1 = (ONVIF_BASE ++ "/").toList.length := by decide
      have hsplit : text.toList = (ONVIF_BASE ++ "/").toList ++ (start ++ rest).toList := by
        rw [happend, String.append_assoc, String.toList_append]
      rw [← String.toList_inj, toList_slice, hlength, hsplit, List.drop_left]
    · exact begins_iff.mpr ⟨rest.toList, by rw [String.toList_append]⟩
  by_cases hcontext : text = ONVIF_CONTEXT
  · exact ⟨"context/v0.1", by rw [hcontext]; decide, by rw [relocateText, if_pos hcontext], "context/", by simp, by decide⟩
  have hmodels := h.resolve_left hcontext
  rw [relocateText, if_neg hcontext, if_pos hmodels]
  rcases Bool.or_eq_true_iff.mp hmodels with hbegins | hbegins
  · obtain ⟨rest, htext, rfl, hrest⟩ := hstart "models/" hbegins
    exact ⟨_, htext, rfl, _, by simp, hrest⟩
  · obtain ⟨rest, htext, rfl, hrest⟩ := hstart "schemas/" hbegins
    exact ⟨_, htext, rfl, _, by simp, hrest⟩

theorem relocateText_injective {baseUrl a b : String} (ha : ofModels a = true) (hb : ofModels b = true)
    (h : relocateText baseUrl a = relocateText baseUrl b) : a = b := by
  obtain ⟨rest, hrest, hmoved, -⟩ := Points.below (.inr ha) baseUrl
  obtain ⟨rest', hrest', hmoved', -⟩ := Points.below (.inr hb) baseUrl
  rw [hmoved, hmoved', ← String.toList_inj, String.toList_append, String.toList_append, List.append_cancel_left_eq,
    String.toList_inj] at h
  rw [hrest, hrest', h]

theorem tails_differ : ∀ n < (ONVIF_BASE ++ "/").toList.length, ∀ start ∈ ["context/", "models/", "schemas/"],
    ¬ (ONVIF_BASE ++ "/").toList.drop n <+: start.toList ∧ ¬ start.toList <+: (ONVIF_BASE ++ "/").toList.drop n := by
  decide +kernel

theorem Outside.relocateText {baseUrl text : String} (h : Outside baseUrl) (hpoints : Points text) :
    ¬ Points (relocateText baseUrl text) := by
  intro hagain
  obtain ⟨rest, -, hmoved, start, hstart, hbegins⟩ := hpoints.below baseUrl
  obtain ⟨rest', hrest', -⟩ := hagain.below baseUrl
  have hbelow : (ONVIF_BASE ++ "/").toList <+: baseUrl.toList ++ rest.toList :=
    ⟨rest'.toList, by rw [← String.toList_append, ← String.toList_append, ← hrest', hmoved]⟩
  rcases List.prefix_or_prefix_of_prefix hbelow (List.prefix_append _ _) with hinside | ⟨tail, htail⟩
  · exact absurd ((begins_iff.mpr hinside).symm.trans h) (by decide)
  have hdrop : (ONVIF_BASE ++ "/").toList.drop baseUrl.toList.length = tail := by rw [← htail, List.drop_left]
  have hlength : baseUrl.toList.length < (ONVIF_BASE ++ "/").toList.length := by
    by_contra hnot
    have hnil : tail = [] := by rw [← hdrop, List.drop_eq_nil_of_le (Nat.not_lt.mp hnot)]
    rw [hnil, List.append_nil] at htail
    have hinside : begins baseUrl (ONVIF_BASE ++ "/") = true := begins_iff.mpr ⟨[], by rw [htail, List.append_nil]⟩
    exact absurd (hinside.symm.trans h) (by decide)
  have hcompletes : tail <+: rest.toList := by
    rw [← htail] at hbelow
    exact (List.prefix_append_right_inj _).mp hbelow
  obtain ⟨hnot, hnot'⟩ := tails_differ _ hlength start hstart
  rw [hdrop] at hnot hnot'
  exact (List.prefix_or_prefix_of_prefix hcompletes (begins_iff.mp hbegins)).elim hnot hnot'

theorem relocateText_of_not {baseUrl text : String} (h : ¬ Points text) : relocateText baseUrl text = text := by
  obtain ⟨hcontext, hmodels⟩ := not_or.mp h
  rw [relocateText, if_neg hcontext, if_neg hmodels]

theorem relocateText_relocateText {baseUrl : String} (h : Outside baseUrl) (text : String) :
    relocateText baseUrl (relocateText baseUrl text) = relocateText baseUrl text := by
  by_cases hpoints : Points text
  · exact relocateText_of_not (h.relocateText hpoints)
  · rw [relocateText_of_not hpoints, relocateText_of_not hpoints]

-- References

inductive Spells : String → Json → String → String → Prop
  | text {key text : String} : Spells key (.string text) key text
  | item {key k t : String} {item : Json} {items : List Json} : item ∈ items → Spells key item k t → Spells key (.array items) k t
  | member {key name k t : String} {entry : Json} {members : Members} :
    (name, entry) ∈ members → Spells name entry k t → Spells key (.object members) k t

section
variable (baseUrl : String)

theorem relocateItems_eq (key : String) (items : List Json) :
    relocateItems baseUrl key items = items.map (relocate baseUrl key) := by
  induction items with
  | nil => rfl
  | cons item items ih => rw [relocateItems, ih, List.map_cons]

theorem relocateMembers_eq (members : Members) :
    relocateMembers baseUrl members = members.map fun member => (member.1, relocate baseUrl member.1 member.2) := by
  induction members with
  | nil => rfl
  | cons member members ih => rw [relocateMembers, ih, List.map_cons]

theorem get_relocateMembers (key : String) (members : Members) :
    get key (relocateMembers baseUrl members) = (get key members).map (relocate baseUrl key) := by
  rw [relocateMembers_eq]
  exact get_map key (relocate baseUrl) members

theorem Spells.relocate {key k t : String} {value : Json} (h : Spells key value k t) :
    Spells key (relocate baseUrl key value) k (if k ∈ relocatedKeys then relocateText baseUrl t else t) := by
  induction h with
  | text => exact .text
  | item hitem _ ih =>
    rw [Models.relocate, relocateItems_eq]
    exact .item (List.mem_map_of_mem hitem) ih
  | member hmember _ ih =>
    rw [Models.relocate, relocateMembers_eq]
    exact .member (List.mem_map_of_mem (f := fun member => (member.1, Models.relocate baseUrl member.1 member.2)) hmember) ih

theorem spells_relocated {key k t : String} {moved : Json} (h : Spells key moved k t) :
    ∀ value, relocate baseUrl key value = moved →
      ∃ t', Spells key value k t' ∧ t = if k ∈ relocatedKeys then relocateText baseUrl t' else t' := by
  induction h with
  | text =>
    rintro (_ | _ | _ | text | items | members) hvalue <;> rw [relocate] at hvalue <;> cases hvalue
    exact ⟨text, .text, rfl⟩
  | item hitem _ ih =>
    rintro (_ | _ | _ | text | items | members) hvalue <;> rw [relocate] at hvalue <;> cases hvalue
    rw [relocateItems_eq] at hitem
    obtain ⟨source, hsource, hmoved⟩ := List.mem_map.mp hitem
    obtain ⟨t', hspells, ht⟩ := ih source hmoved
    exact ⟨t', .item hsource hspells, ht⟩
  | member hmember _ ih =>
    rintro (_ | _ | _ | text | items | members) hvalue <;> rw [relocate] at hvalue <;> cases hvalue
    rw [relocateMembers_eq] at hmember
    obtain ⟨⟨name, source⟩, hsource, hmoved⟩ := List.mem_map.mp hmember
    cases hmoved
    obtain ⟨t', hspells, ht⟩ := ih source rfl
    exact ⟨t', .member hsource hspells, ht⟩

mutual
theorem relocate_relocate (h : Outside baseUrl) (key : String) : ∀ value : Json,
    relocate baseUrl key (relocate baseUrl key value) = relocate baseUrl key value
  | .null | .bool _ | .number _ => by simp only [relocate]
  | .string text => by
    simp only [relocate]
    split
    · rw [relocateText_relocateText h]
    · rfl
  | .array items => by simp only [relocate, relocateItems_relocateItems h key items]
  | .object members => by simp only [relocate, relocateMembers_relocateMembers h members]
theorem relocateItems_relocateItems (h : Outside baseUrl) (key : String) : ∀ items : List Json,
    relocateItems baseUrl key (relocateItems baseUrl key items) = relocateItems baseUrl key items
  | [] => rfl
  | item :: items => by simp only [relocateItems, relocate_relocate h key item, relocateItems_relocateItems h key items]
theorem relocateMembers_relocateMembers (h : Outside baseUrl) : ∀ members : Members,
    relocateMembers baseUrl (relocateMembers baseUrl members) = relocateMembers baseUrl members
  | [] => rfl
  | (name, entry) :: members => by
    simp only [relocateMembers, relocate_relocate h name entry, relocateMembers_relocateMembers h members]
end

end

/-- The references of a value are moved below the base, and none is left. -/
structure Moved (baseUrl key : String) (source value : Json) : Prop where
  below : ∀ k ∈ relocatedKeys, ∀ t, Points t → Spells key source k t →
    ∃ rest, t = ONVIF_BASE ++ "/" ++ rest ∧ Spells key value k (baseUrl ++ rest)
  none_left : Outside baseUrl → ∀ k ∈ relocatedKeys, ∀ t, Spells key value k t → ¬ Points t

theorem moved_relocate (baseUrl key : String) (value : Json) : Moved baseUrl key value (relocate baseUrl key value) where
  below k hk t hpoints hspells := by
    obtain ⟨rest, ht, hmoved, -⟩ := hpoints.below baseUrl
    have := hspells.relocate baseUrl
    rw [if_pos hk, hmoved] at this
    exact ⟨rest, ht, this⟩
  none_left h k hk t hspells := by
    obtain ⟨t', -, ht⟩ := spells_relocated baseUrl hspells value rfl
    rw [ht, if_pos hk]
    by_cases hpoints : Points t'
    · exact h.relocateText hpoints
    · rwa [relocateText_of_not hpoints]

-- Prepared TDs

def preparedKeys : List String := ["@context", "links", "onvif:discovery", "version", "onvif:projectionDigest"]

/-- A TD with its references moved, besides what a preparation writes. -/
structure PreparedThing (baseUrl : String) (source td : ThingDescription) : Prop where
  members : ∀ key ∉ preparedKeys, get key td = (get key source).map (relocate baseUrl key)
  context : ∃ entries, contextEntries (relocateMembers baseUrl source) = .ok entries ∧
    get "@context" td = some (.array (entries ++ [.string (baseUrl ++ "context/publication/v1")]))
  links : ∃ hrefs : List String, linksOf td = linksOf (relocateMembers baseUrl source) ++ hrefs.map related
  type : ∃ href, (typeLinks td).map (textOf "href") = [some href] ∧ begins href baseUrl = true

theorem linksOf_congr {a b : ThingDescription} (h : get "links" a = get "links" b) : linksOf a = linksOf b := by
  rw [linksOf, h, linksOf]

theorem relate_all (device : ProjectedDevice) (references : List Json) (td : ThingDescription) :
    (∃ hrefs : List String, linksOf (references.foldl (relate device) td) = linksOf td ++ hrefs.map related) ∧
      ∀ key, key ≠ "links" → get key (references.foldl (relate device) td) = get key td := by
  induction references generalizing td with
  | nil => exact ⟨⟨[], (List.append_nil _).symm⟩, fun _ _ => rfl⟩
  | cons reference references ih =>
    obtain ⟨⟨hrefs, hlinks⟩, hother⟩ := ih (relate device td reference)
    rw [List.foldl_cons, hlinks]
    unfold relate at hother ⊢
    split
    · split
      · exact ⟨⟨hrefs, rfl⟩, by simpa [*] using hother⟩
      · rename_i href hhref hnew
        refine ⟨⟨href :: hrefs, ?_⟩, fun key hkey => ?_⟩
        · simp [linksOf, get_set_self]
        · simp only [hhref, hnew, Bool.false_eq_true, if_false] at hother
          rw [hother key hkey, get_set_other hkey]
    · exact ⟨⟨hrefs, rfl⟩, by simpa [*] using hother⟩

theorem get_versionedThing (sha256 : Json → String) (stringOf : Option Json → String) (td : ThingDescription) {key : String}
    (h : key ≠ "version") (h' : key ≠ "onvif:projectionDigest") : get key (versionedThing sha256 stringOf td) = get key td := by
  rw [versionedThing, get_set_other h', get_set_other h, get_erase_other h', get_erase_other h]

section
variable {c : Context} {env : Surroundings} {baseUrl : String} {isSource : Json → Prop}

theorem prepareThing_ok {device : ProjectedDevice} {source : ThingDescription} {thing : PublicationThing}
    (h : prepareThing c baseUrl device source = .ok thing) : PreparedThing baseUrl source thing.td := by
  unfold prepareThing at h
  obtain ⟨-, -, h⟩ := except_bind_ok h
  obtain ⟨entries, hentries, h⟩ := except_bind_ok h
  obtain ⟨context, hcontext, h⟩ := except_bind_ok h
  obtain ⟨identity, -, h⟩ := except_bind_ok h
  obtain ⟨⟨hrefs, hlinks⟩, hother⟩ := relate_all device (referencesOf device identity)
    (set "onvif:discovery" device.observationSummary (set "@context" context (relocateMembers baseUrl source)))
  generalize (referencesOf device identity).foldl (relate device) _ = candidate at h hlinks hother
  dsimp only at h
  split at h
  · rename_i href htype
    split at h
    · cases h
    · rename_i hhref
      obtain rfl := Except.ok.inj h
      have hget {key : String} := @get_versionedThing c.sha256 c.stringOf candidate key
      have hsame := linksOf_congr (@hget "links" (by decide) (by decide))
      obtain ⟨first, rest, happend, hfirst⟩ := contextValue_eq_ok hcontext
      rw [contextValue_ok ⟨first, rest, happend, hfirst⟩] at hcontext
      obtain rfl := Except.ok.inj hcontext
      refine ⟨fun key hkey => ?_, ⟨entries, hentries, ?_⟩, ⟨hrefs, ?_⟩, href, ?_, ?_⟩
      · simp only [preparedKeys, List.mem_cons, List.not_mem_nil, or_false, not_or] at hkey
        obtain ⟨hctx, hlink, hdiscovery, hversion, hdigest⟩ := hkey
        rw [hget hversion hdigest, hother key hlink, get_set_other hdiscovery, get_set_other hctx, get_relocateMembers]
      · rw [hget (by decide) (by decide), hother _ (by decide), get_set_other (by decide), get_set_self]
      · rw [hsame, hlinks, linksOf_congr (get_set_other (by decide) _ _), linksOf_congr (get_set_other (by decide) _ _)]
      · rw [typeLinks, hsame]
        exact htype
      · exact Bool.not_eq_false _ ▸ (not_or.mp hhref).1
  · cases h

-- Documents

structure Stored (isSource : Json → Prop) (baseUrl : String) (documents : Documents) : Prop where
  keyed : Keyed documents
  moved : ∀ path value, get path documents = some value → ∃ source, isSource source ∧ value = relocate baseUrl "" source

theorem Stored.set {documents : Documents} (h : Stored isSource baseUrl documents) (path : String) {source : Json}
    (hsource : isSource source) : Stored isSource baseUrl (set path (relocate baseUrl "" source) documents) where
  keyed := h.keyed.set _ _
  moved other value hvalue := by
    by_cases hother : other = path
    · subst hother
      rw [get_set_self] at hvalue
      exact ⟨source, hsource, (Option.some.inj hvalue).symm⟩
    · exact h.moved other value (by rwa [get_set_other hother] at hvalue)

/-- The model, or one of equal digest, is the document of its path. -/
def Held (c : Context) (baseUrl : String) (documents : Documents) (model : Json) : Prop :=
  ∃ id path value, textOf "id" (relocate baseUrl "" model) = some id ∧ modelPath id baseUrl = .ok path ∧
    get path documents = some value ∧ digest c.sha256 value = digest c.sha256 (relocate baseUrl "" model)

theorem addModel_ok {documents documents' : Documents} {model : Json} (h : addModel c baseUrl documents model = .ok documents')
    (hstored : Stored isSource baseUrl documents) (hsource : isSource model) :
    Stored isSource baseUrl documents' ∧ Held c baseUrl documents' model ∧
      ∀ other, Held c baseUrl documents other → Held c baseUrl documents' other := by
  unfold addModel at h
  split at h
  · cases h
  rename_i id hid
  obtain ⟨path, hpath, h⟩ := except_bind_ok h
  split at h
  · cases h
  rename_i hsame
  obtain rfl := Except.ok.inj h
  refine ⟨hstored.set _ hsource, ⟨id, path, _, hid, hpath, get_set_self _ _ _, rfl⟩, ?_⟩
  rintro other ⟨id', path', value, hid', hpath', hvalue, hdigest⟩
  by_cases hother : path' = path
  · subst hother
    have hequal : digest c.sha256 value = digest c.sha256 (relocate baseUrl "" model) := by simpa [hvalue] using hsame
    exact ⟨id', path', _, hid', hpath', get_set_self _ _ _, hequal.symm.trans hdigest⟩
  · exact ⟨id', path', value, hid', hpath', by rwa [get_set_other hother], hdigest⟩

theorem addModels_ok {models : List Json} {documents documents' : Documents}
    (h : models.foldlM (addModel c baseUrl) documents = .ok documents') (hstored : Stored isSource baseUrl documents)
    (hsources : ∀ model ∈ models, isSource model) :
    Stored isSource baseUrl documents' ∧ ∀ model, model ∈ models ∨ Held c baseUrl documents model → Held c baseUrl documents' model := by
  induction models generalizing documents with
  | nil =>
    obtain rfl := Except.ok.inj h
    exact ⟨hstored, fun model hmodel => hmodel.resolve_left List.not_mem_nil⟩
  | cons model models ih =>
    rw [List.foldlM_cons] at h
    obtain ⟨next, hnext, h⟩ := except_bind_ok h
    obtain ⟨hsource, hsources⟩ := List.forall_mem_cons.mp hsources
    obtain ⟨hstored, hheld, hkept⟩ := addModel_ok hnext hstored hsource
    obtain ⟨hstored, hall⟩ := ih h hstored hsources
    refine ⟨hstored, ?_⟩
    rintro other (hother | hother)
    · rcases List.mem_cons.mp hother with rfl | hother
      · exact hall other (.inr hheld)
      · exact hall other (.inl hother)
    · exact hall other (.inr (hkept other hother))

theorem get_overwrite (documents entries : Documents) (path : String) :
    (path ∉ entries.map (·.1) → get path (overwrite documents entries) = get path documents) ∧
      ((get path documents).isSome → (get path (overwrite documents entries)).isSome) := by
  induction entries generalizing documents with
  | nil => exact ⟨fun _ => rfl, id⟩
  | cons entry entries ih =>
    obtain ⟨hsame, hkept⟩ := ih (set entry.1 entry.2 documents)
    by_cases hpath : path = entry.1
    · exact ⟨fun hnot => absurd hpath (List.ne_of_not_mem_cons hnot), fun _ => hkept (by rw [hpath, get_set_self]; rfl)⟩
    · rw [get_set_other hpath] at hsame hkept
      exact ⟨fun hnot => hsame (List.not_mem_of_not_mem_cons hnot), hkept⟩

def Source (env : Surroundings) (models : List Json) (source : Json) : Prop :=
  source ∈ models ∨ source = publicationContext ∨ ∃ entry ∈ packagedDocuments, source = env.readPackagedArtifact entry.2

theorem stored_packaged {models : List Json} {documents : Documents} (h : Stored (Source env models) baseUrl documents) :
    Stored (Source env models) baseUrl (overwrite documents (packagedEntries env baseUrl)) := by
  have hcontext : publicationContext = relocate baseUrl "" publicationContext := by
    simp [publicationContext, relocate, relocateMembers, relocatedKeys]
  have hentries : ∀ entry ∈ packagedEntries env baseUrl, ∃ source, Source env models source ∧
      entry.2 = relocate baseUrl "" source := by
    intro entry hentry
    rcases List.mem_append.mp hentry with hentry | hentry
    · obtain ⟨packaged, hpackaged, rfl⟩ := List.mem_map.mp hentry
      exact ⟨_, .inr (.inr ⟨packaged, hpackaged, rfl⟩), rfl⟩
    · obtain rfl := List.mem_singleton.mp hentry
      exact ⟨_, .inr (.inl rfl), hcontext⟩
  generalize packagedEntries env baseUrl = entries at hentries
  induction entries generalizing documents with
  | nil => exact h
  | cons entry entries ih =>
    obtain ⟨⟨source, hsource, heq⟩, hrest⟩ := List.forall_mem_cons.mp hentries
    have hset := h.set entry.1 hsource
    rw [← heq] at hset
    exact ih hset hrest

end

-- The traversal

inductive Occurs (key text : String) : Json → Prop
  | here {members : Members} : (key, .string text) ∈ members → Occurs key text (.object members)
  | item {item : Json} {items : List Json} : item ∈ items → Occurs key text item → Occurs key text (.array items)
  | member {name : String} {entry : Json} {members : Members} :
    (name, entry) ∈ members → Occurs key text entry → Occurs key text (.object members)

section
variable {c : Context} {baseUrl : String} {documents : Documents} {request : String → Except String Answer}

theorem visitItems_eq (items : List Json) : visitItems baseUrl items = items.flatMap (visit baseUrl) := by
  induction items with
  | nil => rfl
  | cons item items ih => rw [visitItems, ih, List.flatMap_cons]

theorem visitMembers_eq (members : Members) :
    visitMembers baseUrl members = members.flatMap fun member => followed baseUrl member.1 member.2 ++ visit baseUrl member.2 := by
  induction members with
  | nil => rfl
  | cons member members ih => rw [visitMembers, ih, List.flatMap_cons]

theorem Occurs.mem_visit {key url : String} {value : Json} (h : Occurs key url value) (hkey : key ∈ followedKeys)
    (hbegins : begins url baseUrl = true) : pathOf baseUrl url ∈ visit baseUrl value := by
  induction h with
  | here hmember =>
    rw [visit, visitMembers_eq]
    exact List.mem_flatMap.mpr ⟨_, hmember, List.mem_append_left _ (by simp [followed, hkey, hbegins])⟩
  | item hitem _ ih =>
    rw [visit, visitItems_eq]
    exact List.mem_flatMap.mpr ⟨_, hitem, ih⟩
  | member hmember _ ih =>
    rw [visit, visitMembers_eq]
    exact List.mem_flatMap.mpr ⟨_, hmember, List.mem_append_right _ ih⟩

theorem foldl_add (added values : List String) : values <+: added.foldl add values ∧
    (∀ value ∈ added, value ∈ added.foldl add values) ∧ (values.Nodup → (added.foldl add values).Nodup) := by
  induction added generalizing values with
  | nil => exact ⟨List.prefix_rfl, nofun, id⟩
  | cons value added ih =>
    obtain ⟨hkept, hall, hnodup⟩ := ih (add values value)
    have hvalues : values <+: add values value := by
      unfold add
      split
      · exact List.prefix_rfl
      · exact List.prefix_append _ _
    have hvalue : value ∈ add values value := by
      unfold add
      split
      · assumption
      · simp
    refine ⟨hvalues.trans hkept, List.forall_mem_cons.mpr ⟨hkept.subset hvalue, hall⟩, fun h => hnodup ?_⟩
    unfold add
    split
    · exact h
    · rename_i hnot
      refine List.nodup_append.mpr ⟨h, List.nodup_singleton _, ?_⟩
      rintro other hother _ hvalue rfl
      exact hnot (List.mem_singleton.mp hvalue ▸ hother)

theorem required_eq (value : Json) (passed : List String) (path : String) (pending : List String) :
    ∃ fresh, (visit baseUrl value).foldl add (passed ++ path :: pending) = passed ++ [path] ++ (pending ++ fresh) ∧
      ((visit baseUrl value).foldl add (passed ++ path :: pending)).drop (passed.length + 1) = pending ++ fresh := by
  obtain ⟨⟨fresh, hfresh⟩, -⟩ := foldl_add (visit baseUrl value) (passed ++ path :: pending)
  refine ⟨fresh, by rw [← hfresh]; simp, ?_⟩
  rw [← hfresh, List.append_assoc, List.drop_append]
  simp

theorem traverse_isSome {fuel : ℕ} {passed pending : List String} (hnodup : (passed ++ pending).Nodup)
    (hpassed : passed ⊆ documents.map (·.1)) (hfuel : documents.length < fuel + passed.length) :
    (traverse baseUrl documents fuel passed pending).isSome := by
  induction fuel generalizing passed pending with
  | zero =>
    have hle : passed.length ≤ documents.length := by
      simpa using (List.subperm_of_subset (List.nodup_append.mp hnodup).1 hpassed).length_le
    omega
  | succ fuel ih =>
    cases pending with
    | nil => rfl
    | cons path pending =>
      rw [traverse]
      split
      · rfl
      · rename_i value hvalue
        have hrequired := (foldl_add (visit baseUrl value) (passed ++ path :: pending)).2.2 hnodup
        obtain ⟨fresh, heq, hdrop⟩ := @required_eq baseUrl value passed path pending
        rw [hdrop]
        rw [heq] at hrequired
        have hkey : path ∈ documents.map (·.1) := has_iff.mp (by rw [has_eq, hvalue]; rfl)
        refine ih hrequired (List.append_subset.mpr ⟨hpassed, by simpa using hkey⟩) ?_
        rw [List.length_append, List.length_singleton]
        omega

def Covered (baseUrl : String) (documents : Documents) (required : List String) (path : String) : Prop :=
  ∃ value, get path documents = some value ∧ visit baseUrl value ⊆ required

theorem traverse_covered {fuel : ℕ} {passed pending required : List String}
    (h : traverse baseUrl documents fuel passed pending = some (.ok required))
    (hpassed : ∀ path ∈ passed, Covered baseUrl documents (passed ++ pending) path) :
    passed ++ pending ⊆ required ∧ ∀ path ∈ required, Covered baseUrl documents required path := by
  induction fuel generalizing passed pending with
  | zero =>
    cases pending with
    | nil =>
      obtain rfl := Except.ok.inj (Option.some.inj h)
      simpa using hpassed
    | cons => cases h
  | succ fuel ih =>
    cases pending with
    | nil =>
      obtain rfl := Except.ok.inj (Option.some.inj h)
      simpa using hpassed
    | cons path pending =>
      rw [traverse] at h
      split at h
      · cases h
      · rename_i value hvalue
        obtain ⟨hsub, hnew, -⟩ := foldl_add (visit baseUrl value) (passed ++ path :: pending)
        obtain ⟨fresh, heq, hdrop⟩ := @required_eq baseUrl value passed path pending
        rw [heq] at hsub hnew
        rw [hdrop] at h
        obtain ⟨hrequired, hcovered⟩ := ih h fun other hother => by
          rcases List.mem_append.mp hother with hother | hother
          · obtain ⟨value', hvalue', hrefers⟩ := hpassed other hother
            exact ⟨value', hvalue', fun _ hp => hsub.subset (hrefers hp)⟩
          · obtain rfl := List.mem_singleton.mp hother
            exact ⟨value, hvalue, hnew⟩
        exact ⟨fun _ hp => hrequired (hsub.subset hp), hcovered⟩

-- Publication

inductive Reachable (baseUrl : String) (documents : Documents) (starts : List String) : String → Prop
  | start {path : String} : path ∈ starts → Reachable baseUrl documents starts path
  | follow {path key url : String} {value : Json} : Reachable baseUrl documents starts path →
    get path documents = some value → key ∈ followedKeys → Occurs key url value → begins url baseUrl = true →
    Reachable baseUrl documents starts (pathOf baseUrl url)

def Answered (c : Context) (baseUrl : String) (documents : Documents) (request : String → Except String Answer)
    (path : String) : Prop :=
  ∃ value answer body, get path documents = some value ∧ request (baseUrl ++ path) = .ok answer ∧ answer.status = 200 ∧
    answer.body = .ok body ∧ digest c.sha256 body = digest c.sha256 value

theorem expectStatus_ok {status : ℕ} (h : expectStatus status = .ok ()) : status = 200 := by
  unfold expectStatus at h
  split at h
  · assumption
  · grind

theorem verify_ok {path : String} (h : verify c baseUrl documents request path = .ok ()) :
    Answered c baseUrl documents request path := by
  unfold verify at h
  split at h
  · cases h
  rename_i value hvalue
  obtain ⟨answer, hanswer, h⟩ := except_bind_ok h
  obtain ⟨⟨⟩, hstatus, h⟩ := except_bind_ok h
  obtain ⟨body, hbody, h⟩ := except_bind_ok h
  split at h
  · rename_i hdigest
    exact ⟨value, answer, body, hvalue, hanswer, expectStatus_ok hstatus, hbody, hdigest⟩
  · cases h

theorem publishOwned_isSome (bundle : Bundle) (written : Except String Unit)
    (client : Option (String → Except String Answer)) : (publishOwned c baseUrl bundle written client).isSome := by
  unfold publishOwned
  split
  · rfl
  · rfl
  · split
    · rfl
    · rw [Option.isSome_map]
      exact traverse_isSome ((foldl_add _ []).2.2 List.nodup_nil) (List.nil_subset _) (by simp)

theorem forM_ok {α ε : Type} {f : α → Except ε Unit} {l : List α} (h : l.forM f = .ok ()) : ∀ a ∈ l, f a = .ok () := by
  induction l with
  | nil => exact nofun
  | cons a l ih =>
    obtain ⟨⟨⟩, ha, h⟩ := except_bind_ok (show (f a >>= fun _ => l.forM f) = .ok () from h)
    exact List.forall_mem_cons.mpr ⟨ha, ih h⟩

/-- All that the type links and the contexts lead to was answered. -/
def Verified (c : Context) (baseUrl : String) (bundle : Bundle) (request : String → Except String Answer) : Prop :=
  ∃ paths, bundle.modelUrls.mapM (modelPath · baseUrl) = .ok paths ∧
    ∀ path, Reachable baseUrl bundle.documents (paths ++ ["context/v0.1", "context/publication/v1"]) path →
      Answered c baseUrl bundle.documents request path

theorem publishOwned_ok {bundle : Bundle} (h : publishOwned c baseUrl bundle (.ok ()) (some request) = some (.ok ())) :
    Verified c baseUrl bundle request := by
  unfold publishOwned at h
  dsimp only at h
  split at h
  · cases h
  rename_i paths hpaths
  obtain ⟨result, htraverse, h⟩ := Option.map_eq_some_iff.mp h
  obtain ⟨required, rfl, h⟩ := except_bind_ok h
  obtain ⟨hstarts, hcovered⟩ := traverse_covered htraverse nofun
  refine ⟨paths, hpaths, fun path hreachable => verify_ok (forM_ok h path ?_)⟩
  induction hreachable with
  | start hstart => exact hstarts ((foldl_add _ []).2.1 _ hstart)
  | follow _ hvalue hkey hoccurs hbegins ih =>
    obtain ⟨value, hvalue', hrefers⟩ := hcovered _ ih
    obtain rfl := Option.some.inj (hvalue.symm.trans hvalue')
    exact hrefers (hoccurs.mem_visit hkey hbegins)

end

-- `preparePublication`

structure Relocates (baseUrl : String) : Prop where
  injective : ∀ a b, ofModels a = true → ofModels b = true → relocateText baseUrl a = relocateText baseUrl b → a = b
  idempotent : Outside baseUrl → ∀ key value, relocate baseUrl key (relocate baseUrl key value) = relocate baseUrl key value
  moved : ∀ key value, Moved baseUrl key value (relocate baseUrl key value)

structure Published (c : Context) (env : Surroundings) (devices : List ProjectedDevice) (baseUrl : String) (bundle : Bundle) :
    Prop where
  things : ∀ thing ∈ bundle.publication.things,
    (∃ device ∈ devices, ∃ source ∈ device.tds, PreparedThing baseUrl source thing.td) ∧
      ∀ url ∈ typeUrls thing, url ∈ bundle.modelUrls
  documents : ∃ models, packagedModels env = .ok models ∧
    Stored (Source env (models ++ devices.flatMap (·.models))) baseUrl bundle.documents ∧
    ∀ model ∈ models ++ devices.flatMap (·.models), ∃ id path value, textOf "id" (relocate baseUrl "" model) = some id ∧
      modelPath id baseUrl = .ok path ∧ get path bundle.documents = some value ∧
        (path ∉ (packagedEntries env baseUrl).map (·.1) → digest c.sha256 value = digest c.sha256 (relocate baseUrl "" model))

theorem preparePublication_ok {c : Context} {env : Surroundings} {revision : Int} {devices : List ProjectedDevice}
    {modelBaseUrl : String} {bundle : Bundle} (h : preparePublication c env revision devices modelBaseUrl = .ok bundle) :
    ∃ baseUrl, env.base modelBaseUrl = .ok baseUrl ∧ Published c env devices baseUrl bundle := by
  obtain ⟨baseUrl, hbase, h⟩ := except_bind_ok h
  obtain ⟨models, hmodels, h⟩ := except_bind_ok h
  obtain ⟨documents, hdocuments, h⟩ := except_bind_ok h
  obtain ⟨things, hthings, h⟩ := except_bind_ok h
  obtain rfl := Except.ok.inj h
  have hempty : Stored (Source env (models ++ devices.flatMap (·.models))) baseUrl [] := ⟨List.nodup_nil, nofun⟩
  obtain ⟨hstored, hheld⟩ := addModels_ok hdocuments hempty fun _ => Or.inl
  have hpackaged := stored_packaged hstored
  have hget := get_overwrite documents (packagedEntries env baseUrl)
  generalize overwrite documents (packagedEntries env baseUrl) = written at hpackaged hget
  have hperm : (written.insertionSort fun a b => keyLe a.1 b.1).Perm written := List.perm_insertionSort _ _
  have hkeyed : Keyed (written.insertionSort fun a b => keyLe a.1 b.1) := (hperm.map _).nodup_iff.mpr hpackaged.keyed
  have hsorted := (perm_iff_get hkeyed hpackaged.keyed).mp hperm
  refine ⟨baseUrl, hbase, fun thing hthing => ⟨?_, fun url hurl => ?_⟩, models, hmodels,
    ⟨hkeyed, fun path value hvalue => hpackaged.moved path value (hsorted path ▸ hvalue)⟩, fun model hmodel => ?_⟩
  · obtain ⟨prepared, hprepared, hthing⟩ := List.mem_flatten.mp hthing
    obtain ⟨device, hdevice, hprepared⟩ := except_mem_mapM hthings hprepared
    obtain ⟨source, hsource, hthing⟩ := except_mem_mapM hprepared hthing
    exact ⟨device, hdevice, source, hsource, prepareThing_ok hthing⟩
  · exact (foldl_add _ []).2.1 url (List.mem_flatMap.mpr ⟨thing, hthing, hurl⟩)
  · obtain ⟨id, path, value, hid, hpath, hvalue, hdigest⟩ := hheld model (.inl hmodel)
    obtain ⟨hsame, hkept⟩ := hget path
    obtain ⟨value', hvalue'⟩ := Option.isSome_iff_exists.mp (hkept (by rw [hvalue]; rfl))
    refine ⟨id, path, value', hid, hpath, (hsorted path).trans hvalue', fun hnot => ?_⟩
    obtain rfl := Option.some.inj (hvalue'.symm.trans ((hsame hnot).trans hvalue))
    exact hdigest

def plainSurroundings : Surroundings where
  readPackagedArtifact _ := .object [("models", .array [])]
  base := .ok

def lonelyDevice : ProjectedDevice where
  inventoryId := "device"
  models := []
  tds := [[("@context", .array [.string "https://www.w3.org/2022/wot/td/v1.1"]), ("id", .string "urn:device"),
    ("links", .array [.object [("rel", .string "type"), ("href", .string (ONVIF_BASE ++ "/models/Missing.tm.json"))]])]]
  resources := []
  resourceThingId _ := ""
  observationSummary := .null
  currentObservationTime _ := none
  quarantined := false

end WotAv.Publication.Models
