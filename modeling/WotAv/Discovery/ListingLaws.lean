import WotAv.Discovery.Listing

/-!
# Known lists are whole

Whatever the pages answer, a list that is known has an entry for every item of
every page, and one for each token. Of the tracks of a known list of recordings
this holds where no recording has two tracks of one token.
-/

namespace WotAv.Discovery

open WotAv.Binding WotAv.Lib
open WotAv.Lib.Json (get)

variable {ν : Type} [Numerals ν] {spec : ListSpec} {bounds : ListBounds} {now : Int}

-- The items of a page

def Represented (spec : ListSpec) (values : List (NativeResource ν)) (item : Json ν) : Prop :=
  ∃ value ∈ values, resource item spec.tokenField [] = .ok value

def EntriesOf (spec : ListSpec) (items : List (Json ν)) (values : List (NativeResource ν)) : Prop :=
  (∀ item ∈ items, Represented spec values item) ∧
    ∀ value ∈ values, ∃ item ∈ items, resource item spec.tokenField [] = .ok value

structure Kept (spec : ListSpec) (bounds : ListBounds) (items : List (Json ν)) (s : Collected ν) : Prop where
  keys : s.keys = s.values.map fun value => (value.key, value.text)
  distinct : (s.values.map NativeResource.key).Nodup
  bound : s.values.length ≤ bounds.maxResources
  entries : EntriesOf spec items s.values

def Blocks (spec : ListSpec) (bounds : ListBounds) (values : List (NativeResource ν)) (item : Json ν) : Prop :=
  bounds.maxResources ≤ values.length ∨ (∃ e, resource item spec.tokenField [] = .error e) ∨
    ∃ value previous, resource item spec.tokenField [] = .ok value ∧ previous ∈ values ∧ previous.key = value.key ∧
      previous ≠ value

variable {values : List (NativeResource ν)}

theorem lookup_keys {key : List Char} :
    (values.map fun value => (value.key, value.text)).lookup key =
      (values.find? fun value => value.key = key).map NativeResource.text := by
  induction values with
  | nil => rfl
  | cons value values ih =>
    rw [List.map_cons, List.lookup_cons, List.find?_cons, ih]
    by_cases h : value.key = key
    · simp [h]
    · have hkey : (key == value.key) = false := by simpa using Ne.symm h
      simp [h, hkey]

variable {items : List (Json ν)} {value : NativeResource ν}

variable {s : Collected ν}

theorem Kept.add (h : Kept spec bounds items s) {item : Json ν} (hvalue : resource item spec.tokenField [] = .ok value)
    (hnew : s.keys.lookup value.key = none) (hroom : s.values.length < bounds.maxResources) :
    Kept spec bounds (items ++ [item]) (s.add value) where
  keys := by simp [Collected.add, h.keys]
  distinct := by
    rw [h.keys, lookup_keys, Option.map_eq_none_iff, List.find?_eq_none] at hnew
    rw [Collected.add, List.map_append, List.nodup_append]
    refine ⟨h.distinct, List.nodup_singleton _, ?_⟩
    rintro key hkey other hother rfl
    obtain ⟨previous, hprevious, rfl⟩ := List.mem_map.mp hkey
    exact hnew previous hprevious (by simpa using hother)
  bound := by simpa [Collected.add] using Nat.succ_le_of_lt hroom
  entries := by
    refine ⟨fun other hother => ?_, fun entry hentry => ?_⟩
    · rcases List.mem_append.mp hother with hother | hother
      · obtain ⟨kept, hkept, hresource⟩ := h.entries.1 other hother
        exact ⟨kept, List.mem_append_left _ hkept, hresource⟩
      · obtain rfl := List.mem_singleton.mp hother
        exact ⟨value, List.mem_append_right _ List.mem_cons_self, hvalue⟩
    · rcases List.mem_append.mp hentry with hentry | hentry
      · obtain ⟨other, hother, hresource⟩ := h.entries.2 entry hentry
        exact ⟨other, List.mem_append_left _ hother, hresource⟩
      · obtain rfl := List.mem_singleton.mp hentry
        exact ⟨item, List.mem_append_right _ List.mem_cons_self, hvalue⟩

theorem Kept.again (h : Kept spec bounds items s) {item : Json ν} (hvalue : resource item spec.tokenField [] = .ok value)
    (hsame : s.keys.lookup value.key = some value.text) : Kept spec bounds (items ++ [item]) s := by
  refine ⟨h.keys, h.distinct, h.bound, fun other hother => ?_, fun entry hentry => ?_⟩
  · rcases List.mem_append.mp hother with hother | hother
    · exact h.entries.1 other hother
    · obtain rfl := List.mem_singleton.mp hother
      rw [h.keys, lookup_keys, Option.map_eq_some_iff] at hsame
      obtain ⟨previous, hprevious, htext⟩ := hsame
      obtain rfl := NativeResource.text_inj.mp htext
      exact ⟨previous, List.mem_of_find?_eq_some hprevious, hvalue⟩
  · obtain ⟨other, hother, hresource⟩ := h.entries.2 entry hentry
    exact ⟨other, List.mem_append_left _ hother, hresource⟩

variable {before : List (Json ν)}

theorem takeItems_kept (items : List (Json ν)) (h : Kept spec bounds before s) :
    ∃ used rest, items = used ++ rest ∧ Kept spec bounds (before ++ used) (takeItems spec bounds items s).state ∧
      (∀ item ∈ rest.head?, Blocks spec bounds (takeItems spec bounds items s).state.values item) ∧
      ∀ s', takeItems spec bounds items s = .all s' → rest = [] := by
  induction items generalizing before s with
  | nil => exact ⟨[], [], rfl, by simpa [takeItems, TakeResult.state] using h, by simp, fun _ _ => rfl⟩
  | cons item items ih =>
    rw [takeItems]
    split
    · rename_i hfull
      exact ⟨[], item :: items, rfl, by simpa [TakeResult.state] using h,
        by simpa [TakeResult.state] using .inl hfull, nofun⟩
    rename_i hroom
    split
    · rename_i e he
      exact ⟨[], item :: items, rfl, by simpa [TakeResult.state] using h,
        by simpa [TakeResult.state] using .inr (.inl ⟨e, he⟩), nofun⟩
    rename_i value hvalue
    split
    · rename_i previous hprevious
      split
      · subst previous
        obtain ⟨used, rest, rfl, hkept, hblocks, hall⟩ := ih (h.again hvalue hprevious)
        exact ⟨item :: used, rest, rfl, by simpa using hkept, hblocks, hall⟩
      · rename_i hother
        refine ⟨[], item :: items, rfl, by simpa [TakeResult.state] using h, ?_, nofun⟩
        rw [h.keys, lookup_keys, Option.map_eq_some_iff] at hprevious
        obtain ⟨found, hfound, rfl⟩ := hprevious
        have hkey : found.key = value.key := by simpa using List.find?_some hfound
        have hne : found ≠ value := fun heq => hother (NativeResource.text_inj.mpr heq)
        simpa [TakeResult.state] using .inr (.inr ⟨value, found, hvalue, List.mem_of_find?_eq_some hfound, hkey, hne⟩)
    · rename_i hnew
      obtain ⟨used, rest, rfl, hkept, hblocks, hall⟩ := ih (h.add hvalue hnew (by omega))
      exact ⟨item :: used, rest, rfl, by simpa using hkept, hblocks, hall⟩

-- The pages

def itemsOf (spec : ListSpec) (read : Observation (Json ν)) : List (Json ν) :=
  match read.value?.map (pageItems spec) with
  | some (.ok (_, items)) => items
  | _ => []

def continuation (spec : ListSpec) (read : Observation (Json ν)) : Option String :=
  if spec.pagination then
    ((read.value?.bind Json.asRecord).bind (get "NextStartReference")).bind Json.asString
  else none

def held (outcome : ListOutcome ν) : List (NativeResource ν) :=
  match outcome.result with
  | .known values => values
  | .missing _ _ _ part => part.getD []

def Final (spec : ListSpec) (read : Observation (Json ν)) : Prop :=
  ∃ data, read.value? = some (.object data) ∧ (spec.pagination = false ∨ get "NextStartReference" data = none)

omit [Numerals ν] in
theorem pageItems_ok {value : Json ν} {data : Fields ν}
    (h : pageItems spec value = .ok (data, items)) : value = .object data := by
  obtain ⟨data', hdata, h⟩ := except_bind_ok h
  obtain ⟨items', -, h⟩ := except_bind_ok h
  obtain ⟨rfl, rfl⟩ := Prod.mk.inj (Except.ok.inj h)
  cases value with
  | object members =>
    obtain rfl := Except.ok.inj hdata
    rfl
  | _ => cases hdata

omit [Numerals ν] in
theorem string_ok {value : Option (Json ν)} {text : String} (h : string value = .ok text) :
    value = some (.string text) := by
  unfold string at h
  split at h
  · split at h
    · obtain rfl := Except.ok.inj h
      rfl
    · cases h
  · cases h

variable {read : Observation (Json ν)}

theorem turn_ok {s s' : Paging ν}
    (h : Kept spec bounds before s.collected) (hturn : turn spec bounds s read = .ok s') :
    Kept spec bounds (before ++ itemsOf spec read) s'.collected ∧
      ∃ next, continuation spec read = some next ∧ next ∉ s.nextReferences ∧
        s'.nextReferences = s.nextReferences ++ [next] := by
  unfold turn at hturn
  split at hturn
  · cases hturn
  rename_i value hvalue
  split at hturn
  · cases hturn
  rename_i data items hitems
  obtain rfl := pageItems_ok hitems
  have hread : read.value? = some (.object data) := by simp [Observation.value?, hvalue]
  obtain ⟨used, rest, hused, hkept, -, hall⟩ := takeItems_kept items h
  split at hturn
  · cases hturn
  · cases hturn
  rename_i collected htaken
  split at hturn
  · cases hturn
  rename_i hpaged
  split at hturn
  · cases hturn
  rename_i next hnext
  split at hturn
  · cases hturn
  rename_i hfresh
  obtain rfl := Except.ok.inj hturn
  obtain rfl := hall collected htaken
  obtain rfl : items = used := by simpa using hused
  rw [htaken] at hkept
  have hpagination : spec.pagination = true := by simp at hpaged; exact hpaged.1
  refine ⟨by simpa [itemsOf, hread, hitems, TakeResult.state] using hkept, next, ?_, hfresh, rfl⟩
  simp [continuation, hpagination, hread, Json.asRecord, string_ok hnext, Json.asString]

/-- What a list returns holds the items up to one that blocks, if there is one,
and those of the earlier pages in any case. -/
structure Returns (spec : ListSpec) (bounds : ListBounds) (earlier items : List (Json ν)) (returned : ListOutcome ν) :
    Prop where
  distinct : ((held returned).map NativeResource.key).Nodup
  bound : (held returned).length ≤ bounds.maxResources
  taken : ∃ used rest, items = used ++ rest ∧ earlier <+: used ∧ EntriesOf spec used (held returned) ∧
    (∀ item ∈ rest.head?, Blocks spec bounds (held returned) item) ∧
    ((∃ values, returned.value? = some values) → rest = [])
  kept : returned.value? = none →
    ∃ status code message, returned.result = .missing status code message (some (held returned))

section
variable {before used rest : List (Json ν)} {s : Collected ν} {returned : ListOutcome ν}

theorem Kept.returns (h : Kept spec bounds (before ++ used) s) (hheld : held returned = s.values)
    (hblocks : ∀ item ∈ rest.head?, Blocks spec bounds s.values item)
    (hall : (∃ values, returned.value? = some values) → rest = [])
    (hpart : returned.value? = none →
      ∃ status code message, returned.result = .missing status code message (some s.values)) :
    Returns spec bounds before (before ++ (used ++ rest)) returned where
  distinct := hheld ▸ h.distinct
  bound := hheld ▸ h.bound
  taken := ⟨before ++ used, rest, by rw [List.append_assoc], List.prefix_append _ _, hheld ▸ h.entries,
    hheld ▸ hblocks, hall⟩
  kept := hheld ▸ hpart

theorem Kept.part (h : Kept spec bounds (before ++ used) s)
    (hblocks : ∀ item ∈ rest.head?, Blocks spec bounds s.values item) (status : Missing) (code message : String) (observedAt : Int) :
    Returns spec bounds before (before ++ (used ++ rest)) (partialOutcome status code message observedAt s.values) := by
  refine h.returns rfl hblocks ?_ fun _ => ⟨status, code, message, rfl⟩
  rintro ⟨values, hvalues⟩
  cases hvalues

end

theorem Kept.stop (h : Kept spec bounds before s) (status : Missing)
    (code message : String) (observedAt : Int) :
    Returns spec bounds before before (partialOutcome status code message observedAt s.values) := by
  have hpart : Returns spec bounds before (before ++ ([] ++ [])) (partialOutcome status code message observedAt s.values) :=
    Kept.part (by simpa using h) (by simp) status code message observedAt
  simpa using hpart

variable {returned : ListOutcome ν}

theorem Returns.mono {earlier earlier' items : List (Json ν)}
    (hearlier : earlier <+: earlier') (h : Returns spec bounds earlier' items returned) : Returns spec bounds earlier items returned := by
  obtain ⟨used, rest, hitems, hused, htaken⟩ := h.taken
  exact ⟨h.distinct, h.bound, ⟨used, rest, hitems, hearlier.trans hused, htaken⟩, h.kept⟩

theorem turn_error {s : Paging ν}
    (h : Kept spec bounds before s.collected) (hturn : turn spec bounds s read = .error returned) :
    Returns spec bounds before (before ++ itemsOf spec read) returned ∧
      ((∃ values, returned.value? = some values) → Final spec read) := by
  have hnone : ∀ {status code message observedAt} {values : List (NativeResource ν)},
      (∃ v, (partialOutcome status code message observedAt values).value? = some v) → Final spec read := by
    rintro _ _ _ _ _ ⟨v, hv⟩
    cases hv
  unfold turn at hturn
  split at hturn
  · rename_i hvalue
    obtain rfl := Except.error.inj hturn
    have hitems : itemsOf spec read = [] := by simp [itemsOf, Observation.value?, hvalue]
    rw [hitems, List.append_nil]
    exact ⟨h.stop _ _ _ _, hnone⟩
  rename_i value hvalue
  have hread : read.value? = some value := by simp [Observation.value?, hvalue]
  split at hturn
  · rename_i hitems
    obtain rfl := Except.error.inj hturn
    have hitems : itemsOf spec read = [] := by simp [itemsOf, hread, hitems]
    rw [hitems, List.append_nil]
    exact ⟨h.stop _ _ _ _, hnone⟩
  rename_i data items hitems
  obtain rfl := pageItems_ok hitems
  have hitemsOf : itemsOf spec read = items := by simp [itemsOf, hread, hitems]
  obtain ⟨used, rest, rfl, hkept, hblocks, hall⟩ := takeItems_kept items h
  rw [hitemsOf]
  split at hturn
  · rename_i collected htaken
    obtain rfl := Except.error.inj hturn
    rw [htaken] at hkept hblocks
    exact ⟨hkept.part hblocks _ _ _ _, hnone⟩
  · rename_i collected htaken
    obtain rfl := Except.error.inj hturn
    rw [htaken] at hkept hblocks
    exact ⟨hkept.part hblocks _ _ _ _, hnone⟩
  rename_i collected htaken
  obtain rfl := hall collected htaken
  rw [htaken] at hkept hblocks
  split at hturn
  · rename_i hlast
    obtain rfl := Except.error.inj hturn
    refine ⟨hkept.returns rfl hblocks (fun _ => rfl) nofun, fun _ => ⟨data, hread, ?_⟩⟩
    simpa using hlast
  split at hturn
  · obtain rfl := Except.error.inj hturn
    exact ⟨hkept.part hblocks _ _ _ _, hnone⟩
  split at hturn
  · obtain rfl := Except.error.inj hturn
    exact ⟨hkept.part hblocks _ _ _ _, hnone⟩
  · cases hturn

structure Runs (spec : ListSpec) (bounds : ListBounds) (before : List (Json ν)) (references : List String)
    (reads : List (Observation (Json ν))) (returned : ListOutcome ν) : Prop where
  returns : Returns spec bounds (before ++ reads.dropLast.flatMap (itemsOf spec))
    (before ++ reads.flatMap (itemsOf spec)) returned
  known : (∃ values, returned.value? = some values) → (∀ read ∈ reads, ∃ value, read.value? = some value) ∧
    (∃ last, reads.getLast? = some last ∧ Final spec last) ∧
    (references ++ reads.filterMap (continuation spec)).Nodup

omit [Numerals ν] in
theorem continuation_final (h : Final spec read) : continuation spec read = none := by
  obtain ⟨data, hread, hlast⟩ := h
  rcases hlast with hunpaged | hnone
  · simp [continuation, hunpaged]
  · simp [continuation, hread, Json.asRecord, hnone]

omit [Numerals ν] in
theorem continuation_known {next : String} (h : continuation spec read = some next) :
    ∃ value, read.value? = some value := by
  cases hread : read.value? with
  | none => simp [continuation, hread] at h
  | some value => exact ⟨value, rfl⟩

theorem pages_runs (now : Int) (read : ℕ → ListArguments → Observation (Json ν)) (fuel page : ℕ) {s : Paging ν} (h : Kept spec bounds before s.collected) (hreferences : s.nextReferences.Nodup) :
    (pages spec bounds now read fuel page s).1.length ≤ fuel ∧
      Runs spec bounds before s.nextReferences (pages spec bounds now read fuel page s).1
        (pages spec bounds now read fuel page s).2 := by
  induction fuel generalizing page before s with
  | zero =>
    refine ⟨le_rfl, ⟨by simpa [pages] using h.stop _ _ _ _, ?_⟩⟩
    rintro ⟨values, hvalues⟩
    cases hvalues
  | succ fuel ih =>
    rw [pages]
    generalize read page (listArguments spec bounds s) = outcome
    cases hturn : turn spec bounds s outcome with
    | error returned =>
      obtain ⟨hreturns, hfinal⟩ := turn_error h hturn
      refine ⟨by simp, ⟨by simpa using hreturns, fun hknown => ?_⟩⟩
      obtain ⟨data, hread, hlast⟩ := hfinal hknown
      refine ⟨by simpa using ⟨_, hread⟩, ⟨outcome, rfl, hfinal hknown⟩, ?_⟩
      simpa [continuation_final (hfinal hknown)] using hreferences
    | ok s' =>
      obtain ⟨hkept, next, hnext, hfresh, hnextReferences⟩ := turn_ok h hturn
      have hnodup : s'.nextReferences.Nodup := by
        rw [hnextReferences, List.nodup_append]
        refine ⟨hreferences, List.nodup_singleton _, ?_⟩
        rintro a ha b hb rfl
        obtain rfl := List.mem_singleton.mp hb
        exact hfresh ha
      obtain ⟨hlength, hruns⟩ := ih (page + 1) hkept hnodup
      dsimp only
      generalize pages spec bounds now read fuel (page + 1) s' = run at hlength hruns ⊢
      obtain ⟨reads, returned⟩ := run
      refine ⟨by simpa using hlength, ⟨?_, fun hknown => ?_⟩⟩
      · refine Returns.mono ?_ (by simpa using hruns.returns)
        cases reads with
        | nil => simp
        | cons read reads => simp
      · obtain ⟨hreads, ⟨last, hlast, hfinal⟩, hdistinct⟩ := hruns.known hknown
        refine ⟨?_, ⟨last, ?_, hfinal⟩, ?_⟩
        · intro read hread
          rcases List.mem_cons.mp hread with rfl | hread
          · exact continuation_known hnext
          · exact hreads read hread
        · cases reads with
          | nil => cases hlast
          | cons read reads => simpa using hlast
        · simpa [hnext, hnextReferences] using hdistinct

-- Lists

def SameKey (a b : NativeResource ν) : Prop := a.parentTokens = b.parentTokens ∧ a.token = b.token

structure Inventoried (spec : ListSpec) (bounds : ListBounds) (run : Listed ν) : Prop where
  reads : run.reads.length ≤ bounds.maxPages
  bound : (held run.inventory.outcome).length ≤ bounds.maxResources
  distinct : (held run.inventory.outcome).Pairwise fun a b => ¬ SameKey a b
  known : ∀ values, run.inventory.outcome.value? = some values →
    (∀ read ∈ run.reads, ∃ value, read.value? = some value) ∧
    (∃ last, run.reads.getLast? = some last ∧ Final spec last) ∧
    EntriesOf spec (run.reads.flatMap (itemsOf spec)) values
  changed : ∀ a ∈ run.reads.flatMap (itemsOf spec), ∀ b ∈ run.reads.flatMap (itemsOf spec), ∀ x y,
    resource a spec.tokenField [] = .ok x → resource b spec.tokenField [] = .ok y → SameKey x y → x ≠ y →
    run.inventory.outcome.value? = none
  repeated : ¬ (run.reads.filterMap (continuation spec)).Nodup → run.inventory.outcome.value? = none
  kept : run.inventory.outcome.value? = none → ∃ status code message used rest,
    run.inventory.outcome.result = .missing status code message (some (held run.inventory.outcome)) ∧
    run.reads.flatMap (itemsOf spec) = used ++ rest ∧ run.reads.dropLast.flatMap (itemsOf spec) <+: used ∧
    EntriesOf spec used (held run.inventory.outcome) ∧
    ∀ item ∈ rest.head?, Blocks spec bounds (held run.inventory.outcome) item

theorem distinct_of_keys (h : (values.map NativeResource.key).Nodup) :
    values.Pairwise fun a b => ¬ SameKey a b := by
  rw [List.nodup_iff_pairwise_ne, List.pairwise_map] at h
  exact h.imp fun hne hsame => hne (NativeResource.key_inj.mpr hsame)

omit [Numerals ν] in
theorem held_of_known {outcome : ListOutcome ν} (h : outcome.value? = some values) :
    held outcome = values := by
  unfold Observation.value? at h
  unfold held
  split at h
  · rename_i hresult
    rw [hresult]
    exact Option.some.inj h
  · cases h

variable {run : Listed ν}

theorem Runs.entries (h : Runs spec bounds [] [] run.reads run.inventory.outcome) (hvalues : run.inventory.outcome.value? = some values) :
    EntriesOf spec (run.reads.flatMap (itemsOf spec)) values := by
  obtain ⟨used, rest, hitems, -, hused, -, hall⟩ := h.returns.taken
  obtain rfl := hall ⟨values, hvalues⟩
  rw [List.nil_append, List.append_nil] at hitems
  rw [held_of_known hvalues] at hused
  exact hitems ▸ hused

theorem Runs.inventoried (hreads : run.reads.length ≤ bounds.maxPages)
    (h : Runs spec bounds [] [] run.reads run.inventory.outcome) : Inventoried spec bounds run where
  reads := hreads
  bound := h.returns.bound
  distinct := distinct_of_keys h.returns.distinct
  known values hvalues := by
    obtain ⟨hread, hlast, -⟩ := h.known ⟨values, hvalues⟩
    exact ⟨hread, hlast, h.entries hvalues⟩
  changed a ha b hb x y hx hy hsame hne := by
    by_contra hsome
    obtain ⟨values, hvalues⟩ := Option.ne_none_iff_exists'.mp hsome
    obtain ⟨x', hx', hrx⟩ := (h.entries hvalues).1 a ha
    obtain ⟨y', hy', hry⟩ := (h.entries hvalues).1 b hb
    obtain rfl := Except.ok.inj (hx.symm.trans hrx)
    obtain rfl := Except.ok.inj (hy.symm.trans hry)
    have hdistinct := h.returns.distinct
    rw [held_of_known hvalues] at hdistinct
    exact hne (List.inj_on_of_nodup_map hdistinct hx' hy' (NativeResource.key_inj.mpr hsame))
  repeated hrepeated := by
    by_contra hsome
    exact hrepeated (by simpa using (h.known (Option.ne_none_iff_exists'.mp hsome)).2.2)
  kept hnone := by
    obtain ⟨status, code, message, hresult⟩ := h.returns.kept hnone
    obtain ⟨used, rest, hitems, hearlier, hused, hblocks, -⟩ := h.returns.taken
    exact ⟨status, code, message, used, rest, hresult, by simpa using hitems, by simpa using hearlier, hused, hblocks⟩

theorem Runs.sourced {reads : List (Observation (Json ν))}
    {source : Option ObservationSource} (h : Runs spec bounds [] [] reads returned) : Runs spec bounds [] [] reads { returned with source } :=
  ⟨⟨h.returns.distinct, h.returns.bound, h.returns.taken, h.returns.kept⟩, h.known⟩

theorem list_inventoried {contract : ReadContract} {xaddr : String} {read : ℕ → ListArguments → Observation (Json ν)} (hspec : contract.list = some spec) (hrun : list bounds now contract xaddr read = .ok run) :
    Inventoried spec bounds run := by
  unfold list at hrun
  rw [hspec] at hrun
  obtain rfl := Except.ok.inj hrun
  have hkept : Kept spec bounds ([] : List (Json ν)) {} := ⟨rfl, by simp, by simp, by simp [EntriesOf]⟩
  obtain ⟨hlength, hruns⟩ := pages_runs now read bounds.maxPages 0 (s := {}) hkept List.nodup_nil
  exact Runs.inventoried hlength hruns.sourced

-- Tracks

def trackItems (recording : NativeResource ν) : List (Json ν) := match tracksOf recording with
  | .ok tracks => tracks
  | .error _ => []

def trackToken (track : Json ν) : Option String := ((track.asRecord).bind (get "TrackToken")).bind Json.asString

def listedTracks (recordings : List (NativeResource ν)) : List (String × Json ν) :=
  recordings.flatMap fun recording => (trackItems recording).map (recording.token, ·)

def EntryOf (track : String × Json ν) (value : NativeResource ν) : Prop :=
  resource track.2 (some "TrackToken") [track.1] = .ok value

def WellFormed (recordings : List (NativeResource ν)) : Prop :=
  (∀ recording ∈ recordings, ∃ tracks, tracksOf recording = .ok tracks) ∧
    ∀ track ∈ listedTracks recordings, ∃ value, EntryOf track value

/-- Where the tracks of the recordings are known, they are every track once, and no two have one key. -/
def TracksComplete (bounds : ListBounds) (now : Int) (inventory : ResourceInventory (NativeResource ν)) : Prop :=
  ∀ recordings, inventory.outcome.value? = some recordings →
    ∃ result, tracks bounds now inventory = .ok result ∧ result.kind = .track ∧
      ∀ values, result.outcome.value? = some values →
        List.Forall₂ EntryOf (listedTracks recordings) values ∧ values.Pairwise fun a b => ¬ SameKey a b

omit [Numerals ν] in
theorem takeTracks_all {token : String} {values values' : List (NativeResource ν)}
    (hroom : values.length ≤ bounds.maxResources) : takeTracks bounds token items values = .all values' ↔
      ∃ added, List.Forall₂ EntryOf (items.map (token, ·)) added ∧ values' = values ++ added ∧
        values'.length ≤ bounds.maxResources := by
  induction items generalizing values with
  | nil =>
    simp only [takeTracks, TakeResult.all.injEq, List.map_nil, List.forall₂_nil_left_iff]
    constructor
    · rintro rfl
      exact ⟨[], rfl, by simp, hroom⟩
    · rintro ⟨_, rfl, rfl, -⟩
      simp
  | cons item items ih =>
    rw [takeTracks]
    split
    · rename_i hfull
      refine ⟨nofun, ?_⟩
      rintro ⟨added, hadded, rfl, hlength⟩
      have := hadded.length_eq
      simp only [List.map_cons, List.length_cons, List.length_append] at this hlength
      omega
    rename_i hless
    split
    · rename_i e he
      refine ⟨nofun, ?_⟩
      rintro ⟨added, hadded, -⟩
      cases hadded with
      | cons hentry => exact absurd (he.symm.trans hentry) nofun
    · rename_i value hvalue
      rw [ih (by simpa using Nat.succ_le_of_lt (Nat.lt_of_not_le hless))]
      constructor
      · rintro ⟨added, hadded, rfl, hlength⟩
        exact ⟨value :: added, .cons hvalue hadded, by simp, hlength⟩
      · rintro ⟨added, hadded, rfl, hlength⟩
        cases hadded with
        | cons hentry hadded =>
          obtain rfl := Except.ok.inj (hvalue.symm.trans hentry)
          exact ⟨_, hadded, by simp, hlength⟩

omit [Numerals ν] in
theorem listedTracks_cons {recording : NativeResource ν} {recordings : List (NativeResource ν)}
    (h : tracksOf recording = .ok items) :
    listedTracks (recording :: recordings) = items.map (recording.token, ·) ++ listedTracks recordings := by
  simp [listedTracks, trackItems, h]

omit [Numerals ν] in
theorem takeRecordings_all {recordings values values' : List (NativeResource ν)}
    (hroom : values.length ≤ bounds.maxResources) : takeRecordings bounds recordings values = .all values' ↔
      (∀ recording ∈ recordings, ∃ tracks, tracksOf recording = .ok tracks) ∧
      ∃ added, List.Forall₂ EntryOf (listedTracks recordings) added ∧ values' = values ++ added ∧
        values'.length ≤ bounds.maxResources := by
  induction recordings generalizing values with
  | nil =>
    simp only [takeRecordings, TakeResult.all.injEq, listedTracks, List.flatMap_nil, List.forall₂_nil_left_iff]
    constructor
    · rintro rfl
      exact ⟨by simp, [], rfl, by simp, hroom⟩
    · rintro ⟨-, _, rfl, rfl, -⟩
      simp
  | cons recording recordings ih =>
    rw [takeRecordings]
    split
    · rename_i e he
      refine ⟨nofun, ?_⟩
      rintro ⟨hread, -⟩
      obtain ⟨tracks, htracks⟩ := hread recording List.mem_cons_self
      exact absurd (he.symm.trans htracks) nofun
    rename_i items hitems
    rw [listedTracks_cons hitems, List.forall_mem_cons]
    -- what the tracks of this recording come to, if all are taken in the end
    have hfirst : ∀ {added}, List.Forall₂ EntryOf (items.map (recording.token, ·) ++ listedTracks recordings) added →
        (values ++ added).length ≤ bounds.maxResources →
        takeTracks bounds recording.token items values = .all (values ++ added.take items.length) ∧
          List.Forall₂ EntryOf (listedTracks recordings) (added.drop items.length) := by
      intro added hadded hlength
      have htake := List.forall₂_take items.length hadded
      have hdrop := List.forall₂_drop items.length hadded
      rw [List.take_left' (by simp)] at htake
      rw [List.drop_left' (by simp)] at hdrop
      refine ⟨(takeTracks_all hroom).mpr ⟨_, htake, rfl, ?_⟩, hdrop⟩
      simp only [List.length_append, List.length_take] at hlength ⊢
      omega
    split
    · rename_i middle hmiddle
      obtain ⟨first, hentries, rfl, hlength⟩ := (takeTracks_all hroom).mp hmiddle
      rw [ih hlength]
      constructor
      · rintro ⟨hread, rest, hrest, rfl, hall⟩
        exact ⟨⟨⟨items, hitems⟩, hread⟩, first ++ rest, List.rel_append hentries hrest, by simp, hall⟩
      · rintro ⟨⟨-, hread⟩, added, hadded, rfl, hall⟩
        obtain ⟨htaken, hrest⟩ := hfirst hadded hall
        have hmiddle' : values ++ added.take items.length = values ++ first :=
          TakeResult.all.inj (htaken.symm.trans hmiddle)
        refine ⟨hread, _, hrest, ?_, hall⟩
        rw [← hmiddle', List.append_assoc, List.take_append_drop]
    · rename_i hstopped
      constructor
      · intro h
        exact absurd h (hstopped _)
      · rintro ⟨-, added, hadded, rfl, hall⟩
        exact absurd (hfirst hadded hall).1 (hstopped _)

omit [Numerals ν] in
theorem resource_ok {item : Json ν} {tokenField : Option String} {parents : List String}
    (h : resource item tokenField parents = .ok value) :
    value.parentTokens = parents ∧
      ∀ field, tokenField = some field → (item.asRecord.bind (get field)).bind Json.asString = some value.token := by
  unfold resource at h
  obtain ⟨data, hdata, h⟩ := except_bind_ok h
  obtain ⟨attributes, -, h⟩ := except_bind_ok h
  obtain ⟨token, htoken, h⟩ := except_bind_ok h
  have hitem : item = .object data := by
    cases item with
    | object members =>
      obtain rfl := Except.ok.inj hdata
      rfl
    | _ => cases hdata
  have hvalue : value.parentTokens = parents ∧ value.token = token := by
    split at h
    · obtain rfl := Except.ok.inj h
      exact ⟨rfl, rfl⟩
    · obtain rfl := Except.ok.inj h
      exact ⟨rfl, rfl⟩
    · cases h
  refine ⟨hvalue.1, ?_⟩
  rintro field rfl
  simp [hitem, Json.asRecord, string_ok htoken, Json.asString, hvalue]

omit [Numerals ν] in
theorem EntryOf.key {track : String × Json ν} (h : EntryOf track value) :
    (value.parentTokens, some value.token) = ([track.1], trackToken track.2) := by
  obtain ⟨hparents, htoken⟩ := resource_ok h
  rw [trackToken, htoken _ rfl, hparents]

omit [Numerals ν] in
theorem pairwise_sameKey : (values.Pairwise fun a b => ¬ SameKey a b) ↔
    (values.map fun value => (value.parentTokens, some value.token)).Nodup := by
  rw [List.nodup_iff_pairwise_ne, List.pairwise_map]
  simp [SameKey]

omit [Numerals ν] in
theorem entries_keys {tracks : List (String × Json ν)}
    (h : List.Forall₂ EntryOf tracks values) :
    (values.map fun value => (value.parentTokens, some value.token)) =
      tracks.map fun track => ([track.1], trackToken track.2) := by
  induction h with
  | nil => rfl
  | cons hentry _ ih => rw [List.map_cons, List.map_cons, ih, hentry.key]

omit [Numerals ν] in
theorem entries_distinct {recordings values : List (NativeResource ν)}
    (h : List.Forall₂ EntryOf (listedTracks recordings) values)
    (htokens : (recordings.map NativeResource.token).Nodup) :
    (values.Pairwise fun a b => ¬ SameKey a b) ↔
      ∀ recording ∈ recordings, ((trackItems recording).map trackToken).Nodup := by
  have hkeys : (listedTracks recordings).map (fun track => ([track.1], trackToken track.2)) =
      recordings.flatMap fun recording =>
        ((trackItems recording).map trackToken).map fun token => ([recording.token], token) := by
    simp [listedTracks, List.map_flatMap, Function.comp_def]
  have hparent : ∀ token : String, Function.Injective fun track : Option String => ([token], track) :=
    fun token a b hab => (Prod.mk.inj hab).2
  rw [pairwise_sameKey, entries_keys h, hkeys, List.nodup_flatMap]
  constructor
  · rintro ⟨heach, -⟩ recording hrecording
    exact (List.nodup_map_iff (hparent _)).mp (heach recording hrecording)
  · intro heach
    refine ⟨fun recording hrecording => (heach recording hrecording).map (hparent _), ?_⟩
    rw [List.nodup_iff_pairwise_ne, List.pairwise_map] at htokens
    refine htokens.imp fun hne => ?_
    intro key hleft hright
    obtain ⟨_, -, rfl⟩ := List.mem_map.mp hleft
    obtain ⟨_, -, hkey⟩ := List.mem_map.mp hright
    exact hne (by simpa using (Prod.mk.inj hkey).1.symm)

omit [Numerals ν] in
theorem entries_exist {tracks : List (String × Json ν)} :
    (∃ values, List.Forall₂ EntryOf tracks values) ↔ ∀ track ∈ tracks, ∃ value, EntryOf track value := by
  induction tracks with
  | nil => simp
  | cons track tracks ih =>
    rw [List.forall_mem_cons, ← ih]
    constructor
    · rintro ⟨_, hentries⟩
      cases hentries with
      | cons hentry hentries => exact ⟨⟨_, hentry⟩, _, hentries⟩
    · rintro ⟨⟨value, hentry⟩, values, hentries⟩
      exact ⟨value :: values, .cons hentry hentries⟩

omit [Numerals ν] in
theorem tracks_known (bounds : ListBounds) (now : Int) {inventory : ResourceInventory (NativeResource ν)} {recordings : List (NativeResource ν)}
    (hknown : inventory.outcome.value? = some recordings) :
    ∃ result, tracks bounds now inventory = .ok result ∧ result.kind = .track ∧
      ∀ values, result.outcome.value? = some values ↔
        takeRecordings bounds recordings [] = .all values := by
  have hresult : inventory.outcome.result = .known recordings := by
    unfold Observation.value? at hknown
    split at hknown
    · rename_i values hresult
      rw [hresult, Option.some.inj hknown]
    · cases hknown
  unfold tracks
  rw [hresult]
  refine ⟨_, rfl, rfl, fun values => ?_⟩
  dsimp only
  cases takeRecordings bounds recordings [] <;> simp [partialOutcome, Observation.value?]

omit [Numerals ν] in
theorem tracksComplete_iff {inventory : ResourceInventory (NativeResource ν)} {recordings : List (NativeResource ν)}
    (hknown : inventory.outcome.value? = some recordings) (htokens : (recordings.map NativeResource.token).Nodup) :
    TracksComplete bounds now inventory ↔
      (WellFormed recordings → (listedTracks recordings).length ≤ bounds.maxResources →
        ∀ recording ∈ recordings, ((trackItems recording).map trackToken).Nodup) := by
  obtain ⟨result, hresult, hkind, hvalues⟩ := tracks_known bounds now hknown
  constructor
  · intro hcomplete hformed hroom
    obtain ⟨values, hentries⟩ := entries_exist.mpr hformed.2
    obtain ⟨result', hresult', -, hall⟩ := hcomplete recordings hknown
    obtain rfl := Except.ok.inj (hresult.symm.trans hresult')
    have htaken : takeRecordings bounds recordings [] = .all values :=
      (takeRecordings_all (by simp)).mpr ⟨hformed.1, values, hentries, rfl, hentries.length_eq ▸ hroom⟩
    exact (entries_distinct hentries htokens).mp (hall values ((hvalues values).mpr htaken)).2
  · intro hdistinct recordings' hknown'
    obtain rfl := Option.some.inj (hknown.symm.trans hknown')
    refine ⟨result, hresult, hkind, fun values hvalue => ?_⟩
    obtain ⟨hread, added, hentries, rfl, hroom⟩ := (takeRecordings_all (by simp)).mp ((hvalues values).mp hvalue)
    have hformed : WellFormed recordings := ⟨hread, entries_exist.mp ⟨_, hentries⟩⟩
    have hlength : (listedTracks recordings).length ≤ bounds.maxResources := hentries.length_eq ▸ hroom
    exact ⟨hentries, (entries_distinct hentries htokens).mpr (hdistinct hformed hlength)⟩

theorem Inventoried.tokens (h : Inventoried spec bounds run)
    (hknown : run.inventory.outcome.value? = some values) : (values.map NativeResource.token).Nodup := by
  have hparents : ∀ value ∈ values, value.parentTokens = [] := by
    intro value hvalue
    obtain ⟨item, -, hitem⟩ := (h.known values hknown).2.2.2 value hvalue
    exact (resource_ok hitem).1
  have hdistinct := h.distinct
  rw [held_of_known hknown] at hdistinct
  rw [List.nodup_iff_pairwise_ne, List.pairwise_map]
  exact hdistinct.imp_of_mem fun ha hb hkey htoken => hkey ⟨(hparents _ ha).trans (hparents _ hb).symm, htoken⟩

/-- A known list is whole and without duplicates, and so are its tracks unless a recording lists a track twice. -/
theorem inventories_complete (bounds : ListBounds) (now later : Int) (contract : ReadContract) (xaddr : String)
    (read : ℕ → ListArguments → Observation (Json ν)) :
    (∀ spec, contract.list = some spec →
      ∃ run, list bounds now contract xaddr read = .ok run ∧ Inventoried spec bounds run) ∧
    ∀ run recordings, list bounds now contract xaddr read = .ok run →
      run.inventory.outcome.value? = some recordings →
      (TracksComplete bounds later run.inventory ↔
        (WellFormed recordings → (listedTracks recordings).length ≤ bounds.maxResources →
          ∀ recording ∈ recordings, ((trackItems recording).map trackToken).Nodup)) := by
  constructor
  · intro spec hspec
    have hlisted : ∃ run, list bounds now contract xaddr read = .ok run := by
      unfold list
      rw [hspec]
      exact ⟨_, rfl⟩
    obtain ⟨run, hrun⟩ := hlisted
    exact ⟨run, hrun, list_inventoried hspec hrun⟩
  · intro run recordings hrun hknown
    cases hspec : contract.list with
    | none =>
      unfold list at hrun
      rw [hspec] at hrun
      cases hrun
    | some spec => exact tracksComplete_iff hknown ((list_inventoried hspec hrun).tokens hknown)

-- A track listed twice

def getRecordings : ReadContract where
  namespace_ := "http://www.onvif.org/ver10/recording/wsdl"
  operation := "GetRecordings"
  list := some ⟨"RecordingItem", .recording, false, some "RecordingToken"⟩

def twoTracks : Json FiniteNumber :=
  let track : Json FiniteNumber := .object [("TrackToken", .string "T")]
  .object [("RecordingItem", .array [.object [("RecordingToken", .string "R"),
    ("Tracks", .object [("Track", .array [track, track])])]])]

theorem track_twice : ∃ run,
    list ⟨4, 4⟩ 0 getRecordings "http://d/" (fun _ _ => { result := .known twoTracks, observedAt := 0 }) = .ok run ∧
      ¬ TracksComplete ⟨4, 4⟩ 0 run.inventory := by
  refine ⟨_, rfl, fun hcomplete => ?_⟩
  obtain ⟨result, hresult, -, hvalues⟩ := hcomplete _ rfl
  obtain rfl := Except.ok.inj hresult
  have hdistinct := (hvalues _ rfl).2
  simp [SameKey] at hdistinct

end WotAv.Discovery
