import WotAv.Publication.Files

/-!
# What an undisturbed bundle keeps

Every file in the directory is listed with its digest, by the manifest on disk
or by the one in memory; the two differ only between the rename of a document
and that of the manifest.
-/

namespace WotAv.Publication.Files

open WotAv.Lib

-- Names

theorem split_inj (h : split path = split path') : path = path' := by
  have h' := congrArg (List.intercalate ['/']) h
  unfold split at h'
  rw [List.intercalate_splitOn, List.intercalate_splitOn] at h'
  exact String.toList_inj.mp h'

theorem split_manifest : split MANIFEST = manifestPath := by decide

theorem split_lock : split "onvif-bundle-manifest.json.lock" = lockPath := by decide

theorem safeName_manifest (h : safeName path) : split path ≠ manifestPath := by
  intro he
  obtain rfl := split_inj (he.trans split_manifest.symm)
  simp [safeName] at h

theorem safeName_lock (h : safeName path) : split path ≠ lockPath := by
  intro he
  obtain rfl := split_inj (he.trans split_lock.symm)
  revert h
  decide

-- The directory

namespace Disk

@[simp] theorem set_nodes (disk : Disk) (parts other : Parts) (node : Option Node) :
    (disk.set parts node).nodes other = if other = parts then node else disk.nodes other := rfl

@[simp] theorem replace_nodes (disk : Disk) (parts other : Parts) (content : Content) :
    (disk.replace parts content).nodes other =
      if other = parts then some (.file content disk.stamp) else disk.nodes other := rfl

theorem files_congr {disk disk' : Disk} (h : disk'.nodes manifestPath = disk.nodes manifestPath) :
    disk'.files = disk.files := by
  unfold files
  rw [h]

theorem files_eq {disk : Disk} {stamp : Nat} (h : disk.nodes manifestPath = some (.file (.manifest m) stamp)) :
    disk.files = m.files := by
  unfold files
  rw [h]

end Disk

variable {b : Bundle}

-- `target` makes directories where nothing is, and changes nothing else.
theorem directories_nodes (h : Bundle.directories disk path = (disk', made)) (parts : Parts) :
    disk'.nodes parts = disk.nodes parts ∨
      parts ∈ path ∧ disk.nodes parts = none ∧ disk'.nodes parts = some .directory := by
  induction path generalizing disk with
  | nil => exact .inl (by rw [← (Prod.mk.inj h).1])
  | cons first rest ih =>
    unfold Bundle.directories at h
    split at h
    · rename_i hnone
      rcases ih h with hsame | ⟨hin, hold, hnew⟩
      · by_cases hp : parts = first
        · subst hp
          exact .inr ⟨List.mem_cons_self, hnone, by simpa using hsame⟩
        · exact .inl (by simpa [hp] using hsame)
      · by_cases hp : parts = first
        · subst hp
          simp at hold
        · exact .inr ⟨List.mem_cons_of_mem _ hin, by simpa [hp] using hold, hnew⟩
    · rcases ih h with hsame | ⟨hin, hrest⟩
      · exact .inl hsame
      · exact .inr ⟨List.mem_cons_of_mem _ hin, hrest⟩
    · exact .inl (by rw [← (Prod.mk.inj h).1])

section
variable (h : Bundle.target disk path = (disk', made))
include h

theorem target_nodes (parts : Parts) :
    disk'.nodes parts = disk.nodes parts ∨
      parts ∈ ancestors (split path) ∧ disk.nodes parts = none ∧ disk'.nodes parts = some .directory := by
  unfold Bundle.target at h
  split at h
  · exact directories_nodes h parts
  · exact .inl (by rw [← (Prod.mk.inj h).1])

theorem target_kept (hp : parts ∉ ancestors (split path)) :
    disk'.nodes parts = disk.nodes parts := (target_nodes h parts).resolve_right fun h => hp h.1

theorem target_file :
    disk'.nodes parts = some (.file content stamp) ↔ disk.nodes parts = some (.file content stamp) := by
  rcases target_nodes h parts with hsame | ⟨_, hold, hnew⟩
  · rw [hsame]
  · rw [hold, hnew]
    exact ⟨nofun, nofun⟩

end

theorem target_safe (h : Bundle.target disk path = (disk', .ok u)) : safeName path := by
  unfold Bundle.target at h
  split at h
  · assumption
  · cases (Prod.mk.inj h).2

-- Files and what lists them

/-- `files` lists the files in the directory, each with its digest; `skip` is
the path of a document that has just been replaced. -/
structure Tracked (b : Bundle) (disk : Disk) (files : List (String × String)) (skip : Option String) : Prop where
  safe : ∀ path, (get path files).isSome → safeName path
  listed : ∀ path hash, get path files = some hash → skip ≠ some path →
    ∃ text stamp, disk.nodes (split path) = some (.file (.text text) stamp) ∧ b.sha256 text = hash ∧ size text ≤ b.maxFileBytes
  owned : ∀ parts content stamp, parts ≠ manifestPath → parts ≠ lockPath →
    disk.nodes parts = some (.file content stamp) →
    ∃ path text, parts = split path ∧ content = .text text ∧ (skip = some path ∨ get path files = some (b.sha256 text))

theorem Tracked.congr (h : Tracked b disk files skip) (hf : ∀ path, get path files' = get path files) :
    Tracked b disk files' skip where
  safe path hp := h.safe path (hf path ▸ hp)
  listed path hash hp := h.listed path hash (hf path ▸ hp)
  owned parts content stamp hm hl hn := by
    obtain ⟨path, text, hpath, hc, ho⟩ := h.owned parts content stamp hm hl hn
    exact ⟨path, text, hpath, hc, ho.imp_right (hf path).trans⟩

theorem Tracked.moved (h : Tracked b disk files skip) (hd : ∀ parts content stamp, parts ≠ manifestPath →
    parts ≠ lockPath → (disk'.nodes parts = some (.file content stamp) ↔ disk.nodes parts = some (.file content stamp))) :
    Tracked b disk' files skip where
  safe := h.safe
  listed path hash hp hs := by
    obtain ⟨text, stamp, hn, hrest⟩ := h.listed path hash hp hs
    have hsafe := h.safe path (hp ▸ rfl)
    exact ⟨text, stamp, (hd _ _ _ (safeName_manifest hsafe) (safeName_lock hsafe)).mpr hn, hrest⟩
  owned parts content stamp hm hl hn := h.owned parts content stamp hm hl ((hd _ _ _ hm hl).mp hn)

theorem Tracked.replaced (h : Tracked b disk files none) (path text : String) :
    Tracked b (disk.replace (split path) (.text text)) files (some path) where
  safe := h.safe
  listed path' hash hp hs := by
    obtain ⟨text', stamp, hn, hrest⟩ := h.listed path' hash hp nofun
    refine ⟨text', stamp, ?_, hrest⟩
    rw [Disk.replace_nodes, if_neg, hn]
    exact fun he => hs (congrArg some (split_inj he).symm)
  owned parts content stamp hm hl hn := by
    rw [Disk.replace_nodes] at hn
    split at hn
    · obtain ⟨rfl, _⟩ := Node.file.inj (Option.some.inj hn)
      exact ⟨path, text, by assumption, rfl, .inl rfl⟩
    · obtain ⟨path', text', hpath, hc, ho⟩ := h.owned parts content stamp hm hl hn
      exact ⟨path', text', hpath, hc, .inr (ho.resolve_left nofun)⟩

theorem Tracked.recorded (h : Tracked b disk files (some path)) (hs : safeName path)
    (hl : size text ≤ b.maxFileBytes)
    (hn : disk.nodes (split path) = some (.file (.text text) stamp)) :
    Tracked b disk (set path (b.sha256 text) files) none where
  safe path' hp := by
    by_cases he : path' = path
    · exact he ▸ hs
    · exact h.safe path' (by rwa [get_set_other he] at hp)
  listed path' hash hp _ := by
    by_cases he : path' = path
    · subst he
      rw [get_set_self] at hp
      exact ⟨text, stamp, hn, Option.some.inj hp, hl⟩
    · rw [get_set_other he] at hp
      exact h.listed path' hash hp fun hsk => he (Option.some.inj hsk).symm
  owned parts content stamp' hm hlock hp := by
    obtain ⟨path', text', rfl, rfl, ho⟩ := h.owned parts content stamp' hm hlock hp
    by_cases he : path' = path
    · subst he
      rw [hn] at hp
      obtain ⟨ht, _⟩ := Node.file.inj (Option.some.inj hp)
      exact ⟨path', text', rfl, rfl, .inr (by rw [get_set_self, Content.text.inj ht])⟩
    · refine ⟨path', text', rfl, rfl, .inr ?_⟩
      rw [get_set_other he]
      exact ho.resolve_left fun hsk => he (Option.some.inj hsk).symm

def Written (disk : Disk) (documents : List BundleDocument) : Prop :=
  ∀ document ∈ documents, safeName document.path ∧
    ∃ stamp, disk.nodes (split document.path) = some (.file (.text document.text) stamp)

theorem Written.moved (h : Written disk documents) (hd : ∀ parts content stamp, parts ≠ manifestPath →
    parts ≠ lockPath → disk.nodes parts = some (.file content stamp) →
      disk'.nodes parts = some (.file content stamp)) :
    Written disk' documents := by
  intro document hin
  obtain ⟨hs, stamp, hn⟩ := h document hin
  exact ⟨hs, stamp, hd _ _ _ (safeName_manifest hs) (safeName_lock hs) hn⟩

theorem Written.append (h : Written disk documents) (hs : safeName document.path)
    (hn : disk.nodes (split document.path) = some (.file (.text document.text) stamp)) :
    Written disk (documents ++ [document]) := by
  intro other hin
  rcases List.mem_append.mp hin with hin | hin
  · exact h other hin
  · obtain rfl := List.mem_singleton.mp hin
    exact ⟨hs, stamp, hn⟩

theorem Written.replaced (h : Written disk documents) (hp : path ∉ documents.map (·.path)) (text : String) :
    Written (disk.replace (split path) (.text text)) documents := by
  intro document hin
  obtain ⟨hs, stamp, hn⟩ := h document hin
  refine ⟨hs, stamp, ?_⟩
  rw [Disk.replace_nodes, if_neg, hn]
  intro he
  exact hp (List.mem_map.mpr ⟨document, hin, split_inj he⟩)

end WotAv.Publication.Files
