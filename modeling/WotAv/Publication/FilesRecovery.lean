import WotAv.Publication.FilesSteps

/-!
# Interrupted bundles recover

After a quiet run every write succeeds whose documents have a place in the
directory and in the manifest. Each proceeding operation succeeds, and brings
the call nearer to its end.
-/

namespace WotAv.Publication.Files

open WotAv.Lib

variable {b : Bundle} {disk disk' : Disk} {p : Process} {m : BundleManifest} {job : Job}

-- Batches that have a place

def Listed (b : Bundle) (m : BundleManifest) : List BundleDocument → Prop
  | [] => True
  | document :: rest => b.room (b.recorded m document) ∧ Listed b (b.recorded m document) rest

/-- The directory has a place for each document: a bounded text under a name
that is safe, is not the directory of another, and is not below a file. -/
structure Placed (b : Bundle) (disk : Disk) (documents : List BundleDocument) : Prop where
  nodup : (documents.map (·.path)).Nodup
  safe : ∀ document ∈ documents, safeName document.path
  short : ∀ document ∈ documents, size document.text ≤ b.maxFileBytes
  aside : ∀ document ∈ documents, manifestPath ∉ ancestors (split document.path) ∧ lockPath ∉ ancestors (split document.path)
  above : ∀ document ∈ documents, ∀ parts ∈ ancestors (split document.path),
    disk.nodes parts = none ∨ disk.nodes parts = some .directory
  place : ∀ document ∈ documents, disk.nodes (split document.path) = none ∨
    ∃ content stamp, disk.nodes (split document.path) = some (.file content stamp)
  distinct : ∀ document ∈ documents, b.distinct disk document
  apart : ∀ document ∈ documents, ∀ other ∈ documents, split document.path ∉ ancestors (split other.path)

namespace Placed

theorem tail (h : Placed b disk (document :: rest)) : Placed b disk rest where
  nodup := (List.nodup_cons.mp h.nodup).2
  safe d hd := h.safe d (List.mem_cons_of_mem _ hd)
  short d hd := h.short d (List.mem_cons_of_mem _ hd)
  aside d hd := h.aside d (List.mem_cons_of_mem _ hd)
  above d hd := h.above d (List.mem_cons_of_mem _ hd)
  place d hd := h.place d (List.mem_cons_of_mem _ hd)
  distinct d hd := h.distinct d (List.mem_cons_of_mem _ hd)
  apart d hd d' hd' := h.apart d (List.mem_cons_of_mem _ hd) d' (List.mem_cons_of_mem _ hd')

theorem moved (h : Placed b disk documents) (ha : ∀ document ∈ documents, ∀ parts ∈ ancestors (split document.path),
      disk'.nodes parts = disk.nodes parts ∨ disk'.nodes parts = some .directory)
    (hp : ∀ document ∈ documents, disk'.nodes (split document.path) = disk.nodes (split document.path)) :
    Placed b disk' documents where
  nodup := h.nodup
  safe := h.safe
  short := h.short
  aside := h.aside
  above d hd parts hin := by
    rcases ha d hd parts hin with hsame | hmade
    · rw [hsame]
      exact h.above d hd parts hin
    · exact .inr hmade
  place d hd := by
    rw [hp d hd]
    exact h.place d hd
  distinct d hd := by
    have hd' := h.distinct d hd
    unfold Bundle.distinct at hd' ⊢
    rw [hp d hd]
    exact hd'
  apart := h.apart

theorem target (h : Placed b disk documents) (hin : document ∈ documents)
    (ht : Bundle.target disk document.path = (disk', made)) : Placed b disk' documents := by
  refine h.moved (fun d hd parts _ => ?_) fun d hd => target_kept ht (h.apart d hd document hin)
  rcases target_nodes ht parts with hsame | ⟨_, _, hmade⟩
  · exact .inl hsame
  · exact .inr hmade

theorem replaced (h : Placed b disk (document :: rest)) (text : String) :
    Placed b (disk.replace (split document.path) (.text text)) rest := by
  refine h.tail.moved (fun d hd parts hin => .inl ?_) fun d hd => ?_
  · rw [Disk.replace_nodes, if_neg]
    rintro rfl
    exact h.apart document List.mem_cons_self d (List.mem_cons_of_mem _ hd) hin
  · rw [Disk.replace_nodes, if_neg]
    intro he
    exact (List.nodup_cons.mp h.nodup).1 (List.mem_map.mpr ⟨d, hd, split_inj he⟩)

theorem elsewhere (h : Placed b disk documents) (hd : ∀ parts, parts ≠ manifestPath → parts ≠ lockPath →
    disk'.nodes parts = disk.nodes parts) : Placed b disk' documents := by
  refine h.moved (fun d hin parts hp => .inl (hd parts ?_ ?_)) fun d hin => ?_
  · rintro rfl
    exact (h.aside d hin).1 hp
  · rintro rfl
    exact (h.aside d hin).2 hp
  · exact hd _ (safeName_manifest (h.safe d hin)) (safeName_lock (h.safe d hin))

end Placed

theorem directories_open (h : ∀ parts ∈ path, disk.nodes parts = none ∨ disk.nodes parts = some .directory) :
    ∃ disk', Bundle.directories disk path = (disk', .ok ()) := by
  induction path generalizing disk with
  | nil => exact ⟨disk, rfl⟩
  | cons first rest ih =>
    unfold Bundle.directories
    rcases h first List.mem_cons_self with hnone | hmade
    · rw [hnone]
      refine ih fun parts hin => ?_
      rw [Disk.set_nodes]
      split
      · exact .inr rfl
      · exact h parts (List.mem_cons_of_mem _ hin)
    · rw [hmade]
      exact ih fun parts hin => h parts (List.mem_cons_of_mem _ hin)

theorem examine_placed (h : Placed b disk documents) (hin : document ∈ documents)
    (ht : Tracked b disk m.files none) :
    ∃ changed, b.examine m document disk = .ok changed := by
  have hshort := h.short document hin
  have hsafe := h.safe document hin
  unfold Bundle.examine
  rw [if_neg (by omega)]
  unfold Bundle.existing
  rcases h.place document hin with hnone | ⟨content, stamp, hn⟩
  · rw [hnone]
    exact ⟨_, rfl⟩
  · obtain ⟨path, text, hpath, rfl, ho⟩ := ht.owned _ _ _ (safeName_manifest hsafe) (safeName_lock hsafe) hn
    obtain rfl := split_inj hpath
    have hlisted := ho.resolve_left nofun
    obtain ⟨text', stamp', hn', _, hsize⟩ := ht.listed _ _ hlisted nofun
    rw [hn] at hn'
    obtain ⟨ht', _⟩ := Node.file.inj (Option.some.inj hn')
    obtain rfl := Content.text.inj ht'
    rw [hn]
    dsimp only
    rw [if_pos (show size (Content.text text).bytes ≤ b.maxFileBytes from hsize)]
    refine ⟨some (b.sha256 text) ≠ some (b.sha256 document.text), ?_⟩
    change (if (some (b.sha256 text)).isSome ∧ get document.path m.files ≠ some (b.sha256 text) then _ else _) = _
    rw [if_neg (by simp [hlisted])]
    rfl

-- Proceeding

def Going (b : Bundle) (disk : Disk) (p : Process) (m : BundleManifest) (job : Job) : Stage → Prop
  | .locking | .loading => False
  | .verifying => Fresh disk p.identity ∧ job.documents.length ≤ 20000 ∧ Listed b m job.rest ∧ Placed b disk job.rest
  | .owning document | .examining document | .writing document | .replacing document =>
    Fresh disk p.identity ∧ Listed b m (document :: job.rest) ∧ Placed b disk (document :: job.rest)
  | .syncing document => Listed b m (document :: job.rest) ∧ Placed b disk job.rest
  | _ => Listed b m job.rest ∧ Placed b disk job.rest

def Stage.rank : Stage → Nat
  | .locking => 13
  | .loading => 12
  | .verifying => 11
  | .owning _ => 10
  | .examining _ => 9
  | .writing _ => 8
  | .replacing _ => 7
  | .syncing _ => 6
  | .saving => 5
  | .storing => 4
  | .swapping => 3
  | .settling => 2
  | .rereading => 1

def Job.cost (job : Job) : Nat := 16 * job.rest.length + job.stage.rank

def Nearer (b : Bundle) (job : Job) (s : State) : Prop := ∃ p, s.process = some p ∧
  (p.result = some (.ok job.documents) ∨ ∃ job' m, p.job = some job' ∧ p.current = some m ∧
    job'.documents = job.documents ∧ job'.cost < job.cost ∧ Going b s.disk p m job' job'.stage)

theorem nearer_await (hm : p.current = some m) (hr : stage.rank < job.stage.rank)
    (hg : Going b disk (p.await job stage) m { job with stage } stage) :
    Nearer b job ⟨disk, some (p.await job stage)⟩ := by
  refine ⟨_, rfl, .inr ⟨{ job with stage }, m, rfl, hm, rfl, ?_, hg⟩⟩
  unfold Job.cost
  dsimp only
  omega

theorem nearer_next (hm : p.current = some m) (hf : Fresh disk p.identity) (hl : Listed b m job.rest)
    (hp : Placed b disk job.rest) : Nearer b job ⟨disk, some (Bundle.next job p)⟩ := by
  unfold Bundle.next
  cases hr : job.rest with
  | nil => exact ⟨_, rfl, .inl rfl⟩
  | cons document rest =>
    rw [hr] at hl hp
    refine ⟨_, rfl, .inr ⟨_, m, rfl, hm, rfl, ?_, hf, hl, hp⟩⟩
    unfold Job.cost
    rw [hr, List.length_cons]
    dsimp only [Stage.rank]
    omega

theorem nearer_record (hr : Stage.saving.rank < job.stage.rank) (hl : Listed b m (document :: job.rest))
    (hp : Placed b disk job.rest) : Nearer b job ⟨disk, some (b.record job document m p)⟩ := by
  unfold Bundle.record
  rw [if_pos (Bool.and_eq_true_iff.mp hl.1).1]
  exact nearer_await rfl hr ⟨hl.2, hp⟩

theorem going_listable (hg : Going b disk p m job stage) : b.listable m disk stage := by
  cases stage with
  | examining document =>
    obtain ⟨_, hl, hp⟩ := hg
    have hin : document ∈ document :: job.rest := List.mem_cons_self
    simp only [Bundle.listable, Bool.and_eq_true, Bool.not_eq_true', List.contains_eq_mem, decide_eq_false_iff_not]
    exact ⟨⟨hl.1, (hp.aside document hin).1⟩, hp.distinct document hin⟩
  | _ => rfl

theorem nearer_examining (hm : p.current = some m) (hst : job.stage = .examining document)
    (hs : StageInv b disk p m job (.examining document)) (hg : Going b disk p m job (.examining document)) :
    Nearer b job (b.proceed job m disk p (.examining document)) := by
  obtain ⟨hf, hl, hp⟩ := hg
  have hin : document ∈ document :: job.rest := List.mem_cons_self
  have hsafe := hp.safe document hin
  obtain ⟨disk', hdir⟩ := directories_open (hp.above document hin)
  have htarget : Bundle.target disk document.path = (disk', .ok ()) := by
    unfold Bundle.target
    rw [if_pos hsafe, hdir]
  have haside := aside_target htarget (hp.aside document hin).1
  have hplaced := hp.target hin htarget
  obtain ⟨changed, hexamine⟩ := examine_placed hplaced hin (haside.tracked hs.2.2.1)
  unfold Bundle.proceed Bundle.guarded
  simp only [htarget]
  rw [show ((Except.ok () : Except String Unit) >>= fun _ => b.examine m document disk') = .ok changed from hexamine]
  cases changed with
  | true =>
    refine nearer_await hm ?_ ⟨haside.fresh hf, hl, hplaced⟩
    simp [hst, Stage.rank]
  | false =>
    refine nearer_record ?_ hl hplaced.tail
    simp [hst, Stage.rank]

theorem nearer_proceed (hk : WellKept b disk) (hm : p.current = some m) (hst : job.stage = stage)
    (hs : StageInv b disk p m job stage) (hg : Going b disk p m job stage) :
    Nearer b job (b.proceed job m disk p stage) := by
  have hrank {stage' : Stage} (h : stage'.rank < stage.rank) : stage'.rank < job.stage.rank := hst ▸ h
  cases stage with
  | locking => exact hs.elim
  | loading => exact hs.elim
  | verifying =>
    obtain ⟨hf, hfew, hl, hp⟩ := hg
    have hnodup := hp.nodup
    rw [hs.1] at hnodup
    unfold Bundle.proceed Bundle.guarded
    rw [verifyOwnership_ok.mpr hf]
    dsimp only
    rw [if_neg (by
      rintro (hlong | hdup)
      · omega
      · exact hdup hnodup)]
    exact nearer_next hm hf hl hp
  | owning document =>
    unfold Bundle.proceed Bundle.guarded
    rw [verifyOwnership_ok.mpr hg.1]
    exact nearer_await hm (hrank (by simp [Stage.rank])) hg
  | examining document => exact nearer_examining hm hst hs hg
  | writing document => exact nearer_await hm (hrank (by simp [Stage.rank])) hg
  | replacing document =>
    obtain ⟨_, hl, hp⟩ := hg
    unfold Bundle.proceed
    dsimp only
    split
    · rename_i hdirectory
      rcases hp.place document List.mem_cons_self with hnone | ⟨content, stamp, hn⟩
      · rw [hnone] at hdirectory
        cases hdirectory
      · rw [hn] at hdirectory
        cases hdirectory
    · exact nearer_await hm (hrank (by simp [Stage.rank])) ⟨hl, hp.replaced document.text⟩
  | syncing document => exact nearer_record (hrank (by simp [Stage.rank])) hg.1 hg.2
  | saving =>
    obtain ⟨_, _, hf, hroom⟩ := hs
    have hsize : size m.text ≤ Bundle.MANIFEST_BYTES := of_decide_eq_true (Bool.and_eq_true_iff.mp hroom).2
    unfold Bundle.proceed Bundle.guarded
    rw [verifyOwnership_ok.mpr hf]
    dsimp only
    rw [if_neg (by omega)]
    exact nearer_await hm (hrank (by simp [Stage.rank])) hg
  | storing => exact nearer_await hm (hrank (by simp [Stage.rank])) hg
  | swapping =>
    have hplaced : Placed b (disk.replace manifestPath (.manifest m)) job.rest :=
      hg.2.elsewhere fun parts hn _ => by simp [hn]
    have hswapped : Nearer b job ⟨disk.replace manifestPath (.manifest m), some (p.await job .settling)⟩ :=
      nearer_await hm (hrank (by simp [Stage.rank])) ⟨hg.1, hplaced⟩
    unfold Bundle.proceed
    dsimp only
    rcases hk with hnone | ⟨old, stamp, hold, _⟩
    · rw [hnone]
      exact hswapped
    · rw [hold]
      exact hswapped
  | settling => exact nearer_await hm (hrank (by simp [Stage.rank])) hg
  | rereading =>
    obtain ⟨_, _, hroom, stamp, hn⟩ := hs
    have hread := readManifest_manifest hn hroom
    unfold Bundle.proceed Bundle.guarded
    rw [hread]
    simp only [Content.bytes, if_true]
    exact nearer_next hm ⟨_, hread, rfl⟩ hg.1 hg.2

def Succeeds (b : Bundle) (s : State) (documents : List BundleDocument) : Prop :=
  ∃ n, (((List.replicate n Bundle.Action.proceed).foldl b.step s).process.bind (·.result)) = some (.ok documents)

theorem Succeeds.step (h : Succeeds b (b.step s .proceed) documents) : Succeeds b s documents := by
  obtain ⟨n, h⟩ := h
  exact ⟨n + 1, h⟩

theorem going_succeeds (hi : Inv b ⟨disk, some p⟩) (hj : p.job = some job) (hm : p.current = some m)
    (hg : Going b disk p m job job.stage) : Succeeds b ⟨disk, some p⟩ job.documents := by
  induction hc : job.cost using Nat.strong_induction_on generalizing disk p m job with
  | _ cost ih =>
    have hprocess := hi.process
    simp only [ProcessInv, hm, hj] at hprocess
    have hquiet : b.quiet ⟨disk, some p⟩ .proceed := by
      simpa [Bundle.quiet, Bundle.pending, hj, hm] using going_listable hg
    have hstep : b.step ⟨disk, some p⟩ .proceed = b.proceed job m disk p job.stage := by
      simp [Bundle.step, hj, hm]
    have hinv := inv_step hi hquiet
    have hnear := nearer_proceed hi.manifest hm rfl hprocess.2 hg
    refine Succeeds.step ?_
    rw [hstep] at hinv ⊢
    obtain ⟨p', hp', hdone | ⟨job', m', hj', hm', hdocs, hless, hg'⟩⟩ := hnear
    · exact ⟨0, by rw [List.replicate_zero, List.foldl_nil, hp', Option.bind_some, hdone]⟩
    · generalize b.proceed job m disk p job.stage = s' at hinv hp' hg' ⊢
      obtain ⟨disk', process'⟩ := s'
      obtain rfl : process' = some p' := hp'
      rw [← hdocs]
      exact ih job'.cost (hc ▸ hless) hinv hj' hm' hg' rfl

end WotAv.Publication.Files
