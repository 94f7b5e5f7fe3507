import WotAv.Lib.Throwing
import WotAv.Publication.FilesInvariant

/-!
# Runs of a bundle

A run is quiet when nothing but the bundle touches the directory, and no
operation fails and no crash happens between the rename of a document and that
of the manifest that lists it.
-/

namespace WotAv.Publication.Files

open WotAv.Lib

variable {b : Bundle} {disk disk' : Disk} {p : Process} {m : BundleManifest} {job : Job}

-- Quiet runs

def agree (files files' : List (String × String)) : Bool :=
  (files ++ files').all fun entry => get entry.1 files = get entry.1 files'

theorem agree_iff : agree files files' ↔ ∀ path, get path files = get path files' := by
  simp only [agree, List.all_eq_true, decide_eq_true_eq]
  refine ⟨fun h path => ?_, fun h entry _ => h entry.1⟩
  have hmem {list : List (String × String)} {value : String} (hg : get path list = some value) :
      ∃ entry ∈ list, entry.1 = path := by
    obtain ⟨entry, he, _⟩ := Option.map_eq_some_iff.mp hg
    exact ⟨entry, List.mem_of_find?_eq_some he, by simpa using List.find?_some he⟩
  cases hf : get path files with
  | some value =>
    obtain ⟨entry, hin, rfl⟩ := hmem hf
    rw [← hf]
    exact h entry (List.mem_append_left _ hin)
  | none =>
    cases hf' : get path files' with
    | none => rfl
    | some value =>
      obtain ⟨entry, hin, rfl⟩ := hmem hf'
      rw [← hf, ← hf']
      exact h entry (List.mem_append_right _ hin)

namespace Bundle

variable (b : Bundle)

def room (m : BundleManifest) : Bool := b.validate m && size m.text ≤ MANIFEST_BYTES

def distinct (disk : Disk) (document : BundleDocument) : Bool := match disk.nodes (split document.path) with
  | some (.file content _) => b.sha256 content.bytes ≠ b.sha256 document.text || content.bytes = document.text
  | _ => true

def window (m : BundleManifest) (disk : Disk) : Stage → Bool
  | .syncing _ => true
  | .saving | .storing | .swapping => !agree m.files disk.files
  | _ => false

/-- The manifest that lists the document stays within its bounds, and no
directory of the document is in the manifest's place. -/
def listable (m : BundleManifest) (disk : Disk) : Stage → Bool
  | .examining document => b.room (b.recorded m document) && !(ancestors (split document.path)).contains manifestPath &&
    b.distinct disk document
  | _ => true

def pending (s : State) (check : BundleManifest → Disk → Stage → Bool) : Bool :=
  s.process.all fun p => p.job.all fun job => check (p.current.getD ⟨b.owner, []⟩) s.disk job.stage

def quiet (s : State) : Action → Prop
  | .foreign _ _ => False
  | .fail _ | .crash => b.pending s fun m disk stage => !window m disk stage
  | .proceed => b.pending s b.listable
  | _ => True

instance (s : State) (a : Action) : Decidable (b.quiet s a) := by
  cases a <;> unfold quiet <;> infer_instance

end Bundle

-- The invariant

def WellKept (b : Bundle) (disk : Disk) : Prop :=
  disk.nodes manifestPath = none ∨ ∃ m stamp, disk.nodes manifestPath = some (.file (.manifest m) stamp) ∧ b.room m

def Fresh (disk : Disk) (identity : Option Nat) : Prop :=
  ∃ found, Bundle.readManifest disk = .ok found ∧ found.map (·.2) = identity

def Agrees (m : BundleManifest) (disk : Disk) : Prop := ∀ path, get path m.files = get path disk.files

def Split (disk : Disk) (job : Job) (hand : List BundleDocument) : Prop :=
  (job.documents.map (·.path)).Nodup ∧
    ∃ written, job.documents = written ++ hand ++ job.rest ∧ Written disk written

structure Acceptable (b : Bundle) (m : BundleManifest) (document : BundleDocument) : Prop where
  safe : safeName document.path
  short : size document.text ≤ b.maxFileBytes
  room : b.room (b.recorded m document)

def StageInv (b : Bundle) (disk : Disk) (p : Process) (m : BundleManifest) (job : Job) : Stage → Prop
  | .locking | .loading => False
  | .verifying => job.rest = job.documents ∧ Agrees m disk ∧ Tracked b disk m.files none
  | .owning document => Split disk job [document] ∧ Agrees m disk ∧ Tracked b disk m.files none
  | .examining document =>
    Split disk job [document] ∧ Agrees m disk ∧ Tracked b disk m.files none ∧ Fresh disk p.identity
  | .writing document | .replacing document =>
    Split disk job [document] ∧ Agrees m disk ∧ Tracked b disk m.files none ∧ Fresh disk p.identity ∧ Acceptable b m document
  | .syncing document =>
    Split disk job [document] ∧ Written disk [document] ∧ Agrees m disk ∧ Tracked b disk m.files (some document.path) ∧
      Fresh disk p.identity ∧ Acceptable b m document
  | .saving | .storing | .swapping =>
    Split disk job [] ∧ Tracked b disk m.files none ∧ Fresh disk p.identity ∧ b.room m
  | .settling | .rereading =>
    Split disk job [] ∧ Tracked b disk m.files none ∧ b.room m ∧ ∃ stamp, disk.nodes manifestPath = some (.file (.manifest m) stamp)

structure Idle (b : Bundle) (disk : Disk) (p : Process) (m : BundleManifest) : Prop where
  agrees : Agrees m disk
  tracked : Tracked b disk m.files none
  kept : ∀ documents, p.result = some (.ok documents) → Written disk documents

structure Unopened (b : Bundle) (disk : Disk) (p : Process) : Prop where
  tracked : Tracked b disk disk.files none
  opening : p.opening ≠ some (.ok ())
  stage : ∀ job, p.job = some job → (job.stage = .locking ∨ job.stage = .loading) ∧ job.rest = job.documents
  result : ∀ documents, p.result ≠ some (.ok documents)

def ProcessInv (b : Bundle) (disk : Disk) (p : Process) : Prop := match p.current with
  | none => Unopened b disk p
  | some m => b.validate m ∧ match p.job with
    | none => Idle b disk p m
    | some job => StageInv b disk p m job job.stage

structure Inv (b : Bundle) (s : State) : Prop where
  manifest : WellKept b s.disk
  process : match s.process with
    | none => Tracked b s.disk s.disk.files none
    | some p => ProcessInv b s.disk p

section
variable (hk : WellKept b disk)
include hk

theorem inv_thrown (hm : p.current = some m) (hv : b.validate m) (ha : Agrees m disk)
    (ht : Tracked b disk m.files none) : Inv b ⟨disk, some (p.finish (.error e))⟩ := by
  refine ⟨hk, ?_⟩
  unfold ProcessInv Process.finish
  simp only [hm]
  exact ⟨hv, ha, ht, nofun⟩

theorem inv_await (hm : p.current = some m) (hv : b.validate m)
    (hs : StageInv b disk (p.await job stage) m { job with stage } stage) :
    Inv b ⟨disk, some (p.await job stage)⟩ := by
  refine ⟨hk, ?_⟩
  unfold ProcessInv Process.await
  simp only [hm]
  exact ⟨hv, hs⟩

theorem inv_next (hm : p.current = some m) (hv : b.validate m) (ha : Agrees m disk)
    (ht : Tracked b disk m.files none) (hs : Split disk job []) : Inv b ⟨disk, some (Bundle.next job p)⟩ := by
  obtain ⟨hnodup, written, hdocs, hw⟩ := hs
  unfold Bundle.next
  cases hr : job.rest with
  | nil =>
    rw [hr, List.append_nil, List.append_nil] at hdocs
    refine ⟨hk, ?_⟩
    unfold ProcessInv Process.finish
    simp only [hm]
    refine ⟨hv, ha, ht, ?_⟩
    rintro documents hd
    obtain rfl := Except.ok.inj (Option.some.inj hd)
    exact hdocs ▸ hw
  | cons document rest =>
    rw [hr] at hdocs
    refine inv_await hk hm hv ⟨⟨hnodup, written, ?_, hw⟩, ha, ht⟩
    simpa using hdocs

theorem inv_record (hroom : b.room (b.recorded m document))
    (ht : Tracked b disk (b.recorded m document).files none) (hf : Fresh disk p.identity)
    (hs : Split disk job [document]) (hw : Written disk [document]) :
    Inv b ⟨disk, some (b.record job document m p)⟩ := by
  have hv : b.validate (b.recorded m document) := (Bool.and_eq_true_iff.mp hroom).1
  obtain ⟨hnodup, written, hdocs, hwritten⟩ := hs
  obtain ⟨hsafe, stamp, hn⟩ := hw document List.mem_cons_self
  unfold Bundle.record
  rw [if_pos hv]
  refine inv_await hk rfl hv ⟨⟨hnodup, written ++ [document], ?_, hwritten.append hsafe hn⟩, ht, hf, hroom⟩
  simpa using hdocs

end

-- The disk

/-- A change that leaves the manifest and the files of documents as they were. -/
structure Aside (disk disk' : Disk) : Prop where
  manifest : disk'.nodes manifestPath = disk.nodes manifestPath
  nodes : ∀ parts content stamp, parts ≠ manifestPath → parts ≠ lockPath →
    (disk'.nodes parts = some (.file content stamp) ↔ disk.nodes parts = some (.file content stamp))

namespace Aside

section
variable (h : Aside disk disk')
include h

theorem wellKept (hk : WellKept b disk) : WellKept b disk' := by
  unfold WellKept
  rw [h.manifest]
  exact hk

theorem fresh (hf : Fresh disk identity) : Fresh disk' identity := by
  unfold Fresh Bundle.readManifest at hf ⊢
  rw [h.manifest]
  exact hf

theorem agrees (ha : Agrees m disk) : Agrees m disk' := by
  intro path
  rw [Disk.files_congr h.manifest]
  exact ha path

theorem tracked (ht : Tracked b disk files skip) : Tracked b disk' files skip :=
  ht.moved h.nodes

theorem written (hw : Written disk documents) : Written disk' documents :=
  hw.moved fun parts content stamp hm hl => (h.nodes parts content stamp hm hl).mpr

theorem split (hs : Split disk job hand) : Split disk' job hand := by
  obtain ⟨hnodup, written, hdocs, hw⟩ := hs
  exact ⟨hnodup, written, hdocs, h.written hw⟩

end

end Aside

theorem aside_lock (disk : Disk) (node : Option Node) : Aside disk (disk.set lockPath node) where
  manifest := by rw [Disk.set_nodes, if_neg (by decide)]
  nodes parts content stamp _ hl := by rw [Disk.set_nodes, if_neg hl]

theorem aside_replace_lock (disk : Disk) (content : Content) : Aside disk (disk.replace lockPath content) where
  manifest := by rw [Disk.replace_nodes, if_neg (by decide)]
  nodes parts content stamp _ hl := by rw [Disk.replace_nodes, if_neg hl]

theorem aside_target (h : Bundle.target disk path = (disk', made))
    (hm : manifestPath ∉ ancestors (Files.split path)) :
    Aside disk disk' where
  manifest := target_kept h hm
  nodes _ _ _ _ _ := target_file h

theorem replace_manifest (disk : Disk) (h : Files.split path ≠ manifestPath) (content : Content) :
    (disk.replace (Files.split path) content).nodes manifestPath = disk.nodes manifestPath := by
  rw [Disk.replace_nodes, if_neg h.symm]

-- The operations of a call

theorem verifyOwnership_ok : Bundle.verifyOwnership p disk = .ok () ↔ Fresh disk p.identity := by
  unfold Bundle.verifyOwnership Fresh
  cases Bundle.readManifest disk with
  | error e => exact ⟨nofun, fun ⟨_, h, _⟩ => nomatch h⟩
  | ok found =>
    change (if found.map (·.2) ≠ p.identity then (.error "FileOwnership" : Except String Unit) else .ok ()) = _ ↔ _
    by_cases hi : found.map (·.2) = p.identity
    · simp [hi]
    · simp [hi]

theorem readManifest_manifest (hn : disk.nodes manifestPath = some (.file (.manifest m) stamp)) (hr : b.room m) :
    Bundle.readManifest disk = .ok (some (.manifest m, stamp)) := by
  have hsize : size m.text ≤ Bundle.MANIFEST_BYTES := of_decide_eq_true (Bool.and_eq_true_iff.mp hr).2
  unfold Bundle.readManifest
  rw [hn]
  exact if_pos hsize

theorem examine_ok (h : b.examine m document disk = .ok changed) :
    size document.text ≤ b.maxFileBytes ∧
    (changed = false → get document.path m.files = some (b.sha256 document.text) ∧
      ∃ content stamp, disk.nodes (split document.path) = some (.file content stamp) ∧
        b.sha256 content.bytes = b.sha256 document.text) := by
  unfold Bundle.examine at h
  by_cases hlong : b.maxFileBytes < size document.text
  · rw [if_pos hlong] at h
    cases h
  · rw [if_neg hlong] at h
    obtain ⟨found, hfound, h⟩ := except_bind_ok h
    dsimp only at h
    by_cases hforeign : found.isSome ∧ get document.path m.files ≠ found
    · rw [if_pos hforeign] at h
      cases h
    · rw [if_neg hforeign] at h
      obtain rfl := Except.ok.inj h
      refine ⟨by omega, fun hsame => ?_⟩
      obtain rfl : found = some (b.sha256 document.text) := by simpa using hsame
      refine ⟨by simpa using hforeign, ?_⟩
      unfold Bundle.existing at hfound
      split at hfound
      · cases hfound
      · rename_i content stamp hn
        split at hfound
        · exact ⟨content, stamp, hn, Option.some.inj (Except.ok.inj hfound)⟩
        · cases hfound
      · cases hfound

section
variable (hk : WellKept b disk)
include hk

theorem inv_verifying (hm : p.current = some m) (hv : b.validate m)
    (hs : StageInv b disk p m job .verifying) : Inv b (b.proceed job m disk p .verifying) := by
  obtain ⟨hrest, ha, ht⟩ := hs
  unfold Bundle.proceed Bundle.guarded
  cases Bundle.verifyOwnership p disk with
  | error e => exact inv_thrown hk hm hv ha ht
  | ok _ =>
    dsimp only
    split
    · exact inv_thrown hk hm hv ha ht
    · rename_i hfew
      refine inv_next hk hm hv ha ht ⟨not_not.mp (not_or.mp hfew).2, [], ?_, nofun⟩
      simp [hrest]

theorem inv_owning (hm : p.current = some m) (hv : b.validate m)
    (hs : StageInv b disk p m job (.owning document)) : Inv b (b.proceed job m disk p (.owning document)) := by
  obtain ⟨hsplit, ha, ht⟩ := hs
  unfold Bundle.proceed Bundle.guarded
  cases hverify : Bundle.verifyOwnership p disk with
  | error e => exact inv_thrown hk hm hv ha ht
  | ok _ => exact inv_await hk hm hv ⟨hsplit, ha, ht, verifyOwnership_ok.mp hverify⟩

theorem inv_examining (hm : p.current = some m) (hv : b.validate m)
    (hs : StageInv b disk p m job (.examining document)) (hl : b.listable m disk (.examining document)) :
    Inv b (b.proceed job m disk p (.examining document)) := by
  obtain ⟨hsplit, ha, ht, hf⟩ := hs
  simp only [Bundle.listable, Bool.and_eq_true, Bool.not_eq_true', List.contains_eq_mem, decide_eq_false_iff_not] at hl
  obtain ⟨⟨hroom, habove⟩, hdistinct⟩ := hl
  obtain ⟨disk', made, htarget⟩ : ∃ disk' made, Bundle.target disk document.path = (disk', made) := ⟨_, _, rfl⟩
  have haside := aside_target htarget habove
  unfold Bundle.proceed Bundle.guarded
  simp only [htarget]
  cases hexamine : (made >>= fun _ => b.examine m document disk') with
  | error e => exact inv_thrown (haside.wellKept hk) hm hv (haside.agrees ha) (haside.tracked ht)
  | ok changed =>
    obtain ⟨u, rfl, hexamine⟩ := except_bind_ok hexamine
    have hsafe := target_safe htarget
    obtain ⟨hshort, hsame⟩ := examine_ok hexamine
    cases changed with
    | true =>
      exact inv_await (haside.wellKept hk) hm hv ⟨haside.split hsplit, haside.agrees ha, haside.tracked ht, haside.fresh hf,
        hsafe, hshort, hroom⟩
    | false =>
      -- The file is what it is to be: it is listed already, with its digest.
      obtain ⟨hlisted, content, stamp, hn, hhash⟩ := hsame rfl
      have hold := (target_file htarget).mp hn
      obtain ⟨_, text, _, rfl, _⟩ := ht.owned _ _ _ (safeName_manifest hsafe) (safeName_lock hsafe) hold
      have htext : text = document.text := by
        unfold Bundle.distinct at hdistinct
        rw [hold] at hdistinct
        rcases Bool.or_eq_true_iff.mp hdistinct with hne | heq
        · exact absurd hhash (of_decide_eq_true hne)
        · exact of_decide_eq_true heq
      subst htext
      have hget (path : String) : get path (b.recorded m document).files = get path m.files := by
        by_cases hp : path = document.path
        · subst hp
          rw [Bundle.recorded, get_set_self, hlisted]
        · exact get_set_other hp _ _
      refine inv_record (haside.wellKept hk) hroom ((haside.tracked ht).congr hget) (haside.fresh hf)
        (haside.split hsplit) ?_
      intro other hin
      obtain rfl := List.mem_singleton.mp hin
      exact ⟨hsafe, stamp, hn⟩

theorem inv_replacing (hm : p.current = some m) (hv : b.validate m)
    (hs : StageInv b disk p m job (.replacing document)) :
    Inv b (b.proceed job m disk p (.replacing document)) := by
  obtain ⟨hsplit, ha, ht, hf, hacceptable⟩ := hs
  have hmanifest := replace_manifest disk (safeName_manifest hacceptable.safe) (.text document.text)
  have hreplaced : Inv b ⟨disk.replace (split document.path) (.text document.text),
      some (p.await job (.syncing document))⟩ := by
    refine inv_await ?_ hm hv ⟨?_, ?_, ?_, ht.replaced document.path document.text, ?_, hacceptable⟩
    · unfold WellKept
      rw [hmanifest]
      exact hk
    · obtain ⟨hnodup, written, hdocs, hw⟩ := hsplit
      refine ⟨hnodup, written, hdocs, hw.replaced ?_ document.text⟩
      rw [hdocs] at hnodup
      simp only [List.map_append, List.append_assoc, List.nodup_append', List.map_cons, List.map_nil] at hnodup
      exact fun hin => hnodup.2.2 hin (List.mem_append_left _ List.mem_cons_self)
    · intro other hin
      obtain rfl := List.mem_singleton.mp hin
      exact ⟨hacceptable.safe, disk.stamp, by simp⟩
    · intro path
      rw [Disk.files_congr hmanifest]
      exact ha path
    · unfold Fresh Bundle.readManifest
      rw [hmanifest]
      exact hf
  unfold Bundle.proceed
  dsimp only
  split
  · exact inv_thrown hk hm hv ha ht
  · exact hreplaced

theorem inv_syncing (hs : StageInv b disk p m job (.syncing document)) :
    Inv b (b.proceed job m disk p (.syncing document)) := by
  obtain ⟨hsplit, hw, _, ht, hf, hacceptable⟩ := hs
  obtain ⟨hsafe, stamp, hn⟩ := hw document List.mem_cons_self
  exact inv_record hk hacceptable.room (ht.recorded hsafe hacceptable.short hn) hf hsplit hw

theorem inv_saving (hm : p.current = some m) (hv : b.validate m)
    (hs : StageInv b disk p m job .saving) : Inv b (b.proceed job m disk p .saving) := by
  obtain ⟨hsplit, ht, hf, hroom⟩ := hs
  have hsize : size m.text ≤ Bundle.MANIFEST_BYTES := of_decide_eq_true (Bool.and_eq_true_iff.mp hroom).2
  unfold Bundle.proceed Bundle.guarded
  rw [verifyOwnership_ok.mpr hf]
  dsimp only
  rw [if_neg (by omega)]
  exact inv_await hk hm hv ⟨hsplit, ht, hf, hroom⟩

theorem inv_swapping (hm : p.current = some m) (hv : b.validate m)
    (hs : StageInv b disk p m job .swapping) : Inv b (b.proceed job m disk p .swapping) := by
  obtain ⟨⟨hnodup, written, hdocs, hw⟩, ht, _, hroom⟩ := hs
  have hnode : (disk.replace manifestPath (.manifest m)).nodes manifestPath = some (.file (.manifest m) disk.stamp) := by simp
  have hother {parts : Parts} (hp : parts ≠ manifestPath) :
      (disk.replace manifestPath (.manifest m)).nodes parts = disk.nodes parts := by simp [hp]
  have hswapped : Inv b ⟨disk.replace manifestPath (.manifest m), some (p.await job .settling)⟩ := by
    refine inv_await (.inr ⟨m, disk.stamp, hnode, hroom⟩) hm hv ⟨⟨hnodup, written, hdocs, ?_⟩, ?_, hroom, disk.stamp, hnode⟩
    · exact hw.moved fun parts content stamp hp _ hn => by rw [hother hp, hn]
    · exact ht.moved fun parts content stamp hp _ => by rw [hother hp]
  unfold Bundle.proceed
  dsimp only
  rcases hk with hnone | ⟨old, stamp, hold, _⟩
  · rw [hnone]
    exact hswapped
  · rw [hold]
    exact hswapped

theorem inv_rereading (hm : p.current = some m) (hv : b.validate m)
    (hs : StageInv b disk p m job .rereading) : Inv b (b.proceed job m disk p .rereading) := by
  obtain ⟨hsplit, ht, hroom, stamp, hn⟩ := hs
  have hfiles := Disk.files_eq hn
  unfold Bundle.proceed Bundle.guarded
  rw [readManifest_manifest hn hroom]
  simp only [Content.bytes, if_true]
  exact inv_next hk hm hv (fun path => by rw [hfiles]) ht hsplit

theorem inv_proceed (hm : p.current = some m) (hv : b.validate m)
    (hs : StageInv b disk p m job stage) (hl : b.listable m disk stage) : Inv b (b.proceed job m disk p stage) := by
  cases stage with
  | locking => exact hs.elim
  | loading => exact hs.elim
  | verifying => exact inv_verifying hk hm hv hs
  | owning document => exact inv_owning hk hm hv hs
  | examining document => exact inv_examining hk hm hv hs hl
  | writing document => exact inv_await hk hm hv hs
  | replacing document => exact inv_replacing hk hm hv hs
  | syncing document => exact inv_syncing hk hs
  | saving => exact inv_saving hk hm hv hs
  | storing => exact inv_await hk hm hv hs
  | swapping => exact inv_swapping hk hm hv hs
  | settling => exact inv_await hk hm hv hs
  | rereading => exact inv_rereading hk hm hv hs

end

-- Steps

section
variable (hk : WellKept b disk)
include hk

theorem load_ok (h : b.load disk = .ok (stored, identity)) :
    (stored.getD ⟨b.owner, []⟩).files = disk.files ∧ b.validate (stored.getD ⟨b.owner, []⟩) := by
  unfold Bundle.load at h
  rcases hk with hnone | ⟨m, stamp, hn, hroom⟩
  · have hread : Bundle.readManifest disk = .ok none := by
      unfold Bundle.readManifest
      rw [hnone]
    rw [hread] at h
    obtain ⟨rfl, _⟩ := Prod.mk.inj (Except.ok.inj h)
    unfold Disk.files
    rw [hnone]
    simp [Bundle.validate]
  · rw [readManifest_manifest hn hroom] at h
    change (if b.validate m then _ else _) = _ at h
    rw [if_pos (Bool.and_eq_true_iff.mp hroom).1] at h
    obtain ⟨rfl, _⟩ := Prod.mk.inj (Except.ok.inj h)
    exact ⟨(Disk.files_eq hn).symm, (Bool.and_eq_true_iff.mp hroom).1⟩

theorem inv_unopened (hp : p.current = none) (ht : Tracked b disk disk.files none)
    (e : String) : Inv b ⟨disk, some ({ p with opening := some (.error e) }.finish (.error e))⟩ := by
  refine ⟨hk, ?_⟩
  unfold ProcessInv Process.finish
  simp only [hp]
  exact ⟨ht, nofun, nofun, nofun⟩

theorem inv_locking (hp : p.current = none) (h : Unopened b disk p) (hj : p.job = some job) :
    Inv b (b.proceed job m disk p .locking) := by
  unfold Bundle.proceed
  dsimp only
  split
  · have haside := aside_replace_lock disk (.text "ONVIF publication single-writer lock\n")
    refine ⟨haside.wellKept hk, ?_⟩
    unfold ProcessInv Process.await
    simp only [hp]
    refine ⟨?_, h.opening, ?_, h.result⟩
    · rw [Disk.files_congr haside.manifest]
      exact haside.tracked h.tracked
    · rintro job' hj'
      obtain rfl := Option.some.inj hj'
      exact ⟨.inr rfl, (h.stage job hj).2⟩
  · exact inv_unopened hk hp h.tracked _

theorem inv_loading (hp : p.current = none) (h : Unopened b disk p) (hj : p.job = some job) :
    Inv b (b.proceed job m disk p .loading) := by
  unfold Bundle.proceed
  dsimp only
  cases hload : b.load disk with
  | error e => exact inv_unopened hk hp h.tracked e
  | ok loaded =>
    obtain ⟨stored, identity⟩ := loaded
    obtain ⟨hfiles, hv⟩ := load_ok hk hload
    refine inv_await hk rfl hv ⟨(h.stage job hj).2, fun path => by rw [hfiles], ?_⟩
    rw [hfiles]
    exact h.tracked

end

theorem inv_write (h : ProcessInv b disk p) (documents : List BundleDocument) :
    ProcessInv b disk (Bundle.write documents p) := by
  unfold Bundle.write
  split
  · exact h
  · rename_i hjob
    unfold ProcessInv at h ⊢
    cases hp : p.current with
    | none =>
      simp only [hp] at h ⊢
      obtain ⟨ht, hopening, _, _⟩ := h
      cases ho : p.opening with
      | none =>
        refine ⟨ht, by simp [Process.await], ?_, nofun⟩
        rintro job hj
        obtain rfl := Option.some.inj hj
        exact ⟨.inl rfl, rfl⟩
      | some opened =>
        cases opened with
        | ok u => exact absurd ho hopening
        | error e => exact ⟨ht, by simp [Process.finish], nofun, nofun⟩
    | some m =>
      simp only [hp, Option.not_isSome_iff_eq_none.mp hjob] at h ⊢
      obtain ⟨hv, ha, ht, _⟩ := h
      exact ⟨hv, rfl, ha, ht⟩

theorem tracked_outside (hs : StageInv b disk p m job stage) (hw : ¬Bundle.window m disk stage) :
    Agrees m disk ∧ Tracked b disk m.files none := by
  have hagree (h : ¬(!agree m.files disk.files)) : Agrees m disk := agree_iff.mp (by simpa using h)
  cases stage with
  | locking => exact hs.elim
  | loading => exact hs.elim
  | verifying => exact ⟨hs.2.1, hs.2.2⟩
  | owning document => exact ⟨hs.2.1, hs.2.2⟩
  | examining document => exact ⟨hs.2.1, hs.2.2.1⟩
  | writing document => exact ⟨hs.2.1, hs.2.2.1⟩
  | replacing document => exact ⟨hs.2.1, hs.2.2.1⟩
  | syncing document => exact absurd rfl hw
  | saving => exact ⟨hagree hw, hs.2.1⟩
  | storing => exact ⟨hagree hw, hs.2.1⟩
  | swapping => exact ⟨hagree hw, hs.2.1⟩
  | settling =>
    obtain ⟨_, ht, _, stamp, hn⟩ := hs
    exact ⟨fun path => by rw [Disk.files_eq hn], ht⟩
  | rereading =>
    obtain ⟨_, ht, _, stamp, hn⟩ := hs
    exact ⟨fun path => by rw [Disk.files_eq hn], ht⟩

theorem tracked_gone (h : ProcessInv b disk p)
    (hw : p.job.all fun job => !Bundle.window (p.current.getD ⟨b.owner, []⟩) disk job.stage) :
    Tracked b disk disk.files none := by
  unfold ProcessInv at h
  cases hp : p.current with
  | none =>
    simp only [hp] at h
    exact h.tracked
  | some m =>
    simp only [hp, Option.getD_some] at h hw
    obtain ⟨_, h⟩ := h
    cases hj : p.job with
    | none =>
      simp only [hj] at h
      exact h.tracked.congr fun path => (h.agrees path).symm
    | some job =>
      simp only [hj, Option.all_some, Bool.not_eq_true'] at h hw
      obtain ⟨ha, ht⟩ := tracked_outside h (by rw [hw]; exact Bool.false_ne_true)
      exact ht.congr fun path => (ha path).symm

theorem inv_failed (hk : WellKept b disk) (h : ProcessInv b disk p) (hj : p.job = some job)
    (hw : !Bundle.window (p.current.getD ⟨b.owner, []⟩) disk job.stage) (e : String) :
    Inv b ⟨disk, some (Bundle.failed e job p)⟩ := by
  unfold ProcessInv at h
  cases hp : p.current with
  | none =>
    simp only [hp] at h
    obtain ⟨hstage, _⟩ := h.stage job hj
    unfold Bundle.failed
    rcases hstage with hl | hl
    · rw [hl]
      exact inv_unopened hk hp h.tracked e
    · rw [hl]
      exact inv_unopened hk hp h.tracked e
  | some m =>
    simp only [hp, hj, Option.getD_some] at h hw
    obtain ⟨hv, h⟩ := h
    obtain ⟨ha, ht⟩ := tracked_outside h (by simpa using hw)
    unfold Bundle.failed
    split
    · rename_i hl
      rw [hl] at h
      exact h.elim
    · rename_i hl
      rw [hl] at h
      exact h.elim
    · exact inv_thrown hk hp hv ha ht

theorem inv_step (h : Inv b s) (hq : b.quiet s a) : Inv b (b.step s a) := by
  obtain ⟨disk, process⟩ := s
  obtain ⟨hk, hprocess⟩ := h
  cases a with
  | foreign parts node => exact hq.elim
  | start =>
    cases process with
    | none => exact ⟨hk, hprocess, nofun, nofun, nofun⟩
    | some p => exact ⟨hk, hprocess⟩
  | unlock =>
    cases process with
    | none =>
      have haside := aside_lock disk none
      refine ⟨haside.wellKept hk, ?_⟩
      change Tracked b (disk.set lockPath none) (disk.set lockPath none).files none
      rw [Disk.files_congr haside.manifest]
      exact haside.tracked hprocess
    | some p => exact ⟨hk, hprocess⟩
  | write documents =>
    cases process with
    | none => exact ⟨hk, hprocess⟩
    | some p => exact ⟨hk, inv_write hprocess documents⟩
  | proceed =>
    cases process with
    | none => exact ⟨hk, hprocess⟩
    | some p =>
      cases hj : p.job with
      | none =>
        simp only [Bundle.step, hj, Option.elim_none]
        exact ⟨hk, hprocess⟩
      | some job =>
        simp only [Bundle.step, hj, Option.elim_some]
        simp only [Bundle.quiet, Bundle.pending, Option.all_some, hj] at hq
        change ProcessInv b disk p at hprocess
        unfold ProcessInv at hprocess
        cases hp : p.current with
        | none =>
          simp only [hp] at hprocess
          rcases (hprocess.stage job hj).1 with hl | hl
          · rw [hl]
            exact inv_locking hk hp hprocess hj
          · rw [hl]
            exact inv_loading hk hp hprocess hj
        | some m =>
          simp only [hp, hj, Option.getD_some] at hprocess hq ⊢
          exact inv_proceed hk hp hprocess.1 hprocess.2 hq
  | fail e =>
    cases process with
    | none => exact ⟨hk, hprocess⟩
    | some p =>
      cases hj : p.job with
      | none =>
        simp only [Bundle.step, Option.map_some, hj, Option.elim_none]
        exact ⟨hk, hprocess⟩
      | some job =>
        simp only [Bundle.quiet, Bundle.pending, Option.all_some, hj] at hq
        simp only [Bundle.step, Option.map_some, hj, Option.elim_some]
        exact inv_failed hk hprocess hj hq e
  | close =>
    cases process with
    | none => exact ⟨hk, hprocess⟩
    | some p =>
      simp only [Bundle.step]
      split
      · exact ⟨hk, hprocess⟩
      · rename_i hj
        have ht := tracked_gone hprocess (by rw [Option.not_isSome_iff_eq_none.mp hj]; rfl)
        split
        · have haside := aside_lock disk none
          refine ⟨haside.wellKept hk, ?_⟩
          change Tracked b (disk.set lockPath none) (disk.set lockPath none).files none
          rw [Disk.files_congr haside.manifest]
          exact haside.tracked ht
        · exact ⟨hk, ht⟩
  | crash =>
    cases process with
    | none => exact ⟨hk, hprocess⟩
    | some p =>
      simp only [Bundle.quiet, Bundle.pending, Option.all_some] at hq
      exact ⟨hk, tracked_gone hprocess hq⟩

theorem inv_reachable (h : (b.system.when b.quiet).Reachable s) : Inv b s := by
  refine h.invariant ?_ ?_
  · rintro s rfl
    have ht : Tracked b {} [] none :=
      ⟨fun _ h => by simp [get] at h, fun _ _ h => by simp [get] at h, fun _ _ _ _ _ h => nomatch h⟩
    exact ⟨.inl rfl, ht⟩
  · rintro s a s' hi ⟨hq, rfl⟩
    exact inv_step hi hq

end WotAv.Publication.Files
