import WotAv.Publication.FilesRecovery

/-!
# What a bundle replaces

Other programs may put files anywhere, but not between the bundle's look at a
file and its rename. A bundle that is interrupted between the renames of a
document and of the manifest takes the document for a foreign one.
-/

namespace WotAv.Publication.Files

open WotAv.Lib

variable {b : Bundle} {disk disk' : Disk} {p : Process} {m : BundleManifest} {job : Job}

namespace Bundle

variable (b : Bundle)

def replacing : Stage → Option Parts
  | .writing document | .replacing document => some (split document.path)
  | .storing | .swapping => some manifestPath
  | _ => none

/-- No other program touches a file that has been looked at. -/
def gentle (s : State) : Action → Prop
  | .foreign parts _ => b.pending s fun _ _ stage => replacing stage ≠ some parts
  | _ => True

def kept (disk : Disk) : BundleManifest := match disk.nodes manifestPath with
  | some (.file (.manifest m) _) => m
  | _ => ⟨b.owner, []⟩

end Bundle

def Owned (b : Bundle) (disk : Disk) (m : BundleManifest) (identity : Option Nat) : Stage → Prop
  | .writing document | .replacing document => disk.nodes (split document.path) = none ∨
    ∃ content stamp, disk.nodes (split document.path) = some (.file content stamp) ∧
      get document.path m.files = some (b.sha256 content.bytes)
  | .storing | .swapping => Fresh disk identity
  | _ => True

def OwnedBy (b : Bundle) (s : State) : Prop := ∀ p job, s.process = some p → p.job = some job →
  Owned b s.disk (p.current.getD ⟨b.owner, []⟩) p.identity job.stage

theorem ownedBy_none : OwnedBy b ⟨disk, none⟩ := fun _ _ hp => nomatch hp

theorem ownedBy_finish : OwnedBy b ⟨disk, some (p.finish result)⟩ := by
  rintro _ _ hp hj
  obtain rfl := Option.some.inj hp
  cases hj

theorem ownedBy_await (h : Owned b disk (p.current.getD ⟨b.owner, []⟩) p.identity stage) :
    OwnedBy b ⟨disk, some (p.await job stage)⟩ := by
  rintro _ _ hp hj
  obtain rfl := Option.some.inj hp
  obtain rfl := Option.some.inj hj
  exact h

theorem ownedBy_next : OwnedBy b ⟨disk, some (Bundle.next job p)⟩ := by
  unfold Bundle.next
  split
  · exact ownedBy_finish
  · exact ownedBy_await trivial

theorem ownedBy_record : OwnedBy b ⟨disk, some (b.record job document m p)⟩ := by
  unfold Bundle.record
  dsimp only
  split
  · exact ownedBy_await trivial
  · exact ownedBy_finish

theorem examine_owned (h : b.examine m document disk = .ok changed) :
    Owned b disk m identity (.writing document) := by
  unfold Bundle.examine at h
  split at h
  · cases h
  · obtain ⟨found, hfound, h⟩ := except_bind_ok h
    dsimp only at h
    by_cases hforeign : found.isSome ∧ get document.path m.files ≠ found
    · rw [if_pos hforeign] at h
      cases h
    · unfold Bundle.existing at hfound
      split at hfound
      · exact .inl (by assumption)
      · rename_i content stamp hn
        split at hfound
        · obtain rfl := Except.ok.inj hfound
          exact .inr ⟨content, stamp, hn, by simpa using hforeign⟩
        · cases hfound
      · cases hfound

theorem ownedBy_proceed (hj : p.job = some job) (h : OwnedBy b ⟨disk, some p⟩) :
    OwnedBy b (b.proceed job (p.current.getD ⟨b.owner, []⟩) disk p job.stage) := by
  have hst := h p job rfl hj
  unfold Bundle.proceed Bundle.guarded
  cases hs : job.stage with
  | locking =>
    dsimp only
    split
    · exact ownedBy_await trivial
    · exact ownedBy_finish
  | loading =>
    dsimp only
    split
    · exact ownedBy_await trivial
    · exact ownedBy_finish
  | verifying =>
    dsimp only
    split
    · split
      · exact ownedBy_finish
      · exact ownedBy_next
    · exact ownedBy_finish
  | owning document =>
    dsimp only
    split
    · exact ownedBy_await trivial
    · exact ownedBy_finish
  | examining document =>
    dsimp only
    split
    · rename_i changed hexamine
      obtain ⟨_, _, hexamine⟩ := except_bind_ok hexamine
      cases changed with
      | true => exact ownedBy_await (examine_owned hexamine)
      | false => exact ownedBy_record
    · exact ownedBy_finish
  | writing document =>
    rw [hs] at hst
    exact ownedBy_await hst
  | replacing document =>
    dsimp only
    split
    · exact ownedBy_finish
    · exact ownedBy_await trivial
  | syncing document => exact ownedBy_record
  | saving =>
    dsimp only
    split
    · rename_i hverify
      split
      · exact ownedBy_finish
      · exact ownedBy_await (verifyOwnership_ok.mp hverify)
    · exact ownedBy_finish
  | storing =>
    rw [hs] at hst
    exact ownedBy_await hst
  | swapping =>
    dsimp only
    split
    · exact ownedBy_finish
    · exact ownedBy_await trivial
  | settling => exact ownedBy_await trivial
  | rereading =>
    dsimp only
    split
    · split
      · split
        · exact ownedBy_next
        · exact ownedBy_finish
      · exact ownedBy_finish
    · exact ownedBy_finish

theorem owned_foreign (h : Owned b disk m identity stage) (hr : Bundle.replacing stage ≠ some parts)
    (hd : ∀ other, other ≠ parts → disk'.nodes other = disk.nodes other) : Owned b disk' m identity stage := by
  have hsame {other : Parts} (ho : Bundle.replacing stage = some other) : disk'.nodes other = disk.nodes other :=
    hd other fun he => hr (he ▸ ho)
  cases stage with
  | writing document =>
    dsimp only [Owned] at h ⊢
    rw [hsame rfl]
    exact h
  | replacing document =>
    dsimp only [Owned] at h ⊢
    rw [hsame rfl]
    exact h
  | storing =>
    dsimp only [Owned, Fresh, Bundle.readManifest] at h ⊢
    rw [hsame rfl]
    exact h
  | swapping =>
    dsimp only [Owned, Fresh, Bundle.readManifest] at h ⊢
    rw [hsame rfl]
    exact h
  | _ => trivial

theorem ownedBy_step (h : OwnedBy b s) (hg : b.gentle s a) : OwnedBy b (b.step s a) := by
  obtain ⟨disk, process⟩ := s
  cases process with
  | none =>
    cases a with
    | start =>
      rintro _ _ hp hj
      obtain rfl := Option.some.inj hp
      cases hj
    | _ => exact ownedBy_none
  | some p =>
    cases a with
    | foreign parts node =>
      rintro _ job hp hj
      obtain rfl := Option.some.inj hp
      simp only [Bundle.gentle, Bundle.pending, Option.all_some, hj, decide_eq_true_eq] at hg
      exact owned_foreign (h p job rfl hj) hg fun other ho => by simp [Bundle.step, Disk.set, ho]
    | start => exact h
    | unlock => exact h
    | write documents =>
      simp only [Bundle.step, Option.map_some]
      unfold Bundle.write
      split
      · exact h
      · dsimp only
        split
        · exact ownedBy_await trivial
        · exact ownedBy_finish
        · exact ownedBy_await trivial
    | proceed =>
      cases hj : p.job with
      | none =>
        simp only [Bundle.step, hj, Option.elim_none]
        exact h
      | some job =>
        simp only [Bundle.step, hj, Option.elim_some]
        exact ownedBy_proceed hj h
    | fail e =>
      cases hj : p.job with
      | none =>
        simp only [Bundle.step, Option.map_some, hj, Option.elim_none]
        exact h
      | some job =>
        simp only [Bundle.step, Option.map_some, hj, Option.elim_some]
        unfold Bundle.failed
        split <;> exact ownedBy_finish
    | close =>
      simp only [Bundle.step]
      split
      · exact h
      · exact ownedBy_none
    | crash => exact ownedBy_none

theorem ownedBy_reachable (h : (b.system.when b.gentle).Reachable s) : OwnedBy b s := by
  refine h.invariant ?_ ?_
  · rintro s rfl
    exact ownedBy_none
  · rintro s a s' ho ⟨hg, rfl⟩
    exact ownedBy_step ho hg

-- Restarts

theorem write_current (hj : p.job = none) (hm : p.current = some m) (documents : List BundleDocument) :
    Bundle.write documents p =
      { p with result := none }.await { documents, rest := documents, stage := .verifying } .verifying := by
  unfold Bundle.write
  rw [if_neg (by rw [hj]; exact Bool.false_ne_true)]
  simp only [hm]

theorem live_succeeds (hi : Inv b ⟨disk, some p⟩) (hj : p.job = none) (hm : p.current = some m)
    (hf : Fresh disk p.identity)
    (hfew : documents.length ≤ 20000) (hl : Listed b m documents) (hp : Placed b disk documents) :
    Succeeds b (b.step ⟨disk, some p⟩ (.write documents)) documents := by
  have hinv := inv_step (a := .write documents) hi trivial
  simp only [Bundle.step, Option.map_some, write_current hj hm] at hinv ⊢
  exact going_succeeds hinv rfl hm ⟨hf, hfew, hl, hp⟩

theorem load_kept (hk : WellKept b disk) : ∃ stored identity, b.load disk = .ok (stored, identity) ∧
    stored.getD ⟨b.owner, []⟩ = b.kept disk ∧ Fresh disk identity := by
  rcases hk with hnone | ⟨m, stamp, hn, hroom⟩
  · have hread : Bundle.readManifest disk = .ok none := by
      unfold Bundle.readManifest
      rw [hnone]
    refine ⟨none, none, ?_, ?_, none, hread, rfl⟩
    · unfold Bundle.load
      rw [hread]
      rfl
    · unfold Bundle.kept
      rw [hnone]
      rfl
  · have hread := readManifest_manifest hn hroom
    refine ⟨some m, some stamp, ?_, ?_, _, hread, rfl⟩
    · unfold Bundle.load
      rw [hread]
      exact if_pos (Bool.and_eq_true_iff.mp hroom).1
    · unfold Bundle.kept
      rw [hn]
      rfl

theorem kept_congr (h : disk'.nodes manifestPath = disk.nodes manifestPath) : b.kept disk' = b.kept disk := by
  unfold Bundle.kept
  rw [h]

theorem started_succeeds (hi : Inv b ⟨disk, some {}⟩) (hlock : disk.nodes lockPath = none)
    (hfew : documents.length ≤ 20000)
    (hl : Listed b (b.kept disk) documents) (hp : Placed b disk documents) :
    Succeeds b (b.step ⟨disk, some {}⟩ (.write documents)) documents := by
  obtain ⟨locked, hlocked⟩ : ∃ locked, locked = disk.replace lockPath (.text "ONVIF publication single-writer lock\n") := ⟨_, rfl⟩
  have hother {parts : Parts} (hn : parts ≠ lockPath) : locked.nodes parts = disk.nodes parts := by simp [hlocked, hn]
  have hmanifest : locked.nodes manifestPath = disk.nodes manifestPath := hother (by decide)
  have h₁ := inv_step (a := .write documents) hi trivial
  have h₂ := inv_step (a := .proceed) h₁ rfl
  have h₃ := inv_step (a := .proceed) h₂ (by
    simp [Bundle.quiet, Bundle.pending, Bundle.step, Bundle.write, Process.await, Bundle.proceed, hlock, Bundle.listable])
  refine .step (.step ?_)
  obtain ⟨stored, identity, hload, hkept, hf⟩ := load_kept h₂.manifest
  have hstep : b.step (b.step (b.step ⟨disk, some {}⟩ (.write documents)) .proceed) .proceed = ⟨locked, some
      { holds := true, opening := some (.ok ()), identity, current := some (stored.getD ⟨b.owner, []⟩)
        job := some { documents, rest := documents, stage := .verifying } }⟩ := by
    simp [Bundle.step, Bundle.write, Process.await, Bundle.proceed, hlock, hlocked] at hload ⊢
    simp [hload]
  have hdisk : (b.step (b.step ⟨disk, some {}⟩ (.write documents)) .proceed).disk = locked := by
    simp [Bundle.step, Bundle.write, Process.await, Bundle.proceed, hlock, hlocked]
  rw [hdisk] at hf hkept
  rw [hstep] at h₃ ⊢
  refine going_succeeds h₃ rfl rfl ⟨hf, hfew, ?_, hp.elsewhere fun parts _ hn => hother hn⟩
  rw [hkept, kept_congr hmanifest]
  exact hl

def State.idle (s : State) : Bool := s.process.all (·.job.isNone)

def restart : List Bundle.Action := [.close, .unlock, .start]

theorem restarted (hidle : s.idle) : ∃ disk, restart.foldl b.step s = ⟨disk, some {}⟩ ∧ disk.nodes lockPath = none ∧
    ∀ parts, parts ≠ lockPath → disk.nodes parts = s.disk.nodes parts := by
  obtain ⟨disk, process⟩ := s
  cases process with
  | none => exact ⟨disk.set lockPath none, rfl, by simp, fun parts hn => by simp [hn]⟩
  | some p =>
    have hj : p.job = none := by simpa [State.idle] using hidle
    refine ⟨(if p.holds then disk.set lockPath none else disk).set lockPath none, ?_, by simp, fun parts hn => ?_⟩
    · simp [restart, Bundle.step, hj]
    · cases p.holds <;> simp [hn]

theorem restart_succeeds (hi : Inv b s) (hidle : s.idle) (hfew : documents.length ≤ 20000)
    (hl : Listed b (b.kept s.disk) documents) (hp : Placed b s.disk documents) :
    Succeeds b ((restart ++ [Bundle.Action.write documents]).foldl b.step s) documents := by
  obtain ⟨disk, hs, hlock, hother⟩ := restarted (b := b) hidle
  have hinv : Inv b ⟨disk, some {}⟩ := by
    rw [← hs]
    have h₁ := inv_step (a := .close) hi trivial
    have h₂ := inv_step (a := .unlock) h₁ trivial
    exact inv_step (a := .start) h₂ trivial
  rw [List.foldl_append, hs]
  refine started_succeeds hinv hlock hfew ?_ (hp.elsewhere fun parts _ hn => hother parts hn)
  rw [kept_congr (hother _ (by decide))]
  exact hl

/-- What the manifest on disk lists is on disk, with the digest it lists. -/
def Consistent (b : Bundle) (disk : Disk) : Prop := ∀ path hash, get path disk.files = some hash →
  ∃ text stamp, disk.nodes (split path) = some (.file (.text text) stamp) ∧ b.sha256 text = hash

theorem idle_consistent (hi : Inv b ⟨disk, some p⟩) (hj : p.job = none) (hr : p.result = some (.ok documents)) :
    Written disk documents ∧ Consistent b disk := by
  have hprocess := hi.process
  unfold ProcessInv at hprocess
  cases hm : p.current with
  | none =>
    simp only [hm] at hprocess
    exact absurd hr (hprocess.result documents)
  | some m =>
    simp only [hm, hj] at hprocess
    obtain ⟨_, hagrees, htracked, hkept⟩ := hprocess
    refine ⟨hkept documents hr, fun path hash hh => ?_⟩
    obtain ⟨text, stamp, hn, hhash, _⟩ := htracked.listed path hash ((hagrees path).trans hh) nofun
    exact ⟨text, stamp, hn, hhash⟩

/-- After a quiet run a successful write has left every document and the
manifest as they are to be, and every batch that has a place can be written,
by a new process or by the one that is up. Whatever other programs do, the bundle
replaces nothing but what its manifest lists. -/
theorem bundle_durable (b : Bundle) :
    (∀ s, (b.system.when b.quiet).Reachable s →
      (∀ p documents, s.process = some p → p.job = none → p.result = some (.ok documents) →
        Written s.disk documents ∧ Consistent b s.disk) ∧
      (s.idle → ∀ documents, documents.length ≤ 20000 → Listed b (b.kept s.disk) documents → Placed b s.disk documents →
        Succeeds b ((restart ++ [Bundle.Action.write documents]).foldl b.step s) documents) ∧
      ∀ p m documents, s.process = some p → p.job = none → p.current = some m → Fresh s.disk p.identity →
        documents.length ≤ 20000 → Listed b m documents → Placed b s.disk documents →
        Succeeds b (b.step s (.write documents)) documents) ∧
    ∀ s, (b.system.when b.gentle).Reachable s → OwnedBy b s := by
  refine ⟨fun s hs => ?_, fun s hs => ownedBy_reachable hs⟩
  obtain ⟨disk, process⟩ := s
  have hi := inv_reachable hs
  refine ⟨?_, fun hidle documents hfew hl hp => restart_succeeds hi hidle hfew hl hp, ?_⟩
  · rintro p documents rfl hj hr
    exact idle_consistent hi hj hr
  · rintro p m documents rfl hj hm hf hfew hl hp
    exact live_succeeds hi hj hm hf hfew hl hp

-- A model document

def modelBundle : Bundle where
  owner := "publisher"
  maxFileBytes := 64 * 1024 * 1024
  sha256 text := if text = "1\n" then "4355a46b19d348dc2f57c046f8ef63d4538ebb936000f3c9ee954a27460dd865"
    else "e3b0c44298fc1c149afbf4c8996fb92427ae41e4649b934ca495991b7852b855"
  hex text := by split <;> decide +kernel

def modelDocument : BundleDocument := ⟨"models/camera", "1\n"⟩

theorem quiet_follows (labels : List Bundle.Action) (h : System.follows b.step b.quiet {} labels) :
    (b.system.when b.quiet).Reachable (labels.foldl b.step {}) := by
  have h₀ : (b.system.when b.quiet).Reachable ({} : State) := .start rfl
  exact System.Reachable.follows labels _ h₀ h

def published : List Bundle.Action := [.start, .write [modelDocument]] ++ List.replicate 13 .proceed

theorem bundle_durable_published :
    ∃ stamp, (published.foldl modelBundle.step {}).disk.nodes (split modelDocument.path) =
      some (.file (.text modelDocument.text) stamp) := by
  have hr := quiet_follows (b := modelBundle) published (by decide +kernel)
  have hdone : (published.foldl modelBundle.step {}).process.any fun p =>
      p.job = none ∧ p.result = some (.ok [modelDocument]) := by decide +kernel
  obtain ⟨p, hp, hend⟩ := (Option.any_eq_true _ _).mp hdone
  obtain ⟨hj, hres⟩ := of_decide_eq_true hend
  exact (((bundle_durable modelBundle).1 _ hr).1 p _ hp hj hres).1 modelDocument List.mem_cons_self |>.2

/-- The document is renamed and its directory cannot be synchronised; the
process is closed and another one started. -/
def interrupted : List Bundle.Action :=
  [.start, .write [modelDocument]] ++ List.replicate 7 .proceed ++ [.fail "EIO", .close, .start, .write [modelDocument]] ++
    List.replicate 5 .proceed

/-- The document is there as it was given, and is refused. -/
theorem bundle_refuses :
    ((interrupted.foldl modelBundle.step {}).disk.nodes (split modelDocument.path)).isSome ∧
      (interrupted.foldl modelBundle.step {}).process.bind (·.result) = some (.error "FileOwnership") := by
  constructor
  · decide +kernel
  · decide +kernel

end WotAv.Publication.Files
