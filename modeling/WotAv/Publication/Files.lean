import Mathlib.Data.List.Basic
import WotAv.Lib.Transition
import WotAv.Lib.Utf8
import WotAv.Publication.Documents

/-!
# Document bundles (`src/publication/files.ts`)

A process of `OwnedDocumentBundle` and the directory it writes to are one
state. A call of `write` is cut at its operations on files: `proceed` lets the
pending one succeed, `fail` lets it throw, and a crash loses the process and
leaves the lock behind. A document is its path and the text that
`JSON.stringify` makes of its value. A temporary file has a random name, so it
is seen by nobody before it is renamed.
-/

namespace WotAv.Publication.Files

open WotAv.Lib

-- Names

abbrev Parts := List (List Char)

def split (path : String) : Parts := path.toList.splitOn '/'

def MANIFEST : String := "onvif-bundle-manifest.json"

def manifestPath : Parts := [MANIFEST.toList]

def lockPath : Parts := [MANIFEST.toList ++ ".lock".toList]

def safePart : List Char → Bool
  | [] => false
  | first :: rest => first.isAlphanum && rest.all fun ch => ch.isAlphanum || ch = '.' || ch = '_' || ch = '-'

def safeName (path : String) : Bool :=
  path.length ≤ 512 && (split path).all safePart && path ≠ MANIFEST && !".lock".toList.isSuffixOf path.toList

/-- The directories that `target` goes through. -/
def ancestors (parts : Parts) : List Parts := (List.range' 1 (parts.length - 1)).map parts.take

-- The directory

def size (text : String) : Nat := (utf8 text).length

structure BundleManifest where
  owner : String
  files : List (String × String)
  deriving DecidableEq, Repr

def BundleManifest.text (m : BundleManifest) : String :=
  "\x7b\n    \"schemaVersion\": 1,\n    \"owner\": \"" ++ m.owner ++ "\",\n    \"files\": " ++
    (if m.files = [] then "\x7b\x7d" else
      "\x7b\n" ++ ",\n".intercalate (m.files.map fun entry => "        \"" ++ entry.1 ++ "\": \"" ++ entry.2 ++ "\"") ++
        "\n    \x7d") ++ "\n\x7d\n"

/-- The text of a file, and what `JSON.parse` makes of it where that has the
shape of a manifest. -/
inductive Content
  | manifest (value : BundleManifest)
  | text (value : String)
  deriving DecidableEq, Repr

def Content.bytes : Content → String
  | .manifest value => value.text
  | .text value => value

/-- What `lstat` finds. A stamp stands for device, inode and times; `other` is
a link or a file with a second link. -/
inductive Node
  | directory
  | file (content : Content) (stamp : Nat)
  | other
  deriving DecidableEq, Repr

structure Disk where
  nodes : Parts → Option Node := fun _ => none
  stamp : Nat := 0

namespace Disk

def set (disk : Disk) (parts : Parts) (node : Option Node) : Disk :=
  { disk with nodes := fun other => if other = parts then node else disk.nodes other }

def replace (disk : Disk) (parts : Parts) (content : Content) : Disk :=
  { disk.set parts (some (.file content disk.stamp)) with stamp := disk.stamp + 1 }

def files (disk : Disk) : List (String × String) := match disk.nodes manifestPath with
  | some (.file (.manifest m) _) => m.files
  | _ => []

end Disk

-- The process

structure BundleDocument where
  path : String
  text : String
  deriving DecidableEq, Repr

def isHash (hash : String) : Bool :=
  hash.toList.length = 64 && hash.toList.all fun ch => ch.isDigit || ('a' ≤ ch && ch ≤ 'f')

structure Bundle where
  owner : String
  maxFileBytes : Nat
  sha256 : String → String
  hex : ∀ text, isHash (sha256 text)

inductive Stage
  | locking
  | loading
  | verifying
  | owning (document : BundleDocument)
  | examining (document : BundleDocument)
  | writing (document : BundleDocument)
  | replacing (document : BundleDocument)
  | syncing (document : BundleDocument)
  | saving
  | storing
  | swapping
  | settling
  | rereading
  deriving DecidableEq, Repr

structure Job where
  documents : List BundleDocument
  rest : List BundleDocument
  stage : Stage
  deriving DecidableEq, Repr

/-- A process; `result` is that of its last call. -/
structure Process where
  opening : Option (Except String Unit) := none
  holds : Bool := false
  identity : Option Nat := none
  current : Option BundleManifest := none
  job : Option Job := none
  result : Option (Except String (List BundleDocument)) := none

structure State where
  disk : Disk := {}
  process : Option Process := none

def Process.finish (p : Process) (result : Except String (List BundleDocument)) : Process :=
  { p with job := none, result := some result }

def Process.await (p : Process) (job : Job) (stage : Stage) : Process := { p with job := some { job with stage } }

variable (b : Bundle)

namespace Bundle

def validate (m : BundleManifest) : Bool :=
  m.owner = b.owner && m.files.length ≤ 20000 && m.files.all fun entry => safeName entry.1 && isHash entry.2

def MANIFEST_BYTES : Nat := 4 * 1024 * 1024

/-- `readBoundedFile` of the manifest. -/
def readManifest (disk : Disk) : Except String (Option (Content × Nat)) := match disk.nodes manifestPath with
  | none => .ok none
  | some (.file content stamp) => if size content.bytes ≤ MANIFEST_BYTES then .ok (some (content, stamp)) else .error "FileOwnership"
  | some _ => .error "FileOwnership"

/-- What `initialize` reads: the manifest and its identity. -/
def load (disk : Disk) : Except String (Option BundleManifest × Option Nat) := do
  match ← readManifest disk with
  | none => return (none, none)
  | some (.manifest m, stamp) => if b.validate m then return (some m, some stamp) else throw "FileOwnership"
  | some (.text _, _) => throw "FileOwnership"

def verifyOwnership (p : Process) (disk : Disk) : Except String Unit := do
  let current ← readManifest disk
  if current.map (·.2) ≠ p.identity then throw "FileOwnership"

/-- The loop of `target`; a directory that is missing is made. -/
def directories (disk : Disk) : List Parts → Disk × Except String Unit
  | [] => (disk, .ok ())
  | parts :: rest => match disk.nodes parts with
    | none => directories (disk.set parts (some .directory)) rest
    | some .directory => directories disk rest
    | some _ => (disk, .error "FileOwnership")

def target (disk : Disk) (path : String) : Disk × Except String Unit :=
  if safeName path then directories disk (ancestors (split path)) else (disk, .error "FileOwnership")

def existing (disk : Disk) (path : String) : Except String (Option String) := match disk.nodes (split path) with
  | none => .ok none
  | some (.file content _) =>
    if size content.bytes ≤ b.maxFileBytes then .ok (some (b.sha256 content.bytes)) else .error "FileOwnership"
  | some _ => .error "FileOwnership"

/-- Whether the document is to be written, after `target`. -/
def examine (m : BundleManifest) (document : BundleDocument) (disk : Disk) : Except String Bool := do
  if b.maxFileBytes < size document.text then throw "PublicationLimit"
  let existing ← b.existing disk document.path
  if existing.isSome ∧ get document.path m.files ≠ existing then throw "FileOwnership"
  return existing ≠ some (b.sha256 document.text)

def recorded (m : BundleManifest) (document : BundleDocument) : BundleManifest :=
  { m with files := set document.path (b.sha256 document.text) m.files }

def next (job : Job) (p : Process) : Process := match job.rest with
  | [] => p.finish (.ok job.documents)
  | document :: rest => p.await { job with rest } (.owning document)

/-- The document is recorded and `manifest.save` called. -/
def record (job : Job) (document : BundleDocument) (m : BundleManifest) (p : Process) : Process :=
  let p := { p with current := some (b.recorded m document) }
  if b.validate (b.recorded m document) then p.await job .saving else p.finish (.error "FileOwnership")

def write (documents : List BundleDocument) (p : Process) : Process :=
  if p.job.isSome then p else
    let p := { p with result := none }
    let job : Job := { documents, rest := documents, stage := .verifying }
    match p.current, p.opening with
    | none, none => p.await job .locking
    | none, some (.error e) => p.finish (.error e)
    | _, _ => p.await job .verifying

/-- `check` throws or the call goes on. -/
def guarded (check : Except String α) (disk : Disk) (p : Process) (k : α → State) : State := match check with
  | .ok a => k a
  | .error e => ⟨disk, some (p.finish (.error e))⟩

/-- The pending operation succeeds, and the process runs to its next one. -/
def proceed (job : Job) (m : BundleManifest) (disk : Disk) (p : Process) : Stage → State
  | .locking => match disk.nodes lockPath with
    | none => ⟨disk.replace lockPath (.text "ONVIF publication single-writer lock\n"),
        some ({ p with holds := true }.await job .loading)⟩
    | some _ => ⟨disk, some ({ p with opening := some (.error "EEXIST") }.finish (.error "EEXIST"))⟩
  | .loading => match b.load disk with
    | .ok (stored, identity) =>
      ⟨disk, some ({ p with opening := some (.ok ()), identity, current := some (stored.getD ⟨b.owner, []⟩) }.await job
        .verifying)⟩
    | .error e => ⟨disk, some ({ p with opening := some (.error e) }.finish (.error e))⟩
  | .verifying => guarded (verifyOwnership p disk) disk p fun _ =>
    if job.documents.length > 20000 ∨ ¬(job.documents.map (·.path)).Nodup then
      ⟨disk, some (p.finish (.error "PublicationLimit"))⟩
    else ⟨disk, some (next job p)⟩
  | .owning document => guarded (verifyOwnership p disk) disk p fun _ => ⟨disk, some (p.await job (.examining document))⟩
  | .examining document =>
    let (disk, made) := target disk document.path
    guarded (made >>= fun _ => b.examine m document disk) disk p fun changed =>
      ⟨disk, some (if changed then p.await job (.writing document) else b.record job document m p)⟩
  | .writing document => ⟨disk, some (p.await job (.replacing document))⟩
  | .replacing document => match disk.nodes (split document.path) with
    | some .directory => ⟨disk, some (p.finish (.error "EISDIR"))⟩
    | _ => ⟨disk.replace (split document.path) (.text document.text), some (p.await job (.syncing document))⟩
  | .syncing document => ⟨disk, some (b.record job document m p)⟩
  | .saving => guarded (verifyOwnership p disk) disk p fun _ =>
    if size m.text > MANIFEST_BYTES then ⟨disk, some (p.finish (.error "PublicationLimit"))⟩
    else ⟨disk, some (p.await job .storing)⟩
  | .storing => ⟨disk, some (p.await job .swapping)⟩
  | .swapping => match disk.nodes manifestPath with
    | some .directory => ⟨disk, some (p.finish (.error "EISDIR"))⟩
    | _ => ⟨disk.replace manifestPath (.manifest m), some (p.await job .settling)⟩
  | .settling => ⟨disk, some (p.await job .rereading)⟩
  | .rereading => guarded (readManifest disk) disk p fun
    | some (content, stamp) =>
      if content.bytes = m.text then ⟨disk, some (next job { p with identity := some stamp })⟩
      else ⟨disk, some (p.finish (.error "FileOwnership"))⟩
    | none => ⟨disk, some (p.finish (.error "ENOENT"))⟩

def failed (e : String) (job : Job) (p : Process) : Process := match job.stage with
  | .locking | .loading => { p with opening := some (.error e) }.finish (.error e)
  | _ => p.finish (.error e)

inductive Action
  | start
  | write (documents : List BundleDocument)
  | proceed
  | fail (code : String)
  | close
  | crash
  /-- The lock of a process that is gone is removed by hand. -/
  | unlock
  /-- Another program puts a file of its own, or removes one. -/
  | foreign (parts : Parts) (node : Option Node)

def restamp (stamp : Nat) : Node → Node
  | .file content _ => .file content stamp
  | node => node

def step (s : State) : Action → State
  | .foreign parts node => { s with disk := { s.disk.set parts (node.map (restamp s.disk.stamp)) with stamp := s.disk.stamp + 1 } }
  | .start => match s.process with
    | none => { s with process := some {} }
    | some _ => s
  | .unlock => match s.process with
    | none => { s with disk := s.disk.set lockPath none }
    | some _ => s
  | .write documents => { s with process := s.process.map (write documents) }
  | .crash => { s with process := none }
  | .close => match s.process with
    | none => s
    | some p => if p.job.isSome then s else ⟨if p.holds then s.disk.set lockPath none else s.disk, none⟩
  | .fail e => { s with process := s.process.map fun p => p.job.elim p fun job => failed e job p }
  | .proceed => match s.process with
    | none => s
    | some p => p.job.elim s fun job => b.proceed job (p.current.getD ⟨b.owner, []⟩) s.disk p job.stage

def system : System State Action := .ofFun (· = {}) b.step

end Bundle

end WotAv.Publication.Files
