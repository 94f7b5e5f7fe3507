import WotAv.Media.Ipc
import WotAv.Native.GLib

/-!
# The worker's data queue (`native-media/src/ipc.c`)

A queued `MediaWrite` is the frame whose header and payload it holds. What a
function does under the mutex is one step; the writer thread takes the mutex
to pop a frame and again when the frame is written, so a turn of its loop is
three steps.
-/

namespace WotAv.Native

open WotAv.Lib WotAv.Media

def MEDIA_QUEUE_MAX : Nat := 128 * 1024 * 1024
def MEDIA_QUEUE_FRAMES : Nat := 256

def mediaHeader (kind session generation sequence length : Nat) : Bytes :=
  magic ++ (beBytes 2 MEDIA_PROTOCOL_VERSION ++ (beBytes 2 kind ++ (beBytes 4 session ++
    (beBytes 4 generation ++ (beBytes 4 sequence ++ beBytes 4 length)))))

def frameSize (frame : IpcFrame) : Nat := MEDIA_HEADER_BYTES + frame.payload.length

inductive Writer
  | idle
  | popped (item : IpcFrame)
  | written (item : IpcFrame)

structure MediaIpc where
  frames : List IpcFrame := []
  writer : Writer := .idle
  queuedBytes : Nat := 0
  queuedFrames : Nat := 0
  peakBytes : Nat := 0
  discardedFrames : Nat := 0
  queueMax : Nat := 0
  frameMax : Nat := 0
  creditsBytes : Nat := 0
  creditsFrames : Nat := 0
  sequence : Nat := 0
  replay : Bool := false
  suspended : Bool := false
  stopping : Bool := false
  dataFailed : Bool := false

/-- The results of `media_ipc_data`; `waiting` when it waits for space. -/
inductive DataResult
  | limit
  | dropped
  | queued
  | waiting
  deriving DecidableEq, Repr

namespace MediaIpc

def limits (bytes frames : Nat) (replay : Bool) (ipc : MediaIpc) : MediaIpc :=
  { ipc with queueMax := bytes, creditsBytes := bytes, frameMax := frames, creditsFrames := frames, replay }

/-- The condition of the loop of `media_ipc_data`. -/
def full (size : Nat) (ipc : MediaIpc) : Bool :=
  ipc.queuedFrames ≥ ipc.frameMax || size > guintSub ipc.queueMax ipc.queuedBytes ||
    ipc.creditsFrames = 0 || size > ipc.creditsBytes

def enqueue (frame : IpcFrame) (ipc : MediaIpc) : MediaIpc :=
  let queuedBytes := guintAdd ipc.queuedBytes (frameSize frame)
  { ipc with
    sequence := frame.sequence
    frames := ipc.frames ++ [frame]
    queuedBytes
    queuedFrames := guintAdd ipc.queuedFrames 1
    creditsBytes := ipc.creditsBytes - frameSize frame
    creditsFrames := ipc.creditsFrames - 1
    peakBytes := max ipc.peakBytes queuedBytes }

/-- `media_ipc_data`, from where it takes the mutex or wakes up. -/
def data (kind session generation : Nat) (payload : Bytes) (ipc : MediaIpc) : MediaIpc × DataResult :=
  let size := MEDIA_HEADER_BYTES + payload.length
  if payload.length > MEDIA_DATA_MAX ∨ size > ipc.queueMax then (ipc, .limit)
  else if ipc.suspended ∨ ipc.stopping then (ipc, .dropped)
  else if ipc.full size then
    if ipc.replay then (ipc, .waiting)
    else ({ ipc with discardedFrames := guintAdd ipc.discardedFrames 1 }, .dropped)
  else (ipc.enqueue ⟨kind, session, generation, guintAdd ipc.sequence 1, payload⟩, .queued)

def credit (bytes frames : Nat) (ipc : MediaIpc) : MediaIpc × Bool :=
  if bytes ≠ 0 ∧ frames ≠ 0 ∧ bytes ≤ guintSub ipc.queueMax ipc.creditsBytes ∧
      frames ≤ guintSub ipc.frameMax ipc.creditsFrames then
    ({ ipc with
        creditsBytes := guintAdd ipc.creditsBytes bytes
        creditsFrames := guintAdd ipc.creditsFrames frames }, true)
  else (ipc, false)

def flushFrame (ipc : MediaIpc) (item : IpcFrame) : MediaIpc :=
  { ipc with
    queuedBytes := guintSub ipc.queuedBytes (frameSize item)
    queuedFrames := guintSub ipc.queuedFrames 1
    creditsBytes := guintAdd ipc.creditsBytes (frameSize item)
    creditsFrames := guintAdd ipc.creditsFrames 1
    discardedFrames := guintAdd ipc.discardedFrames 1 }

def suspend (suspended flush : Bool) (ipc : MediaIpc) : MediaIpc :=
  let ipc := { ipc with suspended }
  if flush then { ipc.frames.foldl flushFrame ipc with frames := [] } else ipc

def cancel (ipc : MediaIpc) : MediaIpc := { ipc with stopping := true }.suspend true true

def pop (ipc : MediaIpc) : MediaIpc :=
  match ipc.writer, ipc.frames with
  | .idle, item :: frames => if ipc.stopping then ipc else { ipc with frames, writer := .popped item }
  | _, _ => ipc

def write (ipc : MediaIpc) : MediaIpc × Option IpcFrame :=
  match ipc.writer with
  | .popped item => ({ ipc with writer := .written item }, some item)
  | _ => (ipc, none)

/-- The writer accounts for a frame after `write_all`. -/
def settle (item : IpcFrame) (ipc : MediaIpc) : MediaIpc :=
  { ipc with
    queuedBytes := guintSub ipc.queuedBytes (frameSize item)
    queuedFrames := guintSub ipc.queuedFrames 1
    writer := .idle }

/-- The rest of a turn of the writer, the frame written or not. -/
def finishWrite (ipc : MediaIpc) : MediaIpc :=
  match ipc.writer with
  | .written item => ipc.settle item
  | .popped item =>
    { ipc.settle item with
      discardedFrames := guintAdd ipc.discardedFrames 1, dataFailed := ipc.dataFailed || !ipc.stopping }
  | .idle => ipc

end MediaIpc

end WotAv.Native
