import WotAv.Media.Session
import WotAv.Native.Ipc
import WotAv.Native.Options

/-!
# The media worker (`native-media/src/worker.c`)

The main thread goes through its loop phase by phase: a phase ends where
another thread or the session may act in between. The threads of GStreamer
and the writer have inputs of their own. A `Turn` is what the main thread
finds when it takes its next step: whether the pipe it reads has a whole frame,
what the parsers and GStreamer answer, whether a deadline is over. Pipes are
reliable, so `control_writable` stays true.
-/

namespace WotAv.Native

open WotAv.Lib WotAv.Media

inductive Phase
  | secrets
  | command
  | opening
  | audio
  | bus
  | eos (sequence : Nat)
  | deadlines
  | failure
  | drain (left : Nat)
  | ready
  | control
  | dropped
  | cancel
  | drainLast (left : Nat)
  | closed
  | exited
  deriving DecidableEq, Repr

structure WorkerEvent where
  message : ControlMessage
  generation : Nat
  request : Nat
  deriving DecidableEq, Repr

/-- A thread in `send_data`, its generation read. -/
structure Sending where
  kind : Nat
  generation : Nat
  payload : Bytes
  deriving DecidableEq, Repr

inductive NativeOpen
  | unbound
  | failed (pipeline : Bool)
  | opened
  deriving DecidableEq, Repr

inductive BusMessage
  | error (code : String)
  | eos
  | warning (reported gap : Bool)
  deriving DecidableEq, Repr

inductive RtspMethod
  | setup
  | play
  | pause
  | teardown
  | other
  deriving DecidableEq, Repr

structure Turn where
  read : Bool := false
  invalid : Bool := false
  ended : Bool := false
  parsed : Bool := true
  native : NativeOpen := .opened
  message : Option BusMessage := none
  late : Bool := false
  expired : Bool := false

structure WorkerContext where
  tracks : List Nat
  replay : Bool
  queueBytes : Nat
  queueFrames : Nat

structure Worker where
  phase : Phase := .secrets
  ipc : MediaIpc := {}
  session : Nat := 0
  secretSession : Nat := 0
  generation : Nat := 0
  pendingGeneration : Nat := 0
  request : Nat := 0
  closeRequest : Nat := 0
  lastCommand : Nat := 0
  audioSequence : Nat := 0
  secretReceived : Bool := false
  secretsComplete : Bool := false
  openReceived : Bool := false
  pipeline : Bool := false
  audioClosed : Bool := false
  pendingControl : Option ControlKind := none
  controlReady : Option ControlKind := none
  controlThread : Option Bool := none
  setupSent : Bool := false
  setupAcks : Nat := 0
  selected : List MediaTrack := []
  backSource : Bool := false
  teardownStatus : Nat := 0
  readySent : Bool := false
  paused : Bool := false
  closing : Bool := false
  ready : Bool := false
  acceptingData : Bool := false
  failure : Option String := none
  done : Bool := false
  errorExit : Bool := false
  events : List WorkerEvent := []
  lastDropped : Nat := 0
  sending : List Sending := []
  /-- `after_response` is about to resume the data queue. -/
  resuming : Bool := false
  /-- What is in the control and in the data pipe. -/
  control : List ControlFrame := []
  data : List IpcFrame := []

/-- What a step of the main thread finds in the pipes it may read. -/
structure Pipes where
  secrets : Option SecurityFrame
  command : Option Command
  audio : Option BackchannelFrame

inductive WorkerInput
  | turn (t : Turn)
  | setup
  | responded (method : RtspMethod) (status : Nat)
  | resume
  | controlReturned
  | select (track : MediaTrack)
  | fault (code : String)
  | gap
  | diagnostic
  | beginSend (kind : Nat) (payload : Bytes)
  | sendData (i : Nat)
  | pop
  | write
  | settle

namespace Worker

def fail (code : String) (w : Worker) : Worker := { w with failure := some (w.failure.getD code) }

def event (message : ControlMessage) (w : Worker) : Worker :=
  if w.events.length ≥ 256 then w.fail "ControlQueueLimit"
  else { w with events := w.events ++ [⟨message, w.generation, w.request⟩] }

def write (message : ControlMessage) (generation sequence : Nat) (w : Worker) : Worker :=
  { w with control := w.control ++ [⟨message, w.session, generation, sequence⟩] }

-- Secrets, commands and the backchannel

def readSecrets (t : Turn) (frame : Option SecurityFrame) (w : Worker) : Worker :=
  if w.secretsComplete then w
  else if t.invalid then { w.fail "InvalidSecurityPipe" with secretsComplete := true }
  else match frame with
    | some frame =>
      if ¬t.read then w
      else if w.secretReceived ∨ frame.session = 0 ∨ frame.generation ≠ 0 ∨ frame.sequence ≠ 1 ∨ ¬t.parsed then
        w.fail "InvalidSecurityPipe"
      else { w with secretSession := frame.session, secretReceived := true }
    | none =>
      if ¬t.ended then w
      else { (if w.secretReceived then w else w.fail "InvalidSecurityPipe") with secretsComplete := true }

/-- What `control` resets and allocates before it starts its thread. -/
def startControl (kind : ControlKind) (sequence : Nat) (w : Worker) : Worker :=
  let w := { w with
    pendingControl := some kind, request := sequence, acceptingData := false, ipc := w.ipc.suspend true true }
  if kind = .pause then { w with controlThread := some false }
  else if w.generation = 0xffffffff then w.fail "GenerationLimit"
  else { w with pendingGeneration := w.generation + 1, controlThread := some false }

def takeControl (c : WorkerContext) (kind : ControlKind) (range : Option (Nat × Nat)) (sequence : Nat) (w : Worker) : Worker :=
  if ¬w.ready ∨ w.pendingControl.isSome ∨ w.controlThread.isSome ∨ (kind ≠ .seek ∧ range.isSome) ∨
      (kind = .seek ∧ (¬c.replay ∨ range.isNone)) then w.fail "InvalidOrBusyControl"
  else if kind = .seek ∧ ¬range.all fun (start, finish) => mediaRangeValid start finish then
    w.fail "UnsupportedReplayRange"
  else w.startControl kind sequence

def dispatch (c : WorkerContext) (t : Turn) (command : Command) (w : Worker) : Worker :=
  if command.body = .open_ ∧ ¬w.openReceived ∧ command.generation = 0 ∧ command.session ≠ 0 then
    let w := { w with session := command.session, request := command.sequence, openReceived := true }
    if t.parsed then w else w.fail "InvalidOrUnauthorizedOpen"
  else match command.body with
    | .credit bytes units =>
      if command.session ≠ w.session then w.fail "IpcSessionOrGenerationMismatch"
      else if ¬w.pipeline then w.fail "UnsupportedCommand"
      else if command.generation > w.generation then w.fail "InvalidMediaCredit"
      else match w.ipc.credit bytes units with
        | (ipc, true) => { w with ipc }
        | (_, false) => w.fail "InvalidMediaCredit"
    | .close =>
      if command.session ≠ w.session ∨ command.generation > w.generation then w.fail "IpcSessionOrGenerationMismatch"
      else if w.openReceived then { w with closeRequest := command.sequence, done := true }
      else w.fail "UnsupportedCommand"
    | .control kind range =>
      if command.session ≠ w.session ∨ command.generation ≠ w.generation then w.fail "IpcSessionOrGenerationMismatch"
      else if w.pipeline then w.takeControl c kind range command.sequence
      else w.fail "UnsupportedCommand"
    | .open_ =>
      if command.session ≠ w.session ∨ command.generation ≠ w.generation then w.fail "IpcSessionOrGenerationMismatch"
      else w.fail "UnsupportedCommand"

/-- A read of the command pipe; `t.late` when there are too many commands. -/
def readCommand (c : WorkerContext) (t : Turn) (command : Option Command) (w : Worker) : Worker :=
  if t.invalid then { w.fail "InvalidIpcFrame" with done := true }
  else match command with
    | some command =>
      if ¬t.read then w
      else if t.late ∨ command.sequence = 0 ∨ command.sequence ≤ w.lastCommand then
        { w.fail "IpcCommandSequenceOrRate" with lastCommand := command.sequence }
      else { w.dispatch c t command with lastCommand := command.sequence }
    | none => if t.ended then { w with done := true } else w

def openNative (c : WorkerContext) (t : Turn) (w : Worker) : Worker :=
  if w.done ∨ w.failure.isSome ∨ ¬w.openReceived ∨ ¬w.secretsComplete ∨ w.pipeline then w
  else if w.session ≠ w.secretSession then w.fail "InvalidScopeOrNativeOpen"
  else match t.native with
    | .unbound => w.fail "InvalidScopeOrNativeOpen"
    | .failed pipeline => { w with
        generation := 1, pipeline, ipc := w.ipc.limits c.queueBytes c.queueFrames c.replay }.fail "InvalidScopeOrNativeOpen"
    | .opened => { w with
        generation := 1, pipeline := true, ipc := w.ipc.limits c.queueBytes c.queueFrames c.replay }

/-- `backchannel_input`; `t.late` when the source has no room, `t.parsed` when it takes the buffer. -/
def backchannelInput (c : WorkerContext) (t : Turn) (frame : BackchannelFrame) (w : Worker) : Worker :=
  if 4 ∉ c.tracks then w.fail "UnsupportedBackchannel"
  else if ¬w.backSource ∨ ¬w.ready ∨ ¬w.acceptingData ∨ w.paused ∨ w.pendingControl.isSome then
    w.fail "BackchannelNotReady"
  else if frame.session ≠ w.session ∨ frame.generation ≠ w.generation ∨ frame.sequence = 0 ∨
      frame.sequence ≤ w.audioSequence then w.fail "InvalidBackchannelFrame"
  else if frame.samples = 0 ∨ frame.samples > 800 ∨ frame.samples % 160 ≠ 0 then w.fail "UnsupportedBackchannelFormat"
  else if t.late then w.fail "BackchannelQueueLimit"
  else
    let w := { w with audioSequence := frame.sequence }
    if t.parsed then w else w.fail "BackchannelQueueFailure"

def readsAudio (w : Worker) : Bool := !w.done && w.failure.isNone && !w.audioClosed

def readAudio (c : WorkerContext) (t : Turn) (frame : Option BackchannelFrame) (w : Worker) : Worker :=
  if ¬w.readsAudio then w
  else match frame with
    | some frame => if t.read then w.backchannelInput c t frame else w
    | none => if t.ended then { w with audioClosed := true } else w

-- The rest of a turn

/-- A message of the bus; the codes of `poll_bus`. -/
def busMessage (w : Worker) : BusMessage → Worker
  | .error code => { (w.event (.diagnostic true)).fail
      (if code = "ForbiddenTarget" ∨ code = "UnsupportedAuthentication" then code else "NativeRtspOrDecodeFailure")
      with phase := .bus }
  | .eos => { w with phase := .eos w.ipc.sequence }
  | .warning reported gap =>
    let w := if reported then w.event (.diagnostic true) else w
    { (if gap then w.event (.gap true) else w) with phase := .bus }

def deadlines (t : Turn) (w : Worker) : Worker :=
  let w := if w.ipc.dataFailed then w.fail "DataPipeClosed" else w
  let w := if t.late then w.fail "NativeOperationDeadline" else w
  if t.expired then w.event (.gap true) else w

def reportFailure (w : Worker) : Worker :=
  match w.failure with
  | some code => { w.write (.error code) w.generation w.request with done := true, errorExit := true }
  | none => w

/-- A turn of the loop of `drain`. -/
def drainEvent (w : Worker) : Worker :=
  match w.events with
  | item :: events => { w with events }.write item.message item.generation item.request
  | [] => w

/-- READY; `t.parsed` when the session's parser accepts its tracks. -/
def sendReady (c : WorkerContext) (t : Turn) (w : Worker) : Worker :=
  if w.done ∨ ¬w.ready ∨ w.readySent ∨ w.errorExit then w
  else
    let w := if c.tracks.all fun id => w.selected.any (·.id = id) then w else w.fail "MissingRequiredTrack"
    let w := if w.failure.isSome then w
      else w.write (.ready (if t.parsed then some w.selected else none)) w.generation w.request
    { w with readySent := true }

def acknowledge (w : Worker) : Worker :=
  match w.controlReady with
  | some kind =>
    if w.done ∨ w.controlThread.isSome ∨ w.errorExit then w
    else { w.write (.control kind w.paused) w.generation w.request with controlReady := none }
  | none => w

def reportDropped (w : Worker) : Worker :=
  if w.ipc.discardedFrames ≠ w.lastDropped ∧ ¬w.done then
    { w.event (.gap true) with lastDropped := w.ipc.discardedFrames }
  else w

/-- `close_native`, up to the last `drain`. -/
def cancel (w : Worker) : Worker :=
  { w with closing := true, acceptingData := false, ipc := w.ipc.cancel, backSource := false }

def remote (w : Worker) : MediaRemote :=
  if ¬w.setupSent then .notCreated
  else if w.teardownStatus ≥ 200 ∧ w.teardownStatus < 300 then .acknowledged
  else if w.teardownStatus = 454 then .alreadyEnded
  else .uncertain

def reportClosed (w : Worker) : Worker := w.write (.closed (some w.remote)) w.generation w.closeRequest

def joinControl (w : Worker) : Worker :=
  if w.controlThread = some true then { w with controlThread := none } else w

def turn (c : WorkerContext) (t : Turn) (pipes : Pipes) (w : Worker) : Worker :=
  match w.phase with
  | .secrets => { w.joinControl.readSecrets t pipes.secrets with phase := .command }
  | .command => { w.readCommand c t pipes.command with phase := .opening }
  | .opening => { w.openNative c t with phase := .audio }
  | .audio => { w.readAudio c t pipes.audio with phase := .bus }
  | .bus => match t.message with
    | some message => w.busMessage message
    | none => { w with phase := .deadlines }
  | .eos sequence => { w.event (.end_ sequence) with phase := .bus }
  | .deadlines => { w.deadlines t with phase := .failure }
  | .failure => { w.reportFailure with phase := .drain 256 }
  | .drain left => match left, w.events with
    | left + 1, _ :: _ => { w.drainEvent with phase := .drain left }
    | _, _ => { w with phase := .ready }
  | .ready => { w.sendReady c t with phase := .control }
  | .control => { w.acknowledge with phase := .dropped }
  | .dropped => { w.reportDropped with phase := if w.done then .cancel else .secrets }
  | .cancel => { w.cancel with phase := .drainLast 256 }
  | .drainLast left => match left, w.events with
    | left + 1, _ :: _ => { w.drainEvent with phase := .drainLast left }
    | _, _ => { w with phase := .closed }
  | .closed => { w.reportClosed with phase := .exited }
  | .exited => w

-- The other threads

/-- `after_response`, up to where it resumes the data queue. -/
def responded (method : RtspMethod) (status : Nat) (w : Worker) : Worker :=
  let w := w.event (.response true)
  let ok := status ≥ 200 ∧ status < 300
  let w := if method = .setup ∧ ok then { w with setupAcks := w.setupAcks + 1 } else w
  let w := if method = .teardown then { w with teardownStatus := status } else w
  let w := if method = .play ∧ ok then
      if w.setupAcks ≠ w.selected.length ∨ w.selected.length = 0 then w.fail "MissingRequiredTrack"
      else { w with
        generation := if w.pendingGeneration ≠ 0 then w.pendingGeneration else w.generation
        pendingGeneration := 0, paused := false, controlReady := w.pendingControl, pendingControl := none
        ready := true, acceptingData := true, resuming := true }
    else w
  let w := if method = .pause ∧ ok ∧ w.pendingControl = some .pause then
      { w with paused := true, controlReady := w.pendingControl, pendingControl := none }
    else w
  if (method = .play ∨ method = .pause) ∧ status ≥ 400 ∧ status ≠ 401 ∧ w.pendingControl.isSome then
    w.fail "ControlRejected"
  else w

/-- `select_stream` has selected a track. -/
def select (c : WorkerContext) (track : MediaTrack) (w : Worker) : Worker :=
  if track.id ∈ c.tracks ∧ ¬w.selected.any (·.id = track.id) then
    { w with selected := w.selected ++ [track], backSource := w.backSource || track.id = 4 }
  else w

/-- What the control thread, the streaming threads and `select_stream` report. -/
def faults : List String :=
  ["PauseNotSent", "SeekNotSent", "PlayNotSent", "NativeControlThreadFailure", "ForbiddenTarget", "MissingNativeClockRange",
    "MissingResponseCSeq", "InvalidResponseCSeq", "ResponseRangeLimit", "InvalidNativeSession", "InconsistentNativeSession",
    "DecoderAllocationPolicy", "DecodedFrameLimit", "UnexpectedDecodedVideo", "UnexpectedDecodedAudio", "JpegHeaderLimit",
    "InvalidJpegHeader", "MissingJpegCaps", "JpegCapsRejected", "InvalidNativeBackchannelPacket",
    "NativeBackchannelSendFailure", "InvalidSdpTrack", "DuplicateRequestedTrack", "UnsupportedMetadataEncoding",
    "NoDecoder", "InvalidPayloadMap", "UnsupportedBackchannelEncoding", "NativeBackchannelPipelineFailure",
    "NativeDecoderPipelineFailure", "InvalidSdp", "ForbiddenSdpControl", "ForbiddenOrUnsupportedSdpControl",
    "EncodedFrameLimit", "DuplicateDynamicTrack", "NativePadLinkFailure", "UnexpectedDynamicTrack",
    "TlsCertificateRejected", "NoTlsBackend", "TlsTrustStoreCreateFailure", "TlsTrustStoreWriteFailure",
    "TlsTrustStoreInvalid"]

def beginSend (kind : Nat) (payload : Bytes) (w : Worker) : Worker :=
  if w.closing ∨ ¬w.acceptingData then w else { w with sending := w.sending ++ [⟨kind, w.generation, payload⟩] }

/-- A thread in `send_data` takes the mutex of the data queue. -/
def sendData (i : Nat) (w : Worker) : Worker :=
  match w.sending[i]? with
  | none => w
  | some item => match w.ipc.data item.kind w.session item.generation item.payload with
    | (ipc, .waiting) => { w with ipc }
    | (ipc, .limit) => { w with ipc, sending := w.sending.eraseIdx i }.fail "MediaFrameLimit"
    | (ipc, _) => { w with ipc, sending := w.sending.eraseIdx i }

def writeData (w : Worker) : Worker :=
  match w.ipc.write with
  | (ipc, some frame) => { w with ipc, data := w.data ++ [frame] }
  | (ipc, none) => { w with ipc }

def thread (c : WorkerContext) (w : Worker) : WorkerInput → Worker
  | .turn _ => w
  | .setup => if w.pipeline ∧ w.failure.isNone then { w with setupSent := true } else w
  | .responded method status => if w.pipeline then w.responded method status else w
  | .resume => if w.resuming then { w with resuming := false, ipc := w.ipc.suspend false false } else w
  | .controlReturned => { w with controlThread := w.controlThread.map fun _ => true }
  | .select track => if w.pipeline then w.select c track else w
  | .fault code => if code ∈ faults then w.fail code else w
  | .gap => w.event (.gap true)
  | .diagnostic => w.event (.diagnostic true)
  | .beginSend kind payload => w.beginSend kind payload
  | .sendData i => w.sendData i
  | .pop => { w with ipc := w.ipc.pop }
  | .write => w.writeData
  | .settle => { w with ipc := w.ipc.finishWrite }

end Worker

end WotAv.Native
