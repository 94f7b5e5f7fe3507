import WotAv.Capture.Backend
import WotAv.Lib.Jpeg

/-!
# Capture sessions (`CaptureSession` of `adapters/src/backend.cjs`)

What `next` makes of the answer to its request.
-/

namespace WotAv.Capture

open WotAv.Lib
open WotAv.Lib.Json (get)

inductive Output
  | JPEG | I420
  deriving DecidableEq, Repr

def Output.text : Output → String
  | .JPEG => "JPEG"
  | .I420 => "I420"

def protocolError : SourceFault := { code := .ProtocolError, operation := .next }

/-- The loop over the segments, with what of the data is left: `at` is where
it begins. A turn uses up two bytes at least. -/
def jpegSegments : Nat → Bytes → Except SourceFault (Nat × Nat)
  | 0, _ => .error protocolError
  | fuel + 1, data => do
    demand (2 < data.length ∧ data.head? = some 0xff) .ProtocolError .next
    let data := data.tail.dropWhile (· = 0xff)
    let marker := data.head?
    let data := data.tail
    demand (marker ≠ some Jpeg.SOS ∧ 2 ≤ data.length) .ProtocolError .next
    let length := readBE 2 0 data
    demand (2 ≤ length ∧ length ≤ data.length) .ProtocolError .next
    if marker.any Jpeg.SOF.contains then
      demand (8 ≤ length) .ProtocolError .next
      let width := readBE 2 5 data
      let height := readBE 2 3 data
      demand (0 < width ∧ 0 < height) .ProtocolError .next
      return (width, height)
    else jpegSegments fuel (data.drop length)

def jpegDimensions (data : Bytes) : Except SourceFault (Nat × Nat) := do
  demand (4 ≤ data.length ∧ data.take 2 = Jpeg.SOI ∧ data.drop (data.length - 2) = Jpeg.EOI) .ProtocolError .next
  jpegSegments data.length (data.drop 2)

-- Sessions

structure CaptureSession where
  mode : ModeRecord
  output : Output
  limits : Limits
  sequence : Nat := 0
  closing : Bool := false

inductive Result
  | gap (metadata : Members)
  | ended (metadata : Members)
  | frame (metadata : Members) (data : Bytes)

/-- What a frame may say of its time besides, as a number of its own. -/
def TIMING_KEYS : List String :=
  ["cameraTimestampNs", "sdkSystemTimestampNs", "nativeFrameId", "nativeTimestampNs", "nativeSequence"]

/-- `u64(value)` of what may be `null`, or missing. -/
def u64OrNull (value : Option Value) : Bool :=
  match value with
  | none | some .null => true
  | some value => (u64 value).isSome

def isNull (value : Option Value) : Bool :=
  match value with
  | some .null => true
  | _ => false

def checkTiming (timing : Members) : Except SourceFault Unit := do
  demand (((get "hostReceiptMonotonicNs" timing).bind u64).isSome ∧ (get "pipelinePtsNs" timing).isSome ∧
    u64OrNull (get "pipelinePtsNs" timing) ∧ isNull (get "source" timing)) .ProtocolError .next
  demand (∀ key ∈ TIMING_KEYS, u64OrNull (get key timing)) .ProtocolError .next

/-- The size of an image of three planes, of which two have a quarter of the samples. -/
def i420Size (width height : Nat) : Nat := width * height + 2 * ((width + 1) / 2) * ((height + 1) / 2)

def CaptureSession.checkImage (session : CaptureSession) (data : Bytes) : Except SourceFault Unit :=
  match session.output with
  | .JPEG => do
    let (width, height) ← jpegDimensions data
    demand ((width : Int) = session.mode.width ∧ (height : Int) = session.mode.height) .ProtocolError .next
  | .I420 =>
    demand (data.length = i420Size session.mode.width.toNat session.mode.height.toNat) .ProtocolError .next

def CaptureSession.frame (session : CaptureSession) (metadata : Members) (data : Bytes) :
    Except SourceFault (CaptureSession × Result) := do
  let sequence ← need ((get "sequence" metadata).bind u64) .ProtocolError .next
  let timing ← need ((get "timing" metadata).bind Json.asRecord) .ProtocolError .next
  demand (text? "generation" metadata = some "1" ∧ session.sequence < sequence ∧
    text? "modeId" metadata = some session.mode.modeId ∧
    (get "width" metadata).bind integer = some session.mode.width ∧
    (get "height" metadata).bind integer = some session.mode.height ∧
    text? "format" metadata = some session.output.text ∧
    (get "payloadBytes" metadata).bind integer = some (data.length : Int) ∧ 0 < data.length ∧
    data.length ≤ session.limits.value .maxFrameBytes) .ProtocolError .next
  checkTiming timing
  session.checkImage data
  return ({ session with sequence }, .frame metadata data)

/-- `next`, from the answer to its request on. -/
def CaptureSession.next (session : CaptureSession) (metadata : Members) (data : Bytes) :
    Except SourceFault (CaptureSession × Result) :=
  if text? "kind" metadata = some "gap" then do
    demand (text? "generation" metadata = some "1" ∧ ((get "dropped" metadata).bind u64).isSome ∧
      (text? "reason" metadata).any ["overflow", "native-incomplete"].contains) .ProtocolError .next
    return (session, .gap metadata)
  else if text? "kind" metadata = some "end" then do
    demand (text? "reason" metadata = some "eos") .ProtocolError .next
    return ({ session with closing := true }, .ended metadata)
  else session.frame metadata data

end WotAv.Capture
