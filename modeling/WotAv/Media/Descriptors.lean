import WotAv.Media.Ipc
import WotAv.Media.Types

/-!
# Native data descriptors (`decodeMediaData` of `src/media/protocol.ts`)

A read of a field is `readBE`, of a single byte `byteAt`. Every read of the
source lies within the buffer by the length checks before it.
-/

namespace WotAv.Media

open WotAv.Lib WotAv.Binding

def check (condition : Prop) [Decidable condition] (message : String := "Invalid native media descriptor") :
    Except OnvifError Unit :=
  if condition then .ok () else invalidValue message

theorem check_bind_ok {p : Prop} [Decidable p] {k : Unit → Except OnvifError α} :
    (check p message >>= k) = .ok a ↔ p ∧ k () = .ok a := by
  unfold check
  split
  · rename_i hp
    exact ⟨fun h => ⟨hp, h⟩, fun h => h.2⟩
  · rename_i hp
    exact ⟨fun h => (nomatch h), fun h => absurd h.1 hp⟩

theorem check_ok {p : Prop} [Decidable p] : check p message = .ok u ↔ p := by
  unfold check
  split
  · rename_i hp; exact ⟨fun _ => hp, fun _ => rfl⟩
  · rename_i hp; exact ⟨fun h => (nomatch h), fun h => absurd h hp⟩

def field (value : Nat) (maximum : Nat := 0xffffffff) (minimum : Nat := 0) : Except OnvifError Nat := do
  check (minimum ≤ value ∧ value ≤ maximum)
  return value

theorem field_bind_ok {k : Nat → Except OnvifError α} :
    (field value maximum minimum >>= k) = .ok a ↔ (minimum ≤ value ∧ value ≤ maximum) ∧ k value = .ok a := by
  rw [field, bind_assoc, check_bind_ok]
  rfl

/-- `descriptor(frame, prefix)` and `descriptor(frame, prefix, lengthAt, maximum)`. -/
def descriptor (frame : IpcFrame) (head : Nat) (lengthAt : Option (Nat × Nat) := none) :
    Except OnvifError Bytes := do
  let payload := frame.payload
  check (frame.session ≠ 0 ∧ frame.generation ≠ 0 ∧ frame.sequence ≠ 0 ∧ head ≤ payload.length ∧
    (lengthAt = none → payload.length = head))
  match lengthAt with
  | none => return payload
  | some (offset, maximum) =>
    let length := readBE 4 offset payload
    check (length ≠ 0 ∧ length = payload.length - head ∧ length ≤ maximum)
    return payload

theorem descriptor_bind_ok {k : Bytes → Except OnvifError α} :
    (descriptor frame head (some (offset, maximum)) >>= k) = .ok a ↔
      (frame.session ≠ 0 ∧ frame.generation ≠ 0 ∧ frame.sequence ≠ 0 ∧ head ≤ frame.payload.length) ∧
      (readBE 4 offset frame.payload ≠ 0 ∧ readBE 4 offset frame.payload = frame.payload.length - head ∧
        readBE 4 offset frame.payload ≤ maximum) ∧ k frame.payload = .ok a := by
  simp only [descriptor, bind_assoc, check_bind_ok, reduceCtorEq, false_implies, and_true]
  rfl

theorem descriptor_fixed_bind_ok {k : Bytes → Except OnvifError α} :
    (descriptor frame head >>= k) = .ok a ↔
      (frame.session ≠ 0 ∧ frame.generation ≠ 0 ∧ frame.sequence ≠ 0 ∧ frame.payload.length = head) ∧
      k frame.payload = .ok a := by
  simp only [descriptor, bind_assoc, check_bind_ok, true_implies]
  constructor
  · rintro ⟨⟨hs, hg, hq, _, hl⟩, hk⟩
    exact ⟨⟨hs, hg, hq, hl⟩, hk⟩
  · rintro ⟨⟨hs, hg, hq, hl⟩, hk⟩
    exact ⟨⟨hs, hg, hq, hl.ge, hl⟩, hk⟩

structure Extension where
  offset : Nat
  replay : Bool := false
  jpeg : Bool := false

/-- `checkRtp` from the source list to the end of the extension. -/
def checkExtension (payload packet : Bytes) (offset : Nat) : Except OnvifError Extension :=
  if byteAt 0 packet &&& 16 = 0 then return { offset } else do
  check (offset + 4 ≤ packet.length) "Truncated RTP extension"
  let profile := readBE 2 offset packet
  let words := readBE 2 (offset + 2) packet
  let finish := offset + 4 + words * 4
  let offset := offset + 4
  check (finish ≤ packet.length) "Truncated RTP extension length"
  if profile = 0xabac then
    check (3 ≤ words ∧ readBE 8 offset packet = readBE 8 24 payload ∧
      byteAt (offset + 8) packet = byteAt 10 payload ∧ byteAt (offset + 9) packet = byteAt 11 payload ∧
      readBE 2 (offset + 10) packet = 0 ∧ byteAt (offset + 8) packet &&& 15 = 0)
      "ONVIF replay descriptor disagrees with its native extension"
    check (words ≤ 3 ∨ words = 4 + readBE 2 (offset + 14) packet) "Invalid nested JPEG extension"
    let profile := if words > 3 then readBE 2 (offset + 12) packet else profile
    return { offset := finish, replay := true, jpeg := profile = 0xffd8 ∨ profile = 0xffff }
  else
    return { offset := finish, jpeg := profile = 0xffd8 ∨ profile = 0xffff }

def checkRtp (payload packet : Bytes) : Except OnvifError Unit := do
  check (12 ≤ packet.length ∧ byteAt 0 packet >>> 6 = 2 ∧ byteAt 3 payload ≤ 1 ∧
    byteAt 1 packet &&& 127 = byteAt 2 payload ∧ byteAt 1 packet >>> 7 = byteAt 3 payload ∧
    readBE 2 2 packet = readBE 2 8 payload ∧ readBE 4 4 packet = readBE 4 12 payload ∧
    readBE 4 8 packet = readBE 4 4 payload) "RTP descriptor disagrees with the native packet"
  let offset := 12 + 4 * (byteAt 0 packet &&& 15)
  check (offset ≤ packet.length) "Truncated RTP source list"
  let extension ← checkExtension payload packet offset
  let options := readBE 4 32 payload
  check (options ≤ 3 ∧ decide (options &&& 1 ≠ 0) = extension.replay ∧
    decide (options &&& 2 ≠ 0) = extension.jpeg ∧
    (extension.replay = false → readBE 8 24 payload = 0 ∧ byteAt 10 payload = 0 ∧ byteAt 11 payload = 0))
    "Invalid native RTP extension flags"
  let padding := byteAt (packet.length - 1) packet
  check (byteAt 0 packet &&& 32 ≠ 0 → padding ≠ 0 ∧ padding ≤ packet.length - extension.offset)
    "Invalid RTP padding"

def checkDimensions (limits : MediaLimits) (format width height sampleRate channels count length : Nat) :
    Except OnvifError Unit :=
  if format = 1 then
    check (width ≠ 0 ∧ height ≠ 0 ∧ width ≤ limits.maxWidth ∧ height ≤ limits.maxHeight ∧
      sampleRate = 0 ∧ channels = 0 ∧ count = 1 ∧
      length = width * height + 2 * ((width + 1) / 2) * ((height + 1) / 2))
      "Invalid decoded I420 dimensions or byte count"
  else
    check (width = 0 ∧ height = 0 ∧ sampleRate ≠ 0 ∧ sampleRate ≤ 96000 ∧ channels ≠ 0 ∧ channels ≤ 8 ∧
      length = count * channels * 2) "Invalid decoded PCM dimensions or byte count"

-- The branches of `decodeMediaData`

def decodeRtp (frame : IpcFrame) (limits : MediaLimits) : Except OnvifError NativeMediaUnit := do
  let payload ← descriptor frame 40 (some (36, limits.wireBytes))
  let track ← field (readBE 2 0 payload) 3 1
  let packet := payload.drop 40
  checkRtp payload packet
  return .rtp { track, generation := frame.generation, sequence := frame.sequence
                payloadType := byteAt 2 payload, marker := byteAt 3 payload = 1, ssrc := readBE 4 4 payload
                rtpSequence := readBE 2 8 payload, rtpTimestamp := readBE 4 12 payload
                receiptMonoNs := readBE 8 16 payload, replayNtp := readBE 8 24 payload
                replayFlags := byteAt 10 payload, playCseqLow := byteAt 11 payload
                replayExtension := readBE 4 32 payload &&& 1 ≠ 0
                jpegExtension := readBE 4 32 payload &&& 2 ≠ 0, bytes := packet }

def decodeDecoded (frame : IpcFrame) (limits : MediaLimits) : Except OnvifError NativeMediaUnit := do
  let payload ← descriptor frame 36 (some (32, limits.decodedBytes))
  let track ← field (readBE 2 0 payload) 2 1
  let format := readBE 2 2 payload
  let width := readBE 4 4 payload
  let height := readBE 4 8 payload
  let sampleRate := readBE 4 12 payload
  let channels := readBE 2 16 payload
  let count := readBE 4 20 payload
  let bytes := payload.drop 36
  check (format = track ∧ readBE 2 18 payload = 0 ∧ count ≠ 0) "Invalid decoded frame format"
  checkDimensions limits format width height sampleRate channels count bytes.length
  let pts := readBE 8 24 payload
  return .decoded { track, generation := frame.generation, sequence := frame.sequence
                    format := if format = 1 then .I420 else .S16LE, width, height, sampleRate, channels, count
                    ptsNs := if pts = 0xffffffffffffffff then none else some pts, bytes }

def decodeMetadata (frame : IpcFrame) (limits : MediaLimits) : Except OnvifError NativeMediaUnit := do
  let payload ← descriptor frame 32 (some (28, limits.inflatedBytes))
  check (readBE 2 0 payload = 3 ∧ readBE 2 2 payload = 0) "Invalid metadata track descriptor"
  return .metadata { track := 3, generation := frame.generation, sequence := frame.sequence
                     firstRtpSequence := readBE 2 4 payload, lastRtpSequence := readBE 2 6 payload
                     ssrc := readBE 4 8 payload, firstRtpTimestamp := readBE 4 12 payload
                     lastRtpTimestamp := readBE 4 16 payload, receiptMonoNs := readBE 8 20 payload
                     xml := payload.drop 32 }

def decodeSenderReport (frame : IpcFrame) : Except OnvifError NativeMediaUnit := do
  let payload ← descriptor frame 36
  check (readBE 2 2 payload = 0) "Invalid RTCP reserved field"
  let track ← field (readBE 2 0 payload) 3 1
  let clockRate ← field (readBE 4 28 payload) 192000 1
  let incarnation ← field (readBE 4 32 payload) 0xffffffff 1
  return .senderReport { track, generation := frame.generation, sequence := frame.sequence
                         ssrc := readBE 4 4 payload, rtpTimestamp := readBE 4 8 payload
                         ntp := readBE 8 12 payload, receiptMonoNs := readBE 8 20 payload
                         clockRate, incarnation }

def decodeMediaData (frame : IpcFrame) (limits : MediaLimits) : Except OnvifError NativeMediaUnit :=
  if frame.kind = IpcKind.RTP then decodeRtp frame limits
  else if frame.kind = IpcKind.DECODED then decodeDecoded frame limits
  else if frame.kind = IpcKind.METADATA then decodeMetadata frame limits
  else if frame.kind = IpcKind.RTCP then decodeSenderReport frame
  else invalidValue "Unknown native data descriptor"

end WotAv.Media
