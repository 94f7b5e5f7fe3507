import Mathlib.Data.List.Infix
import WotAv.Lib.Bytes
import WotAv.Native.GLib

/-!
# RTP packets and metadata documents (`native-media/src/metadata.c`)

What GLib, zlib and libxml2 compute is a parameter. A mapped RTP buffer is one
that `gst_rtp_buffer_map` accepts: its version, source list, extension and
padding lie within the packet.
-/

namespace WotAv.Native

open WotAv.Lib

-- GStreamer's view of a packet

def rtpSources (data : Bytes) : Nat := 12 + 4 * (byteAt 0 data &&& 15)

def rtpExtended (data : Bytes) : Bool := byteAt 0 data &&& 16 ≠ 0

def rtpWords (data : Bytes) : Nat := readBE 2 (rtpSources data + 2) data

def rtpHeaderLength (data : Bytes) : Nat :=
  if rtpExtended data then rtpSources data + 4 + rtpWords data * 4 else rtpSources data

def rtpPadding (data : Bytes) : Nat :=
  if byteAt 0 data &&& 32 ≠ 0 then byteAt (data.length - 1) data else 0

/-- The packet is well formed as far as its header, extension and padding go. -/
def RtpMapped (data : Bytes) : Prop :=
  12 ≤ data.length ∧ byteAt 0 data >>> 6 = 2 ∧ rtpSources data ≤ data.length ∧
    (rtpExtended data → rtpSources data + 4 ≤ data.length ∧ rtpHeaderLength data ≤ data.length) ∧
    (byteAt 0 data &&& 32 ≠ 0 → rtpPadding data ≠ 0 ∧ rtpPadding data ≤ data.length - rtpHeaderLength data)

instance (data : Bytes) : Decidable (RtpMapped data) := by unfold RtpMapped; infer_instance

structure GstRTPBuffer where
  data : Bytes
  mapped : RtpMapped data

structure RtpMapping where
  map : Bytes → Option GstRTPBuffer
  data_eq : map data = some rtp → rtp.data = data

namespace GstRTPBuffer

variable (rtp : GstRTPBuffer)

def getSsrc : Nat := readBE 4 8 rtp.data
def getTimestamp : Nat := readBE 4 4 rtp.data
def getSeq : Nat := readBE 2 2 rtp.data
def getPayloadType : Nat := byteAt 1 rtp.data &&& 127
def getMarker : Nat := byteAt 1 rtp.data >>> 7

/-- The profile, the data and its words. -/
def getExtensionData : Option (Nat × Bytes × Nat) :=
  if rtpExtended rtp.data then
    some (readBE 2 (rtpSources rtp.data) rtp.data, rtp.data.drop (rtpSources rtp.data + 4), rtpWords rtp.data)
  else none

def getPayloadLen : Nat := rtp.data.length - rtpHeaderLength rtp.data - rtpPadding rtp.data

def getPayload : Bytes := (rtp.data.drop (rtpHeaderLength rtp.data)).take rtp.getPayloadLen

end GstRTPBuffer

structure MediaRtp where
  ssrc : Nat
  timestamp : Nat
  sequence : Nat
  payloadType : Nat
  marker : Bool
  replayFlags : Nat := 0
  playCseqLow : Nat := 0
  replayExtension : Bool := false
  ntp : Nat := 0
  jpegProfile : Nat := 0
  jpegExtension : Bytes := []

/-- The tail of `media_rtp_info`, at the JPEG extension or what stands in its place. -/
def mediaRtpJpeg (profile : Nat) (extension : Bytes) (words : Nat) (out : MediaRtp) : Option MediaRtp :=
  if profile = 0xffd8 ∨ profile = 0xffff then
    some { out with jpegProfile := profile, jpegExtension := extension.take (words * 4) }
  else if out.replayExtension then none
  else some out

def mediaRtpInfo (rtp : GstRTPBuffer) : Option MediaRtp :=
  let out : MediaRtp :=
    { ssrc := rtp.getSsrc, timestamp := rtp.getTimestamp, sequence := rtp.getSeq
      payloadType := rtp.getPayloadType, marker := rtp.getMarker ≠ 0 }
  match rtp.getExtensionData with
  | none => some out
  | some (profile, extension, words) =>
    if profile = 0xabac then
      if words < 3 ∨ byteAt 8 extension &&& 0x0f ≠ 0 ∨ byteAt 10 extension ≠ 0 ∨ byteAt 11 extension ≠ 0 then none
      else
        let out := { out with replayExtension := true, ntp := readBE 8 0 extension
                              replayFlags := byteAt 8 extension, playCseqLow := byteAt 9 extension }
        if words = 3 then some out
        else if words ≠ 4 + readBE 2 14 extension then none
        else mediaRtpJpeg (readBE 2 12 extension) (extension.drop 16) (words - 4) out
    else mediaRtpJpeg profile extension words out

-- The document guard

inductive XmlNode
  | node (isElement isEntityRef : Bool) (name : Bytes) (namespaceHref : Option Bytes)
      (attributes : Nat) (children : List XmlNode)

structure XmlDocument where
  root : Option XmlNode
  internalSubset : Bool
  externalSubset : Bool

/-- What `zlib`, GLib and libxml2 compute. -/
structure Libraries where
  utf8Validate : Bytes → Bool
  readMemory : Bytes → Option XmlDocument
  /-- The results of `g_converter_convert`, call by call: what was consumed,
  what was written and whether the stream is finished. -/
  convert : Bytes → List (Nat × Bytes × Bool)

def ascii (text : String) : Bytes := text.toList.map fun c => UInt8.ofNat c.toNat

mutual

/-- A turn of `bounded`'s loop: the count after the node, if it is within the bounds. -/
def boundedNode (depth count : Nat) : XmlNode → Option Nat
  | .node _ isEntityRef _ _ attributes children =>
    if count + 1 > 65536 ∨ depth > 64 ∨ isEntityRef ∨ attributes > 128 then none
    else bounded (depth + 1) (count + 1) children

def bounded (depth count : Nat) : List XmlNode → Option Nat
  | [] => some count
  | node :: nodes => (boundedNode depth count node).bind fun count => bounded depth count nodes

end

def mediaMetadataXml (libraries : Libraries) (bytes : Bytes) : Bool :=
  if bytes.length = 0 ∨ bytes.length > 32 * 1024 * 1024 ∨ 0 ∈ bytes ∨ libraries.utf8Validate bytes = false ∨
      ascii "<!DOCTYPE" <:+: bytes ∨ ascii "<!ENTITY" <:+: bytes then false
  else match libraries.readMemory bytes with
    | some ⟨some (.node isElement isEntityRef name href attributes children), internalSubset, externalSubset⟩ =>
      href = some (ascii "http://www.onvif.org/ver10/schema") && isElement && name = ascii "MetadataStream" &&
        !internalSubset && !externalSubset &&
        (bounded 1 0 [.node isElement isEntityRef name href attributes children]).isSome
    | _ => false

-- The document under way

inductive MediaMeta
  | more
  | complete
  | gap
  | limit
  | invalid
  deriving DecidableEq, Repr

structure MediaMetadata where
  wire : Bytes := []
  xml : Bytes := []
  wireMax : Nat
  inflatedMax : Nat
  deadlineMs : Nat
  gzip : Bool
  active : Bool := false
  discarding : Bool := false
  haveSequence : Bool := false
  ssrc : Nat := 0
  firstTimestamp : Nat := 0
  lastTimestamp : Nat := 0
  firstSequence : Nat := 0
  lastSequence : Nat := 0
  startedUs : Int := 0

namespace MediaMetadata

def init (wireMax inflatedMax deadlineMs : Nat) (gzip : Bool) : MediaMetadata :=
  { wireMax, inflatedMax, deadlineMs, gzip }

def reset (drain : Bool) (state : MediaMetadata) : MediaMetadata :=
  { state with active := false, discarding := drain, haveSequence := false, wire := [], xml := [] }

def expire (nowUs : Int) (state : MediaMetadata) : MediaMetadata × Bool :=
  if state.active ∧ nowUs - state.startedUs > state.deadlineMs * 1000 then
    ({ state with active := false, discarding := true, wire := [] }, true)
  else (state, false)

/-- The loop of `inflate` over the converter's results. -/
def inflateLoop : List (Nat × Bytes × Bool) → Nat → MediaMetadata → MediaMetadata × MediaMeta
  | [], _, state => (state, .invalid)
  | (read, output, finished) :: results, consumed, state =>
    if output.length > guintSub state.inflatedMax state.xml.length ∨
        state.xml.length + output.length > max state.wire.length 1 * 128 then (state, .limit)
    else
      let state := { state with xml := state.xml ++ output }
      let consumed := consumed + read
      if finished then (state, if consumed = state.wire.length then .complete else .invalid)
      else if read = 0 ∧ output = [] then (state, .invalid)
      else inflateLoop results consumed state

def inflate (libraries : Libraries) (state : MediaMetadata) : MediaMetadata × MediaMeta :=
  inflateLoop (libraries.convert state.wire) 0 state

def finish (libraries : Libraries) (state : MediaMetadata) : MediaMetadata × MediaMeta :=
  let (state, result) :=
    if state.gzip then inflate libraries state
    else if state.wire.length > state.inflatedMax then (state, .limit)
    else ({ state with xml := state.xml ++ state.wire }, .complete)
  if result ≠ .complete then (state, result)
  else (state, if mediaMetadataXml libraries state.xml then .complete else .invalid)

def append (libraries : Libraries) (packet : MediaRtp) (bytes : Bytes) (nowUs : Int)
    (state : MediaMetadata) : MediaMetadata × MediaMeta :=
  let state :=
    if state.active then state
    else { state with active := true, wire := [], xml := [], firstSequence := packet.sequence
                      firstTimestamp := packet.timestamp, startedUs := nowUs }
  let state := { state with lastTimestamp := packet.timestamp }
  if bytes.length > guintSub state.wireMax state.wire.length then
    ({ state with active := false, discarding := !packet.marker, wire := [] }, .limit)
  else
    let state := { state with wire := state.wire ++ bytes }
    if !packet.marker then (state, .more)
    else finish libraries { state with active := false }

def push (libraries : Libraries) (packet : MediaRtp) (bytes : Bytes) (nowUs : Int)
    (state : MediaMetadata) : MediaMetadata × MediaMeta :=
  let (state, expired) := state.expire nowUs
  if state.haveSequence ∧ state.ssrc = packet.ssrc ∧ state.lastSequence = packet.sequence then (state, .more)
  else
    let lost := state.haveSequence ∧
      (state.ssrc ≠ packet.ssrc ∨ (state.lastSequence + 1) % 2 ^ 16 ≠ packet.sequence)
    let state := if lost then { state with active := false, discarding := true, wire := [] } else state
    let state := { state with ssrc := packet.ssrc, lastSequence := packet.sequence, haveSequence := true }
    if state.discarding then
      (if packet.marker then { state with discarding := false } else state,
        if lost then .gap else if expired then .limit else .more)
    else state.append libraries packet bytes nowUs

end MediaMetadata

end WotAv.Native
