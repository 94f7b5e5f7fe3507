import WotAv.Native.Ipc
import WotAv.Native.Metadata
import WotAv.Native.Options

/-!
# The data probes of the worker (`rtp_probe`, `rtcp_probe` and `decoded` of `native-media/src/worker.c`)

A probe returns what it does in order: what it hands to `send_data`, the gaps
and events it reports and the failure it records. An `Emission` is what a
descriptor is written from. A track carries what `select_stream` has checked,
an opened worker what `media_options_parse` and `open_native` have
established.
-/

namespace WotAv.Native

open WotAv.Lib WotAv.Media

structure Track where
  id : Nat
  clockRate : Nat
  payloadType : Nat
  incarnation : UInt32 := 1
  timingReported : Bool := false
  seenRtp : Bool := false
  ssrc : Nat := 0
  sequence : Nat := 0
  encodedBytes : Nat := 0
  encodedTimestamp : Nat := 0
  known : 1 ≤ id ∧ id ≤ 4
  clock : 1 ≤ clockRate ∧ clockRate ≤ 192000
  payload : payloadType ≤ 127

structure OpenedWorker where
  session : Nat
  generation : Nat
  options : MediaOptions
  closing : Bool := false
  acceptingData : Bool := true
  playCseq : Nat := 0
  owned : session ≠ 0 ∧ generation ≠ 0
  bounded : options.bounded

structure SenderInfo where
  ssrc : UInt32
  ntp : UInt64
  timestamp : UInt32

def planeWidth (width plane : Nat) : Nat := if plane = 0 then width else (width + 1) / 2
def planeHeight (height plane : Nat) : Nat := if plane = 0 then height else (height + 1) / 2

/-- The rows of a mapped I420 frame, without their padding. -/
structure GstVideoFrame where
  width : Nat
  height : Nat
  row : Nat → Nat → Bytes
  packed : ∀ plane r, (row plane r).length = planeWidth width plane

def GstVideoFrame.pixels (frame : GstVideoFrame) : Bytes :=
  (List.range 3).flatMap fun plane => (List.range (planeHeight frame.height plane)).flatMap (frame.row plane)

inductive Emission
  | rtp (track : Track) (packet : MediaRtp) (receipt : Nat) (data : Bytes)
  | metadata (track : Track) (document : MediaMetadata) (receipt : Nat)
  | senderReport (track : Track) (info : SenderInfo) (now : Nat)
  | video (track : Track) (pts : UInt64) (frame : GstVideoFrame)
  | audio (track : Track) (pts : UInt64) (rate channels : Nat) (bytes : Bytes)

namespace Emission

def kind : Emission → Nat
  | .rtp .. => IpcKind.RTP
  | .metadata .. => IpcKind.METADATA
  | .senderReport .. => IpcKind.RTCP
  | .video .. | .audio .. => IpcKind.DECODED

def bytes : Emission → Bytes
  | .rtp track packet receipt data =>
    beBytes 2 track.id ++ (beBytes 1 packet.payloadType ++ (beBytes 1 (if packet.marker then 1 else 0) ++
      (beBytes 4 packet.ssrc ++ (beBytes 2 packet.sequence ++ (beBytes 1 packet.replayFlags ++
      (beBytes 1 packet.playCseqLow ++ (beBytes 4 packet.timestamp ++ (beBytes 8 (receipt * 1000) ++
      (beBytes 8 packet.ntp ++ (beBytes 4 ((if packet.replayExtension then 1 else 0) |||
        (if packet.jpegProfile ≠ 0 then 2 else 0)) ++ (beBytes 4 data.length ++ data)))))))))))
  | .metadata track document receipt =>
    beBytes 2 track.id ++ (beBytes 2 0 ++ (beBytes 2 document.firstSequence ++ (beBytes 2 document.lastSequence ++
      (beBytes 4 document.ssrc ++ (beBytes 4 document.firstTimestamp ++ (beBytes 4 document.lastTimestamp ++
      (beBytes 8 (receipt * 1000) ++ (beBytes 4 document.xml.length ++ document.xml))))))))
  | .senderReport track info now =>
    beBytes 2 track.id ++ (beBytes 2 0 ++ (beBytes 4 info.ssrc.toNat ++ (beBytes 4 info.timestamp.toNat ++
      (beBytes 8 info.ntp.toNat ++ (beBytes 8 (now * 1000) ++ (beBytes 4 track.clockRate ++
      beBytes 4 track.incarnation.toNat))))))
  | .video track pts frame =>
    beBytes 2 track.id ++ (beBytes 2 track.id ++ (beBytes 4 frame.width ++ (beBytes 4 frame.height ++
      (beBytes 4 0 ++ (beBytes 2 0 ++ (beBytes 2 0 ++ (beBytes 4 1 ++ (beBytes 8 pts.toNat ++
      (beBytes 4 frame.pixels.length ++ frame.pixels)))))))))
  | .audio track pts rate channels bytes =>
    beBytes 2 track.id ++ (beBytes 2 track.id ++ (beBytes 4 0 ++ (beBytes 4 0 ++ (beBytes 4 rate ++
      (beBytes 2 channels ++ (beBytes 2 0 ++ (beBytes 4 (bytes.length / (2 * channels)) ++ (beBytes 8 pts.toNat ++
      (beBytes 4 bytes.length ++ bytes)))))))))

end Emission

inductive Output
  | send (emission : Emission)
  | gap (track : Nat) (code : String)
  | fail (code : String)
  | replayTiming (track ptsNs dtsNs segmentStartNs : Nat)

structure GstBuffer where
  data : Bytes
  pts : Nat
  dts : Nat
  segmentStart : Nat

-- RTP and metadata

/-- The account of the encoded frame under way; `none` beyond `wire_max`. -/
def encodedFrame (wireMax size : Nat) (packet : MediaRtp) (track : Track) : Option Track :=
  if track.id = 3 then some track
  else
    let encodedBytes := if track.encodedTimestamp ≠ packet.timestamp then 0 else track.encodedBytes
    if size > guintSub wireMax encodedBytes then none
    else some { track with encodedTimestamp := packet.timestamp
                           encodedBytes := if packet.marker then 0 else guintAdd encodedBytes size }

def continuity (packet : MediaRtp) (track : Track) : Track × List Output :=
  let seen := { track with seenRtp := true, ssrc := packet.ssrc, sequence := packet.sequence }
  if track.seenRtp ∧ track.ssrc ≠ packet.ssrc then
    ({ seen with incarnation := track.incarnation + 1 }, [.gap track.id "SsrcIncarnationChanged"])
  else if track.seenRtp ∧ packet.sequence ≠ track.sequence ∧ (track.sequence + 1) % 2 ^ 16 ≠ packet.sequence then
    (seen, [.gap track.id "RtpSequenceGap"])
  else (seen, [])

def metadataOutput (track : Track) (receipt : Nat) : MediaMetadata × MediaMeta → List Output
  | (metadata, .complete) => [.send (.metadata track metadata receipt)]
  | (_, .more) => []
  | (_, .gap) => [.gap 3 "MetadataPacketGap"]
  | (_, .limit) => [.gap 3 "MetadataResourceLimit"]
  | (_, .invalid) => [.gap 3 "InvalidMetadataXml"]

/-- The rest of `rtp_probe`, the packet being the stream's. -/
def rtpSend (libraries : Libraries) (worker : OpenedWorker) (track : Track) (rtp : GstRTPBuffer)
    (packet : MediaRtp) (receipt : Nat) (metadata : MediaMetadata) : MediaMetadata × List Output :=
  let rtpOutput : List Output :=
    if worker.options.flags &&& 1 ≠ 0 then [.send (.rtp track packet receipt rtp.data)] else []
  if track.id = 3 then
    let result := metadata.push libraries packet rtp.getPayload receipt
    (result.1, rtpOutput ++ metadataOutput track receipt result)
  else (metadata, rtpOutput)

def rtpProbe (libraries : Libraries) (mapping : RtpMapping) (worker : OpenedWorker) (track : Track)
    (metadata : MediaMetadata) (buffer : GstBuffer) (receipt : Nat) : Track × MediaMetadata × List Output :=
  if worker.closing ∨ ¬worker.acceptingData then (track, metadata, [])
  else if buffer.data.length > 65536 then (track, metadata, [.gap track.id "InvalidOrOversizedRtp"])
  else match mapping.map buffer.data with
    | none => (track, metadata, [.gap track.id "InvalidOrOversizedRtp"])
    | some rtp => match mediaRtpInfo rtp with
      | none => (track, metadata, [.gap track.id "InvalidRtpExtensionOrPayload"])
      | some packet =>
        if packet.payloadType ≠ track.payloadType then
          (track, metadata, [.gap track.id "InvalidRtpExtensionOrPayload"])
        else match encodedFrame worker.options.wireMax rtp.getPayloadLen packet track with
          | none => (track, metadata, [.fail "EncodedFrameLimit"])
          | some track =>
            let timing : List Output :=
              if worker.options.mode ≠ 0 ∧ ¬track.timingReported then
                [.replayTiming track.id buffer.pts buffer.dts buffer.segmentStart]
              else []
            let track := if worker.options.mode ≠ 0 then { track with timingReported := true } else track
            if worker.options.mode ≠ 0 ∧ packet.replayExtension ∧ packet.playCseqLow ≠ worker.playCseq % 256 then
              (track, metadata, timing ++ [.gap track.id "ReplayGenerationMismatch"])
            else
              let (track, gaps) := continuity packet track
              let (metadata, outputs) := rtpSend libraries worker track rtp packet receipt metadata
              (track, metadata, timing ++ gaps ++ outputs)

-- RTCP

/-- `rtcp_probe` over the sender reports of a compound packet, each with the time it is sent. -/
def rtcpProbe (track : Track) (reports : List (SenderInfo × Nat)) : List Output :=
  reports.map fun (info, now) => .send (.senderReport track info now)

-- Decoded frames

inductive GstSample
  | video (bufferSize : Nat) (pts : UInt64) (frame : Option GstVideoFrame)
      (fits : ∀ f, frame = some f → f.pixels.length ≤ bufferSize)
  | audio (bytes : Bytes) (pts : UInt64) (info : Option (Int × Int))

def decodedVideo (worker : OpenedWorker) (track : Track) (bufferSize : Nat) (pts : UInt64)
    (frame : Option GstVideoFrame) : List Output :=
  if worker.closing then []
  else if bufferSize > worker.options.decodedMax then [.fail "DecodedFrameLimit"]
  else match frame with
    | none => [.fail "UnexpectedDecodedVideo"]
    | some frame =>
      if frame.width > worker.options.maxWidth ∨ frame.height > worker.options.maxHeight then
        [.fail "UnexpectedDecodedVideo"]
      else [.send (.video track pts frame)]

def decodedAudio (worker : OpenedWorker) (track : Track) (bytes : Bytes) (pts : UInt64)
    (info : Option (Int × Int)) : List Output :=
  if worker.closing then []
  else if bytes.length > worker.options.decodedMax then [.fail "DecodedFrameLimit"]
  else match info with
    | none => [.fail "UnexpectedDecodedAudio"]
    | some (rate, channels) =>
      if rate ≤ 0 ∨ rate > 96000 ∨ channels ≤ 0 ∨ channels > 8 ∨ bytes.length = 0 ∨
          bytes.length % (2 * channels.toNat) ≠ 0 then [.fail "UnexpectedDecodedAudio"]
      else [.send (.audio track pts rate.toNat channels.toNat bytes)]

/-- `decoded`; the sink of track 1 has video samples, the sink of track 2 audio samples. -/
def decoded (worker : OpenedWorker) (track : Track) : GstSample → List Output
  | .video bufferSize pts frame _ => decodedVideo worker track bufferSize pts frame
  | .audio bytes pts info => decodedAudio worker track bytes pts info

/-- `send_data`, up to what `media_ipc_data` returns. -/
def sendData (worker : OpenedWorker) (emission : Emission) (ipc : MediaIpc) : MediaIpc × DataResult :=
  if worker.closing ∨ ¬worker.acceptingData then (ipc, .dropped)
  else ipc.data emission.kind worker.session worker.generation emission.bytes

end WotAv.Native
