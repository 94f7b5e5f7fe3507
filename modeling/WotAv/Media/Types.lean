import WotAv.Lib.Bytes

/-!
# Media types (`src/media/types.ts`)

The records that the session, the descriptors and the policy share. A
`bigint` is a natural number, a `Buffer` its bytes.
-/

namespace WotAv.Media

open WotAv.Lib

structure MediaLimits where
  wireBytes : Nat
  inflatedBytes : Nat
  metadataDeadlineMs : Nat
  queueBytes : Nat
  queueUnits : Nat
  maxSubscribers : Nat
  maxWidth : Nat
  maxHeight : Nat
  decodedBytes : Nat
  closeTimeoutMs : Nat
  killTimeoutMs : Nat
  controlTimeoutMs : Nat
  partialFrameTimeoutMs : Nat
  stderrBytes : Nat
  deriving DecidableEq, Repr

structure MediaUnit where
  track : Nat
  generation : Nat
  sequence : Nat
  deriving DecidableEq, Repr

structure MediaRtpPacket extends MediaUnit where
  payloadType : Nat
  marker : Bool
  ssrc : Nat
  rtpSequence : Nat
  rtpTimestamp : Nat
  receiptMonoNs : Nat
  replayNtp : Nat
  replayFlags : Nat
  playCseqLow : Nat
  replayExtension : Bool
  jpegExtension : Bool
  bytes : Bytes
  deriving DecidableEq, Repr

structure MediaSenderReport extends MediaUnit where
  ssrc : Nat
  rtpTimestamp : Nat
  ntp : Nat
  receiptMonoNs : Nat
  clockRate : Nat
  incarnation : Nat
  deriving DecidableEq, Repr

inductive DecodedFormat
  | I420
  | S16LE
  deriving DecidableEq, Repr

structure MediaDecodedFrame extends MediaUnit where
  format : DecodedFormat
  width : Nat
  height : Nat
  sampleRate : Nat
  channels : Nat
  count : Nat
  ptsNs : Option Nat
  bytes : Bytes
  deriving DecidableEq, Repr

structure NativeMetadataDocument extends MediaUnit where
  firstRtpSequence : Nat
  lastRtpSequence : Nat
  ssrc : Nat
  firstRtpTimestamp : Nat
  lastRtpTimestamp : Nat
  receiptMonoNs : Nat
  xml : Bytes
  deriving DecidableEq, Repr

inductive NativeMediaUnit
  | rtp (packet : MediaRtpPacket)
  | senderReport (report : MediaSenderReport)
  | decoded (frame : MediaDecodedFrame)
  | metadata (document : NativeMetadataDocument)
  deriving DecidableEq, Repr

def NativeMediaUnit.unit : NativeMediaUnit → MediaUnit
  | .rtp packet => packet.toMediaUnit
  | .senderReport report => report.toMediaUnit
  | .decoded frame => frame.toMediaUnit
  | .metadata document => document.toMediaUnit

end WotAv.Media
