import WotAv.Binding.Errors
import WotAv.Lib.Bytes
import WotAv.Lib.Incremental
import WotAv.Lib.Utf8

/-!
# IPC envelopes and the frame decoder (`src/media/ipc.ts`)

`IpcFrameDecoder.push` is the loop of the source: a turn copies what the
chunk has of the header or of the payload, checks the header when its last
byte arrives and hands on a frame when its last payload byte arrives. The
two buffers are modelled by the bytes copied so far, so `headerBytes` and
`payloadBytes` are their lengths.
-/

namespace WotAv.Media

open WotAv.Lib WotAv.Binding

def MEDIA_PROTOCOL_VERSION : Nat := 2
def MEDIA_HEADER_BYTES : Nat := 24
def MEDIA_CONTROL_MAX : Nat := 65536
def MEDIA_DATA_MAX : Nat := 64 * 1024 * 1024 + 64

namespace IpcKind
def OPEN : Nat := 1
def CLOSE : Nat := 2
def PAUSE : Nat := 3
def PLAY : Nat := 4
def SEEK : Nat := 5
def CREDIT : Nat := 6
def SECURITY : Nat := 0x10
def BACKCHANNEL : Nat := 0x1001
def HELLO : Nat := 0x8001
def READY : Nat := 0x8002
def CLOSED : Nat := 0x8003
def ERROR : Nat := 0x8004
def RESPONSE : Nat := 0x8005
def GAP : Nat := 0x8006
def DIAGNOSTIC : Nat := 0x8007
def CONTROL : Nat := 0x8008
def END : Nat := 0x8009
def RTP : Nat := 0x9001
def DECODED : Nat := 0x9002
def METADATA : Nat := 0x9003
def RTCP : Nat := 0x9004
end IpcKind

structure IpcFrame where
  kind : Nat
  session : Nat
  generation : Nat
  sequence : Nat
  payload : Bytes
  deriving DecidableEq, Repr

def uint (value : Number) (maximum : Nat) : Except OnvifError Nat :=
  match integerWithin 0 maximum value with
  | some n => .ok n
  | none => invalidValue "Invalid native IPC integer"

def magic : Bytes := [0x4f, 0x4d, 0x50, 0x47]

def encodeEnvelope (kind session generation sequence : Number) (payload : Bytes := []) :
    Except OnvifError Bytes := do
  if payload.length > MEDIA_DATA_MAX then
    invalidValue "Native IPC payload exceeds its bound"
  else
    let kind ← uint kind 0xffff
    let session ← uint session 0xffffffff
    let generation ← uint generation 0xffffffff
    let sequence ← uint sequence 0xffffffff
    return magic ++ (beBytes 2 MEDIA_PROTOCOL_VERSION ++ (beBytes 2 kind ++ (beBytes 4 session ++
      (beBytes 4 generation ++ (beBytes 4 sequence ++ (beBytes 4 payload.length ++ payload))))))

def IpcFrame.encode (f : IpcFrame) : Except OnvifError Bytes :=
  encodeEnvelope f.kind f.session f.generation f.sequence f.payload

/-- A string that is not well-formed Unicode is no `String` here. -/
def ipcString (value : String) (maximum : Nat) (label : String) : Except OnvifError Bytes := do
  require (∀ ch ∈ value.toList, ch.toNat ≠ 0) .invalidConfiguration ("Invalid " ++ label)
  require ((utf8 value).length ≤ min maximum 65535) .invalidConfiguration ("Invalid UTF-8 or excessive " ++ label)
  return beBytes 2 (utf8 value).length ++ utf8 value

inductive Channel
  | control
  | data
  deriving DecidableEq, Repr

def Channel.admits : Channel → Nat → Bool
  | .control, kind => !(kind < IpcKind.HELLO || kind > IpcKind.END)
  | .data, kind => !(kind < IpcKind.RTP || kind > IpcKind.RTCP)

def Channel.limit : Channel → Nat
  | .control => MEDIA_CONTROL_MAX
  | .data => MEDIA_DATA_MAX

structure IpcFrameDecoder where
  channel : Channel
  maximum : Nat
  /-- The first `headerBytes` bytes of the header buffer. -/
  header : Bytes := []
  /-- The size of the payload buffer, once the header has allocated it. -/
  payload : Option Nat := none
  /-- The first `payloadBytes` bytes of the payload buffer. -/
  received : Bytes := []
  partialAt : Option Nat := none
  ended : Bool := false
  deriving DecidableEq, Repr

namespace IpcFrameDecoder

def make (channel : Channel) (maximum : Option Number) : Except OnvifError IpcFrameDecoder := do
  let maximum ← positiveInteger (maximum.getD channel.limit) "IPC payload limit" channel.limit
  return { channel, maximum }

def bufferedBytes (d : IpcFrameDecoder) : Nat := d.header.length + d.received.length

def checkHeader (channel : Channel) (maximum : Nat) (header : Bytes) : Except OnvifError Nat :=
  if header.take 4 ≠ magic then invalidValue "Invalid native IPC magic"
  else if readBE 2 4 header ≠ MEDIA_PROTOCOL_VERSION then
    .error ⟨.unsupportedCapability, "Native media requires IPC version 2; no legacy fallback", .notSent⟩
  else if !channel.admits (readBE 2 6 header) then
    .error ⟨.unsupportedCapability, "Unexpected native IPC message kind or channel", .notSent⟩
  else if readBE 4 20 header = 0 ∨ readBE 4 20 header > maximum then
    invalidValue "Invalid native IPC payload length"
  else .ok (readBE 4 20 header)

def frameOf (header payload : Bytes) : IpcFrame where
  kind := readBE 2 6 header
  session := readBE 4 8 header
  generation := readBE 4 12 header
  sequence := readBE 4 16 header
  payload := payload

def reset (d : IpcFrameDecoder) : IpcFrameDecoder :=
  { d with header := [], received := [], payload := none, partialAt := none }

def touch (now : Nat) (d : IpcFrameDecoder) : IpcFrameDecoder :=
  { d with partialAt := some (d.partialAt.getD now) }

/-- How a turn of the loop ends: with the rest of the chunk to go on with,
after a frame for the callback or not, or with the error it throws. -/
inductive Turn
  | next (decoder : IpcFrameDecoder) (rest : Bytes)
  | accept (decoder : IpcFrameDecoder) (frame : IpcFrame) (rest : Bytes)
  | throw (decoder : IpcFrameDecoder) (error : OnvifError)

def payloadTurn (d : IpcFrameDecoder) (chunk : Bytes) : Turn :=
  match d.payload with
  | none => .throw d ⟨.invalidValue, "Native IPC parser lost its frame descriptor", .notSent⟩
  | some size =>
    let count := min (size - d.received.length) chunk.length
    let d := { d with received := d.received ++ chunk.take count }
    if d.received.length ≠ size then .next d (chunk.drop count)
    else .accept d.reset (frameOf d.header d.received) (chunk.drop count)

/-- One turn of the `while` loop of `push`, on a chunk that is not used up. -/
def turn (now : Nat) (d : IpcFrameDecoder) (chunk : Bytes) : Turn :=
  let d := d.touch now
  if d.header.length < MEDIA_HEADER_BYTES then
    let count := min (MEDIA_HEADER_BYTES - d.header.length) chunk.length
    let d := { d with header := d.header ++ chunk.take count }
    if d.header.length < MEDIA_HEADER_BYTES then .next d (chunk.drop count)
    else match checkHeader d.channel d.maximum d.header with
      | .error e => .throw d e
      | .ok size => payloadTurn { d with payload := some size } (chunk.drop count)
  else payloadTurn d chunk

/-- The `while` loop: at most `fuel` turns. A turn of a well-formed decoder
uses up a byte, so the chunk's length is enough (`push_eq_feedAll`). -/
def pushLoop (now : Nat) : Nat → IpcFrameDecoder → Bytes → Fed IpcFrameDecoder IpcFrame OnvifError
  | 0, d, _ => .done d
  | _, d, [] => .done d
  | fuel + 1, d, b :: chunk =>
    match turn now d (b :: chunk) with
    | .next d rest => pushLoop now fuel d rest
    | .accept d frame rest => Fed.andThen ⟨d, [frame], none⟩ fun d => pushLoop now fuel d rest
    | .throw d error => ⟨d, [], some error⟩

/-- `push(chunk, accept)`: the frames handed to `accept`, and what it throws.
`now` is what `Date.now()` returns during the call. -/
def push (now : Nat) (d : IpcFrameDecoder) (chunk : Bytes) :
    Fed IpcFrameDecoder IpcFrame OnvifError :=
  if d.ended then ⟨d, [], some ⟨.invalidValue, "Native IPC data after EOF", .notSent⟩⟩
  else pushLoop now chunk.length d chunk

def end_ (d : IpcFrameDecoder) : IpcFrameDecoder × Except OnvifError Unit :=
  ({ d with ended := true },
    if d.bufferedBytes ≠ 0 then .error ⟨.transportError, "Truncated native IPC frame", .unknown⟩
    else .ok ())

end IpcFrameDecoder

end WotAv.Media
