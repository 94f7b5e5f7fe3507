import WotAv.Native.Metadata

/-!
# JPEG headers of an ONVIF profile (`native-media/src/jpeg.c`)

The extension headers of the packets of a frame replace the headers of the
JPEG that the depayloader made. Every read goes through `Reading`, which knows
where the buffer ends: `outside` is a read that C would make anywhere. The
loops run on a fuel that they do not use up.
-/

namespace WotAv.Native

open WotAv.Lib

/-- What `media_jpeg_push` and `media_jpeg_rewrite` return. -/
inductive MediaJpegStatus
  | legacy
  | more
  | complete
  | invalid
  | limit
  | unsupported
  deriving DecidableEq, Repr

structure MediaJpeg where
  headers : Bytes := []
  ssrc : Nat := 0
  timestamp : Nat := 0
  sequence : Nat := 0
  active : Bool := false
  complete : Bool := false

def mediaJpegHeaderMax : Nat := 65536

namespace MediaJpeg

def reset (state : MediaJpeg) : MediaJpeg := { state with active := false, complete := false, headers := [] }

/-- The rest of `media_jpeg_push`, for a packet of the frame. -/
def extend (state : MediaJpeg) (packet : MediaRtp) : MediaJpeg × MediaJpegStatus :=
  if packet.jpegExtension.length > guintSub mediaJpegHeaderMax state.headers.length then (state, .limit)
  else
    ({ state with
        headers := state.headers ++ packet.jpegExtension
        ssrc := packet.ssrc, timestamp := packet.timestamp, sequence := packet.sequence, complete := packet.marker },
      if packet.marker then .complete else .more)

def push (state : MediaJpeg) (packet : MediaRtp) : MediaJpeg × MediaJpegStatus :=
  if ¬state.active ∨ state.complete ∨ state.ssrc ≠ packet.ssrc ∨ state.timestamp ≠ packet.timestamp then
    if packet.jpegProfile = 0 then (state.reset, .legacy)
    else if packet.jpegProfile ≠ 0xffd8 then (state.reset, .invalid)
    else { state.reset with active := true }.extend packet
  else if (state.sequence + 1) % 2 ^ 16 ≠ packet.sequence ∨ packet.jpegProfile ≠ 0xffff then (state, .invalid)
  else state.extend packet

end MediaJpeg

-- Reads

/-- Why a function of `jpeg.c` stops: the status it returns, or a read outside the buffer. -/
inductive JpegFault
  | status (status : MediaJpegStatus)
  | outside
  deriving DecidableEq, Repr

abbrev Reading := Except JpegFault

def stop (status : MediaJpegStatus) : Reading α := .error (.status status)

def copy (bytes : Bytes) (offset length : Nat) : Reading Bytes :=
  if offset + length ≤ bytes.length then .ok ((bytes.drop offset).take length) else .error .outside

def read8 (bytes : Bytes) (offset : Nat) : Reading Nat := do
  let read ← copy bytes offset 1
  return beNat read

def read16 (bytes : Bytes) (offset : Nat) : Reading Nat := do
  let read ← copy bytes offset 2
  return beNat read

-- Segments

structure JpegSegment where
  key : Nat
  bytes : Bytes
  deriving DecidableEq, Repr

/-- `add_segment`, up to the array that it adds to. -/
def addSegment (code key : Nat) (body : Bytes) : JpegSegment where
  key := code <<< 8 ||| key
  bytes := beBytes 1 0xff ++ (beBytes 1 code ++ (beBytes 2 (body.length + 2) ++ body))

/-- What the loop of `segments` keeps between two turns. -/
structure JpegHeaders where
  out : List JpegSegment := []
  tail : Nat := 0
  width : Nat := 0
  height : Nat := 0
  haveSof : Bool := false

/-- The `count` of a table at `offset`, whose segment has `left` bytes from there. -/
def tableCount (bytes : Bytes) (code offset left index : Nat) : Reading Nat :=
  if code = 0xdb then .ok (1 + 64 * (1 + index >>> 4))
  else if left < 17 then stop .invalid
  else do
    let counts ← copy bytes (offset + 1) 16
    let count := 17 + (counts.map UInt8.toNat).sum
    if count > 273 then stop .invalid else .ok count

/-- The loop over the tables of a segment, whose body is at `body`. -/
def tables (bytes : Bytes) (code body size : Nat) : Nat → Nat → List JpegSegment → Reading (List JpegSegment)
  | 0, _, _ => .error .outside
  | fuel + 1, consumed, out =>
    if consumed < size then do
      let index ← read8 bytes (body + consumed)
      if index &&& 15 > 3 ∨ index >>> 4 > 1 then stop .unsupported
      else do
        let count ← tableCount bytes code (body + consumed) (guintSub size consumed) index
        if count > guintSub size consumed then stop .invalid
        else do
          let table ← copy bytes (body + consumed) count
          let key := if code = 0xdb then index &&& 15 else index
          tables bytes code body size fuel (consumed + count) (out ++ [addSegment code key table])
    else if consumed = 0 then stop .invalid
    else .ok out

def frameHeader (bytes : Bytes) (body size : Nat) (h : JpegHeaders) : Reading JpegHeaders :=
  if h.haveSof ∨ size < 6 then stop .unsupported
  else do
    let precision ← read8 bytes body
    let components ← read8 bytes (body + 5)
    if precision ≠ 8 ∨ components ≠ 3 ∨ size ≠ 6 + 3 * components then stop .unsupported
    else do
      let height ← read16 bytes (body + 1)
      let width ← read16 bytes (body + 3)
      let first ← read8 bytes (body + 6)
      let second ← read8 bytes (body + 9)
      let third ← read8 bytes (body + 12)
      if width = 0 ∨ height = 0 ∨ first = second ∨ first = third ∨ second = third then stop .invalid
      else do
        let header ← copy bytes body size
        return { h with width, height, haveSof := true, out := h.out ++ [addSegment 0xc0 0 header] }

/-- One turn of `segments`, from the body of the segment on. -/
def segment (bytes : Bytes) (code body size : Nat) (h : JpegHeaders) : Reading JpegHeaders :=
  if code = 0xdb ∨ code = 0xc4 then do
    let out ← tables bytes code body size (size + 1) 0 h.out
    return { h with out }
  else if code = 0xc0 then frameHeader bytes body size h
  else if (0xe0 ≤ code ∧ code ≤ 0xef) ∨ code = 0xfe ∨ (code = 0xdd ∧ size = 2) then do
    let content ← copy bytes body size
    return { h with out := h.out ++ [addSegment code 0 content] }
  else stop .unsupported

def fillBytes (bytes : Bytes) (length offset : Nat) : Nat :=
  (((bytes.take length).drop offset).takeWhile (· = 0xff)).length

def segmentsFrom (bytes : Bytes) (length : Nat) (extension : Bool) : Nat → Nat → JpegHeaders → Reading JpegHeaders
  | 0, _, _ => .error .outside
  | fuel + 1, offset, h =>
    if offset < length then do
      let first ← read8 bytes offset
      if first ≠ 0xff then stop .invalid
      else
        let marker := offset + fillBytes bytes length offset
        if marker = length then if extension then .ok h else stop .invalid
        else do
          let code ← read8 bytes marker
          let offset := marker + 1
          if code = 0xda ∧ ¬extension then
            if h.haveSof then .ok { h with tail := marker - 1 } else stop .invalid
          else if guintSub length offset < 2 then stop .invalid
          else do
            let size ← read16 bytes offset
            if size < 2 ∨ size > guintSub length offset then stop .invalid
            else do
              let h ← segment bytes code (offset + 2) (size - 2) h
              if h.out.length > 256 then stop .limit
              else segmentsFrom bytes length extension fuel (offset + size) h
    else if extension then .ok h
    else stop .invalid

def segments (bytes : Bytes) (length : Nat) (extension : Bool) : Reading JpegHeaders :=
  if extension then segmentsFrom bytes length true (length + 1) 0 {}
  else if length < 2 then stop .invalid
  else do
    let soi ← read16 bytes 0
    if soi ≠ 0xffd8 then stop .invalid else segmentsFrom bytes length false (length + 1) 2 {}

-- Rewriting

def componentIds (headers : List JpegSegment) : Reading (Option Bytes) :=
  match headers.find? (·.key = 0xc000) with
  | none => .ok none
  | some segment => do
    let first ← copy segment.bytes 10 1
    let second ← copy segment.bytes 13 1
    let third ← copy segment.bytes 16 1
    return some (first ++ (second ++ third))

def overrideKeys : List JpegSegment → List Nat → Reading (List Nat)
  | [], keys => .ok keys
  | segment :: overrides, keys =>
    if segment.key ∈ keys ∧ segment.key >>> 8 < 0xe0 then stop .invalid
    else overrideKeys overrides (keys ++ [segment.key])

/-- The loop that appends the native segments and the overrides; whether a segment is native. -/
def appendSegments (maximum : Nat) (keys : List Nat) : List (JpegSegment × Bool) → Bytes → Reading Bytes
  | [], result => .ok result
  | (segment, isNative) :: rest, result =>
    if isNative ∧ segment.key ∈ keys then appendSegments maximum keys rest result
    else if segment.bytes.length > guintSub maximum result.length then stop .limit
    else appendSegments maximum keys rest (result ++ segment.bytes)

/-- The loop over the selectors of the scan, which starts at `scan` of the result. -/
def selectors (nativeIds outputIds : Bytes) (scan : Nat) : List Nat → Bytes → Reading Bytes
  | [], result => .ok result
  | i :: rest, result => do
    let selector ← copy result (scan + 5 + 2 * i) 1
    match (List.range 3).find? fun component => (nativeIds.drop component).take 1 = selector with
    | none => stop .invalid
    | some component => do
      let id ← copy outputIds component 1
      selectors nativeIds outputIds scan rest
        (result.take (scan + 5 + 2 * i) ++ (id ++ result.drop (scan + 5 + 2 * i + 1)))

structure JpegOutput where
  bytes : Bytes
  width : Nat
  height : Nat
  deriving DecidableEq, Repr

def assemble (input : Bytes) (maximum : Nat) (native overrides : JpegHeaders) : Reading Bytes := do
  let keys ← overrideKeys overrides.out []
  let result ← appendSegments maximum keys (native.out.map (·, true) ++ overrides.out.map (·, false)) [0xff, 0xd8]
  if input.length - native.tail > guintSub maximum result.length then stop .limit
  else if input.length - native.tail < 14 then stop .invalid
  else do
    let size ← read16 input (native.tail + 2)
    let components ← read8 input (native.tail + 4)
    let nativeIds ← componentIds native.out
    match nativeIds with
    | none => stop .invalid
    | some nativeIds =>
      if size ≠ 12 ∨ components ≠ 3 then stop .invalid
      else do
        let outputIds ← componentIds overrides.out
        let scan ← copy input native.tail (input.length - native.tail)
        selectors nativeIds (outputIds.getD nativeIds) result.length [0, 1, 2] (result ++ scan)

/-- `media_jpeg_rewrite`; whether the input buffer can be mapped. -/
def MediaJpeg.rewrite (state : MediaJpeg) (input : Bytes) (mapped : Bool) (maximum maxWidth maxHeight : Nat) :
    Reading JpegOutput :=
  if ¬state.active ∨ ¬state.complete then stop .invalid
  else if input.length > maximum then stop .limit
  else if ¬mapped then stop .invalid
  else do
    let overrides ← segments state.headers state.headers.length true
    let native ← segments input input.length false
    let width := if overrides.width = 0 then native.width else overrides.width
    let height := if overrides.width = 0 then native.height else overrides.height
    if width > maxWidth ∨ height > maxHeight then stop .limit
    else do
      let bytes ← assemble input maximum native overrides
      return ⟨bytes, width, height⟩

end WotAv.Native
