import WotAv.Capture.Linux
import WotAv.Capture.Windows
import WotAv.Lib.Arrays

/-!
# Copies of frames (`native/common/bounds.cpp`, `uvc/windows/capture.cpp`)

`copy_rows`, `to_rgb` and `to_i420`, and `BufferLock` and `copy_bgr`, with
every access of an array.
-/

namespace WotAv.Capture

open WotAv.Lib WotAv.Lib.Access Native

/-- What the driver has mapped; `none` is a null pointer. -/
abbrev Mapped := Option Bytes

-- `bounds.cpp`

namespace Bounds

open Linux

def copyRows (data : Mapped) (l : Layout) (limits : Native.Limits) : Access Fault Bytes := do
  let row ← thrown (rowBytes l limits)
  let extent ← thrown (layoutExtent l limits)
  match data with
  | none => thrown (Linux.throw .SourceFailure)
  | some data =>
    if data.length < extent ∨ limits.nativeBytes < data.length then thrown (Linux.throw .SourceFailure)
    else
      let size ← thrown (mulSize row l.height limits.nativeBytes)
      assign ((List.range l.height).flatMap fun y => (List.range row).map fun i =>
        ⟨y * row + i, fetch data (y * l.stride + i)⟩) (List.replicate size 0)

def channel (luma u v : UInt8) (k : Nat) : UInt8 :=
  let u : Int := u.toNat - 128
  let v : Int := v.toNat - 128
  let y : Int := max 0 ((luma.toNat : Int) - 16)
  if k = 0 then clamp ((298 * y + 409 * v + 128).tdiv 256)
  else if k = 1 then clamp ((298 * y - 100 * u - 208 * v + 128).tdiv 256)
  else clamp ((298 * y + 516 * u + 128).tdiv 256)

def pairPixel (packed : Bytes) (i p k : Nat) : Assignment Fault UInt8 where
  index := 3 * (i + p) + k
  value := do
    let u ← fetch packed (2 * i + 1)
    let v ← fetch packed (2 * i + 3)
    let luma ← fetch packed (2 * i + 2 * p)
    return channel luma u v k

def toRgb (packed : Bytes) (w h : Nat) (format : RawFormat) (limits : Native.Limits) : Access Fault Bytes := do
  let row ← thrown (rowBytes ⟨w, h, 0, format⟩ limits)
  let size ← thrown (mulSize row h limits.nativeBytes)
  if packed.length ≠ size then thrown (Linux.throw .SourceFailure)
  else if format = .rgb8 then return packed
  else
    let n ← thrown (mulSize w h limits.nativeBytes)
    let size ← thrown (mulSize n 3 limits.nativeBytes)
    let out := List.replicate size 0
    if format = .mono8 then
      assign ((List.range n).flatMap fun i => [2, 1, 0].map fun k => ⟨3 * i + k, fetch packed i⟩) out
    else
      assign ((List.range ((n + 1) / 2)).flatMap fun j => (List.range 2).flatMap fun p => (List.range 3).map fun k =>
        pairPixel packed (2 * j) p k) out

def pixelAt (rgb : Bytes) (i : Nat) : Access Fault Pixel := do
  let red ← fetch rgb i
  let green ← fetch rgb (i + 1)
  let blue ← fetch rgb (i + 2)
  return ⟨red.toNat, green.toNat, blue.toNat⟩

/-- Where the pixels of a block start, from the row `y` and the column `x`. -/
def blockIndices (w h x y : Nat) : List Nat :=
  (List.range 2).flatMap fun dy => (List.range 2).filterMap fun dx =>
    if y + dy < h ∧ x + dx < w then some (((y + dy) * w + x + dx) * 3) else none

def mean (block : List Pixel) : Pixel :=
  let count : Int := block.length
  let mean := fun sum : Int => (sum + count / 2) / count
  ⟨mean (block.map (·.red)).sum, mean (block.map (·.green)).sum, mean (block.map (·.blue)).sum⟩

def blockAt (rgb : Bytes) (w h x y : Nat) : Access Fault Pixel := do
  let block ← (blockIndices w h x y).mapM (pixelAt rgb)
  return mean block

def toI420 (rgb : Bytes) (w h : Nat) (limits : Native.Limits) : Access Fault Bytes := do
  let row ← thrown (rowBytes ⟨w, h, 0, .rgb8⟩ limits)
  let size ← thrown (mulSize row h limits.nativeBytes)
  if rgb.length ≠ size then thrown (Linux.throw .SourceFailure)
  else
    let ysize ← thrown (mulSize w h limits.frameBytes)
    let cw := (w + 1) / 2
    let ch := (h + 1) / 2
    let csize ← thrown (mulSize cw ch limits.frameBytes)
    let both ← thrown (mulSize csize 2 limits.frameBytes)
    let size ← thrown (addSize ysize both limits.frameBytes)
    assign (((List.range h).flatMap fun y => (List.range w).map fun x =>
        ⟨y * w + x, return (← pixelAt rgb ((y * w + x) * 3)).luma⟩) ++
      (List.range ch).flatMap fun cy => (List.range cw).flatMap fun cx =>
        [⟨ysize + (cy * cw + cx), return (← blockAt rgb w h (2 * cx) (2 * cy)).u⟩,
          ⟨ysize + csize + (cy * cw + cx), return (← blockAt rgb w h (2 * cx) (2 * cy)).v⟩]) (List.replicate size 0)

end Bounds

-- `capture.cpp`

namespace Windows

def E_NOINTERFACE : Hresult := 0x80004002

/-- `start`, with what its lock says of the length. -/
structure Mapping where
  start : Mapped
  length : Nat
  sized : ∀ bytes, start = some bytes → bytes.length = length

/-- A buffer that is locked; `row` points to a place from `start`. -/
structure Locked where
  mapping : Mapping
  row : Option Int
  stride : Int

/-- What a buffer answers, with its lock in two dimensions and in one. -/
structure MediaBuffer where
  currentLength : Except Hresult Nat
  twoD : Except Hresult (Except Hresult Locked)
  lock : Except Hresult Mapping
  unlock : Except Hresult Unit

def bufferLock (buffer : MediaBuffer) (mode : Mode) (limits : Native.Limits) : Except Fault Locked := do
  let current ← check buffer.currentLength
  require (current ≠ 0 ∧ current ≤ limits.nativeBytes) .ResourceLimit
  let offset := if mode.stride < 0 then mode.stride.natAbs * (mode.height - 1) else 0
  require (offset ≤ current) .UnsupportedFormat
  match buffer.twoD with
  | .ok locked => check locked
  | .error hr =>
    if hr = E_NOINTERFACE then
      let mapping ← check buffer.lock
      return { mapping, row := some (if mode.stride < 0 then offset else 0), stride := mode.stride }
    else check (.error hr)

/-- `line`: where the row starts, from `start`. -/
def line (bytes : Bytes) (top stride : Int) (y size : Nat) (plane : Int := 0) : Except Fault Nat := do
  require (0 ≤ top ∧ top ≤ bytes.length) .UnsupportedFormat
  let offset := top + stride * y + plane
  require (0 ≤ offset ∧ offset.toNat + size ≤ bytes.length) .UnsupportedFormat
  return offset.toNat

def yuv (y u v : UInt8) (k : Nat) : UInt8 :=
  let c : Int := y.toNat - 16
  let d : Int := u.toNat - 128
  let e : Int := v.toNat - 128
  if k = 0 then clamp ((298 * c + 516 * d + 128) / 256)
  else if k = 1 then clamp ((298 * c - 100 * d - 208 * e + 128) / 256)
  else clamp ((298 * c + 409 * e + 128) / 256)

/-- A channel of the pixel in column `x`, of a line, and of the one with its
chroma. -/
def channelOf (subtype : Guid) (bytes : Bytes) (source uv x k : Nat) : Access Fault UInt8 := do
  if subtype = MFVideoFormat_RGB32 then fetch bytes (source + x * 4 + k)
  else if subtype = MFVideoFormat_YUY2 then
    let pair := x / 2 * 4
    let y ← fetch bytes (source + (pair + x % 2 * 2))
    let u ← fetch bytes (source + (pair + 1))
    let v ← fetch bytes (source + (pair + 3))
    return yuv y u v k
  else
    let y ← fetch bytes (source + x)
    let u ← fetch bytes (uv + x / 2 * 2)
    let v ← fetch bytes (uv + (x / 2 * 2 + 1))
    return yuv y u v k

def lineBytes (mode : Mode) : Nat :=
  mode.width * if mode.subtype = MFVideoFormat_RGB32 then 4 else if mode.subtype = MFVideoFormat_YUY2 then 2 else 1

def pixelOf (bytes : Bytes) (top stride : Int) (mode : Mode) (y x k : Nat) : Access Fault UInt8 := do
  let source ← thrown (line bytes top stride y (lineBytes mode))
  let uv ← thrown (if mode.subtype = MFVideoFormat_NV12 then
    line bytes top stride (y / 2) mode.width (stride * mode.height) else .ok 0)
  channelOf mode.subtype bytes source uv x k

structure SampleBuffers where
  bufferCount : Except Hresult Nat
  totalLength : Except Hresult Nat
  buffer : Except Hresult MediaBuffer

def copyBgr (sample : SampleBuffers) (mode : Mode) (limits : Native.Limits) : Access Fault Bytes := do
  thrown (limits.validate.mapError fun code => { code })
  thrown (geometry mode limits)
  let count ← thrown (check sample.bufferCount)
  let total ← thrown (check sample.totalLength)
  thrown (require (count ≠ 0 ∧ total ≤ limits.nativeBytes) .ResourceLimit)
  thrown (require (count = 1) .UnsupportedFormat)
  let buffer ← thrown (check sample.buffer)
  let locked ← thrown (bufferLock buffer mode limits)
  thrown (require (locked.mapping.length ≤ limits.nativeBytes) .ResourceLimit)
  match locked.row, locked.mapping.start with
  | some top, some bytes =>
    thrown (require (locked.mapping.length ≠ 0) .UnsupportedFormat)
    thrown (geometry { mode with stride := locked.stride } limits)
    let out ← assign ((List.range mode.height).flatMap fun y => (List.range mode.width).flatMap fun x =>
      (List.range 3).map fun k => ⟨y * mode.width * 3 + x * 3 + k, pixelOf bytes top locked.stride mode y x k⟩)
      (List.replicate (mode.width * mode.height * 3) 0)
    thrown (check buffer.unlock)
    return out
  | _, _ => thrown (throw .UnsupportedFormat)

end Windows

end WotAv.Capture
