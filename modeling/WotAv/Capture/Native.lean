import WotAv.Capture.Session

/-!
# What the native workers share

The Linux and the Windows worker have a copy each of what is here
(`native/common/bounds.cpp`, `native/linux/worker.cpp`,
`uvc/windows/capture.cpp`, `uvc/windows/worker.cpp`); where the copies differ
there is a parameter. A `std::string` is a string and its bytes are its UTF-8.
-/

namespace WotAv.Capture.Native

open WotAv.Lib

def decimal (n : Int) : String := String.ofList (intChars n)

-- Limits

structure Limits where
  width : Nat := 4096
  height : Nat := 4096
  nativeBytes : Nat := 33554432
  frameBytes : Nat := 16777216
  readMs : Nat := 2000

def Limits.validate (limits : Limits) : Except Code Unit :=
  if limits.width = 0 ∨ 4096 < limits.width ∨ limits.height = 0 ∨ 4096 < limits.height ∨ limits.nativeBytes = 0 ∨
      33554432 < limits.nativeBytes ∨ limits.frameBytes = 0 ∨ 16777216 < limits.frameBytes ∨ limits.readMs = 0 ∨
      2000 < limits.readMs then .error .ResourceLimit
  else .ok ()

-- Images of three planes

def clamp (n : Int) : UInt8 := UInt8.ofNat (max 0 (min 255 n)).toNat

structure Pixel where
  red : Int
  green : Int
  blue : Int

def Pixel.luma (p : Pixel) : UInt8 := clamp ((66 * p.red + 129 * p.green + 25 * p.blue + 128) / 256 + 16)
def Pixel.u (p : Pixel) : UInt8 := clamp ((-38 * p.red - 74 * p.green + 112 * p.blue + 128) / 256 + 128)
def Pixel.v (p : Pixel) : UInt8 := clamp ((112 * p.red - 94 * p.green - 18 * p.blue + 128) / 256 + 128)

/-- The mean of a block of two by two pixels, of which those outside the image
are missing; half the count is added before the division, or not. -/
def blockMean (rounded : Bool) (pixel : Nat → Nat → Pixel) (width height cx cy : Nat) : Pixel :=
  let block := (List.range 2).flatMap fun dy => (List.range 2).filterMap fun dx =>
    if 2 * cy + dy < height ∧ 2 * cx + dx < width then some (pixel (2 * cx + dx) (2 * cy + dy)) else none
  let count : Int := block.length
  let mean := fun sum : Int => (sum + if rounded then count / 2 else 0) / count
  ⟨mean (block.map (·.red)).sum, mean (block.map (·.green)).sum, mean (block.map (·.blue)).sum⟩

end WotAv.Capture.Native
