import WotAv.Capture.Native

/-!
# Sizes in the Linux worker (`native/common/bounds.cpp`)

What a layout needs of memory, checked against the limits.
-/

namespace WotAv.Capture.Linux

open WotAv.Lib Native

inductive Domain
  | errno | libjpeg
  deriving DecidableEq, Repr

/-- `Fault`, whose domain is empty where it has no native code. -/
structure Fault where
  code : Code
  native : Option (Domain × Int32) := none

def throw (code : Code) : Except Fault α := .error { code }

def lift (result : Except Code α) : Except Fault α := result.mapError fun code => { code }

-- Layouts

def addSize (a b bound : Nat) : Except Fault Nat :=
  if bound < a ∨ bound - a < b then throw .ResourceLimit else .ok (a + b)

theorem addSize_ok {a b bound n : Nat} (h : addSize a b bound = .ok n) : n = a + b ∧ n ≤ bound := by
  unfold addSize at h
  split at h
  · cases h
  · have := Except.ok.inj h
    omega

def mulSize (a b bound : Nat) : Except Fault Nat :=
  if a ≠ 0 ∧ bound / a < b then throw .ResourceLimit else .ok (a * b)

inductive RawFormat
  | mono8 | rgb8 | yuyv601
  deriving DecidableEq

structure Layout where
  width : Nat
  height : Nat
  stride : Nat
  format : RawFormat

def rowBytes (l : Layout) (limits : Native.Limits) : Except Fault Nat := do
  lift limits.validate
  if l.width = 0 ∨ l.height = 0 ∨ limits.width < l.width ∨ limits.height < l.height then throw .ResourceLimit
  else if l.format = .yuyv601 ∧ l.width % 2 ≠ 0 then throw .UnsupportedFormat
  else mulSize l.width (match l.format with | .rgb8 => 3 | .mono8 => 1 | .yuyv601 => 2) limits.nativeBytes

def layoutExtent (l : Layout) (limits : Native.Limits) : Except Fault Nat := do
  let row ← rowBytes l limits
  if l.stride < row then throw .SourceFailure
  else
    let rows ← mulSize (l.height - 1) l.stride limits.nativeBytes
    addSize rows row limits.nativeBytes

end WotAv.Capture.Linux
