import WotAv.Capture.Fault
import WotAv.Lib.Incremental
import WotAv.Lib.Utf8

/-!
# The capture adapter (`adapters/src/backend.cjs`)

The limits of the adapter, and what it takes the mode of a device to be.
`Math` on its integers is exact.
-/

namespace WotAv.Capture

open WotAv.Lib
open WotAv.Lib.Json (get)

def integer (value : Value) : Option Int :=
  match value with
  | .number q => if q.den = 1 then some q.num else none
  | _ => none

-- Limits

inductive LimitKey
  | maxWidth | maxHeight | maxNativePayloadBytes | maxFrameBytes | maxQueuedFrames | maxQueuedBytes | maxSubscribers
  | maxInFlightFramesPerSubscriber | maxCachedJpegs | openDeadlineMs | readDeadlineMs | closeDeadlineMs
  | maxSnapshotAgeMs
  deriving DecidableEq, Repr

/-- `DEFAULT_LIMITS`, which are the largest ones too. -/
def LimitKey.maximum : LimitKey → Nat
  | .maxWidth => 4096
  | .maxHeight => 4096
  | .maxNativePayloadBytes => 33554432
  | .maxFrameBytes => 16777216
  | .maxQueuedFrames => 2
  | .maxQueuedBytes => 33554432
  | .maxSubscribers => 2
  | .maxInFlightFramesPerSubscriber => 1
  | .maxCachedJpegs => 1
  | .openDeadlineMs => 5000
  | .readDeadlineMs => 2000
  | .closeDeadlineMs => 2000
  | .maxSnapshotAgeMs => 2000

structure Limits where
  value : LimitKey → Nat
  bounded : ∀ key, 0 < value key ∧ value key ≤ key.maximum

def utf16Length (text : String) : Nat := (text.toList.flatMap Json.utf16).length

def UINT64_MAX : Nat := 18446744073709551615

def u64 (value : Value) : Option Nat :=
  match value with
  | .string text =>
    if isDecimal 19 text.toList ∧ Nat.ofDigitChars 10 text.toList 0 ≤ UINT64_MAX then
      some (Nat.ofDigitChars 10 text.toList 0)
    else none
  | _ => none

-- Modes

def modeIdOf (pre : String) (text : String) : Bool :=
  pre.toList.isPrefixOf text.toList &&
    (let digits := text.toList.drop pre.toList.length
     digits.length = 32 && digits.all isHex)

def modeIdValid (text : String) : Bool := ["mf-", "v4l2-", "arv-"].any (modeIdOf · text)

/-- What a mode's `nativeMediaType` and `interlace` are is checked to be `video` and `progressive`. -/
structure ModeRecord where
  modeId : String
  nativeSubtype : String
  width : Int
  height : Int
  cadence : Value
  stride : Int
  evidenceLocator : String
  nativeDetails : Option Value

end WotAv.Capture
