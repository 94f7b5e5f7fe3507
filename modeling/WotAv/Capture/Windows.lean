import WotAv.Capture.Native

/-!
# Modes of the Windows worker (`uvc/windows`)

What comes back from Windows in place of a value is an `HRESULT` that failed.
-/

namespace WotAv.Capture.Windows

open WotAv.Lib Native

abbrev Hresult := UInt32

def S_OK : Hresult := 0
def E_ACCESSDENIED : Hresult := 0x80070005
def E_OUTOFMEMORY : Hresult := 0x8007000e
def ERROR_BUSY : Hresult := 0x800700aa
def STG_E_MEDIUMFULL : Hresult := 0x80030070
def MF_E_INVALIDMEDIATYPE : Hresult := 0xc00d36b4
def MF_E_NOTACCEPTING : Hresult := 0xc00d36b5
def MF_E_SHUTDOWN : Hresult := 0xc00d3e85
def MF_E_VIDEO_RECORDING_DEVICE_INVALIDATED : Hresult := 0xc00d3ea2
def WINCODEC_ERR_UNSUPPORTEDPIXELFORMAT : Hresult := 0x88982f80

structure Fault where
  code : Code
  nativeCode : Hresult := S_OK
  deriving DecidableEq, Repr

def throw (code : Code) : Except Fault α := .error { code }

def require (condition : Prop) [Decidable condition] (code : Code) : Except Fault Unit :=
  if condition then .ok () else throw code

theorem require_ok {condition : Prop} [Decidable condition] {code : Code} {u : Unit}
    (h : require condition code = .ok u) : condition := by
  unfold require throw at h
  split at h
  · assumption
  · cases h

def checkCode (hr : Hresult) : Code :=
  if hr = E_ACCESSDENIED then .PermissionDenied
  else if hr = MF_E_VIDEO_RECORDING_DEVICE_INVALIDATED ∨ hr = MF_E_SHUTDOWN then .DeviceLost
  else if hr = ERROR_BUSY ∨ hr = MF_E_NOTACCEPTING then .Busy
  else if hr = E_OUTOFMEMORY ∨ hr = STG_E_MEDIUMFULL then .ResourceLimit
  else if hr = MF_E_INVALIDMEDIATYPE ∨ hr = WINCODEC_ERR_UNSUPPORTEDPIXELFORMAT then .UnsupportedFormat
  else .SourceFailure

def check (result : Except Hresult α) : Except Fault α :=
  result.mapError fun hr => { code := checkCode hr, nativeCode := hr }

-- Formats

structure Guid where
  data1 : UInt32
  data2 : UInt16
  data3 : UInt16
  data4 : UInt64
  deriving DecidableEq, Repr

def mediaGuid (data1 : UInt32) : Guid := ⟨data1, 0, 0x0010, 0x800000aa00389b71⟩

def MFVideoFormat_RGB32 : Guid := mediaGuid 22
def MFVideoFormat_YUY2 : Guid := mediaGuid 0x32595559
def MFVideoFormat_NV12 : Guid := mediaGuid 0x3231564e

def MFVideoInterlace_Progressive : UInt32 := 2

-- Modes

structure Mode where
  index : Nat := 0
  subtype : Guid := MFVideoFormat_RGB32
  width : Nat := 0
  height : Nat := 0
  numerator : Nat := 0
  denominator : Nat := 1
  interlace : UInt32 := MFVideoInterlace_Progressive
  stride : Int := 0

def LONG_MIN : Int := -2147483648

def rawSize (mode : Mode) : Except Fault Nat := do
  require (mode.stride ≠ LONG_MIN) .UnsupportedFormat
  let stride := mode.stride.natAbs
  return stride * mode.height + if mode.subtype = MFVideoFormat_NV12 then stride * mode.height / 2 else 0

def geometry (mode : Mode) (limits : Native.Limits) : Except Fault Unit := do
  require (mode.width ≠ 0 ∧ mode.height ≠ 0 ∧ mode.width ≤ limits.width ∧ mode.height ≤ limits.height) .ResourceLimit
  let size ← rawSize mode
  require (size ≤ limits.nativeBytes ∧ mode.width * mode.height * 3 ≤ limits.nativeBytes) .ResourceLimit
  require (mode.interlace = MFVideoInterlace_Progressive) .UnsupportedFormat
  let rowBytes := mode.width *
    (if mode.subtype = MFVideoFormat_RGB32 then 4 else if mode.subtype = MFVideoFormat_YUY2 then 2 else 1)
  require (rowBytes ≤ mode.stride.natAbs) .UnsupportedFormat
  if mode.subtype = MFVideoFormat_NV12 then
    require (mode.width % 2 = 0 ∧ mode.height % 2 = 0 ∧ 0 < mode.stride) .UnsupportedFormat
  else if mode.subtype = MFVideoFormat_YUY2 then require (mode.width % 2 = 0) .UnsupportedFormat
  else require (mode.subtype = MFVideoFormat_RGB32) .UnsupportedFormat

end WotAv.Capture.Windows
