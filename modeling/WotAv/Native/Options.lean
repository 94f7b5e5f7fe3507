import WotAv.Lib.Utf8
import WotAv.Media.Ipc
import WotAv.Native.GLib

/-!
# OPEN and SECURITY in the worker (`native-media/src/options.c`)

A `gchar *` is its bytes. `Reader.rest` is what lies between `offset` and
`length`. A parser returns `none` where the source returns `FALSE`; what it
has stored until then is not read. What GLib computes is a parameter.
-/

namespace WotAv.Native

open WotAv.Lib WotAv.Media

def MEDIA_WIRE_MAX : Nat := 8 * 1024 * 1024
def MEDIA_INFLATED_MAX : Nat := 32 * 1024 * 1024

structure GUri where
  scheme : Bytes
  userinfo : Option Bytes
  host : Option Bytes
  port : Int
  fragment : Option Bytes

structure GInetAddress where
  isAny : Bool
  isMulticast : Bool

structure GLib where
  utf8Validate : Bytes → Bool
  uriParse : Bytes → Option GUri
  inetAddress : Bytes → Option GInetAddress

structure Reader where
  rest : Bytes
  valid : Bool := true

namespace Reader

def string (glib : GLib) (maximum : Nat) (reader : Reader) : Reader × Option Bytes :=
  if reader.valid = false ∨ reader.rest.length < 2 then ({ reader with valid := false }, none)
  else
    let length := readBE 2 0 reader.rest
    let rest := reader.rest.drop 2
    if length > maximum ∨ length > rest.length ∨ 0 ∈ rest.take length ∨
        glib.utf8Validate (rest.take length) = false then ({ rest, valid := false }, none)
    else ({ rest := rest.drop length, valid := reader.valid }, some (rest.take length))

/-- The loop of `strings`. -/
def stringsLoop (glib : GLib) : Nat → Reader → Reader × Option (List Bytes)
  | 0, reader => (reader, some [])
  | count + 1, reader =>
    match reader.string glib 2048 with
    | (reader, none) => (reader, none)
    | (reader, some value) =>
      match stringsLoop glib count reader with
      | (reader, none) => (reader, none)
      | (reader, some values) => (reader, some (value :: values))

def strings (glib : GLib) (reader : Reader) : Reader × Option (List Bytes) :=
  if reader.valid = false ∨ reader.rest.length < 2 then ({ reader with valid := false }, none)
  else
    let count := readBE 2 0 reader.rest
    let reader := { reader with rest := reader.rest.drop 2 }
    if count > 16 then ({ reader with valid := false }, none)
    else stringsLoop glib count reader

end Reader

def mediaRangeValid (start finish : Nat) : Bool :=
  start ≥ 2208988800000000000 && finish > start && finish ≤ 2 ^ 63 - 1

structure MediaSecrets where
  credentialHandle : Nat := 0
  trustHandle : Nat := 0
  targetRef : Bytes := []
  principal : Bytes := []
  origin : Bytes := []
  realm : Bytes := []
  username : Bytes := []
  password : Bytes := []
  outerOrigin : Bytes := []
  outerRealm : Bytes := []
  outerUsername : Bytes := []
  outerPassword : Bytes := []
  caPem : Bytes := []
  allowMd5 : Bool := false
  deriving DecidableEq

def mediaSecretsParse (glib : GLib) (bytes : Bytes) : Option MediaSecrets := do
  if bytes.length < 12 ∨ byteAt 8 bytes > 1 ∨ byteAt 9 bytes ≠ 0 ∨ byteAt 10 bytes ≠ 0 ∨ byteAt 11 bytes ≠ 0 then
    none
  else
    let reader : Reader := { rest := bytes.drop 12 }
    let credentialHandle := readBE 4 0 bytes
    let trustHandle := readBE 4 4 bytes
    let (reader, targetRef) := reader.string glib 256
    let (reader, principal) := reader.string glib 256
    let (reader, origin) := reader.string glib 2048
    let (reader, realm) := reader.string glib 1024
    let (reader, username) := reader.string glib 1024
    let (reader, password) := reader.string glib 1024
    let (reader, outerOrigin) := reader.string glib 2048
    let (reader, outerRealm) := reader.string glib 1024
    let (reader, outerUsername) := reader.string glib 1024
    let (reader, outerPassword) := reader.string glib 1024
    let (reader, caPem) := reader.string glib 32768
    -- every string is there when the reader is valid
    let out : MediaSecrets :=
      { credentialHandle, trustHandle, targetRef := ← targetRef, principal := ← principal, origin := ← origin
        realm := ← realm, username := ← username, password := ← password, outerOrigin := ← outerOrigin
        outerRealm := ← outerRealm, outerUsername := ← outerUsername, outerPassword := ← outerPassword
        caPem := ← caPem, allowMd5 := byteAt 8 bytes ≠ 0 }
    if reader.valid = false ∨ reader.rest ≠ [] ∨ out.trustHandle = 0 ∨ out.targetRef = [] ∨ out.principal = [] ∨
        (out.credentialHandle ≠ 0 ∧ (out.username = [] ∨ out.realm = [])) ∨
        (out.credentialHandle = 0 ∧ (out.username ≠ [] ∨ out.password ≠ [] ∨ out.realm ≠ [])) ∨
        (out.outerUsername ≠ [] ∧ (out.outerOrigin = [] ∨ out.outerRealm = [])) then none
    else some out

def colon : UInt8 := 0x3a

def decimal (value : Nat) : Bytes := utf8 (toString value)

def mediaOrigin (glib : GLib) (uri : Bytes) (outer : Bool) : Option Bytes := do
  if uri = [] ∨ uri.length > 2048 ∨ (∃ b ∈ uri, b = 0x5c ∨ b ≤ 0x20 ∨ b = 0x7f) then none
  else
    let parsed ← glib.uriParse uri
    let host ← parsed.host
    if host = [] ∨ parsed.userinfo.isSome ∨ parsed.fragment.isSome ∨ parsed.port ≤ 0 ∨ parsed.port > 65535 then none
    else if outer ∧ parsed.scheme ≠ utf8 "http" ∧ parsed.scheme ≠ utf8 "https" then none
    else if ¬outer ∧ parsed.scheme ≠ utf8 "rtsp" ∧ parsed.scheme ≠ utf8 "rtsps" then none
    else
      some (parsed.scheme ++ utf8 "://" ++ (if colon ∈ host then utf8 "[" ++ host ++ utf8 "]" else host) ++
        utf8 ":" ++ decimal parsed.port.toNat)

def originList (glib : GLib) (values : List Bytes) (required : Bool) : Bool :=
  if required ∧ values = [] then false
  else values.all fun value => mediaOrigin glib value false = some value

structure MediaOptions where
  mode : Nat
  transport : Nat
  tracks : Nat
  flags : Nat
  credentialHandle : Nat
  trustHandle : Nat
  startNtpNs : Nat
  endNtpNs : Nat
  wireMax : Nat
  inflatedMax : Nat
  deadlineMs : Nat
  queueBytes : Nat
  queueFrames : Nat
  maxWidth : Nat
  maxHeight : Nat
  decodedMax : Nat
  codecs : Nat
  uri : Bytes := []
  targetRef : Bytes := []
  principal : Bytes := []
  localAddress : Bytes := []
  origins : List Bytes := []
  redirects : List Bytes := []
  secrets : MediaSecrets := {}
  deriving DecidableEq

/-- `media_target_allowed` for a native URI; the tunnel is the patched GStreamer's. -/
def mediaTargetAllowed (glib : GLib) (uri : Bytes) (redirect : Bool) (options : MediaOptions) : Bool :=
  match mediaOrigin glib uri false with
  | none => false
  | some origin =>
    (if options.transport = 5 then utf8 "rtsps://" else utf8 "rtsp://").isPrefixOf origin &&
      options.origins.contains origin && (!redirect || options.redirects.contains origin) &&
      (options.secrets.credentialHandle = 0 || origin = options.secrets.origin)

def MediaOptions.bounded (out : MediaOptions) : Prop :=
  out.mode ≤ 1 ∧ 1 ≤ out.transport ∧ out.transport ≤ 5 ∧ out.tracks ≠ 0 ∧ out.tracks ≤ 15 ∧ out.flags ≤ 3 ∧
    (out.credentialHandle = 0 → out.flags &&& 2 ≠ 0) ∧ (out.credentialHandle ≠ 0 → out.flags &&& 2 = 0) ∧
    (out.mode ≠ 0 → mediaRangeValid out.startNtpNs out.endNtpNs ∧ out.transport ≠ 2 ∧ out.tracks &&& 8 = 0) ∧
    (out.mode = 0 → out.startNtpNs = 0 ∧ out.endNtpNs = 0) ∧
    out.wireMax ≠ 0 ∧ out.wireMax ≤ MEDIA_WIRE_MAX ∧ out.inflatedMax ≠ 0 ∧ out.inflatedMax ≤ MEDIA_INFLATED_MAX ∧
    out.deadlineMs ≠ 0 ∧ out.deadlineMs ≤ 10000 ∧ 65536 ≤ out.queueBytes ∧ out.queueBytes ≤ 128 * 1024 * 1024 ∧
    out.queueFrames ≠ 0 ∧ out.queueFrames ≤ 256 ∧ out.maxWidth ≠ 0 ∧ out.maxWidth ≤ 8192 ∧
    out.maxHeight ≠ 0 ∧ out.maxHeight ≤ 8192 ∧ 384 ≤ out.decodedMax ∧ out.decodedMax ≤ 64 * 1024 * 1024 ∧
    out.codecs ≠ 0 ∧ out.codecs ≤ 0x3f

instance (out : MediaOptions) : Decidable out.bounded := by unfold MediaOptions.bounded; infer_instance

def mediaOptionsFixed (bytes : Bytes) (secrets : MediaSecrets) : MediaOptions :=
  { mode := byteAt 0 bytes, transport := byteAt 1 bytes, tracks := byteAt 2 bytes, flags := byteAt 3 bytes
    credentialHandle := readBE 4 4 bytes, trustHandle := readBE 4 8 bytes
    startNtpNs := readBE 8 12 bytes, endNtpNs := readBE 8 20 bytes
    wireMax := readBE 4 28 bytes, inflatedMax := readBE 4 32 bytes, deadlineMs := readBE 4 36 bytes
    queueBytes := readBE 4 40 bytes, queueFrames := readBE 4 44 bytes
    maxWidth := readBE 4 48 bytes, maxHeight := readBE 4 52 bytes
    decodedMax := readBE 4 56 bytes, codecs := readBE 4 60 bytes, secrets }

/-- `media_options_parse`; `secrets` is what `out` holds of SECURITY. -/
def mediaOptionsParse (glib : GLib) (bytes : Bytes) (secrets : MediaSecrets) : Option MediaOptions := do
  let out := mediaOptionsFixed bytes secrets
  if bytes.length < 64 ∨ ¬out.bounded then none
  else
    let reader : Reader := { rest := bytes.drop 64 }
    let (reader, uri) := reader.string glib 2048
    let (reader, targetRef) := reader.string glib 256
    let (reader, principal) := reader.string glib 256
    let (reader, localAddress) := reader.string glib 64
    let (reader, origins) := reader.strings glib
    let (reader, redirects) := reader.strings glib
    let out := { out with uri := ← uri, targetRef := ← targetRef, principal := ← principal
                          localAddress := ← localAddress, origins := ← origins, redirects := ← redirects }
    if reader.valid = false ∨ reader.rest ≠ [] ∨ out.targetRef = [] ∨ out.principal = [] ∨
        originList glib out.origins true = false ∨ originList glib out.redirects false = false then none
    else
      let address ← glib.inetAddress out.localAddress
      if address.isAny ∨ address.isMulticast then none
      else if mediaTargetAllowed glib out.uri false out then some out
      else none

/-- `media_options_bind`; the policy it hands to GStreamer is the options themselves. -/
def mediaOptionsBind (glib : GLib) (options : MediaOptions) : Bool :=
  match mediaOrigin glib options.uri false with
  | none => false
  | some origin =>
    origin = options.secrets.origin && options.targetRef = options.secrets.targetRef &&
      options.principal = options.secrets.principal && options.credentialHandle = options.secrets.credentialHandle &&
      options.trustHandle = options.secrets.trustHandle

end WotAv.Native
