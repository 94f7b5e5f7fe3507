import WotAv.Binding.Errors
import WotAv.Lib.Utf8
import WotAv.Media.Types

/-!
# Media policy (`src/media/policy.ts`)

Requests, policies and material are records of their types: the checks of a
value's type and of its keys are left out. A string is well-formed Unicode;
any other is rejected when it is encoded. `new URL` and `isIP` are parameters.
-/

namespace WotAv.Media

open WotAv.Lib WotAv.Binding

inductive MediaTransport
  | tcpInterleaved
  | udpUnicast
  | httpTunnel
  | httpsTunnel
  | tlsInterleaved
  deriving DecidableEq, Repr

def MEDIA_TRANSPORTS : List MediaTransport :=
  [.tcpInterleaved, .udpUnicast, .httpTunnel, .httpsTunnel, .tlsInterleaved]

inductive MediaCodec
  | JPEG
  | H264
  | H265
  | MP4V_ES
  | PCMU
  | MPEG4_GENERIC
  deriving DecidableEq, Repr

def MEDIA_CODECS : MediaCodec → Nat
  | .JPEG => 1
  | .H264 => 2
  | .H265 => 4
  | .MP4V_ES => 8
  | .PCMU => 16
  | .MPEG4_GENERIC => 32

inductive MediaAuthentication
  | none
  | digest (realm : String) (allowLegacyMd5 : Option Bool)
  deriving DecidableEq, Repr

def MediaAuthentication.isDigest : MediaAuthentication → Bool
  | .none => false
  | .digest _ _ => true

def MediaAuthentication.legacyMd5 : MediaAuthentication → Bool
  | .none => false
  | .digest _ allowLegacyMd5 => allowLegacyMd5.getD false

structure MediaTrustPolicy where
  serviceTargets : List String
  allowedOrigins : List String
  allowedTargets : Option (List String) := none
  allowedRedirectOrigins : Option (List String) := none
  transports : List MediaTransport
  authentication : MediaAuthentication
  tunnelAuthentication : Option MediaAuthentication := none
  deriving DecidableEq, Repr

structure MediaSecurityScope where
  thingId : String
  targetRef : String
  principal : String
  uri : String
  origin : String
  transport : MediaTransport
  authentication : MediaAuthentication
  tunnelOrigin : Option String := none
  tunnelAuthentication : Option MediaAuthentication := none
  deriving DecidableEq, Repr

structure MediaScopedPassword where
  origin : String
  principal : String
  realm : String
  username : String
  password : String
  deriving DecidableEq, Repr

structure MediaSecurityMaterial where
  thingId : String
  targetRef : String
  principal : String
  origin : String
  native : Option MediaScopedPassword := none
  tunnel : Option MediaScopedPassword := none
  caPem : Option String := none
  deriving DecidableEq, Repr

structure MediaTrackRequest where
  video : Option (List MediaCodec) := none
  audio : Option (List MediaCodec) := none
  metadata : Option Bool := none
  backchannel : Option MediaCodec := none
  deriving DecidableEq, Repr

structure MediaReplayRange where
  startNtpNs : Nat
  endNtpNs : Nat
  deriving DecidableEq, Repr

structure MediaFormReference where
  document : String
  form : String
  operation : String
  deriving DecidableEq, Repr

structure MediaLimitsInput where
  wireBytes : Option Number := none
  inflatedBytes : Option Number := none
  metadataDeadlineMs : Option Number := none
  queueBytes : Option Number := none
  queueUnits : Option Number := none
  maxSubscribers : Option Number := none
  maxWidth : Option Number := none
  maxHeight : Option Number := none
  decodedBytes : Option Number := none
  closeTimeoutMs : Option Number := none
  killTimeoutMs : Option Number := none
  controlTimeoutMs : Option Number := none
  partialFrameTimeoutMs : Option Number := none
  stderrBytes : Option Number := none
  deriving DecidableEq, Repr

structure OpenMediaRequest where
  action : String
  formIndex : Option Number := none
  formRef : Option MediaFormReference := none
  transport : MediaTransport
  tracks : MediaTrackRequest
  packetOutput : Option Bool := none
  localAddress : String
  replay : Option MediaReplayRange := none
  timeoutMs : Option Number := none
  limits : MediaLimitsInput := {}
  deriving DecidableEq, Repr

structure Url where
  protocol : String
  username : String := ""
  password : String := ""
  hostname : String
  port : Option Nat
  hash : String := ""
  href : String
  deriving DecidableEq, Repr

structure Node where
  url : String → Option Url
  isIP : String → Nat

-- Text and targets

/-- `[\u0000-\u001f\u007f]`. -/
def isControlCharacter (ch : Char) : Bool := ch.toNat ≤ 0x1f || ch.toNat = 0x7f

/-- `[\u0000-\u0020\u007f\\#]`. -/
def isForbidden (ch : Char) : Bool := ch.toNat ≤ 0x20 || ch.toNat = 0x7f || ch.toNat = 0x5c || ch = '#'

/-- `\s`. -/
def isSpace (ch : Char) : Bool :=
  (9 ≤ ch.toNat && ch.toNat ≤ 13) || (0x2000 ≤ ch.toNat && ch.toNat ≤ 0x200a) ||
    [0x20, 0xa0, 0x1680, 0x2028, 0x2029, 0x202f, 0x205f, 0x3000, 0xfeff].contains ch.toNat

def mediaText (value : String) (maximum : Nat) (label : String) (empty : Bool := false) : Except OnvifError String := do
  require ((empty ∨ value ≠ "") ∧ ∀ ch ∈ value.toList, ¬isControlCharacter ch) .invalidConfiguration
    ("Invalid " ++ label)
  require ((utf8 value).length ≤ maximum) .invalidConfiguration ("Invalid UTF-8 or excessive " ++ label)
  return value

/-- `^rtsps?:\/\/[^/?#@]+(?:[/?]|$)`. -/
def nativePattern (uri : String) : Bool :=
  match ["rtsp://", "rtsps://"].find? (·.toList.isPrefixOf uri.toList) with
  | none => false
  | some start =>
    let rest := uri.toList.drop start.length
    let authority := rest.takeWhile fun ch => !(['/', '?', '#', '@'].contains ch)
    authority ≠ [] && match rest.drop authority.length with
      | [] => true
      | ch :: _ => ch = '/' || ch = '?'

def Url.nativeOrigin (url : Url) : String :=
  url.protocol ++ "//" ++ url.hostname ++ ":" ++ url.port.elim "" toString

def nativeMediaUrl (node : Node) (uri : String) : Except OnvifError (Url × String) := do
  require ((utf8 uri).length ≤ 2048 ∧ (∀ ch ∈ uri.toList, ¬isForbidden ch) ∧ nativePattern uri) .policyDenied
    "Invalid native media URI"
  match node.url uri with
  | none => .error ⟨.policyDenied, "Native media URI must be absolute", .notSent⟩
  | some url => do
    require ((url.protocol = "rtsp:" ∨ url.protocol = "rtsps:") ∧ url.username = "" ∧ url.password = "" ∧ url.hash = "" ∧
      url.hostname ≠ "" ∧ (∀ ch ∈ url.hostname.toList, ch ≠ '%' ∧ ¬isSpace ch) ∧
      url.port.any fun port => 1 ≤ port && port ≤ 65535) .policyDenied
      "Native media requires an explicit port and no userinfo or fragment"
    return (url, url.nativeOrigin)

/-- `^[a-z]+:\/\/[^/?]*@`. -/
def userinfoPattern (href : String) : Bool :=
  let scheme := href.toList.takeWhile Char.isLower
  let rest := href.toList.drop scheme.length
  scheme ≠ [] && "://".toList.isPrefixOf rest &&
    ((rest.drop 3).takeWhile fun ch => ch ≠ '/' && ch ≠ '?').contains '@'

def mediaServiceTarget (node : Node) (href : String) : Except OnvifError String := do
  require (∀ ch ∈ href.toList, ¬isForbidden ch) .policyDenied "Invalid native URI resolver service target"
  match node.url href with
  | none => .error ⟨.policyDenied, "URI resolver service must be absolute HTTP(S)", .notSent⟩
  | some url => do
    require ((url.protocol = "http:" ∨ url.protocol = "https:") ∧ url.username = "" ∧ url.password = "" ∧
      url.hostname ≠ "" ∧ ¬userinfoPattern href) .policyDenied "Invalid URI resolver service scheme or userinfo"
    return url.href

def list [DecidableEq α] (value : List α) (maximum : Nat) (check : α → Except OnvifError α) :
    Except OnvifError (List α) := do
  require (value ≠ [] ∧ value.length ≤ maximum) .invalidConfiguration
    "Media policy requires a bounded nonempty allowlist"
  let result ← value.mapM check
  require result.Nodup .invalidConfiguration "Duplicate media policy entry"
  return result

-- Trust

def authentication : MediaAuthentication → Except OnvifError MediaAuthentication
  | .none => .ok .none
  | .digest realm allowLegacyMd5 => do
    let realm ← mediaText realm 1024 "media realm"
    return .digest realm allowLegacyMd5

def exactOrigin (node : Node) (entry : String) : Except OnvifError String := do
  let (_, origin) ← nativeMediaUrl node entry
  require (origin = entry) .invalidConfiguration "Media origin must be exact, without path"
  return entry

def redirectOrigins (origins : List String) (allowed : Option (List String)) : Except OnvifError (List String) :=
  if allowed.getD [] = [] then .ok []
  else list (allowed.getD []) 16 fun entry => do
    require (entry ∈ origins) .policyDenied "Media redirect origin is not explicitly authorized"
    return entry

def targetsWithin (node : Node) (origins : List String) (targets : List String) : Except OnvifError (List String) :=
  list targets 256 fun entry => do
    let (_, origin) ← nativeMediaUrl node entry
    require (origin ∈ origins) .policyDenied "Exact media target is outside its origin policy"
    return entry

def validateMediaTrust (node : Node) (value : MediaTrustPolicy) : Except OnvifError MediaTrustPolicy := do
  let allowedOrigins ← list value.allowedOrigins 16 (exactOrigin node)
  let redirects ← redirectOrigins allowedOrigins value.allowedRedirectOrigins
  let auth ← authentication value.authentication
  let tunnelAuthentication ← value.tunnelAuthentication.mapM authentication
  require (¬(auth.isDigest ∧ tunnelAuthentication.any (·.isDigest) ∧
    some auth.legacyMd5 ≠ tunnelAuthentication.map (·.legacyMd5))) .unsupportedCapability
    "Native v2 requires the same explicit legacy-MD5 policy in both authentication layers"
  let serviceTargets ← list value.serviceTargets 64 (mediaServiceTarget node)
  let allowedTargets ← value.allowedTargets.mapM (targetsWithin node allowedOrigins)
  let transports ← list value.transports 5 fun entry => do
    require (entry ∈ MEDIA_TRANSPORTS) .unsupportedCapability "Unsupported native media transport"
    return entry
  return { serviceTargets, allowedOrigins, allowedTargets, allowedRedirectOrigins := some redirects, transports
           authentication := auth, tunnelAuthentication }

def tunnelScheme : MediaTransport → Option String
  | .httpTunnel => some "http"
  | .httpsTunnel => some "https"
  | _ => none

def authorizeMediaTarget (node : Node) (uri : String) (transport : MediaTransport) (trust : MediaTrustPolicy) :
    Except OnvifError (String × Option String) := do
  let (url, origin) ← nativeMediaUrl node uri
  require (origin ∈ trust.allowedOrigins ∧ transport ∈ trust.transports ∧
    trust.allowedTargets.all fun targets => targets.contains uri) .policyDenied
    "Native media target or transport is not independently authorized"
  require ((transport = .tlsInterleaved) ↔ (url.protocol = "rtsps:")) .policyDenied
    "Native URI scheme and requested transport disagree; no downgrade"
  match tunnelScheme transport with
  | some scheme => return (origin, some (scheme ++ "://" ++ url.hostname ++ ":" ++ url.port.elim "" toString))
  | none => do
    require (¬trust.tunnelAuthentication.any (·.isDigest)) .policyDenied
      "Tunnel credentials cannot be applied to a different media transport"
    return (origin, none)

-- Security material

def password (value : Option MediaScopedPassword) (scope : MediaSecurityScope) (origin : String) :
    MediaAuthentication → Except OnvifError (Option MediaScopedPassword)
  | .none => do
    require value.isNone .policyDenied "Unrequested native credential material"
    return none
  | .digest realm _ => match value with
    | none => .error ⟨.authenticationFailed, "Media resolver supplied no scoped credentials", .rejected⟩
    | some value => do
      require (value.origin = origin ∧ value.principal = scope.principal ∧ value.realm = realm) .policyDenied
        "Media credential origin, realm or principal disagrees with its independent scope" .rejected
      let username ← mediaText value.username 1024 "media username"
      let password ← mediaText value.password 1024 "media password" true
      return some { origin, principal := scope.principal, realm, username, password }

def outsidePem (ch : Char) : Bool := !([9, 10, 13].contains ch.toNat) && (ch.toNat < 0x20 || 0x7e < ch.toNat)

def caMaterial (caPem : String) : Except OnvifError String := do
  require ((∀ ch ∈ caPem.toList, ch.toNat ≠ 0) ∧ (utf8 caPem).length ≤ 32768 ∧ ∀ ch ∈ caPem.toList, ¬outsidePem ch)
    .invalidSecurity "Media CA material must be bounded PEM text"
  return caPem

def validateMediaSecurity (scope : MediaSecurityScope) (value : MediaSecurityMaterial) :
    Except OnvifError MediaSecurityMaterial := do
  require (value.thingId = scope.thingId ∧ value.targetRef = scope.targetRef ∧ value.principal = scope.principal ∧
    value.origin = scope.origin) .policyDenied
    "Media security material is not scoped to this owned Thing, target and principal" .rejected
  let native ← password value.native scope scope.origin scope.authentication
  let tunnel ← password value.tunnel scope (scope.tunnelOrigin.getD "") (scope.tunnelAuthentication.getD .none)
  let caPem ← value.caPem.mapM caMaterial
  return { thingId := scope.thingId, targetRef := scope.targetRef, principal := scope.principal, origin := scope.origin
           native, tunnel, caPem }

-- Requests

def validateReplayRange (value : MediaReplayRange) : Except OnvifError MediaReplayRange := do
  require (¬(value.startNtpNs < 2208988800000000000 ∨ value.endNtpNs ≤ value.startNtpNs ∨
    value.endNtpNs > 9223372036854775807)) .invalidValue
    "Replay requires an increasing, signed-64-bit nanosecond range since 1900, at or after 1970"
  return value

def limit (value : Option Number) (default_ maximum : Nat) (name : String) : Except OnvifError Nat :=
  positiveInteger (value.getD default_) name maximum

def mediaLimits (input : MediaLimitsInput) : Except OnvifError MediaLimits := do
  let wireBytes ← limit input.wireBytes (2 * 1024 * 1024) (8 * 1024 * 1024) "wireBytes"
  let inflatedBytes ← limit input.inflatedBytes (8 * 1024 * 1024) (32 * 1024 * 1024) "inflatedBytes"
  let metadataDeadlineMs ← limit input.metadataDeadlineMs 2000 10000 "metadataDeadlineMs"
  let queueBytes ← limit input.queueBytes (32 * 1024 * 1024) (128 * 1024 * 1024) "queueBytes"
  let queueUnits ← limit input.queueUnits 64 256 "queueUnits"
  let maxSubscribers ← limit input.maxSubscribers 8 16 "maxSubscribers"
  let maxWidth ← limit input.maxWidth 4096 8192 "maxWidth"
  let maxHeight ← limit input.maxHeight 2160 8192 "maxHeight"
  let decodedBytes ← limit input.decodedBytes (32 * 1024 * 1024) (64 * 1024 * 1024) "decodedBytes"
  let closeTimeoutMs ← limit input.closeTimeoutMs 6000 60000 "closeTimeoutMs"
  let killTimeoutMs ← limit input.killTimeoutMs 3000 30000 "killTimeoutMs"
  let controlTimeoutMs ← limit input.controlTimeoutMs 10000 60000 "controlTimeoutMs"
  let partialFrameTimeoutMs ← limit input.partialFrameTimeoutMs 2000 30000 "partialFrameTimeoutMs"
  let stderrBytes ← limit input.stderrBytes (128 * 1024) (1024 * 1024) "stderrBytes"
  require (65536 ≤ queueBytes ∧ 384 ≤ decodedBytes) .invalidConfiguration
    "Native queue or decoded-frame limit is below the v2 minimum"
  return { wireBytes, inflatedBytes, metadataDeadlineMs, queueBytes, queueUnits, maxSubscribers, maxWidth, maxHeight
           decodedBytes, closeTimeoutMs, killTimeoutMs, controlTimeoutMs, partialFrameTimeoutMs, stderrBytes }

/-- `^[A-Za-z][A-Za-z0-9+.-]*:`. -/
def absolutePattern (form : String) : Bool :=
  match form.toList with
  | [] => false
  | first :: rest => first.isAlpha &&
    (rest.dropWhile fun ch => ch.isAlphanum || ch = '+' || ch = '.' || ch = '-').head? = some ':'

def validateFormReference (node : Node) (formRef : MediaFormReference) : Except OnvifError Unit := do
  let _ ← mediaServiceTarget node formRef.document
  let form ← mediaText formRef.form 4096 "native Form identity"
  require (absolutePattern form ∧ formRef.operation = "https://www.w3.org/2019/wot/td#invokeAction")
    .unsupportedCapability "FormReference requires an absolute native Form identity and standard invokeAction operation"

/-- `Number(address.split(".")[0])`, of an IPv4 address. -/
def firstOctet (address : String) : Nat :=
  (address.toList.takeWhile (· ≠ '.')).foldl (fun n ch => 10 * n + (ch.toNat - '0'.toNat)) 0

/-- A zone index is no host for `new URL`. -/
def unicastAddress (node : Node) (address : String) : Bool :=
  let ip := node.isIP address
  ip ≠ 0 && address.length ≤ 64 &&
    !(ip = 4 && ("0.".toList.isPrefixOf address.toList || firstOctet address ≥ 224)) &&
    !(ip = 6 && ((node.url ("http://[" ++ address ++ "]")).all (·.hostname = "[::]") ||
      "ff".toList.isPrefixOf (address.toList.map Char.toLower)))

def codecMaskOf (codecs : Option (List MediaCodec)) (maximum : Nat) (ofKind : MediaCodec → Bool) (message : String) :
    Except OnvifError Nat :=
  match codecs with
  | none => .ok 0
  | some codecs => do
    let codecs ← list codecs maximum fun codec => do
      require (ofKind codec) .unsupportedCapability message
      return codec
    return codecs.foldl (fun mask codec => mask ||| MEDIA_CODECS codec) 0

structure ValidatedRequest where
  limits : MediaLimits
  trackMask : Nat
  codecMask : Nat
  deriving DecidableEq, Repr

def MediaTrackRequest.mask (tracks : MediaTrackRequest) : Nat :=
  (if tracks.video.isSome then 1 else 0) ||| (if tracks.audio.isSome then 2 else 0) |||
    (if tracks.metadata.getD false then 4 else 0) ||| (if tracks.backchannel.isSome then 8 else 0)

def validateMediaRequest (node : Node) (request : OpenMediaRequest) : Except OnvifError ValidatedRequest := do
  let _ ← mediaText request.action 1024 "declared media resolver action"
  let _ ← request.formRef.mapM (validateFormReference node)
  require (request.transport ∈ MEDIA_TRANSPORTS ∧
    request.formIndex.all fun formIndex => (integerWithin 0 maxSafeInteger formIndex).isSome) .invalidConfiguration
    "Invalid media request selection or cancellation signal"
  let _ ← positiveInteger (request.timeoutMs.getD (12000 : Nat)) "media open timeout" 60000
  require (unicastAddress node request.localAddress) .policyDenied "An explicit unicast local interface IP is required"
  let video ← codecMaskOf request.tracks.video 4 (MEDIA_CODECS · < 16) "Unsupported video codec"
  let audio ← codecMaskOf request.tracks.audio 2 (MEDIA_CODECS · ≥ 16) "Unsupported audio codec"
  require (request.tracks.backchannel.all (· = .PCMU)) .unsupportedCapability "Unsupported native backchannel codec"
  let codecMask := video ||| audio ||| (if request.tracks.backchannel.isSome then MEDIA_CODECS .PCMU else 0)
  let trackMask := request.tracks.mask
  require (trackMask ≠ 0) .invalidConfiguration "At least one required media track must be selected"
  let _ ← request.replay.mapM validateReplayRange
  require (¬(request.replay.isSome ∧ (request.transport = .udpUnicast ∨ request.tracks.backchannel.isSome)))
    .unsupportedCapability "Recorded v2 media does not support UDP or backchannel"
  let limits ← mediaLimits request.limits
  return { limits, trackMask, codecMask := if codecMask = 0 then 1 else codecMask }

end WotAv.Media
