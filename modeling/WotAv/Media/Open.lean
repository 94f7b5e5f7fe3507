import WotAv.Media.Descriptors
import WotAv.Media.Policy

/-!
# OPEN and SECURITY (`src/media/protocol.ts`, `src/media/executor.ts`)

A range that is encoded has passed `validateReplayRange`, so it fits 64 bits.
What `MediaExecutor.open` draws at random is an argument.
-/

namespace WotAv.Media

open WotAv.Lib WotAv.Binding

structure MediaOpenDescriptor where
  request : OpenMediaRequest
  scope : MediaSecurityScope
  trust : MediaTrustPolicy
  limits : MediaLimits
  trackMask : Nat
  codecMask : Nat
  credentialHandle : Nat
  trustHandle : Nat
  deriving DecidableEq, Repr

namespace MediaOpenDescriptor

def flags (d : MediaOpenDescriptor) : Nat :=
  (if d.request.packetOutput.getD false then 1 else 0) ||| (if d.scope.authentication = .none then 2 else 0)

def transport (d : MediaOpenDescriptor) : Nat := MEDIA_TRANSPORTS.idxOf d.request.transport + 1

def mode (d : MediaOpenDescriptor) : Nat := if d.request.replay.isSome then 1 else 0

def startNtpNs (d : MediaOpenDescriptor) : Nat := d.request.replay.elim 0 (·.startNtpNs)

def endNtpNs (d : MediaOpenDescriptor) : Nat := d.request.replay.elim 0 (·.endNtpNs)

def numbers (d : MediaOpenDescriptor) : List Nat :=
  [d.limits.wireBytes, d.limits.inflatedBytes, d.limits.metadataDeadlineMs, d.limits.queueBytes, d.limits.queueUnits,
    d.limits.maxWidth, d.limits.maxHeight, d.limits.decodedBytes, d.codecMask]

def allowsMd5 (d : MediaOpenDescriptor) : Bool :=
  d.scope.authentication.legacyMd5 || d.scope.tunnelAuthentication.any (·.legacyMd5)

end MediaOpenDescriptor

def strings (values : List String) : Except OnvifError Bytes := do
  let count ← field values.length 16
  let items ← values.mapM fun value => ipcString value 2048 "native origin"
  return beBytes 2 count ++ items.flatten

def encodeOpen (d : MediaOpenDescriptor) : Except OnvifError Bytes := do
  let trackMask ← field d.trackMask 15 1
  let credentialHandle ← field d.credentialHandle
  let trustHandle ← field d.trustHandle 0xffffffff 1
  let numbers ← d.numbers.mapM field
  let fixed := beBytes 1 d.mode ++ (beBytes 1 d.transport ++ (beBytes 1 trackMask ++ (beBytes 1 d.flags ++
    (beBytes 4 credentialHandle ++ (beBytes 4 trustHandle ++ (beBytes 8 d.startNtpNs ++ (beBytes 8 d.endNtpNs ++
    numbers.flatMap (beBytes 4))))))))
  let uri ← ipcString d.scope.uri 2048 "native URI"
  let targetRef ← ipcString d.scope.targetRef 256 "target reference"
  let principal ← ipcString d.scope.principal 256 "principal"
  let localAddress ← ipcString d.request.localAddress 64 "local interface"
  let origins ← strings d.trust.allowedOrigins
  let redirects ← strings (d.trust.allowedRedirectOrigins.getD [])
  let result := fixed ++ (uri ++ (targetRef ++ (principal ++ (localAddress ++ (origins ++ redirects)))))
  if result.length > MEDIA_CONTROL_MAX then invalidValue "Native OPEN exceeds its bound" else return result

def encodeSecurity (d : MediaOpenDescriptor) (material : MediaSecurityMaterial) : Except OnvifError Bytes := do
  let credentialHandle ← field d.credentialHandle
  let trustHandle ← field d.trustHandle 0xffffffff 1
  let fixed := beBytes 4 credentialHandle ++ (beBytes 4 trustHandle ++ (beBytes 1 (if d.allowsMd5 then 1 else 0) ++
    beBytes 3 0))
  let targetRef ← ipcString d.scope.targetRef 256 "target reference"
  let principal ← ipcString d.scope.principal 256 "principal"
  let origin ← ipcString d.scope.origin 2048 "native origin"
  let realm ← ipcString (material.native.elim "" (·.realm)) 1024 "native realm"
  let username ← ipcString (material.native.elim "" (·.username)) 1024 "native username"
  let password ← ipcString (material.native.elim "" (·.password)) 1024 "native password"
  let outerOrigin ← ipcString (material.tunnel.elim "" (·.origin)) 2048 "outer origin"
  let outerRealm ← ipcString (material.tunnel.elim "" (·.realm)) 1024 "outer realm"
  let outerUsername ← ipcString (material.tunnel.elim "" (·.username)) 1024 "outer username"
  let outerPassword ← ipcString (material.tunnel.elim "" (·.password)) 1024 "outer password"
  let caPem ← ipcString (material.caPem.getD "") 32768 "CA PEM"
  let result := fixed ++ (targetRef ++ (principal ++ (origin ++ (realm ++ (username ++ (password ++ (outerOrigin ++
    (outerRealm ++ (outerUsername ++ (outerPassword ++ caPem))))))))))
  if result.length > MEDIA_CONTROL_MAX then invalidValue "Native security descriptor exceeds its bound" else return result

-- The executor

structure MediaConsumerContext where
  principal : String
  targetRef : String
  trust : MediaTrustPolicy
  deriving DecidableEq, Repr

/-- What `MediaExecutor.consume` binds to a Thing. -/
def consume (node : Node) (context : MediaConsumerContext) : Except OnvifError MediaConsumerContext := do
  let principal ← mediaText context.principal 256 "media principal"
  let targetRef ← mediaText context.targetRef 256 "media target reference"
  let trust ← validateMediaTrust node context.trust
  return { principal, targetRef, trust }

/-- The scope that `MediaExecutor.open` derives from the resolved URI. -/
def scopeOf (thingId : String) (context : MediaConsumerContext) (request : OpenMediaRequest) (uri : String)
    (target : String × Option String) : MediaSecurityScope :=
  { thingId, targetRef := context.targetRef, principal := context.principal, uri, origin := target.1
    transport := request.transport, authentication := context.trust.authentication
    tunnelOrigin := target.2
    tunnelAuthentication := if target.2.isSome then some (context.trust.tunnelAuthentication.getD .none) else none }

/-- `MediaExecutor.open` from the resolved URI to the session; `resolved` is
what the security resolver answers for the scope. -/
def openDescriptor (node : Node) (thingId : String) (context : MediaConsumerContext) (request : OpenMediaRequest)
    (validated : ValidatedRequest) (uri : String) (resolved : MediaSecurityScope → MediaSecurityMaterial)
    (credentialHandle trustHandle : Nat) : Except OnvifError (MediaOpenDescriptor × MediaSecurityMaterial) := do
  let target ← authorizeMediaTarget node uri request.transport context.trust
  let scope := scopeOf thingId context request uri target
  let material ← validateMediaSecurity scope (resolved scope)
  return ({ request, scope, trust := context.trust, limits := validated.limits, trackMask := validated.trackMask
            codecMask := validated.codecMask
            credentialHandle := if scope.authentication = .none then 0 else credentialHandle, trustHandle }, material)

end WotAv.Media
