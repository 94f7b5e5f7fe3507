import WotAv.Discovery.Persistence
import WotAv.Lib.Transition

/-!
# Datagrams (`src/discovery/engine.ts`)

`receive` of the engine, with the requests that it correlates responses with,
and `target`. The clock is read once in a call. What a call needs of the rest
of the package is in `ReceiverSetting`. A datagram comes with what
`parseDiscovery` makes of it. `receive` tells the devices that the message was
applied to.
-/

namespace WotAv.Discovery

open WotAv.Binding (QName)
open WotAv.Lib

variable {ν : Type}

/-- An interface, with a segment that is configured for it. -/
structure Local where
  interfaceId : String
  family : Family
  segmentId : String
  cidr : String
  deriving DecidableEq, Repr

structure Datagram where
  data : Except String DiscoveryMessage
  address : String
  family : Family
  port : Int

inductive RequestKind
  | probe | resolve
  deriving DecidableEq, Repr

structure Request where
  kind : RequestKind
  binding : Local
  deadline : Int
  types : List QName
  scopes : List String
  endpointId : Option String
  matched : Nat := 0
  deriving Repr

structure ReceiverSetting (ν : Type) where
  inventory : Setting ν
  probeIntervalMs : Int
  probeWindowMs : Int
  maxDatagramsPerRound : Nat
  maxPendingRequests : Nat
  scopes : List String
  inCidr : String → String → Except String Bool
  scopeMatches : String → String → Except String Bool

structure Receiver (ν : Type) where
  inventory : Inventory ν := {}
  /-- Neither closing nor closed. -/
  running : Bool := true
  bindings : AList fun _ : String => Local := ∅
  requests : AList fun _ : String => Request := ∅
  rateWindow : Int := -1
  datagrams : Nat := 0
  endpointCursor : AList fun _ : String => Nat := ∅

def DEVICE : QName := ⟨"http://www.onvif.org/ver10/device/wsdl", "Device"⟩

def LEGACY_DEVICE : QName := ⟨"http://www.onvif.org/ver10/network/wsdl", "NetworkVideoTransmitter"⟩

variable (setting : ReceiverSetting ν) (now : Int)

def Receiver.diagnostic (e : Receiver ν) (code message : String) (deviceId : Option String := none)
    (truncated : Bool := false) : Receiver ν :=
  { e with inventory := Discovery.diagnostic setting.inventory now e.inventory code message deviceId truncated }

-- Responses

def matchesProbe (entry : DiscoveryMatch) (types : List QName) (scopes : List String) : Except String Bool :=
  if types.all fun type => entry.types.any (type = ·) then
    scopes.allM fun scope => entry.scopes.anyM (setting.scopeMatches scope)
  else pure false

/-- The request is live, was sent from the interface to the segment, and is of
the message's kind. -/
def Request.awaits (request : Request) (at_ : Local) (kind : AnnouncementKind) : Bool :=
  now < request.deadline && request.binding.interfaceId = at_.interfaceId && request.binding.segmentId = at_.segmentId &&
    decide (request.kind = .probe) = decide (kind = .probeMatches)

def Receiver.related (e : Receiver ν) (at_ : Local) (message : DiscoveryMessage) : Option (String × Request) :=
  message.relatesTo.bind fun id => ((e.requests.lookup id).filter (·.awaits now at_ message.kind)).map (id, ·)

def Request.admits (request : Request) (entry : DiscoveryMatch) : Except String Bool := match request.kind with
  | .resolve => pure (some (setting.inventory.endpointIdentity entry.endpointReference) = request.endpointId)
  | .probe => matchesProbe setting entry request.types request.scopes

def welcomes (entry : DiscoveryMatch) : Except String Bool := do
  if ← matchesProbe setting entry [DEVICE] setting.scopes then pure true
  else matchesProbe setting entry [LEGACY_DEVICE] setting.scopes

def Receiver.observe (e : Receiver ν) (message : DiscoveryMessage) (incoming : Provenance)
    (fingerprintSource : DiscoveryMessage) : Receiver ν × List String :=
  let r := Discovery.observe setting.inventory now e.inventory message incoming fingerprintSource
  ({ e with inventory := r.1 }, r.2)

def correlate (e : Receiver ν) (at_ : Local) (message : DiscoveryMessage) (incoming : Provenance) :
    Except String (Receiver ν × List String) := do
  match message.kind with
  | .probeMatches | .resolveMatches => match e.related now at_ message with
    | none =>
      return (e.diagnostic setting now "UncorrelatedResponse" "Discovery response has no live request on this interface/segment", [])
    | some (id, request) =>
      let entries ← message.entries.filterM (request.admits setting)
      let requests := e.requests.replace id { request with matched := request.matched + entries.length }
      return { e with requests }.observe setting now { message with entries } incoming message
  | .hello =>
    let entries ← message.entries.filterM (welcomes setting)
    return e.observe setting now { message with entries } incoming message
  | .bye => return e.observe setting now message incoming message

-- Datagrams

def provenance (at_ : Local) (datagram : Datagram) (message : DiscoveryMessage) : Provenance where
  interfaceId := at_.interfaceId
  segmentId := at_.segmentId
  address := datagram.address
  family := datagram.family
  port := datagram.port.toNat
  receivedAt := now
  messageId := message.messageId

def inside (at_ : Local) (datagram : Datagram) : Except String Bool :=
  if datagram.family = at_.family then do
    return (← setting.inCidr datagram.address at_.cidr) && decide (1 ≤ datagram.port ∧ datagram.port ≤ 65535)
  else pure false

def hearDatagram (e : Receiver ν) (at_ : Local) (datagram : Datagram) : Except String (Receiver ν × List String) := do
  if ← inside setting at_ datagram then
    let message ← datagram.data
    let incoming := provenance now at_ datagram message
    if message.discoveryProxy then
      return e.observe setting now message incoming message
    else
      let duplicate := observeDuplicate setting.inventory now e.inventory message incoming
      if duplicate.2 then return ({ e with inventory := duplicate.1 }, []) else correlate setting now e at_ message incoming
  else
    return (e.diagnostic setting now "SourceOutsideSegment" "Datagram source is outside the configured receiving segment", [])

def Receiver.count (e : Receiver ν) : Receiver ν :=
  let window := now / setting.probeIntervalMs
  if window ≠ e.rateWindow then { e with rateWindow := window, datagrams := 1 } else { e with datagrams := e.datagrams + 1 }

/-- `receive`, up to the inspections that it asks for. -/
def receive (e : Receiver ν) (at_ : Local) (datagram : Datagram) : Receiver ν × List String :=
  if ¬e.running then (e, [])
  else
    let e := e.count setting now
    if setting.maxDatagramsPerRound < e.datagrams then
      if e.datagrams = setting.maxDatagramsPerRound + 1 then
        (e.diagnostic setting now "DatagramRateLimit" "Additional datagrams were dropped for this bounded interval" none true, [])
      else (e, [])
    else match hearDatagram setting now e at_ datagram with
      | .ok r => r
      | .error code =>
        (e.diagnostic setting now code "Discovery datagram failed protocol, bounds or source-policy validation"
          none (code = "XmlLimit"), [])

-- Requests

inductive Wanted
  | device | legacy | untyped
  | endpoint (endpoint : DiscoveryEndpointReference)

def Wanted.request (at_ : Local) (wanted : Wanted) : Request where
  kind := match wanted with
    | .endpoint _ => .resolve
    | _ => .probe
  binding := at_
  deadline := now + setting.probeWindowMs
  types := match wanted with
    | .device => [DEVICE]
    | .legacy => [LEGACY_DEVICE]
    | _ => []
  scopes := setting.scopes
  endpointId := match wanted with
    | .endpoint reference => some (setting.inventory.endpointIdentity reference)
    | _ => none

/-- `request`, up to the first send, with so many sends under way. A message id
that is in use is refused. -/
def request (e : Receiver ν) (at_ : Local) (wanted : Wanted) (id : String) (sending : Nat) : Receiver ν :=
  if setting.maxPendingRequests ≤ e.requests.entries.length ∨ setting.maxPendingRequests ≤ sending then
    e.diagnostic setting now "RequestLimit" "Additional discovery requests were not admitted" none true
  else if (e.requests.lookup id).isSome then e
  else { e with requests := e.requests.insert id (wanted.request setting now at_) }

-- Targets

structure NativeTarget where
  xaddr : String
  endpointReference : DiscoveryEndpointReference
  interfaceId : String
  segmentId : String

def Receiver.opened (e : Receiver ν) (p : Provenance) : Bool := (e.bindings.lookup p.segmentId).isSome

def target (e : Receiver ν) (deviceId : String) : Receiver ν × Option NativeTarget :=
  match e.inventory.device deviceId with
  | none => (e, none)
  | some d =>
    let endpoints := d.endpoints.filter fun endpoint => endpoint.approved && endpoint.provenance.any e.opened
    let index := (e.endpointCursor.lookup deviceId).getD 0
    match endpoints[index % endpoints.length]? with
    | none =>
      (e.diagnostic setting now "NoApprovedXAddr" "Device has no exact approved native endpoint on an opened segment"
        (some deviceId), none)
    | some selected =>
      ({ e with endpointCursor := e.endpointCursor.insert deviceId (index + 1) },
        (selected.provenance.find? e.opened).map fun p => ⟨selected.xaddr, d.endpointReference, p.interfaceId, p.segmentId⟩)

end WotAv.Discovery
