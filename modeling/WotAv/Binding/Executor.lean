import WotAv.Binding.Digest

/-!
# The executor (`src/binding/executor.ts`)

One run of `NativeExecutor.exchange`. What lies outside it answers by the
number of the attempt: the transport, the credential provider, the clock of the
budget, and the encoders of what is sent. Any sequence of answers is one of
these functions.
-/

namespace WotAv.Binding

open WotAv.Lib

variable {τ ν : Type}

-- Requests and credentials

structure SoapRequest where
  contentType : String
  authorization : Option String
  body : Bytes
  deriving DecidableEq, Repr

abbrev ResponseHeaders := List (String × List String)

structure SoapResponse where
  status : Nat
  headers : ResponseHeaders
  body : Bytes

def headerValues (name : String) (response : SoapResponse) : Option (List String) :=
  (response.headers.find? (·.1 = name)).map (·.2)

structure Target where
  href : String
  origin : String
  https : Bool
  path : String

structure SecurityContext where
  thingId : String
  principal : String

structure SelectedSecurity where
  name : String
  scheme : String

structure CredentialScope where
  thingId : String
  principal : String
  origin : String
  href : String
  securityName : String
  scheme : String
  realm : Option String

/-- Material of the three kinds, or of none that is supported. -/
inductive CredentialMaterial
  | password (username password : String)
  | tls (cert key : String)
  | http
  | unsupported

structure ScopedCredential where
  origin : String
  principal : String
  realm : Option String
  material : CredentialMaterial

abbrev CredentialProvider (ν : Type) := CredentialScope → Except (Failure ν) (Option ScopedCredential)

def MUTUAL_TLS_SCHEME : String := "onvif:MutualTlsSecurityScheme"

def USERNAME_TOKEN_SCHEME : String := "onvif:UsernameTokenSecurityScheme"

def fails {α : Type} (code : OnvifErrorCode) (message : String) (execution : ExecutionCertainty := .notSent) :
    Except (Failure ν) α := .error (.error ⟨code, message, execution⟩ false)

def credentialFor (provider : Option (CredentialProvider ν)) (context : SecurityContext) (target : Target)
    (selection : SelectedSecurity) (realm : Option String := none) : Except (Failure ν) CredentialMaterial :=
  match provider with
  | none => fails .authenticationFailed "No out-of-band credential provider is configured" .rejected
  | some provider => do
    let scope : CredentialScope :=
      { thingId := context.thingId, principal := context.principal, origin := target.origin, href := target.href
        securityName := selection.name, scheme := selection.scheme, realm }
    match ← provider scope with
    | none => fails .authenticationFailed "No credential is authorized for this request" .rejected
    | some credential =>
      if credential.origin ≠ target.origin ∨ credential.principal ≠ context.principal ∨
          (realm.isSome ∧ credential.realm ≠ realm) then
        fails .policyDenied "Credential origin, realm or principal does not match this request" .rejected
      else match credential.material with
        | .unsupported => fails .invalidSecurity "Credential provider returned unsupported material"
        | .tls cert key =>
          if cert = "" ∨ key = "" then fails .invalidSecurity "Credential provider returned unsupported material"
          else .ok (.tls cert key)
        | material => .ok material

-- The surroundings of a run

inductive Outcome (ν : Type)
  | response (response : SoapResponse)
  | failure (failure : Failure ν)

inductive Wait
  | usernameToken
  | authorization
  | request
  deriving DecidableEq

structure Surroundings (τ ν : Type) where
  xml : Xml τ ν
  hashes : Hashes
  digestPolicy : DigestPolicy
  /-- What precedes the selection: the options, the budget, the Form and the
  authorization of the target. -/
  preliminary : Except OnvifError Unit
  /-- `selectSecurity`. -/
  selections : Except OnvifError (List SelectedSecurity)
  /-- Whether the trust policy has a certificate or a key. -/
  trustIdentity : Bool
  context : SecurityContext
  target : Target
  operation : OperationDescriptor τ
  addressingNamespace : Option String
  payload : XmlNode
  certificateProvider : Option (CredentialProvider ν)
  certificateWait : Option String
  /-- The message with which the budget ends a wait of an attempt. -/
  overdue : Nat → Wait → Option String
  /-- Absent in all attempts or in none. -/
  provider : Option (Nat → Wait → CredentialProvider ν)
  createUsernameToken : Nat → String → String → Except OnvifError String
  soapEnvelope : Nat → Option String → Except OnvifError Bytes
  /-- The hexadecimal client nonce. -/
  nonce : Nat → Except OnvifError String
  transport : Nat → SoapRequest → Outcome ν

structure NativeExecutionResult (ν : Type) where
  value : Option ν
  xml : Option XmlNode
  status : Nat
  oneWay : Bool

/-- A call of `transport.request`: its `Authorization` was made for the challenge. -/
structure Call (ν : Type) where
  challenge : Option DigestChallenge
  request : SoapRequest
  outcome : Outcome ν

section
variable (e : Surroundings τ ν)

/-- `budget.remaining()`, or what `budget.wait` rejects with of its own. -/
def inTime (message : Option String) : Except (Failure ν) Unit := match message with
  | none => .ok ()
  | some message => fails .transportError message

def selected (selections : List SelectedSecurity) (schemes : List String) : Option SelectedSecurity :=
  selections.find? fun entry => schemes.contains entry.scheme

def usernameToken (attempt : Nat) (wsse : Option SelectedSecurity) : Except (Failure ν) (Option String) := match wsse with
  | none => .ok none
  | some wsse => do
    inTime (e.overdue attempt .usernameToken)
    match ← credentialFor (e.provider.map (· attempt .usernameToken)) e.context e.target wsse with
    | .password username password => do
      let token ← thrown (e.createUsernameToken attempt username password)
      return some token
    | _ => fails .invalidSecurity "UsernameToken requires username/password material"

/-- The `Authorization` of an attempt. -/
def authorization (attempt : Nat) (digest : Option SelectedSecurity) (challenge : Option DigestChallenge) (body : Bytes) :
    Except (Failure ν) (Option String) := match digest, challenge with
  | some digest, some challenge => do
    inTime (e.overdue attempt .authorization)
    match ← credentialFor (e.provider.map (· attempt .authorization)) e.context e.target digest (some challenge.realm) with
    | .password username password => do
      let cnonce ← thrown (e.nonce attempt)
      let value ← thrown (createDigestAuthorization e.hashes
        { challenge, username, password, uri := e.target.path, body, cnonce })
      return some value
    | _ => fails .invalidSecurity "Digest requires username/password material"
  | _, _ => .ok none

def prepare (attempt : Nat) (selections : List SelectedSecurity) (challenge : Option DigestChallenge) :
    Except (Failure ν) SoapRequest := do
  let token ← usernameToken e attempt (selected selections [USERNAME_TOKEN_SCHEME])
  let body ← thrown (e.soapEnvelope attempt token)
  let authorization ← authorization e attempt (selected selections ["digest"]) challenge body
  inTime (e.overdue attempt .request)
  return { contentType := "application/soap+xml; charset=utf-8; action=\"" ++ e.operation.soapAction ++ "\"", authorization, body }

def settle : Failure ν → Failure ν
  | .error error true =>
    if error.execution = .notSent then .error error true
    else .error ⟨.outcomeUnknown, "Native request may have executed; it was not replayed", .unknown⟩ false
  | failure => failure

/-- `\s*charset\s*=\s*"?([^;"\s]+)`. -/
def charsetAt (text : List Char) : Option (List Char) :=
  let text := text.dropWhile Media.isSpace
  match (text.drop 7).dropWhile Media.isSpace with
  | '=' :: value =>
    let value := value.dropWhile Media.isSpace
    let found := (if value.head? = some '"' then value.tail else value).takeWhile fun ch =>
      ch ≠ ';' && ch ≠ '"' && !Media.isSpace ch
    if lower (text.take 7) = "charset".toList ∧ found ≠ [] then some found else none
  | _ => none

/-- The `charset` that a content type names, at its start or after a `;`. -/
def charsetOf (contentType : List Char) : Option (List Char) :=
  (contentType :: contentType.tails.filterMap fun text => if text.head? = some ';' then some text.tail else none).findSome?
    charsetAt

/-- `^application\/soap\+xml(?:\s*;|$)`. -/
def soapContentType (contentType : List Char) : Bool :=
  let rest := contentType.drop 20
  lower (contentType.take 20) = "application/soap+xml".toList &&
    (rest = [] || (rest.dropWhile Media.isSpace).head? = some ';')

def qualified (response : SoapResponse) : Bool :=
  match headerValues "content-type" response with
  | some [contentType] =>
    soapContentType contentType.toList &&
      ((charsetOf contentType.toList).all fun charset => (lower charset).erase '-' = "utf8".toList) &&
      ((headerValues "content-encoding" response).getD []).all fun value => lower value.toList = "identity".toList
  | _ => false

/-- What the `catch` makes of an error. -/
def certain : Failure ν → Failure ν
  | .error error transport =>
    if error.execution = .notSent then .error ⟨error.code, error.message, .unknown⟩ false else .error error transport
  | failure => failure

def decodeResponse (response : SoapResponse) : Except (Failure ν) (NativeExecutionResult ν) := do
  let payload ← soapResponse e.xml response.body e.operation response.status (e.addressingNamespace.getD WSA_NS)
  match e.operation.response with
  | none => .error (.error (unknownXml "A one-way native acknowledgement must not invent a response payload") false)
  | some element => do
    let value ← raised (e.xml.decodeElement element payload)
    return { value := some value, xml := some payload, status := response.status, oneWay := false }

/-- Whether the next challenge is one that the last credentials may be
answered to. -/
def renews (next challenge : DigestChallenge) : Bool :=
  next.stale && next.nonce ≠ challenge.nonce && next.realm = challenge.realm && next.algorithm = challenge.algorithm &&
    next.qop = challenge.qop

def answered (last : Bool) (digest : Bool) (challenge : Option DigestChallenge) (response : SoapResponse) :
    Except (Failure ν) (DigestChallenge ⊕ NativeExecutionResult ν) :=
  if 300 ≤ response.status ∧ response.status < 400 then
    fails .policyDenied "Native redirects are not followed" .unknown
  else if response.status = 401 then
    if ¬digest ∨ last then fails .authenticationFailed "Native authentication was rejected" .rejected
    else do
      let next ← thrown (selectDigestChallenge ((headerValues "www-authenticate" response).getD []) e.digestPolicy)
      if challenge.any fun challenge => !renews next challenge then
        fails .authenticationFailed "Rejected Digest credentials are not replayed or downgraded" .rejected
      else return .inl next
  else if e.operation.response.isNone ∧ (response.status = 202 ∨ response.status = 204) ∧ response.body = [] then
    return .inr { value := none, xml := none, status := response.status, oneWay := true }
  else if ¬qualified response then
    fails .unsupportedCapability "Native response encoding is not qualified SOAP 1.2 UTF-8" .unknown
  else match decodeResponse e response with
    | .ok result => return .inr result
    | .error failure => .error (certain failure)

/-- The loop of `exchange`, with as many attempts left; there are three. -/
def attempts (selections : List SelectedSecurity) : Nat → Option DigestChallenge →
    List (Call ν) × Except (Failure ν) (NativeExecutionResult ν)
  | 0, _ => ([], fails .authenticationFailed "Native authentication exchange exhausted" .rejected)
  | left + 1, challenge =>
    let attempt := 2 - left
    match prepare e attempt selections challenge with
    | .error failure => ([], .error failure)
    | .ok request =>
      let outcome := e.transport attempt request
      let call : Call ν := { challenge := if request.authorization.isSome then challenge else none, request, outcome }
      match outcome with
      | .failure failure => ([call], .error (settle failure))
      | .response response =>
        match answered e (left = 0) (selected selections ["digest"]).isSome challenge response with
        | .error failure => ([call], .error failure)
        | .ok (.inr result) => ([call], .ok result)
        | .ok (.inl next) =>
          let rest := attempts selections left (some next)
          (call :: rest.1, rest.2)

def clientIdentity (selections : List SelectedSecurity) : Except (Failure ν) Unit :=
  match selected selections ["cert", MUTUAL_TLS_SCHEME] with
  | some certificate => do
    thrown (require e.target.https .policyDenied "Mutual TLS requires an HTTPS target")
    inTime e.certificateWait
    match ← credentialFor e.certificateProvider e.context e.target certificate with
    | .tls _ _ => return ()
    | _ => fails .invalidSecurity "Mutual TLS requires a principal-scoped client certificate and key"
  | none => thrown (require (¬e.trustIdentity) .invalidSecurity
      "A global trust certificate cannot silently become a cross-principal client identity")

/-- What `exchange` does before its loop. -/
def preflight : Except (Failure ν) (List SelectedSecurity) := do
  thrown e.preliminary
  let selections ← thrown e.selections
  clientIdentity e selections
  let _ ← raised (e.xml.decodeElement e.operation.request e.payload)
  return selections

/-- `NativeExecutor.exchange`: the calls of the transport, and the outcome. -/
def exchange : List (Call ν) × Except (Failure ν) (NativeExecutionResult ν) := match preflight e with
  | .error failure => ([], .error failure)
  | .ok selections => attempts e selections 3 none

end

end WotAv.Binding
