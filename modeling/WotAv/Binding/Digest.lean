import WotAv.Binding.Soap

/-!
# Digest authentication (`src/security/digest.ts`)

A challenge is read from the `WWW-Authenticate` headers, and the strongest one
that the policy permits is selected. The hash functions are a parameter.
-/

namespace WotAv.Binding

open WotAv.Lib
open WotAv.Media (isSpace isControlCharacter)

inductive DigestAlgorithm
  | MD5
  | MD5_sess
  | SHA_256
  | SHA_256_sess
  deriving DecidableEq, Repr

inductive DigestQop
  | auth
  | auth_int
  deriving DecidableEq, Repr

structure DigestPolicy where
  algorithms : List DigestAlgorithm
  qops : List DigestQop

structure DigestChallenge where
  realm : String
  nonce : String
  algorithm : DigestAlgorithm
  qop : Option DigestQop
  opaqueValue : Option String
  stale : Bool
  utf8 : Bool
  userhash : Bool
  deriving DecidableEq, Repr

def DigestAlgorithm.name : DigestAlgorithm → String
  | .MD5 => "MD5"
  | .MD5_sess => "MD5-sess"
  | .SHA_256 => "SHA-256"
  | .SHA_256_sess => "SHA-256-sess"

def DigestAlgorithm.strength : DigestAlgorithm → Nat
  | .MD5 => 1
  | .MD5_sess => 2
  | .SHA_256 => 3
  | .SHA_256_sess => 4

def DigestAlgorithm.isMd5 : DigestAlgorithm → Bool
  | .MD5 | .MD5_sess => true
  | _ => false

def DigestAlgorithm.isSession : DigestAlgorithm → Bool
  | .MD5_sess | .SHA_256_sess => true
  | _ => false

def DigestQop.name : DigestQop → String
  | .auth => "auth"
  | .auth_int => "auth-int"

def authFailed {α : Type} (message : String) : Except OnvifError α := .error ⟨.authenticationFailed, message, .rejected⟩

-- Challenges

def utf16Length (value : String) : Nat := (value.toList.map fun ch => if ch.toNat < 0x10000 then 1 else 2).sum

/-- The loop of `splitFields`: a comma outside quotes ends a field. -/
def splitLoop : List Char → Bool → Bool → List Char → List (List Char) → Except OnvifError (List (List Char))
  | [], quoted, escaped, current, result =>
    if quoted || escaped then authFailed "Unterminated authentication challenge" else .ok (result ++ [trim current])
  | ch :: rest, quoted, true, current, result => splitLoop rest quoted false (current ++ [ch]) result
  | ch :: rest, quoted, false, current, result =>
    if quoted && ch = '\\' then splitLoop rest quoted true (current ++ [ch]) result
    else
      let quoted := if ch = '"' then !quoted else quoted
      if !quoted && ch = ',' then splitLoop rest quoted false [] (result ++ [trim current])
      else splitLoop rest quoted false (current ++ [ch]) result

def splitFields (header : String) : Except OnvifError (List (List Char)) :=
  if utf16Length header > 16384 ∨ header.toList.any isControlCharacter then authFailed "Invalid authentication challenge"
  else splitLoop header.toList false false [] []

/-- ``[!#$%&'*+.^_`|~\w-]``. -/
def tokenChar (ch : Char) : Bool :=
  ch.isAlphanum || ['!', '#', '$', '%', '&', '\'', '*', '+', '.', '^', '_', '`', '|', '~', '-'].contains ch

def lower (text : List Char) : List Char := text.map Char.toLower

/-- `.` matches no line terminator; control characters are rejected before. -/
def oneLine (text : List Char) : Bool := text.all fun ch => ch.toNat ≠ 0x2028 && ch.toNat ≠ 0x2029

/-- What stands between quotes, up to the end of the part. -/
def quotedValue : List Char → Option (List Char)
  | ['"'] => some []
  | '\\' :: ch :: rest => if oneLine [ch] then (quotedValue rest).map (ch :: ·) else none
  | '\\' :: [] | '"' :: _ | [] => none
  | ch :: rest => (quotedValue rest).map (ch :: ·)

def parameter (part : List Char) : Option (List Char × List Char) :=
  let key := part.takeWhile tokenChar
  match (part.drop key.length).dropWhile isSpace with
  | '=' :: rest =>
    if key = [] then none
    else match rest.dropWhile isSpace with
      | '"' :: value => (quotedValue value).map (key, ·)
      | value => if value ≠ [] ∧ value.all tokenChar then some (key, value) else none
  | _ => none

abbrev Parameters := List (List Char × List Char)

structure Challenges where
  read : List Parameters := []
  current : Option Parameters := none

def Challenges.all (c : Challenges) : List Parameters := c.read ++ c.current.toList

def scheme (part : List Char) : Option (List Char × List Char) :=
  let name := part.takeWhile tokenChar
  let rest := part.drop name.length
  if name = [] then none
  else if rest = [] then some (name, [])
  else if rest.head?.any isSpace ∧ oneLine (rest.dropWhile isSpace) then some (name, rest.dropWhile isSpace)
  else none

def startsParameter (part : List Char) : Bool :=
  let key := part.takeWhile tokenChar
  key ≠ [] && ((part.drop key.length).dropWhile isSpace).head? = some '='

def addParameter (c : Challenges) (part : List Char) : Except OnvifError Challenges :=
  match c.current with
  | none => .ok c
  | some current =>
    if part = [] then .ok c
    else match parameter part with
      | none => authFailed "Malformed Digest parameter"
      | some (key, value) =>
        if current.any (·.1 = lower key) then authFailed "Duplicate Digest parameter"
        else .ok { c with current := some (current ++ [(lower key, value)]) }

def addPart (c : Challenges) (part : List Char) : Except OnvifError Challenges :=
  if startsParameter part then addParameter c part
  else match scheme part with
    | none => authFailed "Malformed authentication scheme"
    | some (name, rest) =>
      addParameter { read := c.all, current := if lower name = "digest".toList then some [] else none } rest

def challengesOf (header : String) : Except OnvifError (List Parameters) := do
  let parts ← splitFields header
  let c ← parts.foldlM addPart {}
  return c.all

def challenges (headers : List String) : Except OnvifError (List Parameters) :=
  if headers.length > 32 then authFailed "Too many authentication challenges"
  else do
    let each ← headers.mapM challengesOf
    return each.flatten

-- Selection

def lookup (key : String) (values : Parameters) : Option String :=
  (values.find? (·.1 = key.toList)).map (String.ofList ·.2)

def algorithmOf (text : String) : Option DigestAlgorithm :=
  [.MD5, .MD5_sess, .SHA_256, .SHA_256_sess].find? fun entry => lower entry.name.toList = lower text.toList

def digestBoolean (value : Option String) : Bool := value = none || value = some "true" || value = some "false"

def offeredQops (values : Parameters) : Option (List String) :=
  (lookup "qop" values).map fun text => (text.toList.splitOn ',').map fun value => String.ofList (trim value)

/-- A challenge that the policy permits, or nothing where it permits it not. -/
def supported (policy : DigestPolicy) (values : Parameters) : Except OnvifError (Option DigestChallenge) :=
  match (algorithmOf ((lookup "algorithm" values).getD "MD5")).filter (policy.algorithms.contains ·) with
  | none => .ok none
  | some algorithm =>
    match lookup "realm" values, lookup "nonce" values with
    | some realm, some nonce =>
      if nonce = "" then authFailed "Digest requires realm and nonce"
      else
        let qop := policy.qops.find? fun qop => ((offeredQops values).getD []).contains qop.name
        if (offeredQops values).isSome ∧ qop = none then .ok none
        else
          let charset := lookup "charset" values
          if charset.any fun charset => charset.toList.map Char.toUpper ≠ "UTF-8".toList then .ok none
          else if ¬(digestBoolean (lookup "stale" values) ∧ digestBoolean (lookup "userhash" values)) then
            authFailed "Invalid Digest boolean"
          else .ok (some { realm, nonce, algorithm, qop, opaqueValue := lookup "opaque" values
                           stale := lookup "stale" values = some "true", utf8 := charset.isSome
                           userhash := lookup "userhash" values = some "true" })
    | _, _ => authFailed "Digest requires realm and nonce"

/-- The first of the strongest challenges: the sort is stable. -/
def strongest (supported : List DigestChallenge) : Option DigestChallenge :=
  (supported.mergeSort fun a b => b.algorithm.strength ≤ a.algorithm.strength).head?

def selectDigestChallenge (headers : List String) (policy : DigestPolicy) : Except OnvifError DigestChallenge := do
  let offered ← challenges headers
  let supported ← offered.mapM (supported policy)
  match strongest (supported.filterMap id) with
  | none => authFailed "No permitted Digest algorithm and qop were offered; no downgrade performed"
  | some selected => return selected

-- Authorization

/-- `createHash`: the digest of some bytes, in hexadecimal. -/
structure Hashes where
  md5 : Bytes → String
  sha256 : Bytes → String

structure DigestAuthorizationInput where
  challenge : DigestChallenge
  username : String
  password : String
  uri : String
  body : Bytes
  cnonce : String

def escapeQuoted (value : String) : String :=
  String.ofList (value.toList.flatMap fun ch => if ch = '\\' ∨ ch = '"' then ['\\', ch] else [ch])

def quoted (value : String) : Except OnvifError String :=
  if value.toList.any isControlCharacter then authFailed "Invalid authentication header value"
  else .ok ("\"" ++ escapeQuoted value ++ "\"")

def hexDigit (n : Nat) : Char := ("0123456789ABCDEF".toList[n]?).getD '0'

/-- `encodeURIComponent`, with its other five marks escaped as well. -/
def percentEncoded (value : String) : String :=
  String.ofList ((utf8 value).flatMap fun b =>
    let ch := Char.ofNat b.toNat
    if b.toNat < 128 ∧ (ch.isAlphanum ∨ ['-', '_', '.', '~'].contains ch) then [ch]
    else ['%', hexDigit (b.toNat / 16), hexDigit (b.toNat % 16)])

def latin1 (value : String) : Bytes := value.toList.map fun ch => UInt8.ofNat ch.toNat

namespace DigestAuthorizationInput

variable (hashes : Hashes) (input : DigestAuthorizationInput)

def hash : Bytes → String := if input.challenge.algorithm.isMd5 then hashes.md5 else hashes.sha256

def h (value : String) : String := input.hash hashes (if input.challenge.utf8 then utf8 value else latin1 value)

def nc (nonceCount : Nat) : String :=
  String.ofList ((List.range 8).reverse.map fun place => Nat.digitChar (nonceCount / 16 ^ place % 16))

def response (method : String) (nonceCount : Nat) : String :=
  let challenge := input.challenge
  let secret := input.h hashes (input.username ++ ":" ++ challenge.realm ++ ":" ++ input.password)
  let ha1 :=
    if challenge.algorithm.isSession then input.h hashes (secret ++ ":" ++ challenge.nonce ++ ":" ++ input.cnonce)
    else secret
  let integrity := if challenge.qop = some .auth_int then ":" ++ input.hash hashes input.body else ""
  let ha2 := input.h hashes (method ++ ":" ++ input.uri ++ integrity)
  let middle := challenge.qop.elim "" fun qop => nc nonceCount ++ ":" ++ input.cnonce ++ ":" ++ qop.name ++ ":"
  input.h hashes (ha1 ++ ":" ++ challenge.nonce ++ ":" ++ middle ++ ha2)

/-- `[^\u0020-\u007e]` is not in the name. -/
def plain : Bool := input.username.toList.all fun ch => 0x20 ≤ ch.toNat && ch.toNat ≤ 0x7e

def user : Except OnvifError String :=
  if input.challenge.userhash then do
    let name ← quoted (input.h hashes (input.username ++ ":" ++ input.challenge.realm))
    return "username=" ++ name ++ ", userhash=true"
  else if !input.plain ∧ input.challenge.utf8 then .ok ("username*=UTF-8''" ++ percentEncoded input.username)
  else do
    let name ← quoted input.username
    return "username=" ++ name

end DigestAuthorizationInput

/-- `createDigestAuthorization`, with all that the input has. -/
def createDigestAuthorizationOf (hashes : Hashes) (input : DigestAuthorizationInput) (method : String) (nonceCount : Nat) :
    Except OnvifError String :=
  let challenge := input.challenge
  let outside (text : String) := text.toList.any fun ch => ch.toNat > 0xff
  if nonceCount < 1 ∨ nonceCount > 0xffffffff ∨ input.cnonce = "" then authFailed "Invalid Digest nonce state"
  else if ¬challenge.utf8 ∧ outside (input.username ++ input.password ++ challenge.realm) then
    authFailed "Digest challenge did not permit UTF-8 credentials"
  else do
    let user ← input.user hashes
    let realm ← quoted challenge.realm
    let nonce ← quoted challenge.nonce
    let uri ← quoted input.uri
    let response ← quoted (input.response hashes method nonceCount)
    let opaqueValue ← challenge.opaqueValue.mapM quoted
    let cnonce ← if challenge.qop.isSome ∨ challenge.algorithm.isSession then quoted input.cnonce else pure ""
    let fields := [user, "realm=" ++ realm, "nonce=" ++ nonce, "uri=" ++ uri, "algorithm=" ++ challenge.algorithm.name,
      "response=" ++ response] ++ (opaqueValue.map ("opaque=" ++ ·)).toList ++
      match challenge.qop with
      | some qop => ["qop=" ++ qop.name, "nc=" ++ DigestAuthorizationInput.nc nonceCount, "cnonce=" ++ cnonce]
      | none => if challenge.algorithm.isSession then ["cnonce=" ++ cnonce] else []
    return "Digest " ++ ", ".intercalate fields

/-- The first authorization for a nonce: the count is 1, and the method `POST`. -/
def createDigestAuthorization (hashes : Hashes) (input : DigestAuthorizationInput) : Except OnvifError String :=
  createDigestAuthorizationOf hashes input "POST" 1

example : DigestAuthorizationInput.nc 1 = "00000001" := by decide

end WotAv.Binding
