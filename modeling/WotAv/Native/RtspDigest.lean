import WotAv.Lib.Transition
import WotAv.Lib.Utf8

/-!
# RTSP Digest (`native-media/patches/p0_digest.c`)

A `gchar *` is its bytes, or `none` where it may be `NULL`. A table of
parameters lists what was inserted last first. What GLib checks and hashes is a
parameter, and each call brings the random bytes that it may draw.
-/

namespace WotAv.Native.Digest

open WotAv.Lib

inductive ChecksumType
  | md5 | sha256

structure Library where
  utf8Validate : Bytes → Bool
  checksum : ChecksumType → Bytes → Bytes

/-- ASCII text is valid UTF-8. -/
def Library.Ascii (lib : Library) : Prop := ∀ text : Bytes, (∀ b ∈ text, b < 128) → lib.utf8Validate text = true

def asciiStrdown (text : Bytes) : Bytes := text.map fun b => if 65 ≤ b ∧ b ≤ 90 then b + 32 else b

def sameText (a b : Bytes) : Bool := asciiStrdown a = asciiStrdown b

def isSpace (b : UInt8) : Bool := b = 32 || (9 ≤ b && b ≤ 13 && b ≠ 11)

def strstrip (text : Bytes) : Bytes := ((text.dropWhile isSpace).reverse.dropWhile isSpace).reverse

/-- The pieces between the first `max` commas, and what follows them. -/
def pieces : ℕ → Bytes → List Bytes
  | 0, text => [text]
  | max + 1, text => match text.span (· ≠ 44) with
    | (piece, []) => [piece]
    | (piece, _ :: rest) => piece :: pieces max rest

def strsplit (text : Bytes) (max : ℕ) : List Bytes := if text = [] then [] else pieces (max - 1) text

variable (lib : Library)

def safeAscii (value : Bytes) : Bool :=
  value.length ≤ 2048 && lib.utf8Validate value && value.all fun b => 0x20 ≤ b && b ≠ 0x7f

def rank (algorithm qop charset userhash : Option Bytes) : ℕ :=
  let md5 := algorithm.all (sameText (utf8 "MD5"))
  let sha256 := algorithm.any (sameText (utf8 "SHA-256"))
  if (!md5 && !sha256) || charset.any (!sameText (utf8 "UTF-8") ·) || userhash.any (!sameText (utf8 "false") ·) then 0
  else match qop with
    | none => if md5 then 1 else 0
    | some qop =>
      if !safeAscii lib qop then 0
      else
        let tokens := strsplit qop 17
        let hasAuth := tokens.length ≤ 16 && tokens.any fun token => sameText (strstrip token) (utf8 "auth")
        if hasAuth then if sha256 then 3 else 2 else 0

abbrev Table := List (Bytes × Bytes)

def tableRank (params : Table) : ℕ :=
  rank lib (params.lookup (utf8 "algorithm")) (params.lookup (utf8 "qop")) (params.lookup (utf8 "charset"))
    (params.lookup (utf8 "userhash"))

structure GstRTSPAuthParam where
  name : Option Bytes
  value : Option Bytes

def gather : ℕ → List GstRTSPAuthParam → Table → Option Table
  | _, [], values => some values
  | i, param :: params, values => match param.name, param.value with
    | some name, some value =>
      if 32 ≤ i ∨ !safeAscii lib name ∨ !safeAscii lib value then none
      else if (values.lookup (asciiStrdown name)).isSome then none
      else gather (i + 1) params ((asciiStrdown name, value) :: values)
    | _, _ => none

def paramsRank (params : Option (List GstRTSPAuthParam)) : ℕ :=
  match params.bind (gather lib 0 · []) with
  | none => 0
  | some values => match values.lookup (utf8 "realm"), values.lookup (utf8 "nonce") with
    | some _, some nonce => if nonce = [] then 0 else tableRank lib values
    | _, _ => 0

-- Headers

def hexDigit (n : ℕ) : UInt8 := .ofNat (if n < 10 then 48 + n else 87 + n)

def hex : ℕ → ℕ → Bytes
  | 0, _ => []
  | width + 1, n => hexDigit (n / 16 ^ width % 16) :: hex width n

def response (algorithm : Option Bytes) (method realm user password uri nonce cnonce : Bytes) (count : ℕ)
    (authQop : Bool) : Option Bytes :=
  if ¬(safeAscii lib method ∧ safeAscii lib realm ∧ safeAscii lib user ∧ safeAscii lib password ∧ safeAscii lib uri ∧
      safeAscii lib nonce) ∨ authQop ∧ (¬safeAscii lib cnonce ∨ cnonce = [] ∨ count = 0) then none
  else
    let type : Option ChecksumType :=
      if algorithm.all (sameText (utf8 "MD5")) then some .md5
      else if algorithm.any (sameText (utf8 "SHA-256")) ∧ authQop then some .sha256
      else none
    type.map fun type =>
      let colon := utf8 ":"
      let ha1 := lib.checksum type (user ++ colon ++ realm ++ colon ++ password)
      let ha2 := lib.checksum type (method ++ colon ++ uri)
      lib.checksum type
        (if authQop then
          ha1 ++ colon ++ nonce ++ colon ++ hex 8 count ++ colon ++ cnonce ++ utf8 ":auth:" ++ ha2
        else ha1 ++ colon ++ nonce ++ colon ++ ha2)

def quoted (value : Bytes) : Bytes :=
  34 :: (value.flatMap (fun b => if b = 34 ∨ b = 92 then [92, b] else [b]) ++ [34])

structure P0DigestState where
  nonce : Option Bytes := none
  realm : Option Bytes := none
  cnonce : Bytes := []
  count : ℕ := 0
  strongest : ℕ := 0
  deriving DecidableEq

def G_MAXUINT32 : ℕ := 2 ^ 32 - 1

/-- The arguments of `p0_digest_header`, and the bytes that `BCryptGenRandom` gives. -/
structure Call where
  params : Option Table
  method : Option Bytes
  user : Option Bytes
  password : Option Bytes
  uri : Option Bytes
  random : Option (Fin 16 → UInt8)

structure Checked where
  rank : ℕ
  realm : Bytes
  nonce : Bytes
  opaqueValue : Option Bytes
  user : Bytes
  password : Bytes
  method : Bytes
  uri : Bytes

def checked (state : P0DigestState) (call : Call) : Option Checked := do
  let params ← call.params
  let rank := tableRank lib params
  guard (rank ≠ 0 ∧ state.strongest ≤ rank)
  let realm ← (params.lookup (utf8 "realm")).filter (safeAscii lib)
  let nonce ← (params.lookup (utf8 "nonce")).filter (safeAscii lib)
  let opaqueValue := params.lookup (utf8 "opaque")
  guard (nonce ≠ [] ∧ opaqueValue.all (safeAscii lib) ∧ state.realm.all (· = realm))
  let user ← call.user.filter (safeAscii lib)
  guard (58 ∉ user)
  let password ← call.password.filter (safeAscii lib)
  let method ← call.method.filter (safeAscii lib)
  let uri ← call.uri.filter (safeAscii lib)
  return { rank, realm, nonce, opaqueValue, user, password, method, uri }

/-- The state with the realm pinned and the nonce of the challenge. -/
def P0DigestState.adopt (state : P0DigestState) (c : Checked) : P0DigestState :=
  let state := if state.realm.isNone then { state with realm := some c.realm } else state
  if state.nonce ≠ some c.nonce then { state with nonce := some c.nonce, count := 0, cnonce := [] } else state

def NeedsCnonce (state : P0DigestState) (c : Checked) : Prop := 1 < c.rank ∧ state.cnonce = []

instance (state : P0DigestState) (c : Checked) : Decidable (NeedsCnonce state c) := by
  unfold NeedsCnonce
  infer_instance

/-- The state with a cnonce, where one is needed. -/
def P0DigestState.draw (state : P0DigestState) (c : Checked) (random : Option (Fin 16 → UInt8)) : Option P0DigestState :=
  if NeedsCnonce state c then
    random.map fun bytes => { state with cnonce := (List.ofFn bytes).flatMap fun b => hex 2 b.toNat }
  else some state

def algorithmOf (rank : ℕ) : Bytes := if rank = 3 then utf8 "SHA-256" else utf8 "MD5"

def text (c : Checked) (state : P0DigestState) (response : Bytes) : Bytes :=
  utf8 "Digest username=" ++ quoted c.user ++ utf8 ", realm=" ++ quoted c.realm ++ utf8 ", nonce=" ++ quoted c.nonce ++
    utf8 ", uri=" ++ quoted c.uri ++ utf8 ", response=" ++ quoted response ++ utf8 ", algorithm=" ++ algorithmOf c.rank ++
    (if 1 < c.rank then utf8 ", qop=auth, nc=" ++ hex 8 state.count ++ utf8 ", cnonce=" ++ quoted state.cnonce else []) ++
    (match c.opaqueValue with
    | some value => utf8 ", opaque=" ++ quoted value
    | none => [])

/-- `p0_digest_header`: the state after it, and the header. -/
def header (state : P0DigestState) (call : Call) : P0DigestState × Option Bytes :=
  match checked lib state call with
  | none => (state, none)
  | some c =>
    match (state.adopt c).draw c call.random with
    | none => (state.adopt c, none)
    | some state =>
      if state.count = G_MAXUINT32 then (state, none)
      else
        let state := { state with count := state.count + 1 }
        match response lib (some (algorithmOf c.rank)) c.method c.realm c.user c.password c.uri c.nonce state.cnonce
            state.count (1 < c.rank) with
        | none => (state, none)
        | some response => ({ state with strongest := max state.strongest c.rank }, some (text c state response))

-- Selection

inductive GstRTSPAuthMethod
  | none | basic | digest
  deriving DecidableEq

structure GstRTSPAuthCredential where
  scheme : GstRTSPAuthMethod
  params : Option (List GstRTSPAuthParam)

structure P0MediaAuth where
  realm : Option Bytes
  username : Option Bytes
  allowMd5 : Bool

def realmOf (credential : GstRTSPAuthCredential) : Option Bytes :=
  (credential.params.getD []).foldl
    (fun realm param => if param.name.any (sameText (utf8 "realm")) then param.value else realm) none

def choose (policy : P0MediaAuth) : ℕ → List GstRTSPAuthCredential → ℕ → Option GstRTSPAuthCredential →
    Option GstRTSPAuthCredential
  | _, [], _, selected => selected
  | i, candidate :: credentials, strongest, selected =>
    if 8 ≤ i then none
    else if candidate.scheme ≠ .digest then choose policy (i + 1) credentials strongest selected
    else
      let rank := paramsRank lib candidate.params
      if rank = 0 ∨ rank < 3 ∧ !policy.allowMd5 ∨ realmOf candidate ≠ policy.realm ∨ rank ≤ strongest then
        choose policy (i + 1) credentials strongest selected
      else choose policy (i + 1) credentials rank (some candidate)

def tableOf (credential : GstRTSPAuthCredential) : Table :=
  ((credential.params.getD []).map fun param => (asciiStrdown (param.name.getD []), param.value.getD [])).reverse

/-- `p0_digest_select`, from the credentials that GStreamer parsed. -/
def select (policy : Option P0MediaAuth) (credentials : Option (List GstRTSPAuthCredential)) : Option Table := do
  let policy ← policy
  guard (policy.username.any (· ≠ []) ∧ policy.realm.isSome)
  let credentials ← credentials
  (choose lib policy 0 credentials 0 none).map tableOf

end WotAv.Native.Digest
