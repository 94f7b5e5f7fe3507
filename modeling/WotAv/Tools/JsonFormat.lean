import WotAv.Lib.Utf8
import WotAv.Tools.Numbers

/-!
# Strict JSON and its two writers

`strict_json`, `json_bytes` and `format_json`. `json.loads` is its lexer and a
parser of its tokens; a text that is no token is one token that nothing accepts.
The decoder's own messages are left out.
-/

namespace WotAv.Tools

open WotAv.Lib
open Json (isSpace readChar)

def MAX_JSON_BYTES : ℕ := 16 * 1024 * 1024

def invalidSyntax {α : Type} (message : String) : Except AVError α :=
  .error { code := .invalidSyntax, message := message, stage := "parse" }

-- Tokens

/-- The content of a string is what stands between its quotes. -/
inductive Token
  | punct (c : Char)
  | string (content : List Char)
  | word (text : List Char)
  | bad
  deriving DecidableEq, Repr

def isPunct (c : Char) : Bool := c = '{' || c = '}' || c = '[' || c = ']' || c = ',' || c = ':'

def isWordChar (c : Char) : Bool := !isSpace c && !isPunct c && c != '"'

/-- The content of a string from after its opening quote, and what follows the
closing one. -/
def scanString : List Char → Option (List Char × List Char)
  | '"' :: rest => some ([], rest)
  | '\\' :: c :: rest => (scanString rest).map fun r => ('\\' :: c :: r.1, r.2)
  | c :: rest => (scanString rest).map fun r => (c :: r.1, r.2)
  | [] => none

def lexLoop : ℕ → List Char → List Token
  | 0, _ => []
  | _, [] => []
  | fuel + 1, c :: rest =>
    if isSpace c then lexLoop fuel rest
    else if isPunct c then .punct c :: lexLoop fuel rest
    else if c = '"' then
      match scanString rest with
      | some (content, rest) => .string content :: lexLoop fuel rest
      | none => [.bad]
    else .word (c :: rest.takeWhile isWordChar) :: lexLoop fuel (rest.dropWhile isWordChar)

def lex (text : List Char) : List Token := lexLoop text.length text

-- Scalars

/-- The parts of a numeral: `-`, digits, digits after a point, an exponent. -/
structure Numeral where
  negative : Bool
  whole : List Char
  fraction : List Char
  exponent : ℤ
  deriving DecidableEq, Repr

/-- `(0|[1-9]\d*)(\.\d+)?([eE][-+]?\d+)?`. -/
def unsignedNumeral (negative : Bool) (text : List Char) : Option Numeral := do
  let (whole, rest) ← someDigits text
  if 1 < whole.length ∧ whole.head? = some '0' then none
  else
    let (fraction, rest) ← readFraction rest
    let (exponent, rest) ← readExponent? rest
    if rest = [] then some ⟨negative, whole, fraction, exponent⟩ else none

def numeral : List Char → Option Numeral
  | '-' :: rest => unsignedNumeral true rest
  | text => unsignedNumeral false text

/-- Whether a numeral is for `Decimal`. -/
def isFractional (text : List Char) : Bool := text.any fun c => c = '.' || c = 'e' || c = 'E'

/-- `Decimal(value)`. -/
def Numeral.decimal (n : Numeral) : Decimal :=
  ⟨n.negative, Nat.ofDigitChars 10 (n.whole ++ n.fraction) 0, n.exponent - n.fraction.length⟩

/-- `int(value)`. -/
def Numeral.integer (n : Numeral) : ℤ :=
  if n.negative then -(Nat.ofDigitChars 10 n.whole 0 : ℤ) else Nat.ofDigitChars 10 n.whole 0

def number (text : List Char) (n : Numeral) : Except AVError Number :=
  if MAX_DIGITS + 16 < text.length then
    .error ⟨.resourceLimit, "Numeric token budget exceeded", "parse", some "numeric-digits", some (.count text.length)⟩
  else do
    let result := if isFractional text then .decimal n.decimal else .integer n.integer
    numeric_limit result
    .ok result

def scalar (text : List Char) : Except AVError Value :=
  if text = "null".toList then .ok .null
  else if text = "true".toList then .ok (.bool true)
  else if text = "false".toList then .ok (.bool false)
  else match numeral text with
  | some n => do
    let value ← number text n
    .ok (.number value)
  | none =>
    if text = "NaN".toList ∨ text = "Infinity".toList ∨ text = "-Infinity".toList then
      invalidSyntax ("Non-JSON numeric constant: " ++ String.ofList text)
    else invalidSyntax "Invalid JSON"

/-- The characters of a string's content. A lone surrogate, which
`unicode_scalar` refuses, is no character. -/
def decodeLoop : ℕ → List Char → Option (List Char)
  | _, [] => some []
  | 0, _ => none
  | fuel + 1, content => do
    let (c, rest) ← readChar content
    let text ← decodeLoop fuel rest
    return c :: text

def decodeString (content : List Char) : Except AVError String :=
  match decodeLoop content.length content with
  | some text => .ok (String.ofList text)
  | none => invalidSyntax "Invalid JSON"

-- Values

/-- `pairs`, from the members that are already in `result`. -/
def pairsLoop (result : List (String × Value)) : List (String × Value) → Except AVError (List (String × Value))
  | [] => .ok result
  | (key, value) :: values =>
    if key ∈ result.map (·.1) then invalidSyntax ("Duplicate JSON member: " ++ key)
    else pairsLoop (result ++ [(key, value)]) values

def pairs (values : List (String × Value)) : Except AVError (List (String × Value)) := pairsLoop [] values

mutual
/-- Every step uses up a token or turns to a value that does. -/
def parseValue : ℕ → List Token → Except AVError (Value × List Token)
  | fuel + 1, .punct '{' :: tokens =>
    match tokens with
    | .punct '}' :: tokens => .ok (.object [], tokens)
    | _ => do
      let (values, tokens) ← parseMembers fuel tokens
      let members ← pairs values
      .ok (.object members, tokens)
  | fuel + 1, .punct '[' :: tokens =>
    match tokens with
    | .punct ']' :: tokens => .ok (.array [], tokens)
    | _ => do
      let (items, tokens) ← parseItems fuel tokens
      .ok (.array items, tokens)
  | _ + 1, .string content :: tokens => do
    let text ← decodeString content
    .ok (.string text, tokens)
  | _ + 1, .word text :: tokens => do
    let value ← scalar text
    .ok (value, tokens)
  | _, _ => invalidSyntax "Invalid JSON"
def parseItems : ℕ → List Token → Except AVError (List Value × List Token)
  | 0, _ => invalidSyntax "Invalid JSON"
  | fuel + 1, tokens => do
    let (item, tokens) ← parseValue fuel tokens
    match tokens with
    | .punct ']' :: tokens => .ok ([item], tokens)
    | .punct ',' :: tokens => do
      let (items, tokens) ← parseItems fuel tokens
      .ok (item :: items, tokens)
    | _ => invalidSyntax "Invalid JSON"
def parseMembers : ℕ → List Token → Except AVError (List (String × Value) × List Token)
  | fuel + 1, .string content :: .punct ':' :: tokens => do
    let key ← decodeString content
    let (value, tokens) ← parseValue fuel tokens
    match tokens with
    | .punct '}' :: tokens => .ok ([(key, value)], tokens)
    | .punct ',' :: tokens => do
      let (values, tokens) ← parseMembers fuel tokens
      .ok ((key, value) :: values, tokens)
    | _ => invalidSyntax "Invalid JSON"
  | _, _ => invalidSyntax "Invalid JSON"
end

def loads (text : List Char) : Except AVError Value := do
  let (value, rest) ← parseValue (2 * (lex text).length) (lex text)
  if rest = [] then .ok value else invalidSyntax "Invalid JSON"

inductive Source
  | text (chars : List Char)
  | bytes (octets : Bytes)

def Source.length : Source → ℕ
  | .text chars => chars.length
  | .bytes octets => octets.length

def Source.decode : Source → Except AVError (List Char)
  | .text chars => .ok chars
  | .bytes octets =>
    match octets.toByteArray.utf8Decode? with
    | some chars => .ok chars.toList
    | none => invalidSyntax "Invalid UTF-8"

def strict_json (source : Source) : Except AVError Value := do
  if MAX_JSON_BYTES < source.length then
    .error ⟨.resourceLimit, "JSON input byte budget exceeded", "parse", some "json-bytes", some (.count source.length)⟩
  else
    let text ← source.decode
    let result ← loads text
    check_json_domain 0 result
    .ok result

-- Writing a value

def Decimal.str (d : Decimal) : List Char :=
  let digits := d.digits
  let leftdigits := d.exponent + digits.length
  let dotplace : ℤ := if d.exponent ≤ 0 ∧ -6 < leftdigits then leftdigits else 1
  let (intpart, fracpart) :=
    if dotplace ≤ 0 then (['0'], '.' :: (List.replicate dotplace.natAbs '0' ++ digits))
    else if digits.length ≤ dotplace then (digits ++ List.replicate (dotplace - digits.length).toNat '0', [])
    else (digits.take dotplace.toNat, '.' :: digits.drop dotplace.toNat)
  let exp := if leftdigits = dotplace then []
    else 'E' :: (if leftdigits < dotplace then '-' else '+') :: Nat.toDigits 10 (leftdigits - dotplace).natAbs
  d.signChars ++ intpart ++ fracpart ++ exp

def hex4 (n : ℕ) : List Char :=
  [Nat.digitChar (n / 4096), Nat.digitChar (n / 256 % 16), Nat.digitChar (n / 16 % 16), Nat.digitChar (n % 16)]

def dumpsChar (c : Char) : List Char :=
  if c = '"' ∨ c = '\\' then ['\\', c]
  else if c.toNat = 8 then ['\\', 'b']
  else if c.toNat = 9 then ['\\', 't']
  else if c.toNat = 10 then ['\\', 'n']
  else if c.toNat = 12 then ['\\', 'f']
  else if c.toNat = 13 then ['\\', 'r']
  else if 32 ≤ c.toNat ∧ c.toNat ≤ 126 then [c]
  else if c.toNat < 0x10000 then '\\' :: 'u' :: hex4 c.toNat
  else
    let n := c.toNat - 0x10000
    '\\' :: 'u' :: hex4 (0xd800 + n / 0x400) ++ '\\' :: 'u' :: hex4 (0xdc00 + n % 0x400)

def dumps (text : String) : List Char := '"' :: text.toList.flatMap dumpsChar ++ ['"']

def Number.chars : Number → List Char
  | .integer n => intChars n
  | .decimal d => d.str

def indent (depth : ℕ) : List Char := List.replicate (4 * depth) ' '

/-- The children of a container, each on a line of its own. -/
def joinChildren (depth : ℕ) (children : List (List Char)) : List Char :=
  '\n' :: indent depth ++ (',' :: '\n' :: indent depth).intercalate children

mutual
def encode (depth : ℕ) : Value → List Char
  | .object [] => "{}".toList
  | .object members => '{' :: joinChildren (depth + 1) (encodeMembers (depth + 1) members) ++ '\n' :: indent depth ++ ['}']
  | .array [] => "[]".toList
  | .array items => '[' :: joinChildren (depth + 1) (encodeItems (depth + 1) items) ++ '\n' :: indent depth ++ [']']
  | .number value => value.chars
  | .string text => dumps text
  | .bool true => "true".toList
  | .bool false => "false".toList
  | .null => "null".toList
def encodeItems (depth : ℕ) : List Value → List (List Char)
  | [] => []
  | item :: items => encode depth item :: encodeItems depth items
def encodeMembers (depth : ℕ) : List (String × Value) → List (List Char)
  | [] => []
  | (key, value) :: members => (dumps key ++ ':' :: ' ' :: encode depth value) :: encodeMembers depth members
end

def utf8Bytes (text : List Char) : Bytes := text.flatMap String.utf8EncodeChar

def json_bytes (value : Value) : Except AVError Bytes := do
  check_json_domain 0 value
  .ok (utf8Bytes (encode 0 value ++ ['\n']))

-- Formatting a text

/-- A match of `"(?:[^"\\]|\\.)*"` from after its opening quote, with its closing one. -/
def quotedMatch : List Char → Option (List Char × List Char)
  | '"' :: rest => some (['"'], rest)
  | '\\' :: c :: rest => if c = '\n' then none else (quotedMatch rest).map fun r => ('\\' :: c :: r.1, r.2)
  | '\\' :: [] => none
  | c :: rest => (quotedMatch rest).map fun r => (c :: r.1, r.2)
  | [] => none

def isUnicodeSpace (c : Char) : Bool :=
  [(9, 13), (28, 32), (0x85, 0x85), (0xa0, 0xa0), (0x1680, 0x1680), (0x2000, 0x200a), (0x2028, 0x2029),
    (0x202f, 0x202f), (0x205f, 0x205f), (0x3000, 0x3000)].any fun r => r.1 ≤ c.toNat && c.toNat ≤ r.2

/-- The class `[^\s{}\[\],:]`, quotes included. -/
def isLoose (c : Char) : Bool := !isUnicodeSpace c && !isPunct c

def findallLoop : ℕ → List Char → List (List Char)
  | 0, _ => []
  | _, [] => []
  | fuel + 1, c :: rest =>
    match if c = '"' then quotedMatch rest else none with
    | some (quoted, rest) => ('"' :: quoted) :: findallLoop fuel rest
    | none =>
      if isLoose c then (c :: rest.takeWhile isLoose) :: findallLoop fuel (rest.dropWhile isLoose)
      else if isPunct c then [c] :: findallLoop fuel rest
      else findallLoop fuel rest

/-- `re.findall(r'"(?:[^"\\]|\\.)*"|[^\s{}\[\],:]+|[{}\[\],:]', text)`. -/
def findall (text : List Char) : List (List Char) := findallLoop text.length text

def newline (depth : ℤ) : List Char := '\n' :: List.replicate (4 * depth.toNat) ' '

def isOpening (token : List Char) : Bool := token = ['{'] || token = ['[']

def isClosing (token : List Char) : Bool := token = ['}'] || token = [']']

def pieces (depth : ℤ) (previous : Option (List Char)) : List (List Char) → List Char
  | [] => []
  | token :: rest =>
    if isOpening token then
      if rest.head?.any isClosing then token ++ pieces depth (some token) rest
      else token ++ newline (depth + 1) ++ pieces (depth + 1) (some token) rest
    else if isClosing token then
      if previous.any isOpening then token ++ pieces depth (some token) rest
      else newline (depth - 1) ++ token ++ pieces (depth - 1) (some token) rest
    else if token = [','] then ',' :: newline depth ++ pieces depth (some token) rest
    else if token = [':'] then ':' :: ' ' :: pieces depth (some token) rest
    else token ++ pieces depth (some token) rest

def formatted (text : List Char) : List Char := pieces 0 none (findall text) ++ ['\n']

def format_json (source : Source) : Except AVError Bytes := do
  let _ ← strict_json source
  let text ← source.decode
  let _ ← strict_json (.text (formatted text))
  .ok (utf8Bytes (formatted text))

end WotAv.Tools
