import Mathlib.Data.List.DropRight
import WotAv.Lib.UriTemplate
import WotAv.Tools.Numbers

/-!
# Expansion of native addresses

`template_expressions` and `expand_template`. The regular expressions stand as
recognisers of the texts that they match in full.
-/

namespace WotAv.Tools

open WotAv.Lib
open UriTemplate (Operator pctByte isWord isHexdig)

def nativeParameters : String := "native-parameters"

def unsupportedAccess {α : Type} (message : String) : Except AVError α :=
  .error { code := .unsupportedNativeAccess, message := message, stage := nativeParameters }

structure OperatorRow where
  lead : List Char
  separator : List Char
  named : Bool
  reserved : Bool
  deriving DecidableEq, Repr

def OPERATORS : Operator → OperatorRow
  | .simple => ⟨[], [','], false, false⟩
  | .reserved => ⟨[], [','], false, true⟩
  | .fragment => ⟨['#'], [','], false, true⟩
  | .label => ⟨['.'], ['.'], false, false⟩
  | .path => ⟨['/'], ['/'], false, false⟩
  | .parameter => ⟨[';'], [';'], true, false⟩
  | .query => ⟨['?'], ['&'], true, false⟩
  | .continuation => ⟨['&'], ['&'], true, false⟩

def RESERVED : List Char := ":/?#[]@!$&'()*+,;=".toList

-- Template expressions

def notBrace (c : Char) : Bool := c != '{' && c != '}'

/-- The first match of `\{([^{}]*)\}`: what stands before it, its group and
what follows. -/
def nextMatch : List Char → Option (List Char × List Char × List Char)
  | [] => none
  | c :: rest =>
    if c = '{' ∧ (rest.dropWhile notBrace).head? = some '}' then
      some ([], rest.takeWhile notBrace, (rest.dropWhile notBrace).tail)
    else (nextMatch rest).map fun m => (c :: m.1, m.2)

/-- The class `[+#./;?&]`. -/
def operatorOf : Char → Option Operator
  | '+' => some .reserved
  | '#' => some .fragment
  | '.' => some .label
  | '/' => some .path
  | ';' => some .parameter
  | '?' => some .query
  | '&' => some .continuation
  | _ => none

/-- `EXPRESSION.fullmatch`. The operator is given back when nothing else would
be left for `.+`. -/
def expressionMatch (inner : List Char) : Option (Operator × List Char) :=
  if '\n' ∈ inner then none
  else match inner with
  | [] => none
  | [c] => some (.simple, [c])
  | c :: rest =>
    match operatorOf c with
    | some operator => some (operator, rest)
    | none => some (.simple, c :: rest)

/-- `VARIABLE` from its second character on. -/
def variableRest : List Char → Bool
  | '%' :: a :: b :: rest => isHexdig a && isHexdig b && variableRest rest
  | '.' :: c :: rest => (isWord c || c = '%') && variableRest (c :: rest)
  | c :: rest => isWord c && variableRest rest
  | [] => true

def variableMatch : List Char → Bool
  | '%' :: a :: b :: rest => isHexdig a && isHexdig b && variableRest rest
  | c :: rest => isWord c && variableRest rest
  | [] => false

def lengthMatch : List Char → Bool
  | d :: ds => '1' ≤ d && d ≤ '9' && ds.length ≤ 3 && ds.all Char.isDigit
  | [] => false

/-- `VARSPEC.fullmatch`: the name and the length that a prefix modifier gives. -/
def varspecMatch (item : List Char) : Option (List Char × Option ℕ) :=
  let name := item.takeWhile fun c => c != '*' && c != ':'
  if variableMatch name then
    match item.dropWhile fun c => c != '*' && c != ':' with
    | [] => some (name, none)
    | ['*'] => some (name, none)
    | ':' :: digits => if lengthMatch digits then some (name, some (Nat.ofDigitChars 10 digits 0)) else none
    | _ => none
  else none

structure Match where
  literal : List Char
  operator : Operator
  entries : List (List Char × Option ℕ)
  deriving DecidableEq, Repr

def varspec (item : List Char) : Except AVError (List Char × Option ℕ) :=
  match varspecMatch item with
  | some entry => .ok entry
  | none => unsupportedAccess "Unsupported URI template variable/modifier"

/-- One turn of the generator: the next expression with the literal before it,
and what follows. -/
def nextExpression (text : List Char) : Except AVError (Option (Match × List Char)) :=
  match nextMatch text with
  | none => if text.all notBrace then .ok none else unsupportedAccess "Malformed URI template"
  | some (literal, inner, rest) =>
    if literal.all notBrace then
      match expressionMatch inner with
      | none => unsupportedAccess "Unsupported URI template expression"
      | some (operator, items) => do
        let entries ← (items.splitOn ',').mapM varspec
        .ok (some (⟨literal, operator, entries⟩, rest))
    else unsupportedAccess "Malformed URI template"

/-- The matches and the text after the last. A match is not empty, so that the
length of the text bounds their number. -/
def expressionsLoop : ℕ → List Char → Except AVError (List Match × List Char)
  | 0, text => .ok ([], text)
  | fuel + 1, text => do
    match ← nextExpression text with
    | none => .ok ([], text)
    | some (found, rest) =>
      let (others, tail) ← expressionsLoop fuel rest
      .ok (found :: others, tail)

def template_expressions (template : List Char) : Except AVError (List Match × List Char) :=
  expressionsLoop (template.length + 1) template

-- Values

/-- `format(value, "f")` without its sign: the digits before and after the point. -/
def Decimal.places (d : Decimal) : List Char × List Char :=
  if 0 ≤ d.exponent then (d.digits ++ List.replicate d.exponent.toNat '0', [])
  else
    let fraction := d.exponent.natAbs
    if d.digits.length < fraction then (['0'], List.replicate (fraction - d.digits.length) '0' ++ d.digits)
    else
      let whole := d.digits.take (d.digits.length - fraction)
      (if whole.isEmpty then ['0'] else whole, d.digits.drop (d.digits.length - fraction))

def stripZeros (text : List Char) : List Char := text.rdropWhile (· = '0')

def decimal_text (d : Decimal) : List Char :=
  if d.coefficient = 0 then ['0']
  else
    let (whole, fraction) := d.places
    let fraction := stripZeros fraction
    d.signChars ++ whole ++ (if fraction.isEmpty then [] else '.' :: fraction)

def scalar_text (value : Value) : Except AVError (Option (List Char)) := do
  check_json_domain 0 value
  match value with
  | .null => .ok none
  | .string text => .ok (some text.toList)
  | .bool value => .ok (some (if value then "true".toList else "false".toList))
  | .number (.integer n) => .ok (some (intChars n))
  | .number (.decimal d) => do
    numeric_limit (.decimal d)
    .ok (some (decimal_text d))
  | _ => .error { code := .invalidNativeParameter, message := "Native URI variable must be an exact JSON scalar",
                  stage := nativeParameters }

-- Expansion

/-- `urllib.parse.quote`, byte by byte. -/
def quoteByte (safe : List Char) (b : UInt8) : List Char :=
  let c := Char.ofNat b.toNat
  if c.isAlphanum || "_.-~".toList.contains c || safe.contains c then [c] else pctByte b

def quote (value safe : List Char) : List Char :=
  (value.flatMap String.utf8EncodeChar).flatMap (quoteByte safe)

def truncated (length : Option ℕ) (value : List Char) : List Char :=
  match length with
  | some n => value.take n
  | none => value

def encodeEntry (operator : Operator) (name : List Char) (length : Option ℕ) (value : List Char) : List Char :=
  let row := OPERATORS operator
  let encoded := quote (truncated length value) (if row.reserved then RESERVED else [])
  if row.named then name ++ (if operator = .parameter ∧ encoded = [] then [] else '=' :: encoded) else encoded

def expandEntry (values : List Char → Value) (operator : Operator) (entry : List Char × Option ℕ) :
    Except AVError (Option (List Char)) := do
  let value ← scalar_text (values entry.1)
  .ok (value.map (encodeEntry operator entry.1 entry.2))

def joined (operator : Operator) (parts : List (List Char)) : List Char :=
  if parts.isEmpty then [] else (OPERATORS operator).lead ++ (OPERATORS operator).separator.intercalate parts

def expandMatch (values : List Char → Value) (found : Match) : Except AVError (List Char) := do
  let parts ← found.entries.mapM (expandEntry values found.operator)
  .ok (joined found.operator parts.reduceOption)

def expandLoop (values : List Char → Value) : ℕ → List Char → Except AVError (List Char)
  | 0, text => .ok text
  | fuel + 1, text => do
    match ← nextExpression text with
    | none => .ok text
    | some (found, rest) =>
      let expansion ← expandMatch values found
      let remaining ← expandLoop values fuel rest
      .ok (found.literal ++ expansion ++ remaining)

def overLength {α : Type} (message limit : String) (measured : Option Measured) : Except AVError α :=
  .error ⟨.resourceLimit, message, nativeParameters, some limit, measured⟩

/-- `expand_template`; `values` is `values.get`. -/
def expand_template (template : List Char) (values : List Char → Value) : Except AVError (List Char) := do
  if 16384 < template.length then overLength "Native template length budget exceeded" "template-length" none
  else
    let expanded ← expandLoop values (template.length + 1) template
    if 65536 < expanded.length then
      overLength "Expanded native target budget exceeded" "expanded-uri-length" (some (.count expanded.length))
    else .ok expanded

end WotAv.Tools
