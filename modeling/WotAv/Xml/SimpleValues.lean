import WotAv.Lib.Decimal
import WotAv.Lib.JsonParse
import WotAv.Lib.Bytes
import WotAv.Xml.Temporal

/-!
# Simple values (`src/xml/simple-values.ts`)

A lexical text is the list of its characters. What `matchesXsdPattern` and the
conversion to a double decide is a parameter.
-/

namespace WotAv.Xml

open WotAv.Lib WotAv.Binding

inductive ScalarName
  | string | boolean | int32 | uint32 | int64 | uint64 | integer | decimal | hexBinary | base64Binary
  | QName | float | double | duration
  | temporal (type : TemporalType)
  | normalizedString | token | language | Name | NCName | NMTOKEN | ID | anyURI
  deriving DecidableEq, Repr

def ScalarName.text : ScalarName → String
  | .string => "string"
  | .boolean => "boolean"
  | .int32 => "int32"
  | .uint32 => "uint32"
  | .int64 => "int64"
  | .uint64 => "uint64"
  | .integer => "integer"
  | .decimal => "decimal"
  | .hexBinary => "hexBinary"
  | .base64Binary => "base64Binary"
  | .QName => "QName"
  | .float => "float"
  | .double => "double"
  | .duration => "duration"
  | .temporal type => type.text
  | .normalizedString => "normalizedString"
  | .token => "token"
  | .language => "language"
  | .Name => "Name"
  | .NCName => "NCName"
  | .NMTOKEN => "NMTOKEN"
  | .ID => "ID"
  | .anyURI => "anyURI"

inductive WhiteSpace
  | preserve
  | replace
  | collapse
  deriving DecidableEq, Repr

structure EnumerationItem where
  lexical : List Char
  namespaces : List (String × String) := []

structure SimpleFacets where
  enumeration : Option (List EnumerationItem) := none
  minInclusive : Option (List Char) := none
  maxInclusive : Option (List Char) := none
  minExclusive : Option (List Char) := none
  maxExclusive : Option (List Char) := none
  length : Option Nat := none
  minLength : Option Nat := none
  maxLength : Option Nat := none
  whiteSpace : Option WhiteSpace := none
  patterns : Option (List String) := none

inductive SimpleType
  | scalar (type : ScalarName)
  | list (item : SimpleType)
  | union (members : List (String × SimpleType))
  | restriction (base : SimpleType) (facets : SimpleFacets)

/-- The canonical values of simple types. -/
inductive SimpleValue
  | boolean (value : Bool)
  | number (value : Int)
  | string (value : String)
  | qname (value : QName)
  | list (items : List SimpleValue)
  /-- `{ $member, $value }` -/
  | member (name : String) (value : SimpleValue)

mutual

/-- `String(value)` -/
def SimpleValue.text : SimpleValue → List Char
  | .boolean value => if value then "true".toList else "false".toList
  | .number value => intChars value
  | .string value => value.toList
  | .qname _ => "[object Object]".toList
  | .list items => joined items
  | .member .. => "[object Object]".toList

/-- `items.join(",")` -/
def joined : List SimpleValue → List Char
  | [] => []
  | [item] => item.text
  | item :: item' :: items => item.text ++ ',' :: joined (item' :: items)

end

-- Numerals

/-- `[+-]?` -/
def unsigned : List Char → List Char
  | '+' :: text => text
  | '-' :: text => text
  | text => text

/-- `^[+-]?\d+$` -/
def isInteger (text : List Char) : Bool := unsigned text ≠ [] && (unsigned text).all Char.isDigit

/-- `^(?:\d+(?:\.\d*)?|\.\d+)$` -/
def isUnsignedDecimal (text : List Char) : Bool :=
  let whole := text.takeWhile Char.isDigit
  match text.dropWhile Char.isDigit with
  | [] => whole ≠ []
  | '.' :: fraction => fraction.all Char.isDigit && (whole ≠ [] || fraction ≠ [])
  | _ => false

/-- `^[+-]?(?:\d+(?:\.\d*)?|\.\d+)$` -/
def isDecimal (text : List Char) : Bool := isUnsignedDecimal (unsigned text)

/-- `BigInt(text)` -/
def toBigInt : List Char → Int
  | '-' :: digits => -(Nat.ofDigitChars 10 digits 0 : Nat)
  | '+' :: digits => (Nat.ofDigitChars 10 digits 0 : Nat)
  | digits => (Nat.ofDigitChars 10 digits 0 : Nat)

def decimalParts (text : List Char) : Except OnvifError (Int × Nat) := do
  require (text.length ≤ 4096 ∧ isDecimal text) .invalidValue "Unsupported or excessive decimal facet comparison"
  let parts := text.splitOn '.'
  let whole := if parts.headD [] = [] then ['0'] else parts.headD []
  let fraction := parts.getD 1 []
  return (toBigInt (whole ++ fraction), fraction.length)

/-- The sign of the difference. -/
def compareDecimal (left right : List Char) : Except OnvifError Ordering := do
  let (a, aScale) ← decimalParts left
  let (b, bScale) ← decimalParts right
  let scale := max aScale bScale
  return compare (a * 10 ^ (scale - aScale)) (b * 10 ^ (scale - bScale))

def ScalarName.isNumeric (type : ScalarName) : Bool :=
  [.int32, .uint32, .int64, .uint64, .integer, .decimal].contains type

-- Binary values

def isHex (c : Char) : Bool := c.isDigit || ('a' ≤ c && c ≤ 'f') || ('A' ≤ c && c ≤ 'F')

/-- `^(?:[a-fA-F0-9]{2})*$` -/
def isHexBinary : List Char → Bool
  | [] => true
  | a :: b :: text => isHex a && isHex b && isHexBinary text
  | _ => false

def isBase64Char (c : Char) : Bool := c.isAlphanum || c = '+' || c = '/'

/-- `^(?:[A-Za-z0-9+/]{4})*(?:[A-Za-z0-9+/]{2}==|[A-Za-z0-9+/]{3}=)?$` -/
def isBase64 : List Char → Bool
  | [] => true
  | [a, b, '=', '='] => isBase64Char a && isBase64Char b
  | [a, b, c, '='] => isBase64Char a && isBase64Char b && isBase64Char c
  | a :: b :: c :: d :: text => [a, b, c, d].all isBase64Char && isBase64 text
  | _ => false

def sextet (c : Char) : Nat :=
  if c.isUpper then c.toNat - 65 else if c.isLower then c.toNat - 71 else if c.isDigit then c.toNat + 4
  else if c = '+' then 62 else 63

/-- `Buffer.from(text, "base64")`, of what `isBase64` accepts. -/
def fromBase64 : List Char → Bytes
  | [a, b, '=', '='] => [.ofNat (sextet a * 4 + sextet b / 16)]
  | [a, b, c, '='] => [.ofNat (sextet a * 4 + sextet b / 16), .ofNat (sextet b % 16 * 16 + sextet c / 4)]
  | a :: b :: c :: d :: text =>
    .ofNat (sextet a * 4 + sextet b / 16) :: .ofNat (sextet b % 16 * 16 + sextet c / 4) ::
      .ofNat (sextet c % 4 * 64 + sextet d) :: fromBase64 text
  | _ => []

def base64Char (n : Nat) : Char :=
  "ABCDEFGHIJKLMNOPQRSTUVWXYZabcdefghijklmnopqrstuvwxyz0123456789+/".toList.getD n '='

/-- `buffer.toString("base64")` -/
def toBase64 : Bytes → List Char
  | [] => []
  | [a] => [base64Char (a.toNat / 4), base64Char (a.toNat % 4 * 16), '=', '=']
  | [a, b] =>
    [base64Char (a.toNat / 4), base64Char (a.toNat % 4 * 16 + b.toNat / 16), base64Char (b.toNat % 16 * 4), '=']
  | a :: b :: c :: bytes =>
    base64Char (a.toNat / 4) :: base64Char (a.toNat % 4 * 16 + b.toNat / 16) ::
      base64Char (b.toNat % 16 * 4 + c.toNat / 64) :: base64Char (c.toNat % 64) :: toBase64 bytes

/-- `buffer.toString("hex")` -/
def toHex (bytes : Bytes) : List Char := bytes.flatMap fun byte => Json.hexChars byte.toNat

-- `decodeScalar`

def isXmlBlank (c : Char) : Bool := ['\t', '\r', '\n', ' '].contains c

/-- `^[A-Za-z]{1,8}(?:-[A-Za-z0-9]{1,8})*$` -/
def isLanguage (text : List Char) : Bool :=
  let parts := text.splitOn '-'
  parts.all (fun part => 1 ≤ part.length && part.length ≤ 8 && part.all Char.isAlphanum) && (parts.headD []).all Char.isAlpha

/-- `xmlName` -/
def isXmlName : List Char → Bool
  | [] => false
  | first :: rest => (first = ':' || xmlNameStart first) && rest.all fun c => c = ':' || xmlNameChar c

/-- `xmlToken` -/
def isXmlToken (text : List Char) : Bool := text ≠ [] && text.all fun c => c = ':' || xmlNameChar c

/-- `(?:[eE][+-]?\d+)?$` -/
def isExponent : List Char → Bool
  | [] => true
  | e :: text => (e = 'e' || e = 'E') && isInteger text

/-- `^(?:-?INF|NaN|[+-]?(?:\d+(?:\.\d*)?|\.\d+)(?:[eE][+-]?\d+)?)$` -/
def isFloat (text : List Char) : Bool :=
  ["INF".toList, "-INF".toList, "NaN".toList].contains text ||
    isDecimal (text.takeWhile fun c => c ≠ 'e' && c ≠ 'E') && isExponent (text.dropWhile fun c => c ≠ 'e' && c ≠ 'E')

/-- `(?:\d+Y)?`, for the letter of the unit. -/
def skipUnit (unit : Char) (text : List Char) : List Char :=
  if text.takeWhile Char.isDigit ≠ [] ∧ (text.dropWhile Char.isDigit).head? = some unit then
    (text.dropWhile Char.isDigit).drop 1
  else text

/-- `(?:\d+(?:\.\d+)?S)?$` -/
def isSeconds (text : List Char) : Bool :=
  text = [] || text.takeWhile Char.isDigit ≠ [] &&
    match text.dropWhile Char.isDigit with
    | ['S'] => true
    | '.' :: fraction => fraction.takeWhile Char.isDigit ≠ [] && fraction.dropWhile Char.isDigit = ['S']
    | _ => false

/-- `(?:T(?=\d)(?:\d+H)?(?:\d+M)?(?:\d+(?:\.\d+)?S)?)?$` -/
def isDurationTime : List Char → Bool
  | [] => true
  | 'T' :: text => text.head?.any Char.isDigit && isSeconds (skipUnit 'M' (skipUnit 'H' text))
  | _ => false

/-- `^-?P(?=\d|T\d)(?:\d+Y)?(?:\d+M)?(?:\d+D)?…$` -/
def isDuration (text : List Char) : Bool :=
  match if text.head? = some '-' then text.drop 1 else text with
  | 'P' :: text => (text.head?.any Char.isDigit || text.head? = some 'T' && (text.drop 1).head?.any Char.isDigit) &&
    isDurationTime (skipUnit 'D' (skipUnit 'M' (skipUnit 'Y' text)))
  | _ => false

def integerRange : ScalarName → Option (Int × Int)
  | .int32 => some (-2147483648, 2147483647)
  | .uint32 => some (0, 4294967295)
  | .int64 => some (-9223372036854775808, 9223372036854775807)
  | .uint64 => some (0, 18446744073709551615)
  | _ => none

def decodeInteger (type : ScalarName) (text : List Char) : Except OnvifError SimpleValue := do
  require (isInteger text) .invalidValue "Invalid XSD integer lexical value"
  require (text.length ≤ 4096) .xmlLimit "Integer lexical bound exceeded"
  match integerRange type with
  | none => return .string (String.ofList text)
  | some (min, max) =>
    require (min ≤ toBigInt text ∧ toBigInt text ≤ max) .invalidValue "XSD integer out of range"
    return if type = .int32 ∨ type = .uint32 then .number (toBigInt text) else .string (String.ofList text)

/-- A text that is its own value. -/
def lexical (text : List Char) (valid : Bool) (message : String) : Except OnvifError SimpleValue := do
  require (valid = true) .invalidValue message
  return .string (String.ofList text)

def decodeScalar (type : ScalarName) (input : List Char) (namespaces : List (String × String)) :
    Except OnvifError SimpleValue :=
  let text := if type = .string then input else if type = .normalizedString then replaced input else collapsed input
  match type with
  | .string | .normalizedString | .token | .anyURI => .ok (.string (String.ofList text))
  | .language => lexical text (isLanguage text) "Invalid XSD language"
  | .NCName | .ID => lexical text (isNCName text) "Invalid XSD NCName"
  | .Name => lexical text (isXmlName text) "Invalid XSD Name"
  | .NMTOKEN => lexical text (isXmlToken text) "Invalid XSD NMTOKEN"
  | .QName => do return .qname (← resolveQName (String.ofList text) namespaces)
  | .boolean =>
    if text = "true".toList ∨ text = ['1'] then .ok (.boolean true)
    else if text = "false".toList ∨ text = ['0'] then .ok (.boolean false)
    else invalidValue "Invalid XSD boolean"
  | .int32 | .uint32 | .int64 | .uint64 | .integer => decodeInteger type text
  | .decimal => lexical text (isDecimal text) "Invalid XSD decimal lexical value"
  | .float | .double => lexical text (isFloat text) "Invalid XSD floating-point lexical value"
  | .temporal type => lexical text (accepted type text) ("Invalid XSD " ++ type.text ++ " lexical value")
  | .duration => lexical text (isDuration text) "Invalid XSD duration lexical value"
  | .hexBinary => lexical text (isHexBinary text) "Invalid hexBinary octets"
  | .base64Binary =>
    let octets := text.filter fun c => !(isXmlBlank c)
    lexical octets (isBase64 octets && toBase64 (fromBase64 octets) = octets) "Invalid base64Binary octets"

-- `equivalent` and `identityValueKey`

/-- What the model takes from its host. -/
structure Host where
  matchesXsdPattern : String → List Char → Bool
  /-- `Number(left) === Number(right)` -/
  sameNumber : List Char → List Char → Bool

/-- `JSON.stringify(left) === JSON.stringify(right)`, of booleans and strings. -/
def SimpleValue.same : SimpleValue → SimpleValue → Bool
  | .boolean a, .boolean b => a = b
  | .string a, .string b => a = b
  | _, _ => false

def equivalentScalar (host : Host) (type : ScalarName) (left right : SimpleValue) : Except OnvifError Bool :=
  if type.isNumeric then do return (← compareDecimal left.text right.text) = .eq
  else if type = .float ∨ type = .double then .ok (left.same right || host.sameNumber left.text right.text)
  else if type = .hexBinary then .ok (left.text.map Char.toLower = right.text.map Char.toLower)
  else if type = .QName then
    match left, right with
    | .qname a, .qname b => .ok (isNCName a.localName.toList && isNCName b.localName.toList && a = b)
    | _, _ => .ok false
  else .ok (left.same right)

mutual

def equivalent (host : Host) : SimpleType → SimpleValue → SimpleValue → Except OnvifError Bool
  | .restriction base _, left, right => equivalent host base left right
  | .list item, .list left, .list right =>
    if left.length = right.length then
      (left.zip right).foldlM (fun same pair => if same then equivalent host item pair.1 pair.2 else .ok false) true
    else .ok false
  | .list _, _, _ => .ok false
  | .union members, .member name left, .member name' right =>
    if name = name' then equivalentMember host members name left right else .ok false
  | .union _, _, _ => .ok false
  | .scalar type, left, right => equivalentScalar host type left right

def equivalentMember (host : Host) : List (String × SimpleType) → String → SimpleValue → SimpleValue → Except OnvifError Bool
  | [], _, _, _ => .ok false
  | (name', type) :: members, name, left, right =>
    if name' = name then equivalent host type left right else equivalentMember host members name left right

end

/-- `JSON.stringify` of an array of strings. -/
def stringify (texts : List String) : List Char := Json.chars (.array (texts.map .string) : Json Int)

def labelled (label : String) (text : List Char) : String := String.ofList (label.toList ++ text)

def unqualified : ScalarName → Bool
  | .float | .double | .temporal _ | .duration => true
  | _ => false

def scalarKey (type : ScalarName) (value : SimpleValue) : Except OnvifError String :=
  if type.isNumeric then do
    let (integer, scale) ← decimalParts value.text
    let (integer, scale) := Decimal.lower integer scale
    return labelled "decimal:" (intChars integer ++ ':' :: intChars (if integer = 0 then 0 else (scale : Nat)))
  else if type = .QName then
    match value with
    | .qname name => do
      require (isNCName name.localName.toList) .invalidValue "Invalid identity QName"
      return labelled "QName:" (stringify [name.namespace_, name.localName])
    | _ => invalidValue "Invalid identity QName"
  else if type = .hexBinary then .ok (labelled "binary:" (value.text.map Char.toLower))
  else if type = .base64Binary then .ok (labelled "binary:" (toHex (fromBase64 value.text)))
  else if unqualified type then
    .error ⟨.unsupportedCapability, "xs:unique " ++ type.text ++ " value-space comparison is not qualified", .notSent⟩
  else
    let label := if type = .boolean then "boolean:" else "string:"
    match value with
    | .boolean value => .ok (labelled label (Json.chars (.bool value : Json Int)))
    | value => .ok (labelled label (Json.chars (.string (String.ofList value.text) : Json Int)))

mutual

def identityValueKey : SimpleType → SimpleValue → Except OnvifError String
  | .restriction base _, value => identityValueKey base value
  | .union members, .member name value => memberKey members name value
  | .union _, .qname _ => invalidValue "Invalid identity union member"
  | .union _, _ => invalidValue "Invalid identity union value"
  | .list item, .list values => do
    return labelled "list:" (stringify (← values.mapM (identityValueKey item)))
  | .list _, _ => invalidValue "Invalid identity list value"
  | .scalar type, value => scalarKey type value

/-- The member that `type.members.find` takes. -/
def memberKey : List (String × SimpleType) → String → SimpleValue → Except OnvifError String
  | [], _, _ => invalidValue "Invalid identity union member"
  | (name', type) :: members, name, value =>
    if name' = name then identityValueKey type value else memberKey members name value

end

-- `decodeSimple`

def whitespace : SimpleType → WhiteSpace
  | .restriction base facets => facets.whiteSpace.getD (whitespace base)
  | .scalar .string => .preserve
  | .scalar .normalizedString => .replace
  | _ => .collapse

def spaced (space : WhiteSpace) (input : List Char) : List Char :=
  match space with
  | .preserve => input
  | .replace => replaced input
  | .collapse => collapsed input

/-- `text.split(/[\t\r\n ]+/u)`, of a text with no blank at its ends. -/
def splitBlanks (text : List Char) : List (List Char) := (text.splitOnP isXmlBlank).filter (· ≠ [])

def scalarBase : SimpleType → Option ScalarName
  | .restriction base _ => scalarBase base
  | .scalar type => some type
  | _ => none

def SimpleValue.length (scalar : Option ScalarName) : SimpleValue → Option Nat
  | .list items => some items.length
  | .string value =>
    if scalar = some .hexBinary then some (value.toList.length / 2)
    else if scalar = some .base64Binary then some (fromBase64 value.toList).length
    else some value.toList.length
  | _ => none

def checkBound (limit : Option (List Char)) (violated : Ordering → Bool) (value : SimpleValue) : Except OnvifError Unit :=
  match limit with
  | none => .ok ()
  | some limit => do
    require (violated (← compareDecimal value.text limit) = false) .invalidValue "Value violates an XSD numeric bound"

/-- The facets of length and order. -/
def checkFacets (facets : SimpleFacets) (length : Option Nat) (value : SimpleValue) : Except OnvifError Unit := do
  require (facets.length.all (fun bound => length = some bound) = true ∧
    facets.minLength.all (fun bound => length.any (bound ≤ ·)) = true ∧
    facets.maxLength.all (fun bound => length.any (· ≤ bound)) = true) .invalidValue "Value violates an XSD length facet"
  checkBound facets.minInclusive (· = .lt) value
  checkBound facets.maxInclusive (· = .gt) value
  checkBound facets.minExclusive (· ≠ .gt) value
  checkBound facets.maxExclusive (· ≠ .lt) value

mutual

def decodeSimple (host : Host) : SimpleType → List Char → List (String × String) → Except OnvifError SimpleValue
  | .scalar type, input, namespaces => decodeScalar type input namespaces
  | .list item, input, namespaces =>
    if trim input = [] then .ok (.list [])
    else do return .list (← (splitBlanks (trim input)).mapM fun text => decodeSimple host item text namespaces)
  | .restriction base facets, input, namespaces => do
    let text := spaced (facets.whiteSpace.getD (whitespace base)) input
    require (facets.patterns.all (·.any fun pattern => host.matchesXsdPattern pattern text) = true) .invalidValue
      "Value violates the native XSD pattern facet"
    let value ← decodeSimple host base text namespaces
    match facets.enumeration with
    | none => pure ()
    | some items => do
      let found ← items.foldlM (fun found item =>
        if found then .ok true
        else do equivalent host base value (← decodeSimple host base item.lexical (item.namespaces ++ namespaces))) false
      require (found = true) .invalidValue "Value is outside the declared XSD enumeration"
    checkFacets facets (value.length (scalarBase base)) value
    return value
  | .union members, input, namespaces => decodeMembers host members input namespaces

def decodeMembers (host : Host) : List (String × SimpleType) → List Char → List (String × String) → Except OnvifError SimpleValue
  | [], _, _ => invalidValue "No declared XSD union member accepts this value"
  | (name, type) :: members, input, namespaces =>
    match decodeSimple host type input namespaces with
    | .ok value => .ok (.member name value)
    | .error e => if e.code = .invalidValue then decodeMembers host members input namespaces else .error e

end

end WotAv.Xml
