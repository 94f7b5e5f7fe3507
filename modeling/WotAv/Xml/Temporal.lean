import WotAv.Binding.Soap

/-!
# Dates and times (`validDateTime` and `validTemporal` of `src/xml/simple-values.ts`)

The regular expressions are deterministic but for the lazy one of
`validTemporal`: the others are written as functions that consume the text. A
text is the list of its characters.
-/

namespace WotAv.Xml

open WotAv.Binding

inductive TemporalType
  | dateTime
  | date
  | time
  | gYearMonth
  | gYear
  | gMonthDay
  | gDay
  | gMonth
  deriving DecidableEq, Repr

def TemporalType.text : TemporalType → String
  | .dateTime => "dateTime"
  | .date => "date"
  | .time => "time"
  | .gYearMonth => "gYearMonth"
  | .gYear => "gYear"
  | .gMonthDay => "gMonthDay"
  | .gDay => "gDay"
  | .gMonth => "gMonth"

-- Numbers

/-- The number that digits denote. -/
def decimal (digits : List Char) : ℕ := digits.foldl (fun n c => 10 * n + (c.toNat - '0'.toNat)) 0

def bigInt : List Char → Int
  | '-' :: digits => -(decimal digits : Int)
  | digits => decimal digits

-- `validDateTime`

/-- The groups of the expression. -/
structure DateTimeMatch where
  year : List Char
  month : List Char
  day : List Char
  hour : List Char
  minute : List Char
  second : List Char
  fraction : Option (List Char)
  zone : Option (List Char)

def literal (c : Char) : List Char → Option (List Char)
  | d :: s => if d = c then some s else none
  | [] => none

/-- `(\d{2})` -/
def twoDigits : List Char → Option (List Char × List Char)
  | a :: b :: s => if a.isDigit ∧ b.isDigit then some ([a, b], s) else none
  | _ => none

/-- `-?` -/
def signGroup : List Char → List Char × List Char
  | '-' :: s => (['-'], s)
  | s => ([], s)

/-- `(-?[0-9]{4,})` -/
def yearGroup (s : List Char) : Option (List Char × List Char) :=
  let digits := (signGroup s).2.takeWhile Char.isDigit
  if 4 ≤ digits.length then some ((signGroup s).1 ++ digits, (signGroup s).2.dropWhile Char.isDigit) else none

/-- `(\.\d+)?` -/
def fractionGroup : List Char → Option (List Char) × List Char
  | '.' :: s => if s.takeWhile Char.isDigit = [] then (none, '.' :: s)
    else (some ('.' :: s.takeWhile Char.isDigit), s.dropWhile Char.isDigit)
  | s => (none, s)

/-- `Z|[+-]\d{2}:\d{2}` -/
def isZone : List Char → Bool
  | ['Z'] => true
  | [sign, a, b, ':', c, d] => (sign = '+' || sign = '-') && a.isDigit && b.isDigit && c.isDigit && d.isDigit
  | _ => false

/-- The rest of the expression. -/
def zoneGroup (s : List Char) : Option (Option (List Char)) :=
  if s = [] then some none else if isZone s then some (some s) else none

def dateTimeMatch (value : List Char) : Option DateTimeMatch := do
  let (year, s) ← yearGroup value
  let (month, s) ← twoDigits (← literal '-' s)
  let (day, s) ← twoDigits (← literal '-' s)
  let (hour, s) ← twoDigits (← literal 'T' s)
  let (minute, s) ← twoDigits (← literal ':' s)
  let (second, s) ← twoDigits (← literal ':' s)
  let zone ← zoneGroup (fractionGroup s).2
  pure { year, month, day, hour, minute, second, fraction := (fractionGroup s).1, zone }

def isLeap (year : Int) : Bool := year.tmod 4 = 0 && (year.tmod 100 ≠ 0 || year.tmod 400 = 0)

def validZone (zone : List Char) : Bool :=
  let hours := decimal ((zone.drop 1).take 2)
  let minutes := decimal ((zone.drop 4).take 2)
  !(hours > 14 || minutes > 59 || (hours = 14 && minutes ≠ 0))

def validSuffix : Option (List Char) → Bool
  | none => true
  | some zone => zone = ['Z'] || validZone zone

def validMatch (m : DateTimeMatch) : Bool :=
  let year := bigInt m.year
  let digits := m.year.erase '-'
  let month := decimal m.month
  let day := decimal m.day
  let hour := decimal m.hour
  let minute := decimal m.minute
  let second := decimal m.second
  let days := [31, if isLeap year then 29 else 28, 31, 30, 31, 30, 31, 31, 30, 31, 30, 31]
  if m.year.length > 4096 then false
  else if year = 0 ∨ digits.length > 4 ∧ digits.head? = some '0' then false
  else if month < 1 ∨ month > 12 ∨ day < 1 ∨ day > days.getD (month - 1) 0 ∨ hour > 24 ∨ minute > 59 ∨ second > 59 then false
  else if hour = 24 ∧ (minute ≠ 0 ∨ second ≠ 0 ∨ m.fraction.any fun f => f.any fun c => '1' ≤ c && c ≤ '9') then false
  else validSuffix m.zone

def validDateTime (value : List Char) : Bool := (dateTimeMatch value).any validMatch

-- `validTemporal`

/-- `.` -/
def isDot (c : Char) : Bool := !([0x0A, 0x0D, 0x2028, 0x2029].contains c.toNat)

/-- `^(.+?)(Z|[+-]\d{2}:\d{2})?$`: the shortest value before a zone or the
end; a zone that does not take part is empty. -/
def temporalMatch (text : List Char) : Option (List Char × List Char) :=
  (List.range' 1 text.length).findSome? fun n =>
    if (text.take n).all isDot && (text.drop n = [] || isZone (text.drop n)) then some (text.take n, text.drop n) else none

/-- The switch of `validTemporal`. -/
def spliced (type : TemporalType) (value suffix : List Char) : Bool :=
  match type with
  | .dateTime => false
  | .date => validDateTime (value ++ "T00:00:00".toList ++ suffix)
  | .time => validDateTime ("2000-01-01T".toList ++ value ++ suffix)
  | .gYearMonth => validDateTime (value ++ "-01T00:00:00".toList ++ suffix)
  | .gYear => validDateTime (value ++ "-01-01T00:00:00".toList ++ suffix)
  | .gMonthDay => match value with
    | ['-', '-', a, b, '-', c, d] => a.isDigit && b.isDigit && c.isDigit && d.isDigit &&
      validDateTime ("2000".toList ++ value.drop 1 ++ "T00:00:00".toList ++ suffix)
    | _ => false
  | .gDay => match value with
    | ['-', '-', '-', a, b] => a.isDigit && b.isDigit &&
      validDateTime ("2000-01-".toList ++ value.drop 3 ++ "T00:00:00".toList ++ suffix)
    | _ => false
  | .gMonth => match value with
    | ['-', '-', a, b] | ['-', '-', a, b, '-', '-'] => a.isDigit && b.isDigit &&
      validDateTime ("2000-".toList ++ (value.drop 2).take 2 ++ "-01T00:00:00".toList ++ suffix)
    | _ => false

def validTemporal (type : TemporalType) (text : List Char) : Bool :=
  (temporalMatch text).any fun (value, suffix) => spliced type value suffix

-- White space

/-- `[\t\r\n]` becomes a blank. -/
def replaced (input : List Char) : List Char :=
  input.map fun c => if c = '\t' ∨ c = '\r' ∨ c = '\n' then ' ' else c

/-- `text.replace(/ +/gu, " ")` -/
def squeeze : List Char → List Char
  | [] => []
  | c :: s => if c = ' ' ∧ s.head? = some ' ' then squeeze s else c :: squeeze s

/-- `replaced.trim().replace(/ +/gu, " ")` -/
def collapsed (input : List Char) : List Char := squeeze (trim (replaced input))

/-- The check that `decodeScalar` makes of a temporal type. -/
def accepted (type : TemporalType) (text : List Char) : Bool :=
  if type = .dateTime then validDateTime text else validTemporal type text

/-- `decodeScalar`, for the temporal types. -/
def decodeTemporal (type : TemporalType) (input : List Char) : Except OnvifError (List Char) := do
  require (accepted type (collapsed input) = true) .invalidValue ("Invalid XSD " ++ type.text ++ " lexical value")
  pure (collapsed input)

example : (decodeTemporal .date "2024-02-29".toList).isOk := by decide +kernel

end WotAv.Xml
