import WotAv.Lib.RegExp
import WotAv.Lib.Throwing

/-!
# Portable regular expressions

`compile_pattern` and `Pattern.search`: a recursive-descent parser for a subset
of ECMAScript patterns, and a matcher that computes sets of positions. The
text after `position` stands for `position` itself.
-/

namespace WotAv.Contract

open WotAv.Lib (Throwing)
open WotAv.Lib.RegExp (isHexDigit hexValue)

inductive Code
  | invalidContract
  | unsupportedContract
  | resourceLimit
  deriving DecidableEq, Repr

/-- `AVError`, at the `contract` stage. -/
structure AVError where
  code : Code
  message : String
  limit : Option String
  measured : Option ℕ
  deriving DecidableEq, Repr

/-- How parsing fails; `exhausted` is the bound on this model's recursion. -/
inductive Failure
  | error (e : AVError)
  | exhausted
  deriving DecidableEq, Repr

def invalid {α : Type} (message : String) : Except Failure α :=
  .error (.error ⟨.invalidContract, "Invalid regular expression: " ++ message, none, none⟩)

def unsupported {α : Type} (message : String) : Except Failure α :=
  .error (.error ⟨.unsupportedContract, "Unsupported regular expression: " ++ message, none, none⟩)

def resourceLimit {α : Type} (message limit : String) (measured : Option ℕ) : Except Failure α :=
  .error (.error ⟨.resourceLimit, message, some limit, measured⟩)

-- Parsed patterns

inductive Predicate
  | literal (char : Char)
  | range (first last : Char)
  | dot
  | digit
  | word
  | not (p : Predicate)
  | union (items : List Predicate)

mutual

def accepts : Predicate → Char → Bool
  | .literal c, char => char == c
  | .range first last, char => first ≤ char && char ≤ last
  | .dot, char => !(['\n', '\r', '\u2028', '\u2029'].contains char)
  | .digit, char => '0' ≤ char && char ≤ '9'
  | .word, char => "_0123456789abcdefghijklmnopqrstuvwxyzABCDEFGHIJKLMNOPQRSTUVWXYZ".toList.contains char
  | .not p, char => !accepts p char
  | .union items, char => acceptsAny items char

def acceptsAny : List Predicate → Char → Bool
  | [], _ => false
  | p :: items, char => accepts p char || acceptsAny items char

end

inductive Node
  | empty
  | startAnchor
  | endAnchor
  | char (p : Predicate)
  | alt (items : List Node)
  | seq (items : List Node)
  | repetition (child : Node) (minimum : ℕ) (maximum : Option ℕ)

structure Pattern where
  tree : Node

-- compile_pattern

def escapable : List Char :=
  ['^', '$', '\\', '.', '*', '+', '?', '(', ')', '[', ']', '{', '}', '|', '/', '-']

def controlEscape (char : Char) : Option Char :=
  match char with
  | 'n' => some '\n'
  | 'r' => some '\r'
  | 't' => some '\t'
  | 'f' => some (Char.ofNat 12)
  | 'v' => some (Char.ofNat 11)
  | _ => none

def predicateEscape (char : Char) : Option Predicate :=
  match char with
  | 'd' => some .digit
  | 'D' => some (.not .digit)
  | 'w' => some .word
  | 'W' => some (.not .word)
  | _ => none

def hexMatch (low high : ℕ) (digits : List Char) : Bool :=
  low ≤ digits.length && digits.length ≤ high && digits.all isHexDigit

/-- The digits of a `\u` escape, and the text after them. -/
def unicodeDigits (text : List Char) : Except Failure (List Char × List Char) :=
  match text with
  | '{' :: text =>
    match text.dropWhile (· ≠ '}') with
    | [] => invalid "unclosed Unicode escape"
    | _ :: rest =>
      let digits := text.takeWhile (· ≠ '}')
      if hexMatch 1 6 digits then .ok (digits, rest) else invalid "invalid Unicode escape"
  | _ =>
    let digits := text.take 4
    if hexMatch 4 4 digits then .ok (digits, text.drop 4) else invalid "invalid Unicode escape"

/-- A lead surrogate takes the trail surrogate escape that follows it. -/
def joinTrail (scalar : ℕ) (text : List Char) : ℕ × List Char :=
  if 0xD800 ≤ scalar ∧ scalar ≤ 0xDBFF ∧ text.take 2 = ['\\', 'u'] then
    let trail := (text.drop 2).take 4
    if hexMatch 4 4 trail ∧ 0xDC00 ≤ hexValue trail ∧ hexValue trail ≤ 0xDFFF then
      (0x10000 + (scalar - 0xD800) * 1024 + hexValue trail - 0xDC00, text.drop 6)
    else (scalar, text)
  else (scalar, text)

def unicodeEscape (text : List Char) : Except Failure (Predicate × List Char) := do
  let (digits, rest) ← unicodeDigits text
  let (scalar, rest) := joinTrail (hexValue digits) rest
  if scalar > 0x10FFFF ∨ 0xD800 ≤ scalar ∧ scalar ≤ 0xDFFF then invalid "escape is not a Unicode scalar"
  else .ok (.literal (Char.ofNat scalar), rest)

def escape (inClass : Bool) (text : List Char) : Except Failure (Predicate × List Char) :=
  match text with
  | [] => invalid "trailing escape"
  | char :: rest =>
    if char = '-' ∧ inClass = false then invalid "escaped hyphen outside a character class"
    else if char ∈ escapable then .ok (.literal char, rest)
    else match controlEscape char with
      | some c => .ok (.literal c, rest)
      | none => match predicateEscape char with
        | some p => .ok (p, rest)
        | none =>
          if char = 'u' then unicodeEscape rest
          else if char ∈ "0123456789kpsSbBPAZzGxc".toList then
            unsupported ("backreference or escape class \\" ++ char.toString)
          else invalid ("unrecognized Unicode-mode escape \\" ++ char.toString)

def classAtom (text : List Char) : Except Failure (Predicate × List Char) :=
  match text with
  | [] => invalid "unclosed character class"
  | char :: rest => if char = '\\' then escape true rest else .ok (.literal char, rest)

def classRange (left : Predicate) (text : List Char) : Except Failure (Predicate × List Char) :=
  match text with
  | '-' :: next :: rest =>
    if next = ']' then .ok (left, text)
    else do
      let (right, rest) ← classAtom (next :: rest)
      match left, right with
      | .literal first, .literal last =>
        if first > last then invalid "invalid character range" else .ok (.range first last, rest)
      | _, _ => invalid "invalid character range"
  | _ => .ok (left, text)

def classItems : ℕ → List Char → Except Failure (List Predicate × List Char)
  | 0, _ => .error .exhausted
  | fuel + 1, text =>
    if text = [] ∨ text.head? = some ']' then .ok ([], text)
    else do
      let (left, rest) ← classAtom text
      let (item, rest) ← classRange left rest
      let (items, rest) ← classItems fuel rest
      return (item :: items, rest)

def characterClass (fuel : ℕ) (text : List Char) : Except Failure (Node × List Char) := do
  let negate := text.head? = some '^'
  let (items, rest) ← classItems fuel (if negate then text.tail else text)
  match rest with
  | ']' :: rest => return (.char (if negate then .not (.union items) else .union items), rest)
  | _ => invalid "unclosed character class"

/-- `re.match(r"([0-9]+)(?:,([0-9]*))?\}", text)`: the two groups, and the text
after the match. -/
def boundsMatch (text : List Char) : Option (List Char × Option (List Char) × List Char) :=
  if text.takeWhile Char.isDigit = [] then none
  else match text.dropWhile Char.isDigit with
    | '}' :: rest => some (text.takeWhile Char.isDigit, none, rest)
    | ',' :: text' => match text'.dropWhile Char.isDigit with
      | '}' :: rest => some (text.takeWhile Char.isDigit, some (text'.takeWhile Char.isDigit), rest)
      | _ => none
    | _ => none

def number (digits : List Char) : ℕ := Nat.ofDigitChars 10 digits 0

def boundsMaximum (lower : List Char) : Option (List Char) → Option ℕ
  | none => some (number lower)
  | some [] => none
  | some upper => some (number upper)

def bounds (quantifier : Char) (text : List Char) : Except Failure (ℕ × Option ℕ × List Char) :=
  if quantifier = '{' then
    match boundsMatch text with
    | none => invalid "invalid repetition bounds"
    | some (lower, upper, rest) =>
      if lower.length > 4 ∨ (upper.getD []).length > 4 then
        resourceLimit "Regexp repetition budget exceeded" "regex-repeat" none
      else if (boundsMaximum lower upper).any (· < number lower) then invalid "reversed repetition bounds"
      else .ok (number lower, boundsMaximum lower upper, rest)
  else if quantifier = '*' then .ok (0, none, text)
  else if quantifier = '+' then .ok (1, none, text)
  else .ok (0, some 1, text)

def Node.isAnchor : Node → Bool
  | .startAnchor | .endAnchor => true
  | _ => false

/-- `maximum or minimum` -/
def measuredBound (minimum : ℕ) : Option ℕ → ℕ
  | some (m + 1) => m + 1
  | _ => minimum

def quantified (maxRepeat : ℕ) (child : Node) (text : List Char) : Except Failure (Node × List Char) :=
  match text with
  | [] => .ok (child, text)
  | quantifier :: rest =>
    if quantifier ∈ ['*', '+', '?', '{'] then
      if child.isAnchor then invalid "quantified assertion"
      else do
        let (minimum, maximum, rest) ← bounds quantifier rest
        if minimum > maxRepeat ∨ maximum.any (· > maxRepeat) then
          resourceLimit "Regexp repetition budget exceeded" "regex-repeat" (some (measuredBound minimum maximum))
        else .ok (.repetition child minimum maximum, if rest.head? = some '?' then rest.tail else rest)
    else .ok (child, text)

def seqNode : List Node → Node
  | [] => .empty
  | items => .seq items

def altNode : List Node → Node
  | [item] => item
  | items => .alt items

section
variable (maxRepeat : ℕ)

mutual

def atom : ℕ → List Char → Except Failure (Node × List Char)
  | 0, _ => .error .exhausted
  | _ + 1, [] => .error .exhausted
  | fuel + 1, char :: rest =>
    if char = '(' then
      if rest.head? = some '?' then
        if rest.take 2 = ['?', ':'] then group fuel (rest.drop 2)
        else unsupported "lookaround, named groups or inline flags"
      else group fuel rest
    else if char = '[' then characterClass fuel rest
    else if char = '\\' then do
      let (predicate, rest) ← escape false rest
      return (.char predicate, rest)
    else if char = '.' then .ok (.char .dot, rest)
    else if char = '^' then .ok (.startAnchor, rest)
    else if char = '$' then .ok (.endAnchor, rest)
    else if char ∈ ['*', '+', '?', '{', '}', ']'] then
      invalid "unescaped syntax character or missing quantifier target"
    else .ok (.char (.literal char), rest)

def group : ℕ → List Char → Except Failure (Node × List Char)
  | 0, _ => .error .exhausted
  | fuel + 1, text => do
    let (items, rest) ← alternative fuel text
    match rest with
    | ')' :: rest => return (altNode items, rest)
    | _ => invalid "unclosed group"

def sequence : ℕ → List Char → Except Failure (List Node × List Char)
  | 0, _ => .error .exhausted
  | fuel + 1, text =>
    if text = [] ∨ text.head? = some '|' ∨ text.head? = some ')' then .ok ([], text)
    else do
      let (child, rest) ← atom fuel text
      let (child, rest) ← quantified maxRepeat child rest
      let (items, rest) ← sequence fuel rest
      return (child :: items, rest)

def alternative : ℕ → List Char → Except Failure (List Node × List Char)
  | 0, _ => .error .exhausted
  | fuel + 1, text => do
    let (items, rest) ← sequence fuel text
    match rest with
    | '|' :: rest =>
      let (others, rest) ← alternative fuel rest
      return (seqNode items :: others, rest)
    | _ => return ([seqNode items], rest)

end

/-- Enough for the recursion over a text of this length. -/
def parserFuel (text : List Char) : ℕ := 4 * text.length + 4

def compilePattern (text : String) (maxLength : ℕ) : Except Failure Pattern :=
  if text.toList.length > maxLength then
    resourceLimit "Regexp length budget exceeded" "regex-length" (some text.toList.length)
  else do
    let (items, rest) ← alternative maxRepeat (parserFuel text.toList) text.toList
    if rest = [] then return ⟨altNode items⟩ else invalid "unmatched closing group"

end

-- Pattern.search

/-- How a search ends early: `tick` raises, or the model's bound on the rounds
of a loop is met. -/
inductive Stop (ε : Type)
  | raised (e : ε)
  | exhausted

/-- The cache, and what `tick` counts in. -/
structure Memory (σ : Type) where
  cache : List ((ℕ × ℕ) × List ℕ)
  budget : σ

abbrev Search (ε σ α : Type) : Type := Throwing (Stop ε) (Memory σ) α

section
variable {ε σ : Type}

def ticked (tick : Throwing ε σ Unit) : Search ε σ Unit := fun m =>
  match tick m.budget with
  | (.ok _, budget) => (.ok (), { m with budget })
  | (.error e, budget) => (.error (.raised e), { m with budget })

/-- What the cache has for the key, or what `compute` finds, which it keeps. -/
def remembered (tick : Throwing ε σ Unit) (key : ℕ × ℕ) (compute : Search ε σ (List ℕ)) : Search ε σ (List ℕ) := do
  let m ← Throwing.get
  match m.cache.lookup key with
  | some result => pure result
  | none => do
    ticked tick
    let result ← compute
    Throwing.modify fun m => { m with cache := (key, result) :: m.cache }
    pure result

/-- `set().union(*(f(pos) for pos in positions))` -/
def unionOver (f : ℕ → Search ε σ (List ℕ)) : List ℕ → Search ε σ (List ℕ)
  | [] => pure []
  | pos :: positions => do
    let ends ← f pos
    let others ← unionOver f positions
    pure (ends ∪ others)

def iterate (f : ℕ → Search ε σ (List ℕ)) : ℕ → List ℕ → Search ε σ (List ℕ)
  | 0, frontier => pure frontier
  | count + 1, frontier => do
    let frontier ← unionOver f frontier
    iterate f count frontier

/-- `while frontier`: `result` and `seen` grow alike. -/
def saturate (f : ℕ → Search ε σ (List ℕ)) : ℕ → List ℕ → List ℕ → Search ε σ (List ℕ)
  | 0, _, _ => Throwing.throw .exhausted
  | rounds + 1, seen, frontier =>
    if frontier = [] then pure seen
    else do
      let following ← unionOver f frontier
      let following := following.filter fun pos => pos ∉ seen
      saturate f rounds (seen ∪ following) following

def extend (f : ℕ → Search ε σ (List ℕ)) : ℕ → List ℕ → List ℕ → Search ε σ (List ℕ)
  | 0, result, _ => pure result
  | count + 1, result, frontier => do
    let frontier ← unionOver f frontier
    if frontier = [] then pure (result ∪ frontier) else extend f count (result ∪ frontier) frontier

section
variable (value : List Char) (tick : Throwing ε σ Unit) (identity : List ℕ → ℕ) (rounds : ℕ)

mutual

/-- `evaluate(node, start)`. `path` leads from the node up to the root, and
`identity` is `id` of the node it leads to. -/
def evaluate : Node → List ℕ → ℕ → Search ε σ (List ℕ)
  | .empty, path, start => remembered tick (identity path, start) (pure [start])
  | .startAnchor, path, start => remembered tick (identity path, start) (pure (if start = 0 then [start] else []))
  | .endAnchor, path, start =>
    remembered tick (identity path, start) (pure (if start = value.length then [start] else []))
  | .char p, path, start =>
    remembered tick (identity path, start) (pure (if value[start]?.any (accepts p) then [start + 1] else []))
  | .alt items, path, start => remembered tick (identity path, start) (evaluateAlt items path 0 start)
  | .seq items, path, start => remembered tick (identity path, start) (evaluateSeq items path 0 [start])
  | .repetition child minimum maximum, path, start => remembered tick (identity path, start) do
    let frontier ← iterate (evaluate child (0 :: path)) minimum [start]
    match maximum with
    | none => saturate (evaluate child (0 :: path)) rounds frontier frontier
    | some maximum => extend (evaluate child (0 :: path)) (maximum - minimum) frontier frontier

def evaluateAlt : List Node → List ℕ → ℕ → ℕ → Search ε σ (List ℕ)
  | [], _, _, _ => pure []
  | child :: items, path, index, start => do
    let ends ← evaluate child (index :: path) start
    let others ← evaluateAlt items path (index + 1) start
    pure (ends ∪ others)

def evaluateSeq : List Node → List ℕ → ℕ → List ℕ → Search ε σ (List ℕ)
  | [], _, _, result => pure result
  | child :: items, path, index, result => do
    let result ← unionOver (evaluate child (index :: path)) result
    evaluateSeq items path (index + 1) result

end

/-- `any(evaluate(tree, start) for start in starts)` -/
def searchFrom (tree : Node) : List ℕ → Search ε σ Bool
  | [] => pure false
  | start :: starts => do
    let ends ← evaluate value tick identity rounds tree [] start
    if ends = [] then searchFrom tree starts else pure true

/-- `Pattern.search`, from a budget; the loops of one repetition may take
`rounds` rounds. -/
def Pattern.search (p : Pattern) (budget : σ) : Except (Stop ε) Bool × σ :=
  let (outcome, m) := searchFrom value tick identity rounds p.tree (List.range (value.length + 1)) ⟨[], budget⟩
  (outcome, m.budget)

end

end

end WotAv.Contract
