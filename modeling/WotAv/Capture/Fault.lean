import WotAv.Lib.JsonParse
import WotAv.Lib.Throwing

/-!
# Faults of the capture adapter (`adapters/src/fault.cjs`)

Values are JSON values over the exact numbers their texts stand for.
-/

namespace WotAv.Capture

open WotAv.Lib
open WotAv.Lib.Json (get)

abbrev Value := Json ℚ
abbrev Members := List (String × Value)

inductive Code
  | InvalidSelection | UnknownProfileToken | IdentityChanged | PermissionDenied | PolicyDenied
  | Busy | MissingDependency | UnsupportedFormat | Timeout | DeviceLost | SourceUnavailable
  | StaleFrame | SourceFailure | ResourceLimit | Cancelled | ProtocolError | CleanupFailed
  deriving DecidableEq, Repr

inductive Operation
  | discover | describe | open | next | close
  deriving DecidableEq, Repr

def Operation.text : Operation → String
  | .discover => "discover"
  | .describe => "describe"
  | .open => "open"
  | .next => "next"
  | .close => "close"

def isHex (c : Char) : Bool := c.isDigit || ('a' ≤ c && c ≤ 'f')

/-- `(0|[1-9][0-9]{0,most})`, whole. -/
def isDecimal (most : Nat) : List Char → Bool
  | ['0'] => true
  | c :: digits => ('1' ≤ c && c ≤ '9') && digits.length ≤ most && digits.all Char.isDigit
  | [] => false

/-- `retryable` is false here, `diagnosticId` random and `cleanup` set by the callers. -/
structure SourceFault where
  code : Code
  operation : Operation
  native : Option (String × String) := none
  deriving DecidableEq, Repr

def text? (key : String) (members : Members) : Option String := (get key members).bind Json.asString

def demand (condition : Prop) [Decidable condition] (code : Code) (operation : Operation) :
    Except SourceFault Unit :=
  if condition then .ok () else .error { code, operation }

def need (value : Option α) (code : Code) (operation : Operation) : Except SourceFault α :=
  match value with
  | some a => .ok a
  | none => .error { code, operation }

theorem bind_eq_ok {x : Except ε α} {f : α → Except ε β} {b : β} :
    (x >>= f) = .ok b ↔ ∃ a, x = .ok a ∧ f a = .ok b := by
  cases x <;> simp [bind, Except.bind]

theorem pure_eq_ok {a b : α} : (pure a : Except ε α) = .ok b ↔ a = b := by
  simp [pure, Except.pure]

end WotAv.Capture
