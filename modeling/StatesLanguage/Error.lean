import StatesLanguage.Json.Printer
import StatesLanguage.Rule.Operator

/-!
# Errors and problems

One type serves the errors with which a call fails and the problems that a check
of an incomplete model lists. Its values are causes; their wording is
`Error.message`, and nothing else depends on it.
-/

namespace StatesLanguage

/-- Why a value is out of its range. -/
inductive OutOfRange where
  /-- A number of seconds is zero. -/
  | notPositive (key : String)
  /-- A heartbeat interval is not smaller than the timeout. -/
  | heartbeat (heartbeat timeout : UInt32)
  /-- A backoff rate is not a number. -/
  | rateNotFinite (rate : NonFinite)
  /-- A backoff rate is below one. -/
  | rateBelowOne (rate : Json.Number)
  /-- A collection starts at a state that it does not hold. -/
  | unknownStart (name : String)
deriving DecidableEq

/-- How a document departs from the shape of a state machine document. -/
inductive Malformation where
  /-- Something other than an object. -/
  | notObject (what : String)
  /-- A key without a string. -/
  | notString (key : String) (found : Json)
  /-- A key without an integer that fits an unsigned 32-bit word. -/
  | notCount (key : String) (found : Json)
  /-- A key without a number. -/
  | notNumber (key : String) (found : Json)
  /-- A key without an array. -/
  | notArray (key : String) (found : Json)
  /-- A key with an array of something other than strings. -/
  | notStrings (key : String)
  /-- A result path that is neither a string nor null. -/
  | resultPath (found : Json)
  /-- A state without a type. -/
  | noType (state : String)
  /-- A choice rule without an operator. -/
  | noOperator
  /-- A logic operator with an operand of the wrong type. -/
  | operand (op : LogicOp) (found : Json)

/-- An error or a problem. -/
inductive Error where
  /-- Something that is required has not been set. -/
  | configurationMissing (key : String)
  /-- A text is not a path expression. -/
  | invalidPath (text : String)
  /-- A comparator does not accept a literal. -/
  | unsupportedOperand (op : Comparator) (found : Json)
  /-- A logic operator combines too few or too many rules. -/
  | arity (op : LogicOp) (found : Nat)
  /-- The name of a state is taken. -/
  | duplicateName (name : String)
  /-- Something that must not be empty is empty. -/
  | emptyCollection (what : String)
  /-- A type of states is not registered. -/
  | unknownStateType (type : String)
  /-- An error name is reserved, but not predefined. -/
  | unsupportedErrorCode (name : String)
  /-- A transition is forbidden by its context. -/
  | lockedField (field : String)
  /-- A value is out of its range. -/
  | invalidValue (cause : OutOfRange)
  /-- A document does not have the right shape. -/
  | malformedDocument (cause : Malformation)

/-! ### Wording -/

/-- The wording of a value out of range. -/
def OutOfRange.message : OutOfRange → String
  | .notPositive key => s!"{key} must be a positive integer"
  | .heartbeat silence limit =>
    s!"HeartbeatSeconds ({silence}) must be smaller than TimeoutSeconds ({limit})"
  | .rateNotFinite rate => s!"BackoffRate {rate.text} is not a finite number"
  | .rateBelowOne rate => s!"BackoffRate must be greater than or equal to 1.0, got {rate.text}"
  | .unknownStart name => s!"StartAt names the unknown state {name}"

/-- The wording of a malformation. -/
def Malformation.message : Malformation → String
  | .notObject what => s!"{what} must be a JSON object"
  | .notString key found => s!"{key} must be a string, got {found.compact}"
  | .notCount key found => s!"{key} must be a non-negative integer, got {found.compact}"
  | .notNumber key found => s!"{key} must be a number, got {found.compact}"
  | .notArray key found => s!"{key} must be an array, got {found.compact}"
  | .notStrings key => s!"{key} must only hold strings"
  | .resultPath found => s!"ResultPath must be a string or null, got {found.compact}"
  | .noType state => s!"State {state} has no Type"
  | .noOperator => "choice rule has no operator"
  | .operand op found => s!"{op.keyword} has an operand of the wrong shape: {found.compact}"

/-- The number of rules that a logic operator asks for. -/
def LogicOp.demand : LogicOp → String
  | .not => "exactly 1 choice rule"
  | _ => "at least 2 choice rules"

/-- The wording of an error. -/
def Error.message : Error → String
  | .configurationMissing key => s!"The field {key} requires configuration setup"
  | .invalidPath text => s!"Invalid path expression \"{text}\""
  | .unsupportedOperand op found =>
    s!"Unsupported operand: {op.keyword} expects a {op.operand.name} operand, got {found.compact}"
  | .arity op found => s!"Arity error: {op.keyword} requires {op.demand}, found {found}"
  | .duplicateName name => s!"State {name} already exists in this collection"
  | .emptyCollection what => s!"{what} requires at least 1 item"
  | .unknownStateType type => s!"No state registered with type {type}"
  | .unsupportedErrorCode name =>
    s!"Serialized error code {name} is not supported, hydration failed"
  | .lockedField field => s!"{field} field is currently locked, setup is not allowed"
  | .invalidValue cause => s!"Invalid value: {cause.message}"
  | .malformedDocument cause => s!"Malformed document: {cause.message}"

end StatesLanguage
