import StatesLanguage.Json.Basic
import StatesLanguage.Timestamp

/-!
# The operators of choice rules

A choice rule either combines other rules with a logic operator, or compares a
part of the input with a literal. A comparator accepts literals of one class, and
each operator is known in documents by its keyword.

The order of the two lists `LogicOp.all` and `Comparator.all` counts: where a
document holds the keywords of several operators, the first one in that order is
meant, logic operators before comparators.
-/

namespace StatesLanguage

/-! ### Logic -/

/-- The operators that combine rules. -/
inductive LogicOp where
  /-- Every rule matches; there are at least two. -/
  | and
  /-- Some rule matches; there are at least two. -/
  | or
  /-- The only rule does not match. -/
  | not
deriving DecidableEq

namespace LogicOp

/-- Every logic operator, in order of priority. -/
def all : List LogicOp :=
  [.and, .or, .not]

/-- The keyword of a logic operator. -/
def keyword : LogicOp → String
  | .and => "And"
  | .or => "Or"
  | .not => "Not"

/-- Whether an operator may combine that many rules. -/
def admits : LogicOp → Nat → Bool
  | .not, count => count == 1
  | _, count => 2 ≤ count

end LogicOp

/-! ### Literals -/

/-- The classes of literals that comparators accept. -/
inductive Operand where
  /-- A truth value. -/
  | boolean
  /-- Any string. -/
  | string
  /-- A string that is a timestamp. -/
  | timestamp
  /-- Any number. -/
  | numeric
deriving DecidableEq

namespace Operand

/-- Every class of literals. -/
def all : List Operand :=
  [.boolean, .string, .timestamp, .numeric]

/-- The name of a class of literals. -/
def name : Operand → String
  | .boolean => "Boolean"
  | .string => "String"
  | .timestamp => "Timestamp"
  | .numeric => "Numeric"

/-- Whether a literal belongs to a class. -/
def accepts : Operand → Json → Bool
  | .boolean, .bool _ => true
  | .string, .string _ => true
  | .timestamp, .string s => isTimestamp s
  | .numeric, .number _ => true
  | _, _ => false

end Operand

/-! ### Comparators -/

/-- The order relations that a comparator can test. -/
inductive Relation where
  /-- The input equals the literal. -/
  | equals
  /-- The input is below the literal. -/
  | lessThan
  /-- The input is above the literal. -/
  | greaterThan
  /-- The input is at most the literal. -/
  | lessThanEquals
  /-- The input is at least the literal. -/
  | greaterThanEquals
deriving DecidableEq

namespace Relation

/-- Every relation, in order of priority. -/
def all : List Relation :=
  [.equals, .lessThan, .greaterThan, .lessThanEquals, .greaterThanEquals]

/-- The name of a relation in a keyword. -/
def name : Relation → String
  | .equals => "Equals"
  | .lessThan => "LessThan"
  | .greaterThan => "GreaterThan"
  | .lessThanEquals => "LessThanEquals"
  | .greaterThanEquals => "GreaterThanEquals"

end Relation

/-- The operators that compare the input with a literal. Truth values are only
tested for equality. -/
inductive Comparator where
  /-- Compares strings. -/
  | string (r : Relation)
  /-- Compares numbers. -/
  | numeric (r : Relation)
  /-- Tests truth values for equality. -/
  | boolean
  /-- Compares timestamps. -/
  | timestamp (r : Relation)
deriving DecidableEq

namespace Comparator

/-- Every comparator, in order of priority. -/
def all : List Comparator :=
  Relation.all.map .string ++ Relation.all.map .numeric ++ .boolean ::
    Relation.all.map .timestamp

/-- The class of literals that a comparator accepts. -/
def operand : Comparator → Operand
  | .string _ => .string
  | .numeric _ => .numeric
  | .boolean => .boolean
  | .timestamp _ => .timestamp

/-- The relation that a comparator tests. -/
def relation : Comparator → Relation
  | .string r => r
  | .numeric r => r
  | .boolean => .equals
  | .timestamp r => r

/-- The keyword of a comparator. -/
def keyword (c : Comparator) : String :=
  c.operand.name ++ c.relation.name

end Comparator

/-! ### Either -/

/-- The operator of a choice rule. -/
inductive Operator where
  /-- A logic operator. -/
  | logic (op : LogicOp)
  /-- A comparator. -/
  | compare (op : Comparator)
deriving DecidableEq

namespace Operator

/-- Every operator, in order of priority. -/
def all : List Operator :=
  LogicOp.all.map .logic ++ Comparator.all.map .compare

/-- The keyword of an operator. -/
def keyword : Operator → String
  | .logic op => op.keyword
  | .compare op => op.keyword

end Operator

end StatesLanguage
