import StatesLanguage.Json.Token

/-!
# Reading a JSON text

The tokens of a text are read one by one with a stack of the brackets that are
still open, so no step looks further than the next token and no measure is
needed. A bracket beyond the depth of 127 is refused. A key that occurs again in
one object replaces the value in the place of its first occurrence.

A text is either read as a whole or not at all, and no position is reported:
`Json.parse?` has no other failure than `none`.
-/

namespace StatesLanguage

namespace Json

/-- How many brackets may be open at once. -/
def maxDepth : Nat := 127

/-- An open bracket, with what has been read behind it. -/
inductive Bracket where
  /-- An array, its items in reverse. -/
  | array (reversed : List Json)
  /-- An object, and the key whose value is to come or has come last. -/
  | object (members : Members) (key : String)

/-- What may come next. -/
inductive Place where
  /-- A value. -/
  | value
  /-- A value, or the end of the empty array. -/
  | firstItem
  /-- A key. -/
  | key
  /-- A key, or the end of the empty object. -/
  | firstKey
  /-- The colon behind a key. -/
  | colon
  /-- A comma, or the end of the innermost bracket. -/
  | comma

/-- How far a text has been read. -/
inductive Progress where
  /-- Inside the text, the innermost bracket first. -/
  | inside (place : Place) (stack : List Bracket)
  /-- At the end of its value. -/
  | done (v : Json)

namespace Progress

/-- Hands a complete value to the innermost open bracket. -/
def complete (v : Json) : List Bracket → Progress
  | [] => .done v
  | .array items :: stack => .inside .comma (.array (v :: items) :: stack)
  | .object ms key :: stack => .inside .comma (.object (put key v ms) key :: stack)

/-- Opens a bracket, unless too many are open. -/
def openBracket? (place : Place) (b : Bracket) (stack : List Bracket) : Option Progress :=
  if stack.length < maxDepth then some (.inside place (b :: stack)) else none

/-- Reads a token where a value is due. -/
def value? (stack : List Bracket) : Token → Option Progress
  | .scalar v => some (complete v stack)
  | .string s => some (complete (.string s) stack)
  | .openArray => openBracket? .firstItem (.array []) stack
  | .openObject => openBracket? .firstKey (.object [] "") stack
  | _ => none

/-- Reads a token where a key is due. -/
def key? : List Bracket → Token → Option Progress
  | .object ms _ :: stack, .string s => some (.inside .colon (.object ms s :: stack))
  | _, _ => none

/-- Reads the token that ends the innermost bracket. -/
def close? : List Bracket → Token → Option Progress
  | .array items :: stack, .closeArray => some (complete (.array items.reverse) stack)
  | .object ms _ :: stack, .closeObject => some (complete (.object ms) stack)
  | _, _ => none

/-- Reads a token behind a value of the innermost bracket. -/
def comma? : List Bracket → Token → Option Progress
  | .array items :: stack, .comma => some (.inside .value (.array items :: stack))
  | .object ms key :: stack, .comma => some (.inside .key (.object ms key :: stack))
  | stack, t => close? stack t

/-- Reads a token. -/
def step? : Progress → Token → Option Progress
  | .inside .value stack, t => value? stack t
  | .inside .firstItem stack, t => (close? stack t).or (value? stack t)
  | .inside .key stack, t => key? stack t
  | .inside .firstKey stack, t => (close? stack t).or (key? stack t)
  | .inside .colon stack, .colon => some (.inside .value stack)
  | .inside .colon _, _ => none
  | .inside .comma stack, t => comma? stack t
  | .done _, _ => none

/-- The value, if its end has been reached. -/
def value : Progress → Option Json
  | .done v => some v
  | .inside _ _ => none

end Progress

/-- The value that tokens spell. -/
def ofTokens? (ts : List Token) : Option Json := do
  let progress ← ts.foldlM Progress.step? (.inside .value [])
  progress.value

/-- The value that a text spells. -/
def parse? (text : String) : Option Json := do
  let ts ← tokens? text.toList
  ofTokens? ts

end Json

end StatesLanguage
