import StatesLanguage.Error
import StatesLanguage.Text.CharClass

/-!
# Path expressions

A path expression selects a part of the JSON input or output of a state. It is
the root selector `$` followed by at least one segment, each of which is

* a dot and a name: at least one character, none of them a dot, a bracket or
  white space; or
* in brackets, an index in decimal digits, the wildcard `*`, or a name in single
  or double quotes that does not hold its own quote.

At every character only one continuation is possible, so a path is recognised by
one pass that remembers no more than its `Position`. The type `Path` holds the
texts that pass.
-/

namespace StatesLanguage

namespace Path

/-- Where the pass over a path stands. -/
inductive Position where
  /-- In front of the root selector. -/
  | start
  /-- Behind the root selector, where a segment must follow. -/
  | root
  /-- Behind a dot, where a name must follow. -/
  | dot
  /-- In a name behind a dot. -/
  | name
  /-- Behind an opening bracket. -/
  | bracket
  /-- In an index. -/
  | index
  /-- In a name in single quotes. -/
  | singleQuoted
  /-- In a name in double quotes. -/
  | doubleQuoted
  /-- Behind the content of a bracket, which must be closed. -/
  | content
  /-- Behind a closing bracket. -/
  | segment
  /-- In no path expression. -/
  | nowhere
deriving DecidableEq

/-- Where a character that begins a segment leads. -/
def Position.begin (c : Char) : Position :=
  if c = '.' then .dot else if c = '[' then .bracket else .nowhere

/-- Whether a character may stand in a name behind a dot. -/
def isNameChar (c : Char) : Bool :=
  c != '.' && c != '[' && c != ']' && !Text.isWhiteSpace c

/-- Where a character leads. -/
def Position.step : Position → Char → Position
  | .start, c => if c = '$' then .root else .nowhere
  | .root, c => .begin c
  | .dot, c => if isNameChar c then .name else .nowhere
  | .name, c => if isNameChar c then .name else .begin c
  | .bracket, c =>
    if c = '*' then .content
    else if c = '\'' then .singleQuoted
    else if c = '"' then .doubleQuoted
    else if Text.isDecimalDigit c then .index
    else .nowhere
  | .index, c =>
    if c = ']' then .segment else if Text.isDecimalDigit c then .index else .nowhere
  | .singleQuoted, c => if c = '\'' then .content else .singleQuoted
  | .doubleQuoted, c => if c = '"' then .content else .doubleQuoted
  | .content, c => if c = ']' then .segment else .nowhere
  | .segment, c => .begin c
  | .nowhere, _ => .nowhere

/-- Whether a path may end at a position. -/
def Position.isEnd : Position → Bool
  | .name => true
  | .segment => true
  | _ => false

end Path

/-- Whether a text is a path expression. -/
def isPath (text : String) : Bool :=
  (text.toList.foldl Path.Position.step .start).isEnd

/-- A path expression. -/
structure Path where
  /-- The expression as it was written. -/
  text : String
  /-- The text is a path expression. -/
  valid : isPath text = true
deriving DecidableEq

namespace Path

/-- The path of a text, which has to be a path expression. -/
def ofString (text : String) : Except Error Path :=
  if h : isPath text = true then .ok ⟨text, h⟩ else .error (.invalidPath text)

end Path

end StatesLanguage
