import StatesLanguage.Json.Basic
import StatesLanguage.Numeric.Shortest
import StatesLanguage.Text.Hex

/-!
# The text of a JSON value

Values are written over `List Char`, either without any blank or with one item a
line, each level indented by two spaces. Members are written in their order.

Strings are raw but for the quote, the backslash and the control characters
below the space. A double has the shortest digits that read back: positional
from `0.00001` up to sixteen digits before the point, always with a point, and
with a signed exponent outside.
-/

namespace StatesLanguage

namespace Json

/-! ### Numbers -/

/-- The decimal digits of a natural number. -/
def digitChars (n : Nat) : List Char :=
  Nat.toDigits 10 n

/-- The decimal digits of an integer, after a sign if it is negative. -/
def intChars (i : Int) : List Char :=
  if i < 0 then '-' :: digitChars i.natAbs else digitChars i.natAbs

/-- The digits of a decimal in positional notation, with at least one on either
side of the point. -/
def positionalChars (digits : List Char) (exponent : Int) : List Char :=
  let decimals := (-exponent).toNat
  if 0 ≤ exponent then digits ++ List.replicate exponent.toNat '0' ++ ['.', '0']
  else if decimals < digits.length then
    digits.take (digits.length - decimals) ++ '.' :: digits.drop (digits.length - decimals)
  else '0' :: '.' :: List.replicate (decimals - digits.length) '0' ++ digits

/-- The digits of a decimal with one digit before the point and the signed power
of ten that scales it. -/
def scientificChars (digits : List Char) (order : Int) : List Char :=
  digits.take 1 ++ (if digits.length ≤ 1 then [] else '.' :: digits.drop 1) ++
    'e' :: (if order < 0 then '-' else '+') :: digitChars order.natAbs

/-- The text of a magnitude, by the power of ten of its first digit. -/
def decimalChars (d : Decimal) : List Char :=
  let digits := digitChars d.digits
  let order := d.exponent + digits.length - 1
  if -5 ≤ order ∧ order < 16 then positionalChars digits d.exponent
  else scientificChars digits order

/-- The text of a double. -/
def floatChars (x : Binary64) : List Char :=
  (if x.negative then ['-'] else []) ++ decimalChars x.shortest

/-- The text of a number. -/
def Number.chars : Number → List Char
  | .int i => intChars i.value
  | .float x => floatChars x

/-! ### Strings -/

/-- A character as it stands inside quotes. -/
def escaped (c : Char) : List Char :=
  if c = '"' then ['\\', '"']
  else if c = '\\' then ['\\', '\\']
  else if c = '\x08' then ['\\', 'b']
  else if c = '\x0c' then ['\\', 'f']
  else if c = '\n' then ['\\', 'n']
  else if c = '\r' then ['\\', 'r']
  else if c = '\t' then ['\\', 't']
  else if c < ' ' then
    ['\\', 'u', '0', '0'] ++ Text.hexDigits (c.toNat / 16) ++ Text.hexDigits (c.toNat % 16)
  else [c]

/-- A string in quotes. -/
def stringChars (s : String) : List Char :=
  '"' :: s.toList.flatMap escaped ++ ['"']

/-! ### Values -/

/-- How the items of arrays and objects are set out. -/
inductive Layout where
  /-- No blanks at all. -/
  | compact
  /-- One item a line, indented by two spaces a level. -/
  | pretty
deriving DecidableEq

/-- What goes before an item, or a closing bracket, at a level. -/
def Layout.lineBreak (layout : Layout) (level : Nat) : List Char :=
  match layout with
  | .compact => []
  | .pretty => '\n' :: List.replicate (2 * level) ' '

/-- What goes between a key and its value. -/
def Layout.colon : Layout → List Char
  | .compact => [':']
  | .pretty => [':', ' ']

mutual

/-- The text of a value that stands at a level. -/
def chars (layout : Layout) (level : Nat) : Json → List Char
  | .null => ['n', 'u', 'l', 'l']
  | .bool true => ['t', 'r', 'u', 'e']
  | .bool false => ['f', 'a', 'l', 's', 'e']
  | .number n => n.chars
  | .string s => stringChars s
  | .array [] => ['[', ']']
  | .array (x :: xs) =>
    '[' :: itemsChars layout (level + 1) (x :: xs) ++ layout.lineBreak level ++ [']']
  | .object [] => ['{', '}']
  | .object (m :: ms) =>
    '{' :: membersChars layout (level + 1) (m :: ms) ++ layout.lineBreak level ++ ['}']

/-- The text of items, a comma after each but the last. -/
def itemsChars (layout : Layout) (level : Nat) : List Json → List Char
  | [] => []
  | x :: xs =>
    layout.lineBreak level ++ chars layout level x ++ (if xs.isEmpty then [] else [',']) ++
      itemsChars layout level xs

/-- The text of members, a comma after each but the last. -/
def membersChars (layout : Layout) (level : Nat) : Members → List Char
  | [] => []
  | (k, v) :: ms =>
    layout.lineBreak level ++ stringChars k ++ layout.colon ++ chars layout level v ++
      (if ms.isEmpty then [] else [',']) ++ membersChars layout level ms

end

/-- The text of a value in a layout. -/
def print (layout : Layout) (v : Json) : String :=
  .ofList (v.chars layout 0)

/-- The text of a value without blanks. -/
def compact (v : Json) : String :=
  v.print .compact

/-- The text of a number. -/
def Number.text (n : Number) : String :=
  .ofList n.chars

end Json

end StatesLanguage
