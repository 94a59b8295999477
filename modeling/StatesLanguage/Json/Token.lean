import StatesLanguage.Json.Basic
import StatesLanguage.Text.Hex

/-!
# The tokens of a JSON text

A text is cut by one pass over its characters. A run of letters, digits, signs
and points is a word, which has to be one of the three names or a number; a
quoted run is a string; the six punctuation marks stand for themselves; blanks
are the space, the tab and the two line characters. Everything else, and every
word or string that is not well formed, makes the whole text unreadable.
-/

namespace StatesLanguage

namespace Json

/-- A token of a JSON text. -/
inductive Token where
  /-- An opening bracket. -/
  | openArray
  /-- A closing bracket. -/
  | closeArray
  /-- An opening brace. -/
  | openObject
  /-- A closing brace. -/
  | closeObject
  /-- A comma. -/
  | comma
  /-- A colon. -/
  | colon
  /-- A string, as a value or as a key. -/
  | string (s : String)
  /-- Any other value that is not a bracketed one. -/
  | scalar (v : Json)

/-! ### Numbers -/

/-- The natural number that decimal digits spell. -/
def ofDigits (ds : List Char) : Nat :=
  ds.foldl (fun n d => 10 * n + (d.toNat - '0'.toNat)) 0

/-- The number without point and exponent: an integer if it fits, but minus zero
and everything too large is a double. -/
def wholeNumber? (negative : Bool) (digits : List Char) : Option Number :=
  let magnitude := ofDigits digits
  let value : Int := if negative then -magnitude else magnitude
  if negative && magnitude == 0 then some (.float (.zero true))
  else if h : -0x8000000000000000 ≤ value ∧ value < 0x10000000000000000 then
    some (.int ⟨value, h.1, h.2⟩)
  else (Binary64.ofDecimal? negative magnitude 0).map .float

/-- The power of ten after the digits of a number: none, or a letter `e`, a sign
or not, and digits. -/
def powerOfTen? : List Char → Option Int
  | [] => some 0
  | c :: cs =>
    if c = 'e' ∨ c = 'E' then
      let negative := cs.head? == some '-'
      let digits := if negative ∨ cs.head? = some '+' then cs.drop 1 else cs
      if digits ≠ [] ∧ digits.all Char.isDigit then
        some (if negative then -(ofDigits digits : Int) else ofDigits digits)
      else none
    else none

/-- The number that a word spells: digits without a leading zero, then maybe a
point and digits, then maybe a power of ten. With a point or a power of ten it is
a double, however large or small it is. -/
def number? (word : List Char) : Option Number :=
  let negative := word.head? == some '-'
  let magnitude := if negative then word.drop 1 else word
  let whole := magnitude.takeWhile Char.isDigit
  if whole = [] ∨ (whole.head? = some '0' ∧ 1 < whole.length) then none
  else
    match magnitude.dropWhile Char.isDigit with
    | [] => wholeNumber? negative whole
    | c :: cs =>
      if c = '.' then
        let decimals := cs.takeWhile Char.isDigit
        if decimals = [] then none
        else do
          let power ← powerOfTen? (cs.dropWhile Char.isDigit)
          let x ← Binary64.ofDecimal? negative (ofDigits (whole ++ decimals))
            (power - decimals.length)
          return .float x
      else do
        let power ← powerOfTen? (c :: cs)
        let x ← Binary64.ofDecimal? negative (ofDigits whole) power
        return .float x

/-- The token of a word. -/
def wordToken? (word : List Char) : Option Token :=
  if word = ['n', 'u', 'l', 'l'] then some (.scalar .null)
  else if word = ['t', 'r', 'u', 'e'] then some (.scalar (.bool true))
  else if word = ['f', 'a', 'l', 's', 'e'] then some (.scalar (.bool false))
  else (number? word).map fun n => .scalar (.number n)

/-! ### Strings -/

/-- The character that a letter after a backslash stands for. -/
def escapedChar? (c : Char) : Option Char :=
  if c = '"' ∨ c = '\\' ∨ c = '/' then some c
  else if c = 'b' then some '\x08'
  else if c = 'f' then some '\x0c'
  else if c = 'n' then some '\n'
  else if c = 'r' then some '\r'
  else if c = 't' then some '\t'
  else none

/-- A piece of a quoted text: a character, or a numbered UTF-16 unit. -/
inductive Piece where
  /-- A character, written as itself or by an escape letter. -/
  | char (c : Char)
  /-- A unit written by its number. -/
  | unit (n : Nat)

/-- The pieces of a quoted text. Control characters below the space have to be
escaped. -/
def pieces? : List Char → Option (List Piece)
  | [] => some []
  | [c] => if c < ' ' ∨ c = '\\' then none else some [.char c]
  | c :: d :: cs =>
    if c < ' ' then none
    else if c = '\\' then
      if d = 'u' then
        match cs with
        | h₁ :: h₂ :: h₃ :: h₄ :: rest => do
          let n ← Text.ofHexDigits? [h₁, h₂, h₃, h₄]
          let ps ← pieces? rest
          return .unit n :: ps
        | _ => none
      else do
        let e ← escapedChar? d
        let ps ← pieces? cs
        return .char e :: ps
    else do
      let ps ← pieces? (d :: cs)
      return .char c :: ps

/-- Whether a unit is the first of a surrogate pair. -/
def isHighSurrogate (n : Nat) : Bool :=
  0xD800 ≤ n && n < 0xDC00

/-- Whether a unit is the second of a surrogate pair. -/
def isLowSurrogate (n : Nat) : Bool :=
  0xDC00 ≤ n && n < 0xE000

/-- The characters that pieces make up. A surrogate unit has to be part of a pair
of numbered units. -/
def joinPieces? : List Piece → Option (List Char)
  | [] => some []
  | [.char c] => some [c]
  | [.unit n] => if isHighSurrogate n || isLowSurrogate n then none else some [.ofNat n]
  | .char c :: p :: ps => do
    let cs ← joinPieces? (p :: ps)
    return c :: cs
  | .unit n :: p :: ps =>
    if isLowSurrogate n then none
    else if isHighSurrogate n then
      match p with
      | .unit m =>
        if isLowSurrogate m then do
          let cs ← joinPieces? ps
          return .ofNat (0x10000 + 0x400 * (n - 0xD800) + (m - 0xDC00)) :: cs
        else none
      | .char _ => none
    else do
      let cs ← joinPieces? (p :: ps)
      return .ofNat n :: cs

/-- The token of the text between two quotes. -/
def stringToken? (quoted : List Char) : Option Token := do
  let ps ← pieces? quoted
  let cs ← joinPieces? ps
  return .string (.ofList cs)

/-! ### One pass over the text -/

/-- Where the pass over a text stands, with the characters of an unfinished token
in reverse. -/
inductive Scan where
  /-- Between two tokens. -/
  | between
  /-- In a word. -/
  | word (reversed : List Char)
  /-- In a quoted text. -/
  | quoted (reversed : List Char)
  /-- In a quoted text, behind a backslash. -/
  | escape (reversed : List Char)

/-- Whether a character is a blank between tokens. -/
def isBlank (c : Char) : Bool :=
  c = ' ' || c = '\t' || c = '\n' || c = '\r'

/-- Whether a character may stand in a word. -/
def isWordChar (c : Char) : Bool :=
  c.isAlphanum || c = '-' || c = '+' || c = '.'

/-- The token of a punctuation mark. -/
def punctuation? (c : Char) : Option Token :=
  if c = '[' then some .openArray
  else if c = ']' then some .closeArray
  else if c = '{' then some .openObject
  else if c = '}' then some .closeObject
  else if c = ',' then some .comma
  else if c = ':' then some .colon
  else none

/-- The tokens finished by a character between two tokens, and where the pass
stands behind it. -/
def beginToken? (c : Char) : Option (List Token × Scan) :=
  if isBlank c then some ([], .between)
  else if c = '"' then some ([], .quoted [])
  else if isWordChar c then some ([], .word [c])
  else do
    let t ← punctuation? c
    return ([t], .between)

/-- The tokens finished by a character, and where the pass stands behind it. -/
def Scan.step? : Scan → Char → Option (List Token × Scan)
  | .between, c => beginToken? c
  | .word w, c =>
    if isWordChar c then some ([], .word (c :: w))
    else do
      let t ← wordToken? w.reverse
      let (ts, scan) ← beginToken? c
      return (t :: ts, scan)
  | .quoted q, c =>
    if c = '"' then do
      let t ← stringToken? q.reverse
      return ([t], .between)
    else if c = '\\' then some ([], .escape q)
    else some ([], .quoted (c :: q))
  | .escape q, c => some ([], .quoted (c :: '\\' :: q))

/-- The tokens finished by the end of the text. -/
def Scan.finish? : Scan → Option (List Token)
  | .between => some []
  | .word w => do
    let t ← wordToken? w.reverse
    return [t]
  | .quoted _ => none
  | .escape _ => none

/-- The tokens of a text, from where the pass stands. -/
def tokensFrom? : Scan → List Char → Option (List Token)
  | scan, [] => scan.finish?
  | scan, c :: cs => do
    let (ts, next) ← scan.step? c
    let rest ← tokensFrom? next cs
    return ts ++ rest

/-- The tokens of a text. -/
def tokens? (text : List Char) : Option (List Token) :=
  tokensFrom? .between text

end Json

end StatesLanguage
