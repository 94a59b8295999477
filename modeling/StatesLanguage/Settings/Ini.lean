import StatesLanguage.Text.CharClass
import StatesLanguage.Text.Hex

/-!
# INI texts

A settings file has sections, each headed by a name in brackets and holding
entries, each a key and a value with `=` or `:` between them. Names, keys and
values are trimmed. A line that begins with `#` or `;` is a comment. A value ends
with its line; it may begin with a quoted part, whose quotes are dropped and which
may extend over several lines. A backslash escapes the character behind it.

The text is read by one pass that collects the sections in order. It fails on a
text that ends inside a name, a key or a quoted part, on an entry without a key,
and on a comment that does not begin its line.
-/

namespace StatesLanguage

namespace Ini

/-- A section, or the entries in front of all sections. -/
structure Section where
  /-- The name in the heading. -/
  name : Option String
  /-- The keys and values, in order. -/
  entries : List (String × String) := []

/-- The text without white space at its ends. -/
def trim (reversed : List Char) : String :=
  .ofList ((reversed.dropWhile Text.isWhiteSpace).reverse.dropWhile Text.isWhiteSpace)

/-! ### Escapes -/

/-- Where an escape stands. -/
inductive Escape where
  /-- In none. -/
  | outside
  /-- Behind a backslash. -/
  | backslash
  /-- In the hexadecimal code of a character, the digits so far in reverse. -/
  | code (reversed : List Char)

/-- The character of four hexadecimal digits, unless it is half of a surrogate
pair. -/
def codeChar? (digits : List Char) : Option Char := do
  let n ← Text.ofHexDigits? digits
  if n.isValidChar then return .ofNat n else none

/-- The characters behind a backslash that do not stand for themselves. -/
def escapedChar (c : Char) : Char :=
  if c = '0' then '\x00'
  else if c = 'a' then '\x07'
  else if c = 'b' then '\x08'
  else if c = 't' then '\t'
  else if c = 'r' then '\r'
  else if c = 'n' then '\n'
  else c

/-- Reads a character of an escape into a text. A line break behind a backslash
is dropped. -/
def Escape.step? (reversed : List Char) (c : Char) : Escape → Option (Escape × List Char)
  | .outside => if c = '\\' then some (.backslash, reversed) else some (.outside, c :: reversed)
  | .backslash =>
    if c = 'x' then some (.code [], reversed)
    else if c = '\n' then some (.outside, reversed)
    else some (.outside, escapedChar c :: reversed)
  | .code digits =>
    if digits.length < 3 then some (.code (c :: digits), reversed)
    else (codeChar? (c :: digits).reverse).map fun e => (.outside, e :: reversed)

/-! ### The pass -/

/-- What a text is part of. -/
inductive Part where
  /-- The heading of a section. -/
  | heading
  /-- The key of an entry. -/
  | key
  /-- The value of an entry. -/
  | value (key : String)
  /-- The quoted beginning of the value of an entry. -/
  | quoted (key : String) (quote : Char)

/-- Whether a character ends a part. -/
def Part.endsAt (c : Char) : Part → Bool
  | .heading => c == ']'
  | .key => c == '=' || c == ':'
  | .value _ => c == '\n' || c == '\r'
  | .quoted _ quote => c == quote

/-- Where the pass stands. -/
inductive Scan where
  /-- Between two entries, at the beginning of a line or not. -/
  | between (lineStart : Bool)
  /-- In a comment. -/
  | comment
  /-- In front of a value. -/
  | beforeValue (key : String)
  /-- In a part, with its text so far in reverse. -/
  | inside (part : Part) (escape : Escape) (reversed : List Char)

/-- How far a text has been read: the sections so far, the last one first. -/
structure Progress where
  /-- Where the pass stands. -/
  scan : Scan := .between true
  /-- The sections, in reverse. -/
  sections : List Section := [⟨none, []⟩]

namespace Progress

/-- Adds an entry to the last section. -/
def entry (key value : String) (scan : Scan) (p : Progress) : Progress :=
  match p.sections with
  | [] => ⟨scan, [⟨none, [(key, value)]⟩]⟩
  | s :: rest => ⟨scan, { s with entries := s.entries ++ [(key, value)] } :: rest⟩

/-- Ends a part at a character. -/
def endPart? (c : Char) (reversed : List Char) (p : Progress) : Part → Option Progress
  | .heading => some ⟨.between false, ⟨some (trim reversed), []⟩ :: p.sections⟩
  | .key =>
    let key := trim reversed
    if key.isEmpty then none else some { p with scan := .beforeValue key }
  | .value key => some (p.entry key (trim reversed) (.between (c == '\n')))
  | .quoted key _ => some { p with scan := .inside (.value key) .outside reversed }

/-- Reads a character inside a part. -/
def inside? (part : Part) (escape : Escape) (reversed : List Char) (c : Char) (p : Progress) :
    Option Progress :=
  match escape, part.endsAt c with
  | .outside, true => p.endPart? c reversed part
  | _, _ => do
    let (escape, reversed) ← escape.step? reversed c
    return { p with scan := .inside part escape reversed }

/-- Reads a character. -/
def step? (p : Progress) (c : Char) : Option Progress :=
  match p.scan with
  | .between lineStart =>
    if Text.isWhiteSpace c then some { p with scan := .between (c == '\n') }
    else if c = '#' ∨ c = ';' then if lineStart then some { p with scan := .comment } else none
    else if c = '[' then some { p with scan := .inside .heading .outside [] }
    else p.inside? .key .outside [] c
  | .comment => some (if c = '\n' then { p with scan := .between true } else p)
  | .beforeValue key =>
    if c = '\n' ∨ c = '\r' then some (p.entry key "" (.between (c == '\n')))
    else if Text.isWhiteSpace c then some p
    else if c = '"' ∨ c = '\'' then some { p with scan := .inside (.quoted key c) .outside [] }
    else p.inside? (.value key) .outside [] c
  | .inside part escape reversed => p.inside? part escape reversed c

/-- The sections in order, at the end of the text. -/
def finish? (p : Progress) : Option (List Section) :=
  match p.scan with
  | .between _ => some p.sections.reverse
  | .comment => some p.sections.reverse
  | .beforeValue key => some (p.entry key "" p.scan).sections.reverse
  | .inside (.value key) .outside reversed =>
    some (p.entry key (trim reversed) p.scan).sections.reverse
  | .inside _ _ _ => none

end Progress

end Ini

/-- The sections of an INI text. -/
structure Ini where
  /-- The sections in order, after the entries in front of all of them. -/
  sections : List Ini.Section

namespace Ini

/-- Reads an INI text. A byte order mark in front of it is passed over. -/
def parse? (text : String) : Option Ini := do
  let cs := text.toList
  let cs := if cs.head? = some '\ufeff' then cs.drop 1 else cs
  let progress ← cs.foldlM Progress.step? {}
  let sections ← progress.finish?
  return ⟨sections⟩

/-- The first value of a key in the first section of a name. -/
def get? (ini : Ini) (name key : String) : Option String := do
  let s ← ini.sections.find? fun s => s.name == some name
  s.entries.lookup key

end Ini

end StatesLanguage
