import StatesLanguage.Text.Hex
import StatesLanguage.Text.Hidden

/-!
# Quoted text

Settings and registries are described with their strings in double quotes, in
which the quote, the backslash and hidden characters are escaped.
-/

namespace StatesLanguage

namespace Text

/-- A character as it stands inside quotes. -/
def quotedChar (c : Char) : List Char :=
  if c = '"' then ['\\', '"']
  else if c = '\\' then ['\\', '\\']
  else if c = '\x00' then ['\\', '0']
  else if c = '\t' then ['\\', 't']
  else if c = '\r' then ['\\', 'r']
  else if c = '\n' then ['\\', 'n']
  else if !isHidden c then [c]
  else ['\\', 'u', '{'] ++ hexDigits c.toNat ++ ['}']

/-- A string in quotes. -/
def quoted (s : String) : String :=
  .ofList ('"' :: s.toList.flatMap quotedChar ++ ['"'])

end Text

end StatesLanguage
