import StatesLanguage.Json.Parser
import StatesLanguage.Json.Printer

/-!
# Codecs of JSON texts

The commands read a document from a text and print another one. How that is done
is left to a codec: it may round a number in a way of its own, or put its blanks
elsewhere, and what the commands make of the document is the same.

`Json.Codec.nearest` is made of the parser and the printer of this library.
-/

namespace StatesLanguage

namespace Json

/-- How values are read from texts, and printed. -/
structure Codec where
  /-- The value that a text spells. -/
  parse? : String → Option Json
  /-- The text of a value. -/
  print : Layout → Json → String

/-- The codec that reads a number as the nearest one there is. -/
def Codec.nearest : Codec :=
  ⟨Json.parse?, Json.print⟩

end Json

end StatesLanguage
