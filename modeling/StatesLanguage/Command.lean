import StatesLanguage.Document.Reader
import StatesLanguage.Document.Writer
import StatesLanguage.Json.Codec

/-!
# The two commands

A text is validated by reading the machine in it and listing its problems, and
formatted by writing that machine again. Both fail in the same way on a text that
holds no machine; formatting also fails on a machine that has problems.

What a text spells, and how a document is printed, is for the codec to say.
-/

namespace StatesLanguage

/-- Why a command fails. -/
inductive Failure where
  /-- A text is no JSON document. -/
  | notJson
  /-- A document cannot be read, or a machine not be written. -/
  | invalid (e : Error)
  /-- A file cannot be read. -/
  | unreadable (path : String)
  /-- A setting is neither true nor false. -/
  | notBoolean (text : String)
  /-- The machine in a file has problems. -/
  | problemsFound (count : Nat) (path : String)

/-- The wording of a failure. -/
def Failure.message : Failure → String
  | .notJson => "not a JSON document"
  | .invalid e => e.message
  | .unreadable path => s!"cannot read {path}"
  | .notBoolean text => s!"[cli] pretty must be a boolean, got {text}"
  | .problemsFound count path => s!"{count} problem(s) found in {path}"

namespace Command

/-- The machine in a text. -/
def machineOf (text : String) (codec : Json.Codec := .nearest) : Logged Failure Machine :=
  match codec.parse? text with
  | some document => (Machine.ofDocument .standard document).mapError .invalid
  | none => .fail .notJson

/-- The problems with the machine in a text. -/
def validate (text : String) (codec : Json.Codec := .nearest) :
    Logged Failure (List Error) := do
  let m ← machineOf text codec
  Logged.event (.checked m.states.states.length m.problems.length)
  return m.problems

/-- The machine in a text, written again. -/
def format (layout : Json.Layout) (text : String) (codec : Json.Codec := .nearest) :
    Logged Failure String := do
  let m ← machineOf text codec
  let document ← m.toDocument.mapError Failure.invalid
  return codec.print layout document

end Command

end StatesLanguage
