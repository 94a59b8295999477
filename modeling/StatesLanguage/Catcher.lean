import StatesLanguage.DataPath
import StatesLanguage.ErrorName
import StatesLanguage.Transition

/-!
# Error handlers

A catcher names errors after which control takes a transition of its own, and may
say where the error output is placed.
-/

namespace StatesLanguage

/-- An error handler. -/
structure Catcher where
  /-- The errors to respond to. -/
  errors : List ErrorName
  /-- Where control goes then. -/
  next : TransitionField := .unset .ordinary
  /-- Where the error output is placed. -/
  resultPath : ResultPath := .unset
deriving DecidableEq

namespace Catcher

/-- The catcher of names in a document. The first name that is no error name
makes it fail. -/
def ofNames (names : List String) : Except Error Catcher := do
  let errors ← names.mapM ErrorName.ofString
  return ⟨errors, .unset .ordinary, .unset⟩

/-- Lets control go on to a state. -/
def setTarget (target : String) (c : Catcher) : Except Error Catcher :=
  (c.next.setTarget target).map fun next => { c with next }

/-- Ends the execution. -/
def setTerminal (c : Catcher) : Except Error Catcher :=
  c.next.setTerminal.map fun next => { c with next }

/-- Places the error output. -/
def place (text : String) (c : Catcher) : Except Error Catcher :=
  (ResultPath.place text).map fun resultPath => { c with resultPath }

/-- Discards the error output. -/
def discard (c : Catcher) : Catcher :=
  { c with resultPath := .discarded }

/-- The first thing that is missing. -/
def problem? (c : Catcher) : Option Error :=
  if c.errors.isEmpty then some (.configurationMissing "ErrorEquals") else c.next.problem?

end Catcher

end StatesLanguage
