import StatesLanguage.State.Collection

/-!
# State machines

A machine is a collection of states with a description, a limit to its running
time and the version of the language that it is written in, all of them optional.
-/

namespace StatesLanguage

/-- The version of the language that machines are written in. -/
def languageVersion : String :=
  "1.0"

/-- Whether a new collection chains its states, if nothing else is said. -/
def defaultAutolink : Bool :=
  false

/-- A state machine. -/
structure Machine where
  /-- The states and the start. -/
  states : Collection State
  /-- A description for human readers. -/
  comment : Option String := none
  /-- How long the machine may run. -/
  timeout : Option Seconds := none
  /-- The version of the language. -/
  version : Option String := none

namespace Machine

/-- A machine without states. -/
def empty (autolink : Bool) : Machine :=
  { states := .empty autolink }

/-- The problems with a machine. -/
def problems (m : Machine) : List Error :=
  m.states.problems

/-- Equality of machines, up to the equality of their collections. -/
def equiv (m n : Machine) : Bool :=
  m.states.equiv n.states && m.comment == n.comment && m.timeout == n.timeout &&
    m.version == n.version

end Machine

end StatesLanguage
