import StatesLanguage.Error

/-!
# Transitions

After a state that does not stop the execution by its nature, control goes on to
another state, known by its name, or ends. A `TransitionField` holds that choice,
or nothing yet, and the mode that its context imposes on it:

* the field of a state or a catcher is ordinary and takes either;
* the field of a rule at the root of a choice takes a target, but no end;
* the field of a rule inside another rule is locked and takes nothing.
-/

namespace StatesLanguage

/-- Where control goes. -/
inductive Transition where
  /-- On to the state of that name. -/
  | next (target : String)
  /-- Nowhere: the execution ends. -/
  | terminal
deriving DecidableEq

/-- What the context of a transition allows. -/
inductive TransitionMode where
  /-- A target or the end. -/
  | ordinary
  /-- Only a target. -/
  | withoutEnd
  /-- Nothing. -/
  | locked
deriving DecidableEq

/-- A place for a transition. -/
structure TransitionField where
  /-- What the context allows. -/
  mode : TransitionMode := .ordinary
  /-- The transition, once it is set. -/
  transition : Option Transition := none
deriving DecidableEq

namespace TransitionField

/-- A field of a mode without a transition. -/
def unset (mode : TransitionMode) : TransitionField :=
  ⟨mode, none⟩

/-- Whether a transition is set. -/
def isConfigured (f : TransitionField) : Bool :=
  f.transition.isSome

/-- Whether the owner is incomplete without a transition. -/
def isRequired (f : TransitionField) : Bool :=
  f.mode != .locked

/-- Whether the execution ends here. -/
def isTerminal (f : TransitionField) : Bool :=
  f.transition == some .terminal

/-- The name of the state that control goes on to. -/
def target? (f : TransitionField) : Option String :=
  match f.transition with
  | some (.next target) => some target
  | _ => none

/-- Lets control go on to a state. -/
def setTarget (target : String) (f : TransitionField) : Except Error TransitionField :=
  match f.mode with
  | .locked => .error (.lockedField "Next")
  | _ => .ok ⟨f.mode, some (.next target)⟩

/-- Ends the execution. -/
def setTerminal (f : TransitionField) : Except Error TransitionField :=
  match f.mode with
  | .locked => .error (.lockedField "Next")
  | .withoutEnd => .error (.lockedField "End")
  | .ordinary => .ok ⟨f.mode, some .terminal⟩

/-- What is missing. -/
def problem? (f : TransitionField) : Option Error :=
  if f.isRequired && !f.isConfigured then some (.configurationMissing "Next") else none

end TransitionField

end StatesLanguage
