import StatesLanguage.Path

/-!
# The flow of data through a state

Two optional paths project the input and the output of a state. A third one
places the result of the state in its input; instead of placing it, a state may
also discard it, which is not the same as leaving the place open.
-/

namespace StatesLanguage

/-! ### Projections -/

/-- The projections of the input and the output of a state. -/
structure DataPaths where
  /-- The part of the input that is used. -/
  input : Option Path := none
  /-- The part of the output that is passed on. -/
  output : Option Path := none
deriving DecidableEq

namespace DataPaths

/-- Whether a projection is set. -/
def isConfigured (p : DataPaths) : Bool :=
  p.input.isSome || p.output.isSome

/-- Sets the projection of the input. -/
def setInput (text : String) (p : DataPaths) : Except Error DataPaths :=
  (Path.ofString text).map fun path => { p with input := some path }

/-- Sets the projection of the output. -/
def setOutput (text : String) (p : DataPaths) : Except Error DataPaths :=
  (Path.ofString text).map fun path => { p with output := some path }

end DataPaths

/-! ### Placement of the result -/

/-- What becomes of a result. -/
inductive ResultPath where
  /-- Nothing is said. -/
  | unset
  /-- It is dropped, and the input passed through. -/
  | discarded
  /-- It is placed in the input. -/
  | placed (path : Path)
deriving DecidableEq

namespace ResultPath

/-- Whether anything is said. -/
def isConfigured (r : ResultPath) : Bool :=
  r != .unset

/-- Whether the result is dropped. -/
def isDiscarded (r : ResultPath) : Bool :=
  r == .discarded

/-- Where the result is placed. -/
def path? : ResultPath → Option Path
  | .placed path => some path
  | _ => none

/-- Places the result. -/
def place (text : String) : Except Error ResultPath :=
  (Path.ofString text).map .placed

end ResultPath

end StatesLanguage
