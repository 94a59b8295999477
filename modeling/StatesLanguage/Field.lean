import StatesLanguage.Catcher
import StatesLanguage.Retrier

/-!
# Declared fields

States are built from fields of six kinds, each optional as far as it goes. Every
kind of state declares its fields in a fixed order, in which they are checked,
read and written.
-/

namespace StatesLanguage

/-! ### Kinds -/

/-- The kinds of declared fields. -/
inductive FieldKind where
  /-- Where control goes. -/
  | next
  /-- The projections of input and output. -/
  | paths
  /-- A fixed result. -/
  | result
  /-- The placement of the result. -/
  | resultPath
  /-- The retry policies. -/
  | retriers
  /-- The error handlers. -/
  | catchers
deriving DecidableEq

namespace FieldKind

/-- Every kind of field. -/
def all : List FieldKind :=
  [.next, .paths, .result, .resultPath, .retriers, .catchers]

/-- The name of a kind of field. -/
def name : FieldKind → String
  | .next => "Next"
  | .paths => "Path"
  | .result => "Result"
  | .resultPath => "ResultPath"
  | .retriers => "Retry"
  | .catchers => "Catch"

end FieldKind

/-! ### Fields -/

/-- A declared field. -/
inductive Field where
  /-- Where control goes. -/
  | next (f : TransitionField)
  /-- The projections of input and output. -/
  | paths (p : DataPaths)
  /-- A fixed result, which may be null. -/
  | result (r : Option Json)
  /-- The placement of the result. -/
  | resultPath (r : ResultPath)
  /-- The retry policies, in order. -/
  | retriers (rs : List Retrier)
  /-- The error handlers, in order. -/
  | catchers (cs : List Catcher)

namespace Field

/-- The kind of a field. -/
def kind : Field → FieldKind
  | .next _ => .next
  | .paths _ => .paths
  | .result _ => .result
  | .resultPath _ => .resultPath
  | .retriers _ => .retriers
  | .catchers _ => .catchers

/-- Whether anything is set. -/
def isConfigured : Field → Bool
  | .next f => f.isConfigured
  | .paths p => p.isConfigured
  | .result r => r.isSome
  | .resultPath r => r.isConfigured
  | .retriers rs => !rs.isEmpty
  | .catchers cs => !cs.isEmpty

/-- Whether the owner is incomplete without the field. -/
def isRequired : Field → Bool
  | .next f => f.isRequired
  | _ => false

/-- The first problem with a field. -/
def problem? : Field → Option Error
  | .next f => f.problem?
  | .retriers rs => rs.findSome? Retrier.problem?
  | .catchers cs => cs.findSome? Catcher.problem?
  | _ => none

end Field

end StatesLanguage
