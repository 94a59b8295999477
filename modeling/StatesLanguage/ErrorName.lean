import StatesLanguage.Error

/-!
# Names of runtime errors

Retriers and catchers name the errors that they respond to. Seven error codes are
predefined, all in the reserved namespace `States.`; a catcher may also name any
error outside that namespace.
-/

namespace StatesLanguage

/-! ### Predefined error codes -/

/-- The predefined error codes. -/
inductive ErrorCode where
  /-- A task ran, or was silent, for too long. -/
  | timeout
  /-- The wildcard that matches every error. -/
  | wildcard
  /-- A task failed. -/
  | taskFailed
  /-- A task lacked the privileges to run. -/
  | permissions
  /-- A result path could not be applied to the input. -/
  | resultPathMatchFailure
  /-- A branch of a parallel state failed. -/
  | branchFailed
  /-- No rule of a choice state matched. -/
  | noChoiceMatched
deriving DecidableEq

namespace ErrorCode

/-- Every predefined error code. -/
def all : List ErrorCode :=
  [.timeout, .wildcard, .taskFailed, .permissions, .resultPathMatchFailure, .branchFailed,
    .noChoiceMatched]

/-- The name of an error code in a document. -/
def text : ErrorCode → String
  | .timeout => "States.Timeout"
  | .wildcard => "States.ALL"
  | .taskFailed => "States.TaskFailed"
  | .permissions => "States.Permissions"
  | .resultPathMatchFailure => "States.ResultPathMatchFailure"
  | .branchFailed => "States.BranchFailed"
  | .noChoiceMatched => "States.NoChoiceMatched"

/-- The error code of a name. -/
def ofString (s : String) : Except Error ErrorCode :=
  match all.find? fun code => code.text == s with
  | some code => .ok code
  | none => .error (.unsupportedErrorCode s)

end ErrorCode

/-! ### Error names -/

/-- The name of an error that a catcher responds to. -/
inductive ErrorName where
  /-- A predefined error code. -/
  | predefined (code : ErrorCode)
  /-- Any other error. -/
  | custom (name : String)
deriving DecidableEq

namespace ErrorName

/-- The beginning of the names that are reserved for predefined error codes. -/
def reserved : String :=
  "States."

/-- The name of an error in a document. -/
def text : ErrorName → String
  | .predefined code => code.text
  | .custom name => name

/-- Whether the error is a predefined error code. -/
def isPredefined : ErrorName → Bool
  | .predefined _ => true
  | .custom _ => false

/-- The error of a name: in the reserved namespace it has to be predefined. -/
def ofString (s : String) : Except Error ErrorName :=
  if reserved.toList.isPrefixOf s.toList then (ErrorCode.ofString s).map .predefined
  else .ok (.custom s)

end ErrorName

end StatesLanguage
