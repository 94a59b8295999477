import StatesLanguage.Document.Lookup
import StatesLanguage.Log
import StatesLanguage.Machine
import StatesLanguage.Registry

/-!
# Reading documents

A document is read into a model, complete or not. Types of states are resolved
through a registry. An unknown type, an unknown reserved error name, or a value of
the wrong type under a key that is read makes the reading fail; keys that a kind of
state does not read are passed over. States are added in the order of the document,
and transitions stay names, so that states may refer to later ones.

The readers of rules and of states follow the document itself: a key is searched
for member by member, and what stands under it is read where it is found.
-/

namespace StatesLanguage

open Json (Members)

/-! ### Fields -/

/-- Reads a transition: the end if `End` is true, else the target under `Next`. -/
def TransitionField.ofMembers (mode : TransitionMode) (ms : Members) :
    Except Error TransitionField :=
  match ms.lookup "End" with
  | some (.bool true) => (TransitionField.unset mode).setTerminal
  | _ => do
    match ← Json.lookupString "Next" ms with
    | some target => (TransitionField.unset mode).setTarget target
    | none => return .unset mode

/-- Reads an optional path expression. -/
def Path.lookup (key : String) (ms : Members) : Except Error (Option Path) := do
  match ← Json.lookupString key ms with
  | some text => (Path.ofString text).map some
  | none => return none

/-- Reads the projections of input and output. -/
def DataPaths.ofMembers (ms : Members) : Except Error DataPaths := do
  let input ← Path.lookup "InputPath" ms
  let output ← Path.lookup "OutputPath" ms
  return ⟨input, output⟩

/-- Reads the placement of a result, where null stands for discarding it. -/
def ResultPath.ofMembers (ms : Members) : Except Error ResultPath :=
  match ms.lookup "ResultPath" with
  | none => .ok .unset
  | some .null => .ok .discarded
  | some (.string text) => ResultPath.place text
  | some v => Json.malformed (.resultPath v)

/-- Reads optional seconds, which are positive. -/
def Seconds.lookup (key : String) (ms : Members) : Except Error (Option Seconds) := do
  match ← Json.lookupCount key ms with
  | some n => (Seconds.ofCount key n).map some
  | none => return none

/-- Reads an optional backoff rate. -/
def BackoffRate.lookup (key : String) (ms : Members) : Except Error (Option BackoffRate) := do
  match ← Json.lookupNumber key ms with
  | some n => (BackoffRate.ofNumber n).map some
  | none => return none

/-- Reads a retry policy. -/
def Retrier.ofJson (v : Json) : Except Error Retrier := do
  let ms ← Json.asObject "Retry item" v
  let names ← Json.lookupStrings "ErrorEquals" ms
  let errors ← names.mapM ErrorCode.ofString
  let interval ← Seconds.lookup "IntervalSeconds" ms
  let backoff ← BackoffRate.lookup "BackoffRate" ms
  let attempts ← Json.lookupCount "MaxAttempts" ms
  return ⟨errors, interval, backoff, attempts⟩

/-- Reads an error handler. -/
def Catcher.ofJson (v : Json) : Except Error Catcher := do
  let ms ← Json.asObject "Catch item" v
  let names ← Json.lookupStrings "ErrorEquals" ms
  let errors ← names.mapM ErrorName.ofString
  let next ← TransitionField.ofMembers .ordinary ms
  let resultPath ← ResultPath.ofMembers ms
  return ⟨errors, next, resultPath⟩

/-- Reads retry policies. -/
def Retrier.listOfMembers (ms : Members) : Except Error (List Retrier) := do
  let items ← Json.lookupArray "Retry" ms
  items.mapM Retrier.ofJson

/-- Reads error handlers. -/
def Catcher.listOfMembers (ms : Members) : Except Error (List Catcher) := do
  let items ← Json.lookupArray "Catch" ms
  items.mapM Catcher.ofJson

/-- Reads a field of a kind. The mode is that of a transition. -/
def Field.ofMembers (mode : TransitionMode) (ms : Members) : FieldKind → Except Error Field
  | .next => (TransitionField.ofMembers mode ms).map .next
  | .paths => (DataPaths.ofMembers ms).map .paths
  | .result => .ok (.result (ms.lookup "Result"))
  | .resultPath => (ResultPath.ofMembers ms).map .resultPath
  | .retriers => (Retrier.listOfMembers ms).map .retriers
  | .catchers => (Catcher.listOfMembers ms).map .catchers

/-! ### Rules -/

/-- The operator of a rule: the first one whose keyword is present. -/
def Operator.find? (ms : Members) : Option Operator :=
  all.find? fun op => (ms.lookup op.keyword).isSome

/-- Reads a comparison. -/
def Comparison.ofMembers (op : Comparator) (ms : Members) : Except Error Comparison := do
  let input ← Path.lookup "Variable" ms
  let c := { Comparison.new op with input }
  match ms.lookup op.keyword with
  | some v => c.setLiteral v
  | none => return c

/-- Whether a value is an object. -/
def Json.isObject (v : Json) : Bool :=
  v.members?.isSome

mutual

/-- Reads a rule for a place in a tree. -/
def Rule.ofJson (mode : TransitionMode) : Json → Except Error Rule
  | .object ms =>
    match Operator.find? ms with
    | none => Json.malformed .noOperator
    | some (.logic op) => do
      let children ← Rule.operandOfMembers op ms
      let next ← TransitionField.ofMembers mode ms
      return .logic op children next
    | some (.compare op) => do
      let c ← Comparison.ofMembers op ms
      let next ← TransitionField.ofMembers mode ms
      return .compare c next
  | _ => Json.malformed (.notObject "choice rule")

/-- Reads the rules under the keyword of a logic operator: an object for a
negation, an array of objects for the others. -/
def Rule.operandOfMembers (op : LogicOp) : Members → Except Error (List Rule)
  | [] => .ok []
  | (key, v) :: ms =>
    if key = op.keyword then
      if op = .not then
        if v.isObject then do
          let r ← Rule.ofJson .locked v
          return [r]
        else Json.malformed (.operand op v)
      else
        match v with
        | .array items => Rule.listOfJson .locked items
        | v => Json.malformed (.operand op v)
    else Rule.operandOfMembers op ms

/-- Reads rules, one after another. -/
def Rule.listOfJson (mode : TransitionMode) : List Json → Except Error (List Rule)
  | [] => .ok []
  | v :: vs => do
    let r ← Rule.ofJson mode v
    let rs ← Rule.listOfJson mode vs
    return r :: rs

end

/-- Reads the operand of a logic operator: an object for a negation, an array of
objects for the others. -/
def Rule.operandOfJson (op : LogicOp) (v : Json) : Except Error (List Rule) :=
  if op = .not then
    if v.isObject then do
      let r ← Rule.ofJson .locked v
      return [r]
    else Json.malformed (.operand op v)
  else
    match v with
    | .array items => Rule.listOfJson .locked items
    | v => Json.malformed (.operand op v)

theorem Rule.operandOfMembers_cons (op : LogicOp) (key : String) (v : Json) (ms : Members) :
    Rule.operandOfMembers op ((key, v) :: ms) =
      if key = op.keyword then Rule.operandOfJson op v else Rule.operandOfMembers op ms := by
  cases v <;> rfl

/-- The operand of a logic operator is read from the value under its keyword. -/
theorem Rule.operandOfMembers_eq_lookup (op : LogicOp) (ms : Members) :
    Rule.operandOfMembers op ms =
      match ms.lookup op.keyword with
      | none => .ok []
      | some v => Rule.operandOfJson op v := by
  induction ms with
  | nil => rfl
  | cons m ms ih =>
    rw [Rule.operandOfMembers_cons, List.lookup_cons]
    by_cases h : m.1 = op.keyword
    · rw [if_pos h, h, beq_self_eq_true]
    · rw [if_neg h, ih, beq_eq_false_iff_ne.mpr (Ne.symm h)]

theorem Rule.listOfJson_eq_mapM (mode : TransitionMode) (vs : List Json) :
    Rule.listOfJson mode vs = vs.mapM (Rule.ofJson mode) := by
  induction vs with
  | nil => rfl
  | cons v vs ih => rw [Rule.listOfJson, ih, List.mapM_cons]

/-! ### States -/

/-- Reads the settings of a kind, the branches apart. -/
def Body.ofMembers (ms : Members) : StateKind → Except Error (Body State)
  | .task => do
    let resource ← Json.lookupString "Resource" ms
    let timeout ← Seconds.lookup "TimeoutSeconds" ms
    let heartbeat ← Seconds.lookup "HeartbeatSeconds" ms
    return .task { resource, timeout, heartbeat }
  | .wait => do
    let seconds ← Seconds.lookup "Seconds" ms
    return .wait { seconds }
  | .fail => do
    let error ← Json.lookupString "Error" ms
    let cause ← Json.lookupString "Cause" ms
    return .fail { error, cause }
  | .choice => do
    let items ← Json.lookupArray "Choices" ms
    let rules ← Rule.listOfJson .withoutEnd items
    let fallback ← Json.lookupString "Default" ms
    return .choice { rules, fallback }
  | kind => return .new kind

/-- Reads the declared fields of a body, in their order. -/
def Body.readFields (ms : Members) : Body State → Except Error (Body State)
  | .pass b => do
    let paths ← DataPaths.ofMembers ms
    let resultPath ← ResultPath.ofMembers ms
    let next ← TransitionField.ofMembers .ordinary ms
    return .pass { b with paths, resultPath, result := ms.lookup "Result", next }
  | .task b => do
    let paths ← DataPaths.ofMembers ms
    let resultPath ← ResultPath.ofMembers ms
    let next ← TransitionField.ofMembers .ordinary ms
    let retriers ← Retrier.listOfMembers ms
    let catchers ← Catcher.listOfMembers ms
    return .task
      { b with paths, resultPath, result := ms.lookup "Result", next, retriers, catchers }
  | .wait b => do
    let next ← TransitionField.ofMembers .ordinary ms
    return .wait { b with next }
  | .parallel b => do
    let next ← TransitionField.ofMembers .ordinary ms
    let paths ← DataPaths.ofMembers ms
    let resultPath ← ResultPath.ofMembers ms
    return .parallel { b with next, paths, resultPath }
  | b => return b

/-- Reads the type of a state. -/
def StateKind.typeOfMembers (state : String) (ms : Members) : Except Error String := do
  match ← Json.lookupString "Type" ms with
  | some type => return type
  | none => Json.malformed (.noType state)

/-- Reads the start of a collection, which overrides the first state. -/
def Collection.readStart (ms : Members) (c : Collection State) :
    Except Error (Collection State) := do
  match ← Json.lookupString "StartAt" ms with
  | some name => return c.withStart name
  | none => return c

mutual

/-- Reads a state. -/
def State.ofJson (r : Registry) (name : String) : Json → Logged Error State
  | .object ms => do
    let type ← StateKind.typeOfMembers name ms
    let kind ← r.resolve type
    Logged.event (.reading type name)
    let own ←
      if kind = .parallel then do
        let branches ← Collection.branchesOfMembers r ms
        pure (Body.parallel { branches })
      else Body.ofMembers ms kind
    let comment ← Json.lookupString "Comment" ms
    let body ← own.readFields ms
    return ⟨name, comment, body⟩
  | _ => .fail (.malformedDocument (.notObject name))

/-- Reads the branches under their key. -/
def Collection.branchesOfMembers (r : Registry) : Members → Logged Error (List (Collection State))
  | [] => pure []
  | (key, v) :: ms =>
    if key = "Branches" then Collection.branchesOfJson r v
    else Collection.branchesOfMembers r ms

/-- Reads an array of branches. -/
def Collection.branchesOfJson (r : Registry) : Json → Logged Error (List (Collection State))
  | .array items => Collection.listOfJson r items
  | v => .fail (.malformedDocument (.notArray "Branches" v))

/-- Reads branches, one after another. -/
def Collection.listOfJson (r : Registry) : List Json → Logged Error (List (Collection State))
  | [] => pure []
  | .object ms :: vs => do
    let c ← Collection.statesOfMembers r ms
    let c ← c.readStart ms
    let cs ← Collection.listOfJson r vs
    return c :: cs
  | _ :: _ => .fail (.malformedDocument (.notObject "Branches item"))

/-- Reads the states under their key into a new collection. -/
def Collection.statesOfMembers (r : Registry) : Members → Logged Error (Collection State)
  | [] => pure (.empty false)
  | (key, v) :: ms =>
    if key = "States" then Collection.statesOfJson r v
    else Collection.statesOfMembers r ms

/-- Reads an object of states into a new collection. -/
def Collection.statesOfJson (r : Registry) : Json → Logged Error (Collection State)
  | .object states => Collection.addMembers r states (.empty false)
  | _ => .fail (.malformedDocument (.notObject "States"))

/-- Reads states and adds them to a collection, one after another. -/
def Collection.addMembers (r : Registry) :
    Members → Collection State → Logged Error (Collection State)
  | [], c => pure c
  | (name, v) :: ms, c => do
    let s ← State.ofJson r name v
    let c ← c.add s
    Collection.addMembers r ms c

end

/-- Branches are read from the value under their key. -/
theorem Collection.branchesOfMembers_eq_lookup (r : Registry) (ms : Members) :
    Collection.branchesOfMembers r ms =
      match ms.lookup "Branches" with
      | none => pure []
      | some v => Collection.branchesOfJson r v := by
  induction ms with
  | nil => rfl
  | cons m ms ih =>
    rw [Collection.branchesOfMembers, List.lookup_cons]
    by_cases h : m.1 = "Branches"
    · rw [if_pos h, h, beq_self_eq_true]
    · rw [if_neg h, ih, beq_eq_false_iff_ne.mpr (Ne.symm h)]

/-- States are read from the value under their key. -/
theorem Collection.statesOfMembers_eq_lookup (r : Registry) (ms : Members) :
    Collection.statesOfMembers r ms =
      match ms.lookup "States" with
      | none => pure (.empty false)
      | some v => Collection.statesOfJson r v := by
  induction ms with
  | nil => rfl
  | cons m ms ih =>
    rw [Collection.statesOfMembers, List.lookup_cons]
    by_cases h : m.1 = "States"
    · rw [if_pos h, h, beq_self_eq_true]
    · rw [if_neg h, ih, beq_eq_false_iff_ne.mpr (Ne.symm h)]

/-! ### Machines -/

/-- Reads the version of a machine, and logs another one than that of the
language. -/
def Machine.readVersion (ms : Members) : Logged Error (Option String) := do
  let version ← Json.lookupString "Version" ms
  match version with
  | some found =>
    if found ≠ languageVersion then
      Logged.event (.otherVersion found languageVersion)
  | none => pure ()
  return version

/-- Reads a machine. -/
def Machine.ofDocument (r : Registry) (document : Json) : Logged Error Machine := do
  let ms ← Json.asObject "state machine" document
  let states ← Collection.statesOfMembers r ms
  let states ← states.readStart ms
  let comment ← Json.lookupString "Comment" ms
  let timeout ← Seconds.lookup "TimeoutSeconds" ms
  let version ← Machine.readVersion ms
  return { states, comment, timeout, version }

end StatesLanguage
