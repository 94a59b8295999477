import StatesLanguage.Log
import StatesLanguage.Machine

/-!
# Writing documents

A complete model is written as a JSON document. Only what is set is written, each
setting under its own key, in the order: type, comment, the settings of the kind,
the declared fields. The transition of a locked rule is never written, and the
discarded result is a result path of null.

A state is checked before it is written, and so is every state inside it, so an
incomplete model makes no document at all: `Machine.toDocument` fails with its
first problem.
-/

namespace StatesLanguage

open Json (Members)

/-! ### Members that may be absent -/

/-- A member for a value that is set. -/
def optionalMember {α : Type} (key : String) (toJson : α → Json) : Option α → Members
  | some a => [(key, toJson a)]
  | none => []

/-- A path expression in a document. -/
def Path.toJson (p : Path) : Json :=
  .string p.text

/-- Seconds in a document. -/
def Seconds.toJson (s : Seconds) : Json :=
  .ofUInt32 s.count

/-! ### Fields -/

/-- The member of a transition. -/
def TransitionField.members (f : TransitionField) : Members :=
  match f.mode, f.transition with
  | .locked, _ => []
  | _, some .terminal => [("End", .bool true)]
  | _, some (.next target) => [("Next", .string target)]
  | _, none => []

/-- The members of the projections of input and output. -/
def DataPaths.members (p : DataPaths) : Members :=
  optionalMember "InputPath" Path.toJson p.input ++ optionalMember "OutputPath" Path.toJson p.output

/-- The member of the placement of a result. -/
def ResultPath.members : ResultPath → Members
  | .unset => []
  | .discarded => [("ResultPath", .null)]
  | .placed path => [("ResultPath", path.toJson)]

/-- A retry policy in a document. -/
def Retrier.toJson (r : Retrier) : Json :=
  .object <|
    [("ErrorEquals", .array (r.errors.map fun code => .string code.text))] ++
      optionalMember "IntervalSeconds" Seconds.toJson r.interval ++
      optionalMember "BackoffRate" (fun b => .number b.number) r.backoff ++
      optionalMember "MaxAttempts" .ofUInt32 r.attempts

/-- An error handler in a document. -/
def Catcher.toJson (c : Catcher) : Json :=
  .object <|
    [("ErrorEquals", .array (c.errors.map fun name => .string name.text))] ++
      c.next.members ++ c.resultPath.members

/-- The members of a declared field, whether anything is set or not. -/
def Field.members : Field → Members
  | .next f => f.members
  | .paths p => p.members
  | .result r => optionalMember "Result" id r
  | .resultPath r => r.members
  | .retriers rs => [("Retry", .array (rs.map Retrier.toJson))]
  | .catchers cs => [("Catch", .array (cs.map Catcher.toJson))]

/-! ### Rules -/

/-- The members of a comparison. -/
def Comparison.members (c : Comparison) : Members :=
  optionalMember "Variable" Path.toJson c.input ++ optionalMember c.op.keyword id c.literal

mutual

/-- A rule in a document. The operand of a negation stands for itself. -/
def Rule.toJson : Rule → Json
  | .logic op children next =>
    let operands := Rule.listToJson children
    let operand :=
      match op with
      | .not => operands.headD .null
      | _ => .array operands
    .object ([(op.keyword, operand)] ++ next.members)
  | .compare c next => .object (c.members ++ next.members)

/-- Rules in a document. -/
def Rule.listToJson : List Rule → List Json
  | [] => []
  | r :: rs => Rule.toJson r :: Rule.listToJson rs

end

theorem Rule.listToJson_eq_map (rs : List Rule) : Rule.listToJson rs = rs.map Rule.toJson := by
  induction rs with
  | nil => rfl
  | cons r rs ih => rw [Rule.listToJson, ih, List.map_cons]

/-! ### States -/

namespace Body

variable {σ : Type}

/-- The members of the settings of a kind, the branches apart. -/
def ownMembers : Body σ → Members
  | .task b =>
    optionalMember "Resource" .string b.resource ++
      optionalMember "TimeoutSeconds" Seconds.toJson b.timeout ++
      optionalMember "HeartbeatSeconds" Seconds.toJson b.heartbeat
  | .wait b => optionalMember "Seconds" Seconds.toJson b.seconds
  | .fail b => optionalMember "Error" .string b.error ++ optionalMember "Cause" .string b.cause
  | .choice b =>
    [("Choices", .array (Rule.listToJson b.rules))] ++ optionalMember "Default" .string b.fallback
  | .pass _ | .succeed | .parallel _ => []

/-- The members of the declared fields in which anything is set. -/
def fieldMembers (b : Body σ) : Members :=
  (b.fields.filter Field.isConfigured).flatMap Field.members

end Body

/-- The members of an object, of which the last one of a key counts. -/
def Json.collect (ms : Members) : Members :=
  ms.foldl (fun acc (key, v) => Json.put key v acc) []

/-- The first of the problems, if there are any. -/
def Logged.check : List Error → Logged Error Unit
  | [] => pure ()
  | e :: _ => .fail e

/-- A start in a document. -/
def Logged.start : Option String → Logged Error Json
  | some name => pure (.string name)
  | none => .fail (.configurationMissing "StartAt")

mutual

/-- A state in a document, without its name. -/
def State.toJson : State → Logged Error Json
  | ⟨name, comment, body⟩ => do
    Logged.check (State.problems ⟨name, comment, body⟩)
    Logged.event (.writing body.kind.name name)
    let branches ←
      match body with
      | .parallel ⟨_, _, _, branches⟩ => do
        let items ← Collection.listToJson branches
        pure [("Branches", Json.array items)]
      | _ => pure []
    return .object <|
      [("Type", .string body.kind.name)] ++ optionalMember "Comment" .string comment ++
        body.ownMembers ++ branches ++ body.fieldMembers

/-- Branches in a document. -/
def Collection.listToJson : List (Collection State) → Logged Error (List Json)
  | [] => pure []
  | ⟨states, _, startAt, _⟩ :: cs => do
    let start ← Logged.start startAt
    let members ← State.listMembers states
    let rest ← Collection.listToJson cs
    return .object [("StartAt", start), ("States", .object (Json.collect members))] :: rest

/-- The members of states, under their names. -/
def State.listMembers : List State → Logged Error Members
  | [] => pure []
  | s :: ss => do
    let v ← State.toJson s
    let rest ← State.listMembers ss
    return (s.name, v) :: rest

end

/-! ### Machines -/

/-- The members of a collection. -/
def Collection.members (c : Collection State) : Logged Error Members := do
  let start ← Logged.start c.startAt
  let members ← State.listMembers c.states
  return [("StartAt", start), ("States", .object (Json.collect members))]

/-- The branches of a state are written as collections are, one after another. -/
theorem Collection.listToJson_eq_mapM (cs : List (Collection State)) :
    Collection.listToJson cs = cs.mapM fun c => Json.object <$> c.members := by
  induction cs with
  | nil => rfl
  | cons c cs ih =>
    rw [Collection.listToJson, ih, List.mapM_cons, Collection.members]
    simp only [map_bind, bind_assoc, map_pure, pure_bind]

theorem State.listMembers_eq_mapM (ss : List State) :
    State.listMembers ss = ss.mapM fun s => Prod.mk s.name <$> s.toJson := by
  induction ss with
  | nil => rfl
  | cons s ss ih =>
    rw [State.listMembers, ih, List.mapM_cons]
    simp only [map_eq_pure_bind, bind_assoc, pure_bind]

/-- The document of a machine. -/
def Machine.toDocument (m : Machine) : Logged Error Json := do
  Logged.check m.problems
  let members ← m.states.members
  return .object <|
    members ++ optionalMember "Comment" .string m.comment ++
      optionalMember "TimeoutSeconds" Seconds.toJson m.timeout ++
      optionalMember "Version" .string m.version

end StatesLanguage
