import StatesLanguage.DataPath
import StatesLanguage.EditAt
import StatesLanguage.Transition

/-!
# Choice rules

The rules of a choice state form trees. An inner node combines rules with a logic
operator, a leaf compares a part of the input with a literal, and every node has
a transition field. The mode of that field tells the place of the node: at the
root of a tree a rule may name the state that control goes on to, but cannot end
the execution; below another rule its transition is locked. `Rule.new` makes a
node for a place, and `Rule.add` makes its children for the place below it.

Nodes deep in a tree are edited in place: `Rule.apply` follows an address, the
positions of the children from the root down, and makes one `RuleEdit` there.
-/

namespace StatesLanguage

/-! ### Comparisons -/

/-- A comparison of a part of the input with a literal. -/
structure Comparison where
  /-- The comparator. -/
  op : Comparator
  /-- The part of the input. -/
  input : Option Path
  /-- The literal. -/
  literal : Option Json
  /-- The comparator accepts the literal. -/
  accepted : ∀ v, literal = some v → op.operand.accepts v = true

namespace Comparison

/-- A comparison without variable and literal. -/
def new (op : Comparator) : Comparison :=
  ⟨op, none, none, fun _ h => nomatch h⟩

/-- Sets the part of the input. -/
def setVariable (text : String) (c : Comparison) : Except Error Comparison :=
  (Path.ofString text).map fun path => { c with input := some path }

/-- Sets the literal, which the comparator has to accept. -/
def setLiteral (v : Json) (c : Comparison) : Except Error Comparison :=
  if h : c.op.operand.accepts v = true then
    .ok { c with literal := some v, accepted := fun _ e => Option.some.inj e ▸ h }
  else .error (.unsupportedOperand c.op v)

/-- What is missing. -/
def problems (c : Comparison) : List Error :=
  (if c.input.isNone then [.configurationMissing "Variable"] else []) ++
    (if c.literal.isNone then [.configurationMissing "Literal"] else [])

/-- Equality of comparisons, up to the equality of their literals. -/
def equiv (a b : Comparison) : Bool :=
  a.op == b.op && a.input == b.input &&
    match a.literal, b.literal with
    | none, none => true
    | some v, some w => v.equiv w
    | _, _ => false

end Comparison

/-! ### Trees -/

/-- A tree of choice rules. -/
inductive Rule where
  /-- A logic operator over other rules. -/
  | logic (op : LogicOp) (children : List Rule) (next : TransitionField)
  /-- A comparison. -/
  | compare (comparison : Comparison) (next : TransitionField)

namespace Rule

/-- A property of all rules follows from its step from the children of a node to
the node. -/
@[elab_as_elim, induction_eliminator]
theorem induction {P : Rule → Prop}
    (logic : ∀ op children next, (∀ r ∈ children, P r) → P (.logic op children next))
    (compare : ∀ comparison next, P (.compare comparison next)) (r : Rule) : P r :=
  Rule.rec (motive_1 := P) (motive_2 := fun rs => ∀ r ∈ rs, P r) logic compare
    (fun _ h => nomatch h)
    (fun _ _ head tail => List.forall_mem_cons.mpr ⟨head, tail⟩) r

instance : Inhabited Rule := ⟨.logic .not [] (.unset .locked)⟩

/-- A node for a place, with nothing set. -/
def new (mode : TransitionMode) : Operator → Rule
  | .logic op => .logic op [] (.unset mode)
  | .compare op => .compare (.new op) (.unset mode)

/-- The operator of the root. -/
def operator : Rule → Operator
  | .logic op _ _ => .logic op
  | .compare c _ => .compare c.op

/-- The transition of the root. -/
def next : Rule → TransitionField
  | .logic _ _ next => next
  | .compare _ next => next

/-- The rules below the root. -/
def children : Rule → List Rule
  | .logic _ children _ => children
  | .compare _ _ => []

/-- The rule with another transition at its root. -/
def withNext (next : TransitionField) : Rule → Rule
  | .logic op children _ => .logic op children next
  | .compare c _ => .compare c next

/-! ### Problems -/

/-- Whether the root combines too few or too many rules. -/
def arityProblem? : Rule → Option Error
  | .logic op children _ =>
    if op.admits children.length then none else some (.arity op children.length)
  | .compare _ _ => none

mutual

/-- Everything that is missing or wrong, each node before its children. -/
def problems : Rule → List Error
  | .logic op children next =>
    (arityProblem? (.logic op children next)).toList ++ next.problem?.toList ++
      listProblems children
  | .compare c next => c.problems ++ next.problem?.toList

/-- Everything that is missing or wrong in rules, one after another. -/
def listProblems : List Rule → List Error
  | [] => []
  | r :: rs => problems r ++ listProblems rs

end

theorem listProblems_eq_flatMap (rs : List Rule) : listProblems rs = rs.flatMap problems := by
  induction rs with
  | nil => rfl
  | cons r rs ih => rw [listProblems, ih, List.flatMap_cons]

/-! ### Equality -/

mutual

/-- Equality of rules, up to the equality of their literals. -/
def equiv : Rule → Rule → Bool
  | .logic op₁ rs next₁, .logic op₂ ss next₂ => op₁ == op₂ && next₁ == next₂ && listEquiv rs ss
  | .compare c next₁, .compare d next₂ => c.equiv d && next₁ == next₂
  | _, _ => false

/-- Equality of lists of rules, one after another. -/
def listEquiv : List Rule → List Rule → Bool
  | [], [] => true
  | r :: rs, s :: ss => equiv r s && listEquiv rs ss
  | _, _ => false

end

end Rule

/-! ### Edits -/

/-- An edit of a node. -/
inductive RuleEdit where
  /-- Lets control go on to a state. -/
  | setTarget (target : String)
  /-- Ends the execution. -/
  | setTerminal
  /-- Sets the part of the input that a comparison looks at. -/
  | setVariable (text : String)
  /-- Sets the literal of a comparison. -/
  | setLiteral (v : Json)
  /-- Appends a child to a logic rule. -/
  | add (op : Operator)

namespace Rule

/-- Edits the root. An edit of something that the node does not have changes
nothing. -/
def applyHere : RuleEdit → Rule → Except Error Rule
  | .setTarget target, r => (r.next.setTarget target).map fun next => r.withNext next
  | .setTerminal, r => r.next.setTerminal.map fun next => r.withNext next
  | .setVariable text, .compare c next => (c.setVariable text).map fun d => .compare d next
  | .setLiteral v, .compare c next => (c.setLiteral v).map fun d => .compare d next
  | .add child, .logic op children next =>
    .ok (.logic op (children ++ [.new .locked child]) next)
  | _, r => .ok r

/-- Edits the node at an address. An address of no node changes nothing. -/
def apply (e : RuleEdit) : List Nat → Rule → Except Error Rule
  | [], r => r.applyHere e
  | i :: address, .logic op children next =>
    (editAt (apply e address) i children).map fun children => .logic op children next
  | _ :: _, .compare c next => .ok (.compare c next)

end Rule

end StatesLanguage
