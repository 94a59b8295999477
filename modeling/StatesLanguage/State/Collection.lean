import StatesLanguage.State.Problems

/-!
# Collections of states

States are added to a collection one by one, under names that are not yet taken.
The position of a state is stored under its name when it is added, and it is found
by that later. The first one becomes the start. Transitions refer to states by name
only, so a state may point at one that is added after it.

In autolink mode the states are chained while they are added: one without a
transition ends the execution, until the next one is added and becomes its target.
`Collection.link` does the same afterwards, for the states that still have no
transition.
-/

namespace StatesLanguage

namespace Collection

/-- The collection without states. -/
def empty (autolink : Bool) : Collection State :=
  ⟨[], [], none, autolink⟩

/-! ### Access by name -/

/-- The position that is stored under a name. -/
def position? (c : Collection State) (name : String) : Option Nat :=
  c.index.lookup name

/-- The state that was added under a name. -/
def get? (c : Collection State) (name : String) : Option State := do
  let i ← c.position? name
  c.states[i]?

/-- Edits the state that was added under a name. Where there is none, nothing
changes. -/
def edit (name : String) (f : State → Except Error State) (c : Collection State) :
    Except Error (Collection State) :=
  match c.position? name with
  | some i => (editAt f i c.states).map fun states => { c with states }
  | none => .ok c

/-! ### Adding -/

/-- Ends the execution after a state that has a transition, but not set. -/
def endIfUnset (s : State) : Except Error State :=
  s.editNext fun next => if next.isConfigured then .ok next else next.setTerminal

/-- Lets control go on to a state from one after which the execution would end. -/
def continueTo (target : String) (s : State) : Except Error State :=
  s.editNext fun next => if next.isTerminal then next.setTarget target else .ok next

/-- Adds a state behind all others. -/
def add (s : State) (c : Collection State) : Except Error (Collection State) :=
  if c.names.contains s.name then .error (.duplicateName s.name)
  else do
    let added ← if c.autolink then endIfUnset s else .ok s
    let before ← if c.autolink then editLast (continueTo s.name) c.states else .ok c.states
    return {
      states := before ++ [added]
      index := c.index ++ [(s.name, before.length)]
      startAt := c.startAt.or (some s.name)
      autolink := c.autolink }

/-! ### The start -/

/-- The collection with another start, which need not be the name of a state. -/
def withStart (name : String) (c : Collection State) : Collection State :=
  { c with startAt := some name }

/-! ### Chaining -/

/-- Sets the transition of a state that has one, but not set: to the following
state, or to the end. -/
def linkState (following : Option State) (s : State) : Except Error State :=
  s.editNext fun next =>
    if next.isConfigured then .ok next
    else
      match following with
      | some t => next.setTarget t.name
      | none => next.setTerminal

/-- Chains states, each to the one behind it. -/
def linkStates : List State → Except Error (List State)
  | [] => .ok []
  | s :: ss => do
    let linked ← linkState ss.head? s
    let rest ← linkStates ss
    return linked :: rest

/-- Chains the states that have no transition yet to those behind them. -/
def link (c : Collection State) : Except Error (Collection State) :=
  (linkStates c.states).map fun states => { c with states }

end Collection

end StatesLanguage
