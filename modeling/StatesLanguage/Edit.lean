import StatesLanguage.Machine

/-!
# Edits

Models are built by edits, which are values: what a sequence of edits makes of a
new state, collection or machine is a fold. An edit either succeeds or fails with
an error, and then there is no new model. An edit of something that the kind of a
state does not have changes nothing, and so does an edit of a state, a branch or a
rule that is not there.

The edits of states and of collections nest in each other, as the models do: a
collection edits the states that it holds, a parallel state its branches.
-/

namespace StatesLanguage

mutual

/-- An edit of a state. -/
inductive StateEdit where
  /-- Sets the comment. -/
  | setComment (text : String)
  /-- Lets control go on to a state. -/
  | setTarget (target : String)
  /-- Ends the execution. -/
  | setTerminal
  /-- Sets the projection of the input. -/
  | setInput (text : String)
  /-- Sets the projection of the output. -/
  | setOutput (text : String)
  /-- Places the result. -/
  | placeResult (text : String)
  /-- Discards the result. -/
  | discardResult
  /-- Sets the fixed result. -/
  | setResult (v : Json)
  /-- Sets the identifier of the work of a task. -/
  | setResource (text : String)
  /-- Sets the time that a task may run. -/
  | setTimeout (seconds : UInt32)
  /-- Sets the time that a task may be silent. -/
  | setHeartbeat (seconds : UInt32)
  /-- Appends a retry policy to a task. -/
  | addRetrier (r : Retrier)
  /-- Appends an error handler to a task. -/
  | addCatcher (c : Catcher)
  /-- Sets the delay of a wait. -/
  | setSeconds (seconds : UInt32)
  /-- Sets the name of the error of a failure. -/
  | setError (text : String)
  /-- Sets the description of the error of a failure. -/
  | setCause (text : String)
  /-- Sets the state that a choice goes on to if no rule matches. -/
  | setFallback (target : String)
  /-- Appends a rule to a choice. -/
  | addRule (op : Operator)
  /-- Edits a rule of a choice: the tree at a position, the node at an address. -/
  | editRule (root : Nat) (address : List Nat) (e : RuleEdit)
  /-- Appends an empty branch to a parallel state. -/
  | addBranch
  /-- Appends a branch to a parallel state. -/
  | pushBranch (c : Collection State)
  /-- Edits the branch at a position of a parallel state. -/
  | editBranch (position : Nat) (e : CollectionEdit)

/-- An edit of a collection. -/
inductive CollectionEdit where
  /-- Adds a state. -/
  | add (s : State)
  /-- Chains the states that have no transition yet. -/
  | link
  /-- Sets the start. -/
  | setStart (name : String)
  /-- Edits the state of a name. -/
  | editState (name : String) (e : StateEdit)

end

/-- An edit of a machine. -/
inductive MachineEdit where
  /-- Edits the states. -/
  | states (e : CollectionEdit)
  /-- Sets the comment. -/
  | setComment (text : String)
  /-- Sets the time that the machine may run. -/
  | setTimeout (seconds : UInt32)
  /-- Sets the version of the language. -/
  | setVersion (text : String)

/-! ### Making edits -/

namespace State

/-- Edits the body of a state. -/
def editBody (f : Body State → Except Error (Body State)) (s : State) : Except Error State :=
  (f s.body).map fun body => { s with body }

/-- Edits a task. -/
def editTask (f : Task → Except Error Task) (s : State) : Except Error State :=
  s.editBody fun
    | .task b => (f b).map .task
    | b => .ok b

/-- Edits a wait. -/
def editWait (f : Wait → Except Error Wait) (s : State) : Except Error State :=
  s.editBody fun
    | .wait b => (f b).map .wait
    | b => .ok b

/-- Edits a failure. -/
def editFail (f : Fail → Except Error Fail) (s : State) : Except Error State :=
  s.editBody fun
    | .fail b => (f b).map .fail
    | b => .ok b

/-- Edits a choice. -/
def editChoice (f : Choice → Except Error Choice) (s : State) : Except Error State :=
  s.editBody fun
    | .choice b => (f b).map .choice
    | b => .ok b

/-- Edits the branches of a parallel state. -/
def editBranches (f : List (Collection State) → Except Error (List (Collection State)))
    (s : State) : Except Error State :=
  s.editBody fun
    | .parallel b => (f b.branches).map fun branches => .parallel { b with branches }
    | b => .ok b

end State

mutual

/-- Edits a state. -/
def State.apply : StateEdit → State → Except Error State
  | .setComment text, s => .ok { s with comment := some text }
  | .setTarget target, s => s.editNext (TransitionField.setTarget target)
  | .setTerminal, s => s.editNext TransitionField.setTerminal
  | .setInput text, s => s.editBody (Body.editPaths (DataPaths.setInput text))
  | .setOutput text, s => s.editBody (Body.editPaths (DataPaths.setOutput text))
  | .placeResult text, s =>
    s.editBody fun b => (ResultPath.place text).map fun r => b.withResultPath r
  | .discardResult, s => s.editBody fun b => .ok (b.withResultPath .discarded)
  | .setResult v, s => s.editBody fun b => .ok (b.withResult v)
  | .setResource text, s => s.editTask fun b => .ok { b with resource := some text }
  | .setTimeout n, s => s.editTask fun b =>
    (Seconds.ofCount "TimeoutSeconds" n).map fun t => { b with timeout := some t }
  | .setHeartbeat n, s => s.editTask fun b =>
    (Seconds.ofCount "HeartbeatSeconds" n).map fun t => { b with heartbeat := some t }
  | .addRetrier r, s => s.editTask fun b => .ok { b with retriers := b.retriers ++ [r] }
  | .addCatcher c, s => s.editTask fun b => .ok { b with catchers := b.catchers ++ [c] }
  | .setSeconds n, s => s.editWait fun b =>
    (Seconds.ofCount "Seconds" n).map fun t => { b with seconds := some t }
  | .setError text, s => s.editFail fun b => .ok { b with error := some text }
  | .setCause text, s => s.editFail fun b => .ok { b with cause := some text }
  | .setFallback target, s => s.editChoice fun b => .ok { b with fallback := some target }
  | .addRule op, s => s.editChoice fun b =>
    .ok { b with rules := b.rules ++ [.new .withoutEnd op] }
  | .editRule root address e, s => s.editChoice fun b =>
    (editAt (Rule.apply e address) root b.rules).map fun rules => { b with rules }
  | .addBranch, s => s.editBranches fun cs => .ok (cs ++ [.empty defaultAutolink])
  | .pushBranch c, s => s.editBranches fun cs => .ok (cs ++ [c])
  | .editBranch i e, s => s.editBranches (editAt (Collection.apply e) i)

/-- Edits a collection. -/
def Collection.apply : CollectionEdit → Collection State → Except Error (Collection State)
  | .add s, c => c.add s
  | .link, c => c.link
  | .setStart name, c => .ok (c.withStart name)
  | .editState name e, c => c.edit name (State.apply e)

end

/-- Edits a machine. -/
def Machine.apply : MachineEdit → Machine → Except Error Machine
  | .states e, m => (Collection.apply e m.states).map fun states => { m with states }
  | .setComment text, m => .ok { m with comment := some text }
  | .setTimeout n, m =>
    (Seconds.ofCount "TimeoutSeconds" n).map fun s => { m with timeout := some s }
  | .setVersion text, m => .ok { m with version := some text }

end StatesLanguage
