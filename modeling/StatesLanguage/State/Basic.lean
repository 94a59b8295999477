import StatesLanguage.Field
import StatesLanguage.Rule.Basic

/-!
# States

A state has a name, maybe a comment, and a body that depends on its kind. The
bodies of parallel states hold branches, which are collections of states with a
start of their own, so that `State` and `Collection State` nest in each other to
any depth. The kinds differ in what they declare:

* Pass, Task and Parallel states project and place data and have a transition;
* a Wait state has a transition and a delay;
* Succeed and Fail states stop the execution, a Choice state goes on by its rules,
  and none of the three has a transition of its own.

Everything in a body may still be unset, whatever the kind requires.
-/

namespace StatesLanguage

/-! ### Kinds -/

/-- The kinds of states. -/
inductive StateKind where
  /-- Passes its input on, or a fixed result. -/
  | pass
  /-- Performs a unit of work. -/
  | task
  /-- Delays the execution. -/
  | wait
  /-- Stops the execution successfully. -/
  | succeed
  /-- Stops the execution with an error. -/
  | fail
  /-- Branches on the input. -/
  | choice
  /-- Runs branches at the same time. -/
  | parallel
deriving DecidableEq

namespace StateKind

/-- Every kind of state. -/
def all : List StateKind :=
  [.pass, .task, .wait, .succeed, .fail, .choice, .parallel]

/-- The type of states of a kind in a document. -/
def name : StateKind → String
  | .pass => "Pass"
  | .task => "Task"
  | .wait => "Wait"
  | .succeed => "Succeed"
  | .fail => "Fail"
  | .choice => "Choice"
  | .parallel => "Parallel"

end StateKind

/-! ### Collections -/

/-- States in the order in which they were added, and a start. -/
structure Collection (σ : Type) where
  /-- The states. -/
  states : List σ
  /-- The position that is stored under each name. -/
  index : List (String × Nat)
  /-- The name of the state that the execution starts at. -/
  startAt : Option String
  /-- Whether states without a transition are chained as they are added. -/
  autolink : Bool

/-- The names under which positions are stored. -/
def Collection.names {σ : Type} (c : Collection σ) : List String :=
  c.index.map Prod.fst

theorem Collection.names_concat {σ : Type} (c : Collection σ) (states : List σ) (name : String)
    (i : Nat) (startAt : Option String) (autolink : Bool) :
    Collection.names ⟨states, c.index ++ [(name, i)], startAt, autolink⟩ = c.names ++ [name] :=
  List.map_append

/-! ### Bodies -/

/-- What a Pass state is made of. -/
structure Pass where
  /-- The projections of input and output. -/
  paths : DataPaths := {}
  /-- The placement of the result. -/
  resultPath : ResultPath := .unset
  /-- The fixed result. -/
  result : Option Json := none
  /-- Where control goes. -/
  next : TransitionField := {}

/-- What a Task state is made of. -/
structure Task where
  /-- The projections of input and output. -/
  paths : DataPaths := {}
  /-- The placement of the result. -/
  resultPath : ResultPath := .unset
  /-- The fixed result. -/
  result : Option Json := none
  /-- Where control goes. -/
  next : TransitionField := {}
  /-- The retry policies. -/
  retriers : List Retrier := []
  /-- The error handlers. -/
  catchers : List Catcher := []
  /-- The identifier of the work. -/
  resource : Option String := none
  /-- How long the task may run. -/
  timeout : Option Seconds := none
  /-- How long the task may be silent. -/
  heartbeat : Option Seconds := none

/-- What a Wait state is made of. -/
structure Wait where
  /-- Where control goes. -/
  next : TransitionField := {}
  /-- The delay. -/
  seconds : Option Seconds := none

/-- What a Fail state is made of. -/
structure Fail where
  /-- The name of the error. -/
  error : Option String := none
  /-- A description of the error. -/
  cause : Option String := none

/-- What a Choice state is made of. -/
structure Choice where
  /-- The rules, in order of evaluation. -/
  rules : List Rule := []
  /-- The state that control goes on to if no rule matches. -/
  fallback : Option String := none

/-- What a Parallel state is made of. -/
structure Parallel (σ : Type) where
  /-- Where control goes. -/
  next : TransitionField := {}
  /-- The projections of input and output. -/
  paths : DataPaths := {}
  /-- The placement of the array of results. -/
  resultPath : ResultPath := .unset
  /-- The branches. -/
  branches : List (Collection σ) := []

/-- What a state is made of, by its kind. -/
inductive Body (σ : Type) where
  /-- A Pass state. -/
  | pass (b : Pass)
  /-- A Task state. -/
  | task (b : Task)
  /-- A Wait state. -/
  | wait (b : Wait)
  /-- A Succeed state. -/
  | succeed
  /-- A Fail state. -/
  | fail (b : Fail)
  /-- A Choice state. -/
  | choice (b : Choice)
  /-- A Parallel state. -/
  | parallel (b : Parallel σ)

namespace Body

variable {σ : Type}

/-- A body of a kind with nothing set. -/
def new : StateKind → Body σ
  | .pass => .pass {}
  | .task => .task {}
  | .wait => .wait {}
  | .succeed => .succeed
  | .fail => .fail {}
  | .choice => .choice {}
  | .parallel => .parallel {}

/-- The kind of a body. -/
def kind : Body σ → StateKind
  | .pass _ => .pass
  | .task _ => .task
  | .wait _ => .wait
  | .succeed => .succeed
  | .fail _ => .fail
  | .choice _ => .choice
  | .parallel _ => .parallel

/-- The declared fields, in order. -/
def fields : Body σ → List Field
  | .pass b => [.paths b.paths, .resultPath b.resultPath, .result b.result, .next b.next]
  | .task b =>
    [.paths b.paths, .resultPath b.resultPath, .result b.result, .next b.next,
      .retriers b.retriers, .catchers b.catchers]
  | .wait b => [.next b.next]
  | .parallel b => [.next b.next, .paths b.paths, .resultPath b.resultPath]
  | .succeed | .fail _ | .choice _ => []

/-- The transition, for the kinds that have one. -/
def next? : Body σ → Option TransitionField
  | .pass b => some b.next
  | .task b => some b.next
  | .wait b => some b.next
  | .parallel b => some b.next
  | .succeed | .fail _ | .choice _ => none

/-- The branches, for the kind that has some. -/
def branches : Body σ → List (Collection σ)
  | .parallel b => b.branches
  | _ => []

/-- Edits the transition, for the kinds that have one. -/
def editNext (f : TransitionField → Except Error TransitionField) :
    Body σ → Except Error (Body σ)
  | .pass b => (f b.next).map fun next => .pass { b with next }
  | .task b => (f b.next).map fun next => .task { b with next }
  | .wait b => (f b.next).map fun next => .wait { b with next }
  | .parallel b => (f b.next).map fun next => .parallel { b with next }
  | b => .ok b

/-- Edits the projections of input and output, for the kinds that have them. -/
def editPaths (f : DataPaths → Except Error DataPaths) : Body σ → Except Error (Body σ)
  | .pass b => (f b.paths).map fun paths => .pass { b with paths }
  | .task b => (f b.paths).map fun paths => .task { b with paths }
  | .parallel b => (f b.paths).map fun paths => .parallel { b with paths }
  | b => .ok b

/-- The body with another placement of the result, for the kinds that have one. -/
def withResultPath (resultPath : ResultPath) : Body σ → Body σ
  | .pass b => .pass { b with resultPath }
  | .task b => .task { b with resultPath }
  | .parallel b => .parallel { b with resultPath }
  | b => b

/-- The body with another fixed result, for the kinds that have one. -/
def withResult (result : Json) : Body σ → Body σ
  | .pass b => .pass { b with result := some result }
  | .task b => .task { b with result := some result }
  | b => b

end Body

/-! ### States -/

/-- A state. -/
structure State where
  /-- The name, unique in its collection. -/
  name : String
  /-- A description for human readers. -/
  comment : Option String
  /-- The rest, by the kind of state. -/
  body : Body State

namespace State

/-- A state of a kind with nothing set. -/
def new (kind : StateKind) (name : String) : State :=
  ⟨name, none, .new kind⟩

instance : Inhabited State := ⟨.new .succeed ""⟩

/-- The kind of a state. -/
def kind (s : State) : StateKind :=
  s.body.kind

/-- The declared fields, in order. -/
def fields (s : State) : List Field :=
  s.body.fields

/-- The transition, for the kinds of states that have one. -/
def next? (s : State) : Option TransitionField :=
  s.body.next?

/-- The branches, for the kind of states that has some. -/
def branches (s : State) : List (Collection State) :=
  s.body.branches

/-- Edits the transition, for the kinds of states that have one. -/
def editNext (f : TransitionField → Except Error TransitionField) (s : State) :
    Except Error State :=
  (s.body.editNext f).map fun body => { s with body }

/-- A property of all states follows from its step from the states in the branches
of a state to the state. -/
@[elab_as_elim]
theorem branchInduction {P : State → Prop}
    (step : ∀ s : State, (∀ c ∈ s.branches, ∀ t ∈ c.states, P t) → P s) (s : State) : P s :=
  State.rec (motive_1 := P)
    (motive_2 := fun body => ∀ c ∈ body.branches, ∀ t ∈ c.states, P t)
    (motive_3 := fun b => ∀ c ∈ b.branches, ∀ t ∈ c.states, P t)
    (motive_4 := fun cs => ∀ c ∈ cs, ∀ t ∈ c.states, P t)
    (motive_5 := fun c => ∀ t ∈ c.states, P t)
    (motive_6 := fun ss => ∀ t ∈ ss, P t)
    (fun name comment body h => step ⟨name, comment, body⟩ h)
    (fun _ _ h => nomatch h) (fun _ _ h => nomatch h) (fun _ _ h => nomatch h)
    (fun _ h => nomatch h) (fun _ _ h => nomatch h) (fun _ _ h => nomatch h)
    (fun _ h => h) (fun _ _ _ _ h => h) (fun _ h => nomatch h)
    (fun _ _ head tail => List.forall_mem_cons.mpr ⟨head, tail⟩)
    (fun _ _ _ _ h => h) (fun _ h => nomatch h)
    (fun _ _ head tail => List.forall_mem_cons.mpr ⟨head, tail⟩) s

end State

/-! ### Equality -/

namespace Body

/-- Equality of optional payloads, up to the equality of JSON values. -/
def resultEquiv : Option Json → Option Json → Bool
  | none, none => true
  | some v, some w => v.equiv w
  | _, _ => false

end Body

mutual

/-- Equality of states, up to the equality of JSON values and of their branches. -/
def State.equiv : State → State → Bool
  | ⟨name₁, comment₁, body₁⟩, ⟨name₂, comment₂, body₂⟩ =>
    name₁ == name₂ && comment₁ == comment₂ &&
      match body₁, body₂ with
      | .pass a, .pass b =>
        a.paths == b.paths && a.resultPath == b.resultPath && a.next == b.next &&
          Body.resultEquiv a.result b.result
      | .task a, .task b =>
        a.paths == b.paths && a.resultPath == b.resultPath && a.next == b.next &&
          Body.resultEquiv a.result b.result && a.retriers == b.retriers &&
          a.catchers == b.catchers && a.resource == b.resource && a.timeout == b.timeout &&
          a.heartbeat == b.heartbeat
      | .wait a, .wait b => a.next == b.next && a.seconds == b.seconds
      | .succeed, .succeed => true
      | .fail a, .fail b => a.error == b.error && a.cause == b.cause
      | .choice a, .choice b => Rule.listEquiv a.rules b.rules && a.fallback == b.fallback
      | .parallel ⟨next₁, paths₁, resultPath₁, branches₁⟩, .parallel b =>
        next₁ == b.next && paths₁ == b.paths && resultPath₁ == b.resultPath &&
          Collection.listEquiv branches₁ b.branches
      | _, _ => false

/-- Equality of branches, one after another. Collections are equal if they hold
equal states in the same order and start at the same name. -/
def Collection.listEquiv : List (Collection State) → List (Collection State) → Bool
  | [], [] => true
  | ⟨states, _, startAt, _⟩ :: cs, d :: ds =>
    State.listEquiv states d.states && startAt == d.startAt && Collection.listEquiv cs ds
  | _, _ => false

/-- Equality of lists of states, one after another. -/
def State.listEquiv : List State → List State → Bool
  | [], [] => true
  | s :: ss, t :: ts => State.equiv s t && State.listEquiv ss ts
  | _, _ => false

end

/-- Equality of collections: equal states in the same order and the same start,
however the collections chain what is added to them. -/
def Collection.equiv (c d : Collection State) : Bool :=
  State.listEquiv c.states d.states && c.startAt == d.startAt

end StatesLanguage
