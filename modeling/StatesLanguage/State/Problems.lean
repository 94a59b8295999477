import StatesLanguage.State.Basic

/-!
# What is missing or wrong

Incomplete states and collections are values like any other; a check lists what
keeps them from being complete, state by state in their order and each state
before its branches. Within a state the declared fields come first, at most one
problem for each, then the rest of the body.

The list says nothing about the targets of transitions: they may name a state
that is still to be added.
-/

namespace StatesLanguage

namespace Body

variable {σ : Type}

/-- A problem, where something is not set. -/
def missing {α : Type} (key : String) : Option α → List Error
  | some _ => []
  | none => [.configurationMissing key]

/-- The first problem with each declared field. -/
def fieldProblems (b : Body σ) : List Error :=
  b.fields.filterMap Field.problem?

/-- A heartbeat interval that is not smaller than the timeout. -/
def heartbeatProblems : Option Seconds → Option Seconds → List Error
  | some timeout, some heartbeat =>
    if timeout.count ≤ heartbeat.count then
      [.invalidValue (.heartbeat heartbeat.count timeout.count)]
    else []
  | _, _ => []

/-- The problems with a body, those of its branches apart. -/
def ownProblems : Body σ → List Error
  | .pass b => (Body.pass b : Body σ).fieldProblems
  | .task b =>
    (Body.task b : Body σ).fieldProblems ++ missing "Resource" b.resource ++
      heartbeatProblems b.timeout b.heartbeat
  | .wait b => (Body.wait b : Body σ).fieldProblems ++ missing "Seconds" b.seconds
  | .succeed => []
  | .fail b => missing "Error" b.error ++ missing "Cause" b.cause
  | .choice b =>
    if b.rules.isEmpty then [.emptyCollection "Choices"] else Rule.listProblems b.rules
  | .parallel b =>
    (Body.parallel b).fieldProblems ++
      if b.branches.isEmpty then [.emptyCollection "Branches"] else []

end Body

/-- The problem with the start of a collection, or with its lack of states. -/
def Collection.startProblems {σ : Type} (c : Collection σ) : List Error :=
  if c.states.isEmpty then [.emptyCollection "States"]
  else
    match c.startAt with
    | none => [.configurationMissing "StartAt"]
    | some name =>
      if c.names.contains name then [] else [.invalidValue (.unknownStart name)]

mutual

/-- The problems with a state. -/
def State.problems : State → List Error
  | ⟨_, _, body⟩ =>
    body.ownProblems ++
      match body with
      | .parallel ⟨_, _, _, branches⟩ => Collection.listProblems branches
      | _ => []

/-- The problems with branches, one after another. -/
def Collection.listProblems : List (Collection State) → List Error
  | [] => []
  | ⟨states, index, startAt, autolink⟩ :: cs =>
    State.listProblems states ++
      (Collection.mk states index startAt autolink).startProblems ++ Collection.listProblems cs

/-- The problems with states, one after another. -/
def State.listProblems : List State → List Error
  | [] => []
  | s :: ss => State.problems s ++ State.listProblems ss

end

/-- The problems with a collection: those of its states, then that of its start. -/
def Collection.problems (c : Collection State) : List Error :=
  State.listProblems c.states ++ c.startProblems

/-! ### The three walks in one -/

theorem State.listProblems_eq_flatMap (ss : List State) :
    State.listProblems ss = ss.flatMap State.problems := by
  induction ss with
  | nil => rfl
  | cons s ss ih => rw [State.listProblems, ih, List.flatMap_cons]

theorem Collection.listProblems_eq_flatMap (cs : List (Collection State)) :
    Collection.listProblems cs = cs.flatMap Collection.problems := by
  induction cs with
  | nil => rfl
  | cons c cs ih =>
    rw [Collection.listProblems, ih, List.flatMap_cons, Collection.problems]

/-- A state has the problems of its own body and then those of its branches. -/
theorem State.problems_eq (s : State) :
    s.problems = s.body.ownProblems ++ s.branches.flatMap Collection.problems := by
  rw [← Collection.listProblems_eq_flatMap]
  obtain ⟨name, comment, body⟩ := s
  cases body <;> rfl

end StatesLanguage
