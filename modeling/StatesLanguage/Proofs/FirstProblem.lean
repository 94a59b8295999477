import StatesLanguage.Proofs.Writing

/-!
# Writing fails with the first problem

The writer checks a model before it writes anything, and then every state inside it once
more. Which of these checks can fail is the matter of this file: the outermost one, and it
fails with the first problem of the list, as `State.toJson_outcome_of_problems_eq_cons` and
`Machine.toDocument_outcome_of_problems_eq_cons` say.

Once it has passed, nothing below it fails. A state without problems holds none at any
depth (`State.problems_of_mem_branches`), so no inner check finds any, every branch has a
start, and whatever is written for a part of the model is the document of that part.
`Machine.toDocument_reports_first` puts both sides together.
-/

namespace StatesLanguage

open Json (Members)

/-! ### Problems end the writing -/

theorem Logged.outcome_check_bind_of_cons {α : Type} {es : List Error} {e : Error}
    {rest : List Error} (h : es = e :: rest) (x : Unit → Logged Error α) :
    (Logged.check es >>= x).outcome = .error e := by
  rw [h, Logged.outcome_bind]
  rfl

theorem State.toJson_outcome_of_problems_eq_cons {s : State} {e : Error} {rest : List Error}
    (h : s.problems = e :: rest) : s.toJson.outcome = .error e := by
  obtain ⟨name, comment, body⟩ := s
  rw [State.toJson]
  exact Logged.outcome_check_bind_of_cons h _

theorem Machine.toDocument_outcome_of_problems_eq_cons {m : Machine} {e : Error}
    {rest : List Error} (h : m.problems = e :: rest) : m.toDocument.outcome = .error e := by
  rw [Machine.toDocument]
  exact Logged.outcome_check_bind_of_cons h _

/-! ### Nothing below the outermost check fails -/

/-- A state without problems has none in its branches. -/
theorem State.problems_of_mem_branches {s : State} (h : s.problems = []) :
    ∀ c ∈ s.branches, ∀ t ∈ c.states, t.problems = [] :=
  fun c hc => Collection.problems_of_mem (State.problems_of_mem h c hc)

/-- A collection without problems has a start, and is written as its document. -/
theorem Collection.writes_of_problems_eq_nil {c : Collection State} (h : c.problems = []) :
    (∃ name, c.startAt = some name ∧ (Logged.start c.startAt).outcome = .ok (.string name)) ∧
      c.members.outcome = .ok c.documentMembers := by
  constructor
  · obtain ⟨name, -, hname⟩ := Collection.exists_start_of_problems_eq_nil h
    refine ⟨name, hname, ?_⟩
    rw [hname]
    rfl
  · exact Collection.members_outcome h fun s hs =>
      State.toJson_outcome_of_problems_eq_nil (Collection.problems_of_mem h s hs)

/-! ### Both together -/

/-- A state is written without failing: it passes its own check, and each of its branches is
written as well, from the start on. -/
structure State.Writes (s : State) : Prop where
  /-- The check of the state finds nothing. -/
  check : (Logged.check s.problems).outcome = .ok ()
  /-- The state is written. -/
  state : s.toJson.outcome = .ok s.document
  /-- Each branch has a start. -/
  start : ∀ c ∈ s.branches,
    ∃ name, c.startAt = some name ∧ (Logged.start c.startAt).outcome = .ok (.string name)
  /-- Each branch is written. -/
  branch : ∀ c ∈ s.branches, c.members.outcome = .ok c.documentMembers

theorem State.writes_of_problems_eq_nil {s : State} (h : s.problems = []) : s.Writes where
  check := by
    rw [h]
    rfl
  state := State.toJson_outcome_of_problems_eq_nil h
  start c hc := (Collection.writes_of_problems_eq_nil (State.problems_of_mem h c hc)).1
  branch c hc := (Collection.writes_of_problems_eq_nil (State.problems_of_mem h c hc)).2

/-- **Writing fails exactly on models with problems, and with the first of them**: machines
as well as single states. Where the outermost check of a machine or a state finds nothing,
no step fails for any state at any depth. -/
theorem Machine.toDocument_reports_first (m : Machine) (s : State) :
    (∀ e rest, m.problems = e :: rest → m.toDocument.outcome = .error e) ∧
      (m.problems = [] → m.toDocument.outcome = .ok m.document ∧
        ∀ t ∈ m.states.preorder, t.Writes) ∧
      (∀ e rest, s.problems = e :: rest → s.toJson.outcome = .error e) ∧
      (s.problems = [] → s.toJson.outcome = .ok s.document ∧ ∀ t ∈ s.preorder, t.Writes) := by
  refine ⟨fun e rest h => Machine.toDocument_outcome_of_problems_eq_cons h, fun h => ⟨?_, ?_⟩,
    fun e rest h => State.toJson_outcome_of_problems_eq_cons h, fun h => ⟨?_, ?_⟩⟩
  · exact Machine.toDocument_eq_ok.mpr ⟨h, rfl⟩
  · have hproblems := Collection.forall_mem_preorder (fun _ => State.problems_of_mem_branches)
      (Collection.problems_of_mem h)
    exact fun t ht => State.writes_of_problems_eq_nil (hproblems t ht)
  · exact State.toJson_outcome_of_problems_eq_nil h
  · have hproblems := State.forall_mem_preorder (fun _ => State.problems_of_mem_branches) h
    exact fun t ht => State.writes_of_problems_eq_nil (hproblems t ht)

/-- A collection of one state. -/
def Collection.single (s : State) : Collection State where
  states := [s]
  index := [(s.name, 0)]
  startAt := some s.name
  autolink := false

/-- A parallel state with one branch, of one state. -/
def State.around (name : String) (s : State) : State :=
  ⟨name, none, .parallel { next := ⟨.ordinary, some .terminal⟩, branches := [.single s] }⟩

/-- A machine of a parallel state inside a parallel state. -/
def Machine.nested : Machine where
  states := .single (.around "Outer" (.around "Inner" (.new .succeed "Done")))

theorem Machine.toDocument_nested :
    nested.problems = [] ∧
      (State.new .task "Work").problems =
        [.configurationMissing "Next", .configurationMissing "Resource"] ∧
      nested.toDocument.outcome = .ok nested.document ∧
      (State.around "Inner" (.new .succeed "Done")).Writes ∧
      (State.new .task "Work").toJson.outcome = .error (.configurationMissing "Next") := by
  obtain ⟨-, hwrites, hfails, -⟩ := toDocument_reports_first nested (.new .task "Work")
  obtain ⟨hdocument, hinside⟩ := hwrites rfl
  exact ⟨rfl, rfl, hdocument, hinside _ (by simp [nested, Collection.single, State.around,
    Collection.preorder, State.preorder, Collection.listPreorder, State.listPreorder]),
    hfails _ _ rfl⟩

end StatesLanguage
