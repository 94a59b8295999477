import StatesLanguage.Proofs.Preorder

/-!
# Models without problems

A model is complete if the list of its problems is empty. Here this is taken apart: what
the emptiness of the list says of transitions, policies, rules and bodies, and of the
states and branches inside.
-/

namespace StatesLanguage

/-! ### Fields -/

theorem TransitionField.problem?_eq_none {f : TransitionField} :
    f.problem? = none ↔ f.mode = .locked ∨ f.transition.isSome = true := by
  obtain ⟨m, t⟩ := f
  cases m <;> cases t <;>
    simp [TransitionField.problem?, TransitionField.isRequired, TransitionField.isConfigured]

theorem Retrier.problem?_eq_none {r : Retrier} : r.problem? = none ↔ r.errors ≠ [] := by
  rw [Retrier.problem?]
  cases r.errors <;> simp

theorem Catcher.problem?_eq_none {c : Catcher} :
    c.problem? = none ↔ c.errors ≠ [] ∧ c.next.problem? = none := by
  rw [Catcher.problem?]
  cases c.errors <;> simp

/-! ### Rules -/

theorem Rule.problems_logic_eq_nil {op : LogicOp} {children : List Rule} {next : TransitionField} :
    (Rule.logic op children next).problems = [] ↔
      op.admits children.length = true ∧ next.problem? = none ∧
        ∀ r ∈ children, r.problems = [] := by
  rw [Rule.problems, List.append_eq_nil_iff, List.append_eq_nil_iff, Option.toList_eq_nil_iff,
    Option.toList_eq_nil_iff, Rule.listProblems_eq_flatMap, List.flatMap_eq_nil_iff, and_assoc,
    Rule.arityProblem?]
  simp

theorem Rule.problems_compare_eq_nil {c : Comparison} {next : TransitionField} :
    (Rule.compare c next).problems = [] ↔
      c.input.isSome = true ∧ c.literal.isSome = true ∧ next.problem? = none := by
  rw [Rule.problems, Comparison.problems]
  cases c.input <;> cases c.literal <;> simp

theorem Body.problems_of_mem_rules {b : Body State} (h : b.ownProblems = []) :
    ∀ r ∈ b.rules, r.problems = [] := by
  cases b with
  | choice b =>
    rw [Body.ownProblems] at h
    split at h
    · nomatch h
    · rw [Rule.listProblems_eq_flatMap] at h
      exact List.flatMap_eq_nil_iff.mp h
  | _ => exact nofun

/-! ### Bodies -/

/-- What a task without problems has, its transition apart. -/
structure Task.Complete (b : Task) : Prop where
  /-- Something to do. -/
  resource : b.resource.isSome = true
  /-- Policies that name errors. -/
  retriers : ∀ r ∈ b.retriers, r.problem? = none
  /-- Handlers that name errors and go somewhere. -/
  catchers : ∀ c ∈ b.catchers, c.problem? = none
  /-- A heartbeat within the time limit. -/
  heartbeat : ∀ timeout heartbeat, b.timeout = some timeout → b.heartbeat = some heartbeat →
    heartbeat.count < timeout.count

namespace Body

variable {σ : Type}

theorem missing_eq_nil {α : Type} {key : String} {a : Option α} :
    missing key a = [] ↔ a.isSome = true := by
  cases a <;> simp [missing]

theorem fieldProblems_eq_nil {b : Body σ} :
    b.fieldProblems = [] ↔ ∀ f ∈ b.fields, f.problem? = none :=
  List.filterMap_eq_nil_iff

/-- A state that has a transition has one that is set. -/
theorem problem?_next_of_ownProblems {b : Body σ} (h : b.ownProblems = [])
    {f : TransitionField} (hf : b.next? = some f) : f.problem? = none := by
  -- each kind declares the transition as one of its fields
  have hfields {b : Body σ} (h : b.fieldProblems = []) (hmem : Field.next f ∈ b.fields) :
      f.problem? = none := fieldProblems_eq_nil.mp h _ hmem
  cases b with
  | pass b =>
    obtain rfl := Option.some.inj hf
    exact hfields h (by simp [fields])
  | task b =>
    obtain rfl := Option.some.inj hf
    rw [ownProblems, List.append_eq_nil_iff, List.append_eq_nil_iff] at h
    exact hfields h.1.1 (by simp [fields])
  | wait b =>
    obtain rfl := Option.some.inj hf
    rw [ownProblems, List.append_eq_nil_iff] at h
    exact hfields h.1 (by simp [fields])
  | parallel b =>
    obtain rfl := Option.some.inj hf
    rw [ownProblems, List.append_eq_nil_iff] at h
    exact hfields h.1 (by simp [fields])
  | succeed | fail b | choice b => nomatch hf

theorem task_ownProblems {b : Task} (h : (Body.task b : Body σ).ownProblems = []) :
    b.Complete := by
  rw [ownProblems, List.append_eq_nil_iff, List.append_eq_nil_iff] at h
  obtain ⟨⟨hfields, hresource⟩, hheartbeat⟩ := h
  rw [fieldProblems_eq_nil] at hfields
  refine ⟨missing_eq_nil.mp hresource, ?_, ?_, ?_⟩
  · exact List.findSome?_eq_none_iff.mp (hfields (.retriers b.retriers) (by simp [fields]))
  · exact List.findSome?_eq_none_iff.mp (hfields (.catchers b.catchers) (by simp [fields]))
  · intro timeout heartbeat ht hh
    rw [ht, hh, heartbeatProblems] at hheartbeat
    split at hheartbeat
    · nomatch hheartbeat
    · next hlt => exact UInt32.not_le.mp hlt

theorem rules_ne_nil_of_ownProblems {b : Choice}
    (h : (Body.choice b : Body σ).ownProblems = []) : b.rules ≠ [] := by
  rintro hnil
  rw [ownProblems, hnil] at h
  nomatch h

theorem branches_ne_nil_of_ownProblems {b : Parallel σ}
    (h : (Body.parallel b).ownProblems = []) : b.branches ≠ [] := by
  rintro hnil
  rw [ownProblems, hnil, List.append_eq_nil_iff] at h
  nomatch h.2

end Body

/-! ### Collections and states -/

theorem Collection.exists_start_of_problems_eq_nil {c : Collection State} (h : c.problems = []) :
    ∃ name ∈ c.names, c.startAt = some name := by
  have hstart := (List.append_eq_nil_iff.mp h).2
  rw [Collection.startProblems] at hstart
  split at hstart
  · nomatch hstart
  · split at hstart
    · nomatch hstart
    · next name hname =>
      split at hstart
      · next hmem => exact ⟨name, List.contains_iff_mem.mp hmem, hname⟩
      · nomatch hstart

theorem Collection.states_ne_nil_of_problems_eq_nil {c : Collection State}
    (h : c.problems = []) : c.states ≠ [] := by
  rintro hnil
  have hstart := (List.append_eq_nil_iff.mp h).2
  rw [Collection.startProblems, hnil] at hstart
  nomatch hstart

/-- In a collection without problems there are none with its states. -/
theorem Collection.problems_of_mem {c : Collection State} (h : c.problems = []) :
    ∀ s ∈ c.states, s.problems = [] := by
  have hstates := (List.append_eq_nil_iff.mp h).1
  rw [State.listProblems_eq_flatMap] at hstates
  exact List.flatMap_eq_nil_iff.mp hstates

theorem State.ownProblems_eq_nil {s : State} (h : s.problems = []) : s.body.ownProblems = [] := by
  rw [State.problems_eq] at h
  exact (List.append_eq_nil_iff.mp h).1

/-- In a state without problems there are none with its branches. -/
theorem State.problems_of_mem {s : State} (h : s.problems = []) :
    ∀ c ∈ s.branches, c.problems = [] := by
  rw [State.problems_eq] at h
  exact List.flatMap_eq_nil_iff.mp (List.append_eq_nil_iff.mp h).2

end StatesLanguage
