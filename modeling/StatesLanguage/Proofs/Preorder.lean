import StatesLanguage.Machine

/-!
# All states of a model

The states of a machine at all depths, in preorder: each state before those in its
branches, branches and states in their order. What is said of everything anywhere in a
model is said of this list, such as of all error handlers.
-/

namespace StatesLanguage

/-! ### The listing -/

mutual

/-- A state and all that are inside it. -/
def State.preorder : State → List State
  | ⟨name, comment, body⟩ =>
    ⟨name, comment, body⟩ ::
      match body with
      | .parallel ⟨_, _, _, branches⟩ => Collection.listPreorder branches
      | _ => []

/-- All states in branches, one branch after another. -/
def Collection.listPreorder : List (Collection State) → List State
  | [] => []
  | ⟨states, _, _, _⟩ :: cs => State.listPreorder states ++ Collection.listPreorder cs

/-- All states in a list of states, one after another. -/
def State.listPreorder : List State → List State
  | [] => []
  | s :: ss => State.preorder s ++ State.listPreorder ss

end

/-- All states in a collection. -/
def Collection.preorder (c : Collection State) : List State :=
  c.states.flatMap State.preorder

theorem State.listPreorder_eq_flatMap (ss : List State) :
    State.listPreorder ss = ss.flatMap State.preorder := by
  induction ss with
  | nil => rfl
  | cons s ss ih => rw [State.listPreorder, ih, List.flatMap_cons]

theorem Collection.listPreorder_eq_flatMap (cs : List (Collection State)) :
    Collection.listPreorder cs = cs.flatMap Collection.preorder := by
  induction cs with
  | nil => rfl
  | cons c cs ih =>
    rw [Collection.listPreorder, ih, List.flatMap_cons, Collection.preorder,
      State.listPreorder_eq_flatMap]

/-- A state comes before all that are in its branches. -/
theorem State.preorder_eq (s : State) :
    s.preorder = s :: s.branches.flatMap Collection.preorder := by
  rw [← Collection.listPreorder_eq_flatMap]
  obtain ⟨name, comment, body⟩ := s
  cases body <;> rfl

theorem State.mem_preorder_self (s : State) : s ∈ s.preorder := by
  rw [State.preorder_eq]
  exact List.mem_cons_self

/-- **What a state hands on to the states in its branches holds of all that are inside it**: by
induction on the branches. -/
theorem State.forall_mem_preorder {P : State → Prop}
    (hinside : ∀ s, P s → ∀ c ∈ s.branches, ∀ t ∈ c.states, P t) {s : State} (h : P s) :
    ∀ t ∈ s.preorder, P t := by
  induction s using State.branchInduction with
  | step s ih =>
    intro t ht
    rw [State.preorder_eq] at ht
    rcases List.mem_cons.mp ht with rfl | ht
    · exact h
    · obtain ⟨c, hc, ht⟩ := List.mem_flatMap.mp ht
      obtain ⟨u, hu, ht⟩ := List.mem_flatMap.mp ht
      exact ih c hc u hu (hinside s h c hc u hu) t ht

theorem Collection.forall_mem_preorder {P : State → Prop}
    (hinside : ∀ s, P s → ∀ c ∈ s.branches, ∀ t ∈ c.states, P t) {c : Collection State}
    (h : ∀ s ∈ c.states, P s) : ∀ t ∈ c.preorder, P t := by
  intro t ht
  obtain ⟨u, hu, ht⟩ := List.mem_flatMap.mp ht
  exact State.forall_mem_preorder hinside (h u hu) t ht

/-! ### Parts of bodies -/

namespace Body

variable {σ : Type}

/-- The fixed result, for the kinds that have one. -/
def result? : Body σ → Option Json
  | .pass b => b.result
  | .task b => b.result
  | _ => none

/-- The error handlers, for the kind that has some. -/
def catchers : Body σ → List Catcher
  | .task b => b.catchers
  | _ => []

/-- The rules, for the kind that has some. -/
def rules : Body σ → List Rule
  | .choice b => b.rules
  | _ => []

end Body

/-! ### Error handlers at all depths -/

/-- The error handlers of a state and of all states inside it. -/
def State.catchers (s : State) : List Catcher :=
  s.preorder.flatMap fun t => t.body.catchers

/-- The error handlers of all states in a collection. -/
def Collection.catchers (c : Collection State) : List Catcher :=
  c.states.flatMap State.catchers

/-- The error handlers anywhere in a machine. -/
def Machine.catchers (m : Machine) : List Catcher :=
  m.states.catchers

theorem Collection.catchers_eq (c : Collection State) :
    c.catchers = c.preorder.flatMap fun t => t.body.catchers := by
  rw [Collection.catchers, Collection.preorder, List.flatMap_assoc]
  rfl

theorem State.catchers_eq (s : State) :
    s.catchers = s.body.catchers ++ s.branches.flatMap Collection.catchers := by
  rw [State.catchers, State.preorder_eq, List.flatMap_cons, List.flatMap_assoc]
  simp only [← Collection.catchers_eq]

end StatesLanguage
