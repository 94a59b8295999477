import StatesLanguage.Proofs.Members

/-!
# The state objects of a document

A document holds its states at several depths: under `States` at the top, and under `States` in
the branches of states. Which states have branches is for the reader to decide, who looks at
their type, so everything here takes a test `enters` that tells it from the members of a
state.

`Json.Holds` relates a document to the state objects in it, and `Json.editCollection` edits all
of them at once: each by a function of its members, after the states in its branches. Both go
down the same way, by looking up the same keys, and nothing else in the document is touched.
-/

namespace StatesLanguage

open Json (Members)

namespace Json

/-! ### Finding states -/

/-- A collection holds a value in the place of a state, at some depth. -/
inductive Holds (enters : Members → Bool) : Json → Json → Prop
  /-- Under the name of a state of its own. -/
  | here {ms members : Members} {name : String} {v : Json}
    (states : ms.lookup "States" = some (.object members)) (mem : (name, v) ∈ members) :
    Holds enters (.object ms) v
  /-- In a branch of one of its states that is entered. -/
  | inside {ms members state : Members} {name : String} {items : List Json} {branch v : Json}
    (states : ms.lookup "States" = some (.object members)) (mem : (name, .object state) ∈ members)
    (entered : enters state = true) (branches : state.lookup "Branches" = some (.array items))
    (item : branch ∈ items) (holds : Holds enters branch v) : Holds enters (.object ms) v

/-! ### Editing states -/

section Edit

variable (enters : Members → Bool) (f : Members → Members)

mutual

/-- Edits the states in the branches of a state that is entered, and then the state. -/
def editState : Json → Json
  | .object ms => .object (f (if enters ms then editBranchesIn ms else ms))
  | v => v

/-- Edits the states in the branches among the members of a state. -/
def editBranchesIn : Members → Members
  | [] => []
  | (key, v) :: ms => (key, if key = "Branches" then editBranches v else v) :: editBranchesIn ms

/-- Edits the states in an array of branches. -/
def editBranches : Json → Json
  | .array items => .array (editItems items)
  | v => v

/-- Edits the states in branches. -/
def editItems : List Json → List Json
  | [] => []
  | v :: vs => editCollection v :: editItems vs

/-- Edits the states of a collection. -/
def editCollection : Json → Json
  | .object ms => .object (editStatesIn ms)
  | v => v

/-- Edits the states among the members of a collection. -/
def editStatesIn : Members → Members
  | [] => []
  | (key, v) :: ms => (key, if key = "States" then editStates v else v) :: editStatesIn ms

/-- Edits the states in an object of states. -/
def editStates : Json → Json
  | .object members => .object (editNamed members)
  | v => v

/-- Edits states under their names. -/
def editNamed : Members → Members
  | [] => []
  | (name, v) :: ms => (name, editState v) :: editNamed ms

end

/-- The members of a state after the edit. -/
def editedMembers (ms : Members) : Members :=
  f (if enters ms then editBranchesIn enters f ms else ms)

variable {enters f}

theorem editState_object (ms : Members) :
    editState enters f (.object ms) = .object (editedMembers enters f ms) := by
  rw [editState, editedMembers]

theorem editItems_eq_map (vs : List Json) :
    editItems enters f vs = vs.map (editCollection enters f) := by
  induction vs with
  | nil => rfl
  | cons v vs ih => rw [editItems, ih, List.map_cons]

theorem editNamed_eq_map (ms : Members) :
    editNamed enters f ms = ms.map fun m => (m.1, editState enters f m.2) := by
  induction ms with
  | nil => rfl
  | cons m ms ih =>
    obtain ⟨name, v⟩ := m
    rw [editNamed, ih, List.map_cons]

theorem editBranchesIn_eq_map (ms : Members) : editBranchesIn enters f ms =
    ms.map fun m => (m.1, if m.1 = "Branches" then editBranches enters f m.2 else m.2) := by
  induction ms with
  | nil => rfl
  | cons m ms ih =>
    obtain ⟨key, v⟩ := m
    rw [editBranchesIn, ih, List.map_cons]

theorem editStatesIn_eq_map (ms : Members) : editStatesIn enters f ms =
    ms.map fun m => (m.1, if m.1 = "States" then editStates enters f m.2 else m.2) := by
  induction ms with
  | nil => rfl
  | cons m ms ih =>
    obtain ⟨key, v⟩ := m
    rw [editStatesIn, ih, List.map_cons]

/-! ### Keys after the edit -/

theorem lookup_editBranchesIn_of_ne {key : String} (h : key ≠ "Branches") (ms : Members) :
    (editBranchesIn enters f ms).lookup key = ms.lookup key := by
  rw [editBranchesIn_eq_map, lookup_map_at_of_ne h]

theorem lookup_editBranchesIn (ms : Members) : (editBranchesIn enters f ms).lookup "Branches" =
    (ms.lookup "Branches").map (editBranches enters f) := by
  rw [editBranchesIn_eq_map, lookup_map_at]

theorem lookup_editStatesIn_of_ne {key : String} (h : key ≠ "States") (ms : Members) :
    (editStatesIn enters f ms).lookup key = ms.lookup key := by
  rw [editStatesIn_eq_map, lookup_map_at_of_ne h]

theorem lookup_editStatesIn (ms : Members) : (editStatesIn enters f ms).lookup "States" =
    (ms.lookup "States").map (editStates enters f) := by
  rw [editStatesIn_eq_map, lookup_map_at]

/-- Before the edit of a state itself, nothing but its branches has changed. -/
theorem lookup_entered_of_ne {key : String} (h : key ≠ "Branches") (ms : Members) :
    (if enters ms then editBranchesIn enters f ms else ms).lookup key = ms.lookup key := by
  split
  · exact lookup_editBranchesIn_of_ne h ms
  · rfl

end Edit

/-! ### An edit that changes nothing -/

theorem map_snd_eq_self {g : String → Json → Json} {ms : Members}
    (h : ∀ m ∈ ms, g m.1 m.2 = m.2) : (ms.map fun m => (m.1, g m.1 m.2)) = ms := by
  have hmap : (ms.map fun m => (m.1, g m.1 m.2)) = ms.map id :=
    List.map_congr_left fun m hm => Prod.ext rfl (h m hm)
  rw [hmap, List.map_id]

/-- A collection is left as it is, if the smaller values are as states. -/
theorem editCollection_id_of_lt {enters : Members → Bool} {v : Json}
    (h : ∀ w, sizeOf w < sizeOf v → editState enters id w = w) :
    editCollection enters id v = v := by
  cases v with
  | object ms =>
    rw [editCollection, editStatesIn_eq_map,
      map_snd_eq_self (g := fun k v => if k = "States" then editStates enters id v else v)]
    intro m hm
    split
    · obtain ⟨key, states⟩ := m
      cases states with
      | object members =>
        have hsize := sizeOf_lt_of_mem_members hm
        rw [editStates, editNamed_eq_map, map_snd_eq_self (g := fun _ => editState enters id)]
        exact fun n hn => h n.2 (Nat.lt_trans (sizeOf_lt_of_mem_members hn) hsize)
      | _ => rfl
    · rfl
  | _ => rfl

/-- By induction on the size of the value. -/
theorem editState_id (enters : Members → Bool) (v : Json) : editState enters id v = v := by
  induction v using Json.sizeInduction with
  | step v ih =>
  cases v with
  | object ms =>
    rw [editState, id]
    split
    · rw [editBranchesIn_eq_map,
        map_snd_eq_self (g := fun k v => if k = "Branches" then editBranches enters id v else v)]
      intro m hm
      split
      · obtain ⟨key, branches⟩ := m
        cases branches with
        | array items =>
          have hsize := sizeOf_lt_of_mem_members hm
          rw [editBranches, editItems_eq_map, List.map_congr_left, List.map_id]
          intro branch hbranch
          exact editCollection_id_of_lt fun w hw =>
            ih w (Nat.lt_trans hw (Nat.lt_trans (sizeOf_lt_of_mem_items hbranch) hsize))
        | _ => rfl
      · rfl
    · rfl
  | _ => rfl

theorem editCollection_id (enters : Members → Bool) (v : Json) :
    editCollection enters id v = v :=
  editCollection_id_of_lt fun w _ => editState_id enters w

end Json

end StatesLanguage
