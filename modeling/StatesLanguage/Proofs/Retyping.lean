import Mathlib.Data.List.Induction
import StatesLanguage.Proofs.Reading
import StatesLanguage.Proofs.StateObjects

/-!
# Types of states are only names

A registry decides what the types in a document mean, at every depth of the document, and it
decides nothing else. So a document that is read with any registry may as well be brought to
the types of the standard one: `Json.retype` replaces the type of each state by the name of the
kind that was registered last under it.

Both readings go on step by step in the same way. `Machine.ofDocument_edit` says so for any edit
of the state objects in a document that leaves all keys alone but the type, as long as the two
registries resolve the types before and after the edit to the same kinds. Retyping is one such
edit; the edit that changes nothing is another, and compares two registries on one document.

The main result is `Registry.reading_eq_standard`.
-/

namespace StatesLanguage

open Json (Members)

/-! ### Registrations -/

namespace Registry

/-- The registry after a number of registrations, one after another. Registering a kind under
its own name is one of them. -/
def ofEntries (entries : List (String × StateKind)) : Registry :=
  entries.foldl (fun r entry => r.register entry.1 entry.2) empty

/-- The kind that was registered last under a type. -/
def lastKind (entries : List (String × StateKind)) (type : String) : Option StateKind :=
  entries.reverse.lookup type

/-- A registry resolves the types that have a kind, and no others. -/
def Resolves (r : Registry) (kindOf : String → Option StateKind) : Prop :=
  ∀ type, r.entries.lookup type = kindOf type

namespace Resolves

variable {r r' : Registry} {kindOf kindOf' : String → Option StateKind} {type : String}

theorem resolve_eq_ok (h : r.Resolves kindOf) {kind : StateKind} :
    r.resolve type = .ok kind ↔ kindOf type = some kind := by
  rw [resolve, h type]
  cases kindOf type <;> simp

/-- What is not resolved fails with the type, whatever the registry. -/
theorem resolve_eq (h : r.Resolves kindOf) (h' : r'.Resolves kindOf')
    (heq : kindOf type = kindOf' type) : r.resolve type = r'.resolve type := by
  rw [resolve, resolve, h type, h' type, heq]

end Resolves

/-- **The last registration of a type counts**, by induction on the registrations from the last
one backwards. -/
theorem ofEntries_resolves (entries : List (String × StateKind)) :
    (ofEntries entries).Resolves (lastKind entries) := by
  induction entries using List.reverseRecOn with
  | nil => exact fun _ => rfl
  | append_singleton entries entry ih =>
    intro type
    rw [ofEntries, List.foldl_append, List.foldl_cons, List.foldl_nil, register, lookup_place,
      lastKind, List.reverse_append, List.reverse_singleton, List.singleton_append,
      lookup_cons_eq_ite]
    split
    · rfl
    · exact ih type

end Registry

/-! ### Kinds of state objects -/

/-- The kind of a state object, if it has a type with a kind. -/
def Json.kindOf? (kindOf : String → Option StateKind) (ms : Members) : Option StateKind :=
  match ms.lookup "Type" with
  | some (.string type) => kindOf type
  | _ => none

/-- A value in the place of a state is an object with a type that is registered. -/
def Json.IsTyped (kindOf : String → Option StateKind) (v : Json) : Prop :=
  ∃ ms type kind, v = .object ms ∧ ms.lookup "Type" = some (.string type) ∧
    kindOf type = some kind

/-- Whether a state object has branches to enter. -/
def Json.isParallel (kindOf : String → Option StateKind) (ms : Members) : Bool :=
  Json.kindOf? kindOf ms = some .parallel

/-- The members of a state object with its kind for a type. -/
def Json.retypeMembers (kindOf : String → Option StateKind) (ms : Members) : Members :=
  match Json.kindOf? kindOf ms with
  | some kind => ms.map fun m => (m.1, if m.1 = "Type" then .string kind.name else m.2)
  | none => ms

/-- A document with the type of each state replaced by the name of its kind. -/
def Json.retype (kindOf : String → Option StateKind) (document : Json) : Json :=
  Json.editCollection (Json.isParallel kindOf) (Json.retypeMembers kindOf) document

/-- The kind of a state, as it is read. -/
def Registry.kindOfMembers (r : Registry) (name : String) (ms : Members) :
    Except Error StateKind := do
  let type ← StateKind.typeOfMembers name ms
  r.resolve type

theorem Registry.kindOfMembers_eq_ok {r : Registry} {name : String} {ms : Members}
    {kind : StateKind} : r.kindOfMembers name ms = .ok kind ↔
      ∃ type, ms.lookup "Type" = some (.string type) ∧ r.resolve type = .ok kind := by
  rw [kindOfMembers, bind_eq_ok]
  simp only [StateKind.typeOfMembers_eq_ok]

theorem Registry.Resolves.isParallel {r : Registry} {kindOf : String → Option StateKind}
    (h : r.Resolves kindOf) {name : String} {ms : Members}
    (hms : r.kindOfMembers name ms = .ok .parallel) : Json.isParallel kindOf ms = true := by
  obtain ⟨type, htype, hkind⟩ := kindOfMembers_eq_ok.mp hms
  rw [Json.isParallel, Json.kindOf?, htype]
  exact decide_eq_true (h.resolve_eq_ok.mp hkind)

/-- The kind is read from the type alone. -/
theorem Registry.kindOfMembers_congr {r : Registry} {ms ns : Members}
    (h : ns.lookup "Type" = ms.lookup "Type") (name : String) :
    r.kindOfMembers name ns = r.kindOfMembers name ms := by
  rw [kindOfMembers, kindOfMembers, StateKind.typeOfMembers, StateKind.typeOfMembers,
    Json.lookupString, Json.lookupString, h]

/-! ### What does not depend on the type -/

section Congr

variable {ms ns : Members}

theorem Body.ofMembers_congr
    (h : ∀ key, key ≠ "Type" → key ≠ "Branches" → ns.lookup key = ms.lookup key)
    (kind : StateKind) : Body.ofMembers ns kind = Body.ofMembers ms kind := by
  have hstring (key : String) (ht : key ≠ "Type") (hb : key ≠ "Branches") :
      Json.lookupString key ns = Json.lookupString key ms := by
    rw [Json.lookupString, Json.lookupString, h key ht hb]
  have hseconds (key : String) (ht : key ≠ "Type") (hb : key ≠ "Branches") :
      Seconds.lookup key ns = Seconds.lookup key ms := by
    rw [Seconds.lookup, Seconds.lookup, Json.lookupCount, Json.lookupCount, h key ht hb]
  cases kind with
  | task =>
    rw [ofMembers, ofMembers, hstring "Resource" (by decide) (by decide),
      hseconds "TimeoutSeconds" (by decide) (by decide),
      hseconds "HeartbeatSeconds" (by decide) (by decide)]
  | wait => rw [ofMembers, ofMembers, hseconds "Seconds" (by decide) (by decide)]
  | fail =>
    rw [ofMembers, ofMembers, hstring "Error" (by decide) (by decide),
      hstring "Cause" (by decide) (by decide)]
  | choice =>
    rw [ofMembers, ofMembers, hstring "Default" (by decide) (by decide), Json.lookupArray,
      Json.lookupArray, h "Choices" (by decide) (by decide)]
  | pass | succeed | parallel => rfl

theorem Body.readFields_congr
    (h : ∀ key, key ≠ "Type" → key ≠ "Branches" → ns.lookup key = ms.lookup key)
    (b : Body State) : b.readFields ns = b.readFields ms := by
  have hpath (key : String) (ht : key ≠ "Type") (hb : key ≠ "Branches") :
      Path.lookup key ns = Path.lookup key ms := by
    rw [Path.lookup, Path.lookup, Json.lookupString, Json.lookupString, h key ht hb]
  have hpaths : DataPaths.ofMembers ns = DataPaths.ofMembers ms := by
    rw [DataPaths.ofMembers, DataPaths.ofMembers, hpath "InputPath" (by decide) (by decide),
      hpath "OutputPath" (by decide) (by decide)]
  have hplace : ResultPath.ofMembers ns = ResultPath.ofMembers ms := by
    rw [ResultPath.ofMembers, ResultPath.ofMembers, h "ResultPath" (by decide) (by decide)]
  have hnext (mode : TransitionMode) :
      TransitionField.ofMembers mode ns = TransitionField.ofMembers mode ms := by
    rw [TransitionField.ofMembers, TransitionField.ofMembers, Json.lookupString,
      Json.lookupString, h "End" (by decide) (by decide), h "Next" (by decide) (by decide)]
  have hresult := h "Result" (by decide) (by decide)
  cases b with
  | pass b => rw [readFields, readFields, hpaths, hplace, hnext, hresult]
  | task b =>
    rw [readFields, readFields, hpaths, hplace, hnext, hresult, Retrier.listOfMembers,
      Retrier.listOfMembers, Catcher.listOfMembers, Catcher.listOfMembers, Json.lookupArray,
      Json.lookupArray, Json.lookupArray, Json.lookupArray, h "Retry" (by decide) (by decide),
      h "Catch" (by decide) (by decide)]
  | wait b => rw [readFields, readFields, hnext]
  | parallel b => rw [readFields, readFields, hnext, hpaths, hplace]
  | succeed | fail b | choice b => rfl

end Congr

/-! ### Reading step by step -/

/-- What reading a state comes to, its log apart. -/
theorem State.outcome_ofJson (r : Registry) (name : String) (ms : Members) :
    (State.ofJson r name (.object ms)).outcome = (do
      let kind ← r.kindOfMembers name ms
      let own ←
        if kind = .parallel then
          (Collection.branchesOfMembers r ms).outcome.map fun branches => .parallel { branches }
        else Body.ofMembers ms kind
      let comment ← Json.lookupString "Comment" ms
      let body ← own.readFields ms
      return ⟨name, comment, body⟩) := by
  rw [State.ofJson, Registry.kindOfMembers]
  simp only [Logged.outcome_bind, Logged.outcome_liftM, Logged.outcome_event, bind_assoc]
  refine bind_congr fun type => bind_congr fun kind => ?_
  by_cases hpar : kind = .parallel
  · simp only [if_pos hpar, Logged.outcome_bind, Logged.outcome_liftM]
    cases (Collection.branchesOfMembers r ms).outcome <;> rfl
  · simp only [if_neg hpar, Logged.outcome_bind, Logged.outcome_liftM]
    rfl

theorem Machine.outcome_readVersion (ms : Members) :
    (Machine.readVersion ms).outcome = Json.lookupString "Version" ms := by
  rw [Machine.readVersion, Logged.outcome_bind, Logged.outcome_liftM]
  rcases Json.lookupString "Version" ms with e | _ | found
  · rfl
  · rfl
  · -- another version than that of the language is logged, and read all the same
    change Logged.outcome (if found ≠ languageVersion then _ else _) = _
    split <;> rfl

/-- What reading a machine comes to, its log apart. -/
theorem Machine.outcome_ofDocument (r : Registry) (ms : Members) :
    (Machine.ofDocument r (.object ms)).outcome = (do
      let states ← (Collection.ofMembers r ms).outcome
      let comment ← Json.lookupString "Comment" ms
      let timeout ← Seconds.lookup "TimeoutSeconds" ms
      let version ← Json.lookupString "Version" ms
      return { states, comment, timeout, version }) := by
  rw [Machine.ofDocument, Collection.ofMembers]
  simp only [Logged.outcome_bind, Logged.outcome_liftM, outcome_readVersion, bind_assoc,
    Json.asObject]
  rfl

section Edit

variable {r r' : Registry} {enters : Members → Bool} {f : Members → Members}

/-- States that are read alike are added alike. -/
theorem Collection.addMembers_edit {members : Members} {c : Collection State}
    (h : ∀ m ∈ members, (State.ofJson r' m.1 (Json.editState enters f m.2)).outcome =
      (State.ofJson r m.1 m.2).outcome) :
    (Collection.addMembers r' (Json.editNamed enters f members) c).outcome =
      (Collection.addMembers r members c).outcome := by
  induction members generalizing c with
  | nil => rfl
  | cons m members ih =>
    obtain ⟨name, v⟩ := m
    rw [List.forall_mem_cons] at h
    rw [Json.editNamed, Collection.addMembers, Collection.addMembers]
    simp only [Logged.outcome_bind, Logged.outcome_liftM, h.1, ih h.2]

/-- A collection is read alike, if its states are. -/
theorem Collection.ofMembers_edit {ms : Members}
    (h : ∀ members, ms.lookup "States" = some (.object members) → ∀ m ∈ members,
      (State.ofJson r' m.1 (Json.editState enters f m.2)).outcome =
        (State.ofJson r m.1 m.2).outcome) :
    (Collection.ofMembers r' (Json.editStatesIn enters f ms)).outcome =
      (Collection.ofMembers r ms).outcome := by
  have hstart (c : Collection State) :
      c.readStart (Json.editStatesIn enters f ms) = c.readStart ms := by
    rw [readStart, readStart, Json.lookupString, Json.lookupString,
      Json.lookup_editStatesIn_of_ne (by decide)]
  rw [Collection.ofMembers, Collection.ofMembers]
  simp only [Logged.outcome_bind, Logged.outcome_liftM, hstart]
  congr 1
  rw [Collection.statesOfMembers_eq_lookup, Collection.statesOfMembers_eq_lookup,
    Json.lookup_editStatesIn]
  rcases hv : ms.lookup "States" with _ | v
  · rfl
  · cases v with
    | object members => exact addMembers_edit (h members hv)
    | _ => rfl

/-- Branches are read alike, one after another. -/
theorem Collection.listOfJson_edit {vs : List Json}
    (h : ∀ ms, Json.object ms ∈ vs →
      (Collection.ofMembers r' (Json.editStatesIn enters f ms)).outcome =
        (Collection.ofMembers r ms).outcome) :
    (Collection.listOfJson r' (Json.editItems enters f vs)).outcome =
      (Collection.listOfJson r vs).outcome := by
  induction vs with
  | nil => rfl
  | cons v vs ih =>
    have ih := ih fun ms hms => h ms (List.mem_cons_of_mem v hms)
    cases v with
    | object ms =>
      rw [Json.editItems, Json.editCollection, Collection.listOfJson_cons,
        Collection.listOfJson_cons]
      simp only [Logged.outcome_bind, h ms List.mem_cons_self, ih]
    | _ => rfl

/-- An edit of state objects leaves all keys alone but the type, and enters every state that is
parallel. -/
structure Json.OnlyRetypes (r : Registry) (enters : Members → Bool) (f : Members → Members) :
    Prop where
  /-- The type is the only key that may find something else. -/
  keys : ∀ ms key, key ≠ "Type" → (f ms).lookup key = ms.lookup key
  /-- The branches of a parallel state are edited. -/
  entered : ∀ name ms, r.kindOfMembers name ms = .ok .parallel → enters ms = true

/-- The kind of a state is the same after an edit, with another registry. -/
def Registry.KindKept (r r' : Registry) (enters : Members → Bool) (f : Members → Members)
    (ms : Members) : Prop :=
  ∀ name, r'.kindOfMembers name (Json.editedMembers enters f ms) = r.kindOfMembers name ms

/-- **A state is read alike before and after the edit**, if its kind is the same and the kinds of
all states in its branches are: by induction on the size of the value. -/
theorem State.ofJson_edit (hf : Json.OnlyRetypes r enters f) {v : Json}
    (hself : ∀ ms, v = .object ms → r.KindKept r' enters f ms)
    (hinside : ∀ ms items, v = .object ms → enters ms = true →
      ms.lookup "Branches" = some (.array items) → ∀ branch ∈ items, ∀ inner,
        branch.Holds enters (.object inner) → r.KindKept r' enters f inner) :
    ∀ name, (State.ofJson r' name (Json.editState enters f v)).outcome =
      (State.ofJson r name v).outcome := by
  induction v using Json.sizeInduction with
  | step v ih =>
  intro name
  cases v with
  | object ms =>
    have hkeys (key : String) (ht : key ≠ "Type") (hb : key ≠ "Branches") :
        (Json.editedMembers enters f ms).lookup key = ms.lookup key := by
      rw [Json.editedMembers, hf.keys _ key ht, Json.lookup_entered_of_ne hb]
    have hcomment : Json.lookupString "Comment" (Json.editedMembers enters f ms) =
        Json.lookupString "Comment" ms := by
      rw [Json.lookupString, Json.lookupString, hkeys "Comment" (by decide) (by decide)]
    have hbranches (hpar : r.kindOfMembers name ms = .ok .parallel) :
        (Collection.branchesOfMembers r' (Json.editedMembers enters f ms)).outcome =
          (Collection.branchesOfMembers r ms).outcome := by
      have hentered := hf.entered name ms hpar
      rw [Collection.branchesOfMembers_eq_lookup, Collection.branchesOfMembers_eq_lookup,
        Json.editedMembers, hf.keys _ _ (by decide), if_pos hentered, Json.lookup_editBranchesIn]
      rcases hw : ms.lookup "Branches" with _ | w
      · rfl
      · cases w with
        | array items =>
          refine Collection.listOfJson_edit fun branch hbranch => ?_
          refine Collection.ofMembers_edit fun members hmembers m hm => ?_
          have hholds := hinside ms items rfl hentered hw _ hbranch
          obtain ⟨key, x⟩ := m
          have hsize : sizeOf x < sizeOf (Json.object ms) :=
            calc sizeOf x < sizeOf (Json.object members) := sizeOf_lt_of_mem_members hm
              _ < sizeOf (Json.object branch) := sizeOf_lt_of_lookup hmembers
              _ < sizeOf (Json.array items) := sizeOf_lt_of_mem_items hbranch
              _ < sizeOf (Json.object ms) := sizeOf_lt_of_lookup hw
          refine ih x hsize (fun inner hinner => ?_) (fun inner items' hinner he hb c hc y hy => ?_)
            key
          · subst hinner
            exact hholds inner (.here hmembers hm)
          · subst hinner
            exact hholds y (.inside hmembers hm he hb hc hy)
        | _ => simp only [Option.map_some, Json.editBranches, Collection.branchesOfJson]
    rw [Json.editState_object, State.outcome_ofJson, State.outcome_ofJson, hself ms rfl name,
      hcomment]
    rcases hkind : r.kindOfMembers name ms with e | kind
    · rfl
    · simp only [Body.ofMembers_congr hkeys, Body.readFields_congr hkeys]
      by_cases hpar : kind = .parallel
      · rw [hbranches (hpar ▸ hkind)]
      · simp only [bind, Except.bind, if_neg hpar]
  | _ => rfl

/-- **A machine is read alike before and after the edit**, if the kinds of all state objects of
the document are the same. -/
theorem Machine.ofDocument_edit (hf : Json.OnlyRetypes r enters f) {document : Json}
    (h : ∀ ms, document.Holds enters (.object ms) → r.KindKept r' enters f ms) :
    (Machine.ofDocument r' (Json.editCollection enters f document)).outcome =
      (Machine.ofDocument r document).outcome := by
  cases document with
  | object ms =>
    have hstates : (Collection.ofMembers r' (Json.editStatesIn enters f ms)).outcome =
        (Collection.ofMembers r ms).outcome := by
      refine Collection.ofMembers_edit fun members hmembers m hm => ?_
      obtain ⟨key, v⟩ := m
      refine State.ofJson_edit hf (fun inner hinner => ?_)
        (fun inner items hinner he hb c hc y hy => ?_) key
      · subst hinner
        exact h inner (.here hmembers hm)
      · subst hinner
        exact h y (.inside hmembers hm he hb hc hy)
    rw [Json.editCollection, outcome_ofDocument, outcome_ofDocument, hstates]
    simp only [Json.lookupString, Seconds.lookup, Json.lookupCount,
      Json.lookup_editStatesIn_of_ne (show "Comment" ≠ "States" by decide),
      Json.lookup_editStatesIn_of_ne (show "TimeoutSeconds" ≠ "States" by decide),
      Json.lookup_editStatesIn_of_ne (show "Version" ≠ "States" by decide)]
  | _ => rfl

end Edit

/-! ### Retyping -/

section Retyping

variable {r : Registry} {kindOf : String → Option StateKind}

theorem Json.lookup_retypeMembers_of_ne {key : String} (h : key ≠ "Type") (ms : Members) :
    (Json.retypeMembers kindOf ms).lookup key = ms.lookup key := by
  rw [Json.retypeMembers]
  split
  · next kind _ => exact lookup_map_at_of_ne (g := fun _ => .string kind.name) h
  · rfl

theorem Json.lookup_retypeMembers {ms : Members} {type : String} {kind : StateKind}
    (htype : ms.lookup "Type" = some (.string type)) (hkind : kindOf type = some kind) :
    (Json.retypeMembers kindOf ms).lookup "Type" = some (.string kind.name) := by
  have hms : Json.kindOf? kindOf ms = some kind := by
    rw [Json.kindOf?, htype]
    exact hkind
  rw [Json.retypeMembers, hms]
  dsimp only
  rw [lookup_map_at fun _ => .string kind.name, htype]
  rfl

/-- A typed state has its kind in the standard registry after it is retyped. -/
theorem Registry.Resolves.kindKept (h : r.Resolves kindOf) {ms : Members}
    (htyped : (Json.object ms).IsTyped kindOf) :
    r.KindKept standard (Json.isParallel kindOf) (Json.retypeMembers kindOf) ms := by
  intro name
  obtain ⟨_, type, kind, ⟨rfl⟩, htype, hkind⟩ := htyped
  have hleft : standard.kindOfMembers name (Json.editedMembers (Json.isParallel kindOf)
      (Json.retypeMembers kindOf) ms) = .ok kind := by
    rw [Json.editedMembers, kindOfMembers_eq_ok]
    exact ⟨kind.name,
      Json.lookup_retypeMembers ((Json.lookup_entered_of_ne (by decide) ms).trans htype) hkind,
      (resolve_standard kind.name kind).mpr rfl⟩
  rw [hleft, kindOfMembers_eq_ok.mpr ⟨type, htype, h.resolve_eq_ok.mpr hkind⟩]

/-- If all state objects of a document are typed, it is read as its retyped form is with the
standard registry, errors included. -/
theorem Machine.ofDocument_retype (h : r.Resolves kindOf) {document : Json}
    (htyped : ∀ v, document.Holds (Json.isParallel kindOf) v → v.IsTyped kindOf) :
    (Machine.ofDocument .standard (document.retype kindOf)).outcome =
      (Machine.ofDocument r document).outcome :=
  Machine.ofDocument_edit
    ⟨fun ms _ hkey => Json.lookup_retypeMembers_of_ne hkey ms, fun _ _ => h.isParallel⟩
    fun ms hms => h.kindKept (htyped (.object ms) hms)

/-- **Whatever is held by a collection that is read has a type**: by induction on where it is
held. -/
theorem Json.Holds.isTyped (h : r.Resolves kindOf) {c v : Json}
    (hv : c.Holds (Json.isParallel kindOf) v) {ms : Members} (hms : c = .object ms)
    {collection : Collection State} (hread : collection.Shown r ms) : v.IsTyped kindOf := by
  induction hv generalizing ms collection with
  | here hstates hmem =>
    obtain rfl := Json.object.inj hms
    obtain ⟨members, hmembers, hreads⟩ := hread.states
    rw [hstates] at hmembers
    obtain rfl := Json.object.inj hmembers
    obtain ⟨s, -, hs⟩ := forall₂_mem_left hreads hmem
    obtain ⟨inner, rfl, hshown⟩ := State.ofJson_eq_ok.mp hs
    obtain ⟨type, htype, hkind⟩ := hshown.type
    exact ⟨inner, type, s.kind, rfl, htype, h.resolve_eq_ok.mp hkind⟩
  | @inside _ members state name items branch v hstates hmem hentered hbranches hitem _ ih =>
    obtain rfl := Json.object.inj hms
    obtain ⟨members', hmembers, hreads⟩ := hread.states
    rw [hstates] at hmembers
    obtain rfl := Json.object.inj hmembers
    obtain ⟨s, -, hs⟩ := forall₂_mem_left hreads hmem
    obtain ⟨_, ⟨rfl⟩, hshown⟩ := State.ofJson_eq_ok.mp hs
    obtain ⟨type, htype, hkind⟩ := hshown.type
    -- what is entered is read as a parallel state, so its branches have been read as well
    have hpar : s.kind = .parallel := by
      have hkindOf := of_decide_eq_true hentered
      rw [Json.kindOf?, htype] at hkindOf
      exact Option.some.inj ((h.resolve_eq_ok.mp hkind).symm.trans hkindOf)
    obtain ⟨items', hitems, hbread⟩ := hshown.branches hpar
    rw [hbranches] at hitems
    obtain rfl := Json.array.inj hitems
    obtain ⟨d, -, inner, rfl, hd⟩ := forall₂_mem_left hbread hitem
    exact ih rfl (Collection.ofMembers_eq_ok.mp hd)

theorem Machine.isTyped_of_ofDocument (h : r.Resolves kindOf) {document : Json} {m : Machine}
    (hm : (Machine.ofDocument r document).outcome = .ok m) :
    ∀ v, document.Holds (Json.isParallel kindOf) v → v.IsTyped kindOf := by
  obtain ⟨ms, rfl, hshown⟩ := Machine.ofDocument_eq_ok.mp hm
  exact fun v hv => hv.isTyped h rfl hshown.states

/-- Two registries that agree on the types in a document read the same, errors included. -/
theorem Machine.ofDocument_eq_of_agree {r' : Registry} {kindOf' : String → Option StateKind}
    (h : r.Resolves kindOf) (h' : r'.Resolves kindOf') {document : Json}
    (hagree : ∀ ms type, document.Holds (Json.isParallel kindOf) (.object ms) →
      ms.lookup "Type" = some (.string type) → kindOf type = kindOf' type) :
    (Machine.ofDocument r' document).outcome = (Machine.ofDocument r document).outcome := by
  have honly : Json.OnlyRetypes r (Json.isParallel kindOf) id :=
    ⟨fun _ _ _ => rfl, fun _ _ => h.isParallel⟩
  have hkept : ∀ ms, document.Holds (Json.isParallel kindOf) (.object ms) →
      r.KindKept r' (Json.isParallel kindOf) id ms := by
    intro ms hms name
    rw [Json.editedMembers, id,
      Registry.kindOfMembers_congr (Json.lookup_entered_of_ne (by decide) ms),
      Registry.kindOfMembers, Registry.kindOfMembers]
    rcases htype : StateKind.typeOfMembers name ms with e | type
    · rfl
    · have hkind := hagree ms type hms (StateKind.typeOfMembers_eq_ok.mp htype)
      exact (h.resolve_eq h' hkind).symm
  have hedit := Machine.ofDocument_edit honly hkept
  rwa [Json.editCollection_id] at hedit

end Retyping

/-- **Reading with any registry is reading with the standard one.** After any registrations, a
document is read as a machine exactly if all its state objects are typed, at every depth, and its
retyped form is read as that machine with the standard registry. Registrations that agree on the
types in the document read the same from it, and a state object without a registered type, at any
depth, makes the reading fail. -/
theorem Registry.reading_eq_standard (entries : List (String × StateKind)) (document : Json) :
    (∀ m, (Machine.ofDocument (ofEntries entries) document).outcome = .ok m ↔
        (∀ v, document.Holds (Json.isParallel (lastKind entries)) v →
          v.IsTyped (lastKind entries)) ∧
        (Machine.ofDocument .standard (document.retype (lastKind entries))).outcome = .ok m) ∧
      (∀ entries', (∀ ms type,
          document.Holds (Json.isParallel (lastKind entries)) (.object ms) →
          ms.lookup "Type" = some (.string type) → lastKind entries type = lastKind entries' type) →
        (Machine.ofDocument (ofEntries entries') document).outcome =
          (Machine.ofDocument (ofEntries entries) document).outcome) ∧
      ∀ v, document.Holds (Json.isParallel (lastKind entries)) v →
        ¬v.IsTyped (lastKind entries) →
        ∃ e, (Machine.ofDocument (ofEntries entries) document).outcome = .error e := by
  have hresolves := ofEntries_resolves entries
  refine ⟨fun m => ⟨fun hm => ?_, fun ⟨htyped, hm⟩ => ?_⟩, fun entries' hagree => ?_,
    fun v hv huntyped => ?_⟩
  · have htyped := Machine.isTyped_of_ofDocument hresolves hm
    exact ⟨htyped, (Machine.ofDocument_retype hresolves htyped).trans hm⟩
  · rwa [← Machine.ofDocument_retype hresolves htyped]
  · exact Machine.ofDocument_eq_of_agree hresolves (ofEntries_resolves entries') hagree
  · rcases hread : (Machine.ofDocument (ofEntries entries) document).outcome with e | m
    · exact ⟨e, rfl⟩
    · exact absurd (Machine.isTyped_of_ofDocument hresolves hread v hv) huntyped

/-- A document of one state of a type, in a branch of a state of another type. -/
def Json.renamed : Json :=
  .object [("StartAt", .string "A"), ("States", .object [
    ("A", .object [("Type", .string "Both"), ("End", .bool true), ("Branches", .array [
      .object [("States", .object [
        ("B", .object [("Type", .string "Work"), ("Next", .string "B")])])]])])])]

/-- Registrations of the two types, of which one replaces a former one. -/
def Registry.rebinding : List (String × StateKind) :=
  [("Work", .task), ("Both", .parallel), ("Work", .pass)]

theorem Registry.reading_renamed :
    (∃ m, (Machine.ofDocument (ofEntries rebinding) Json.renamed).outcome = .ok m ∧
      (Machine.ofDocument .standard (.object [("StartAt", .string "A"), ("States", .object [
        ("A", .object [("Type", .string "Parallel"), ("End", .bool true), ("Branches", .array [
          .object [("States", .object [
            ("B", .object [("Type", .string "Pass"), ("Next", .string "B")])])]])])])])).outcome =
              .ok m) ∧
      (Machine.ofDocument (ofEntries [("Work", .pass), ("Both", .parallel)]) Json.renamed).outcome =
        (Machine.ofDocument (ofEntries rebinding) Json.renamed).outcome ∧
      ∃ e, (Machine.ofDocument (ofEntries [("Both", .parallel)]) Json.renamed).outcome =
        .error e := by
  obtain ⟨hmachine, hagree, -⟩ := reading_eq_standard rebinding Json.renamed
  have hread : (Machine.ofDocument (ofEntries rebinding) Json.renamed).outcome = .ok _ := rfl
  refine ⟨⟨_, hread, ((hmachine _).mp hread).2⟩, hagree _ fun ms type _ _ => ?_, ?_⟩
  · -- the two resolve every type alike, and not only those in the document
    simp only [lastKind, rebinding, List.reverse_cons, List.reverse_nil, List.nil_append,
      List.cons_append, lookup_cons_eq_ite]
    grind
  · refine (reading_eq_standard [("Both", .parallel)] Json.renamed).2.2
      (.object [("Type", .string "Work"), ("Next", .string "B")]) ?_ ?_
    · exact .inside rfl List.mem_cons_self rfl rfl List.mem_cons_self
        (.here rfl List.mem_cons_self)
    · rintro ⟨_, _, kind, ⟨rfl⟩, ⟨rfl⟩, hkind⟩
      nomatch hkind

end StatesLanguage
