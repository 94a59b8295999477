import StatesLanguage.Proofs.InStep

/-!
# Runs of calls on a collection

A collection is built by calls that change it in place: states are added and chained, the
start is set, and the state of a name is fetched and updated. A call may fail, and the next
one is made on whatever the failing call left behind.

So the calls here are computations with a state, `EStateM`, which end in some collection
whether they fail or not. Adding is spelled out as the changes that it makes one after
another (`Collection.addInPlace`), and `Collection.run_addInPlace` shows that these are
`Collection.add`, and that none of them has been made when adding fails.

`Collection.afterRun` then says what holds after every run of calls, from the empty
collection on: the collection is in step, a taken name is the only reason not to add a
state, the states are those that have been added, and the start is the one that was set
last, or else the first state. What one call does is a case distinction over the lemmas of
`StatesLanguage.Proofs.InStep`; the induction is on the calls.
-/

namespace StatesLanguage

namespace Collection

/-! ### Adding in place -/

/-- What a change of a collection leaves of it: the new one, or the old one where the change
fails. -/
def settle (c : Collection State) :
    Except Error (Collection State) → EStateM.Result Error (Collection State) Unit
  | .ok d => .ok () d
  | .error e => .error e c

/-- Chains a state that is added to the states before it, and returns it with its own
transition. -/
def chainInPlace (s : State) : EStateM Error (Collection State) State := do
  let added ← MonadExcept.ofExcept (endIfUnset s)
  let states ← MonadExcept.ofExcept (editLast (continueTo s.name) (← get).states)
  modify fun c => { c with states }
  return added

/-- Adds a state by changing one thing after another: the transitions, the start, the index and
the list. -/
def addInPlace (s : State) : EStateM Error (Collection State) Unit := do
  if (← get).names.contains s.name then
    throw (.duplicateName s.name)
  let added ← if (← get).autolink then chainInPlace s else pure s
  if (← get).startAt.isNone then
    modify fun c => { c with startAt := some s.name }
  modify fun c => { c with index := c.index ++ [(s.name, c.states.length)] }
  modify fun c => { c with states := c.states ++ [added] }

theorem run_ofExcept {α : Type} (x : Except Error α) (c : Collection State) :
    (MonadExcept.ofExcept x : EStateM Error (Collection State) α).run c =
      match x with
      | .ok a => .ok a c
      | .error e => .error e c := by
  cases x <;> rfl

/-- Both transitions are determined before either of them is changed. -/
theorem run_chainInPlace (s : State) (c : Collection State) :
    (chainInPlace s).run c =
      match endIfUnset s, editLast (continueTo s.name) c.states with
      | .ok added, .ok states => .ok added { c with states }
      | .ok _, .error e => .error e c
      | .error e, _ => .error e c := by
  simp only [chainInPlace, EStateM.run_bind, EStateM.run_get, run_ofExcept]
  cases endIfUnset s with
  | error e => rfl
  | ok added =>
    dsimp only
    cases editLast (continueTo s.name) c.states <;> rfl

/-- **Adding in place is adding**, and a collection to which nothing could be added is left
as it was. -/
theorem run_addInPlace (s : State) (c : Collection State) :
    (addInPlace s).run c = c.settle (c.add s) := by
  obtain ⟨states, index, startAt, autolink⟩ := c
  unfold addInPlace Collection.add
  -- a taken name ends both before any change, and chaining is the only other thing that fails
  cases hname : (names ⟨states, index, startAt, autolink⟩).contains s.name with
  | true =>
    simp only [EStateM.run_bind, EStateM.run_get, hname, if_true]
    rfl
  | false =>
    cases autolink with
    | false =>
      simp only [EStateM.run_bind, EStateM.run_get, hname, Bool.false_eq_true, if_false]
      cases startAt <;> rfl
    | true =>
      simp only [EStateM.run_bind, EStateM.run_get, hname, run_chainInPlace, Bool.false_eq_true,
        if_false, if_true]
      cases endIfUnset s with
      | error e => rfl
      | ok added =>
        cases editLast (continueTo s.name) states with
        | error e => rfl
        | ok before => cases startAt <;> rfl

/-! ### Calls -/

/-- A call on a collection. -/
inductive Call where
  /-- Adds a state. -/
  | add (s : State)
  /-- Chains the states that have no transition yet. -/
  | link
  /-- Sets the start. -/
  | setStart (name : String)
  /-- Updates the state of a name, if there is one. -/
  | update (name : String) (f : State → State)

namespace Call

/-- What a call does. -/
def perform : Call → EStateM Error (Collection State) Unit
  | .add s => addInPlace s
  | .link => fun c => c.settle c.link
  | .setStart name => modify (withStart name)
  | .update name f => fun c => c.settle (c.edit name fun s => .ok (f s))

/-- The collection that a call leaves, whether it fails or not. -/
def after (call : Call) (c : Collection State) : Collection State :=
  match call.perform.run c with
  | .ok _ d => d
  | .error _ d => d

/-- The state that a call adds, if it does. -/
def added? : Call → Collection State → Option State
  | .add s, c =>
    match (addInPlace s).run c with
    | .ok _ _ => some s
    | .error _ _ => none
  | .link, _ => none
  | .setStart _, _ => none
  | .update _ _, _ => none

/-- The start that a call sets, if it does. -/
def start? : Call → Option String
  | .setStart name => some name
  | _ => none

/-- The call brings along ordinary states only, and renames none. -/
def IsOrdinary : Call → Prop
  | .add s => s.IsOrdinary
  | .update name f => ∀ s : State, s.name = name →
      (f s).name = name ∧ (s.IsOrdinary → (f s).IsOrdinary)
  | _ => True

/-- The call updates states along a relation only. -/
def Within (R : State → State → Prop) : Call → Prop
  | .update name f => ∀ s : State, s.name = name → R s (f s)
  | _ => True

variable {c d : Collection State}

theorem after_add_of_ok {s : State} (h : c.add s = .ok d) : (add s).after c = d := by
  rw [after, perform, run_addInPlace, h]
  rfl

theorem after_add_of_error {s : State} {e : Error} (h : c.add s = .error e) :
    (add s).after c = c := by
  rw [after, perform, run_addInPlace, h]
  rfl

theorem added?_add_of_ok {s : State} (h : c.add s = .ok d) : (add s).added? c = some s := by
  rw [added?, run_addInPlace, h]
  rfl

theorem added?_add_of_error {s : State} {e : Error} (h : c.add s = .error e) :
    (add s).added? c = none := by
  rw [added?, run_addInPlace, h]
  rfl

theorem after_link (h : c.link = .ok d) : link.after c = d := by
  change (match c.settle c.link with | .ok _ d => d | .error _ d => d) = d
  rw [h]
  rfl

theorem after_update {name : String} {f : State → State}
    (h : (c.edit name fun s => .ok (f s)) = .ok d) : (update name f).after c = d := by
  change (match c.settle (c.edit name fun s => .ok (f s)) with | .ok _ d => d | .error _ d => d) = d
  rw [h]
  rfl

end Call

/-! ### What one call does -/

/-- A relation from states to what calls may make of them. -/
structure Traces (R : State → State → Prop) : Prop where
  /-- Several changes are a change. -/
  trans : ∀ s t u, R s t → R t u → R s u
  /-- So is any change of the transition, and none at all. -/
  next : ∀ s t : State, s.SameButNext t → R s t

/-- States keep their names. -/
theorem traces_name : Traces fun s t => t.name = s.name :=
  ⟨fun _ _ _ hst htu => htu.trans hst, fun _ _ h => h.name_eq⟩

theorem Traces.forall₂_refl {R : State → State → Prop} (hR : Traces R) (ss : List State) :
    List.Forall₂ R ss ss :=
  List.forall₂_same.mpr fun s _ => hR.next s s (.refl s)

/-- A call leads from the collection `c` to `d`, which is in step. -/
structure Step (R : State → State → Prop) (call : Call) (c d : Collection State) : Prop where
  /-- The collection is in step. -/
  inStep : d.InStep
  /-- The states are the ones from before, and behind them the one that is added. -/
  states : List.Forall₂ R (c.states ++ (call.added? c).toList) d.states
  /-- The start is set, or stays as it is, or else is the state that is added. -/
  startAt : d.startAt = call.start?.or (c.startAt.or ((call.added? c).map State.name))

variable {R : State → State → Prop} {c d : Collection State}

/-- Where no state is added, none appears. -/
theorem Step.of_added?_eq_none {call : Call} (hadded : call.added? c = none) (hd : d.InStep)
    (hstates : List.Forall₂ R c.states d.states) (hstart : d.startAt = call.start?.or c.startAt) :
    Step R call c d := by
  refine ⟨hd, ?_, ?_⟩
  · rw [hadded, Option.toList_none, List.append_nil]
    exact hstates
  · rw [hadded, Option.map_none, Option.or_none]
    exact hstart

/-- An update of a state that keeps its name and has an ordinary transition. -/
theorem InStep.withUpdated (h : c.InStep) {before after : List State} {s t : State}
    (hc : c.states = before ++ s :: after) (hname : t.name = s.name) (ht : t.IsOrdinary) :
    ({ c with states := before ++ t :: after } : Collection State).InStep := by
  have hordinary := h.ordinary
  rw [hc, List.forall_mem_append, List.forall_mem_cons] at hordinary
  obtain ⟨hbefore, -, hafter⟩ := hordinary
  refine inStep_iff.mpr ⟨h.indexed.withStates ?_, ?_⟩
  · rw [hc, List.map_append, List.map_append, List.map_cons, List.map_cons, hname]
  · exact List.forall_mem_append.mpr ⟨hbefore, List.forall_mem_cons.mpr ⟨ht, hafter⟩⟩

/-- **What one call does** to a collection in step. -/
theorem InStep.step (hR : Traces R) (h : c.InStep) {call : Call} (hordinary : call.IsOrdinary)
    (hwithin : call.Within R) : Step R call c (call.after c) := by
  have hrefl : List.Forall₂ R c.states c.states := hR.forall₂_refl c.states
  cases call with
  | add s =>
    rcases h.add_cases hordinary with ⟨-, hadd⟩ | ⟨-, d, hadd, hd, hstates, hstart⟩
    · rw [Call.after_add_of_error hadd]
      exact .of_added?_eq_none (Call.added?_add_of_error hadd) h hrefl rfl
    · rw [Call.after_add_of_ok hadd]
      refine ⟨hd, ?_, ?_⟩ <;> rw [Call.added?_add_of_ok hadd]
      · exact hstates.imp hR.next
      · exact hstart
  | link =>
    obtain ⟨d, hlink, hd, hstates, hstart⟩ := h.link_cases
    rw [Call.after_link hlink]
    exact .of_added?_eq_none rfl hd (hstates.imp hR.next) hstart
  | setStart name => exact .of_added?_eq_none rfl (h.withStart name) hrefl rfl
  | update name f =>
    rcases h.update_cases name f with ⟨-, hedit⟩ | ⟨before, s, after, hc, hname, hedit⟩
    · rw [Call.after_update hedit]
      exact .of_added?_eq_none rfl h hrefl rfl
    · -- one state changes, along `R` as the call is within it, and all others stay
      have hs : s.IsOrdinary := h.ordinary s (hc ▸ List.mem_append_cons_self)
      obtain ⟨hname', hs'⟩ := hordinary s hname
      rw [Call.after_update hedit]
      refine .of_added?_eq_none rfl (h.withUpdated hc (hname'.trans hname.symm) (hs' hs)) ?_ rfl
      rw [hc]
      exact List.rel_append (hR.forall₂_refl before)
        (.cons (hwithin s hname) (hR.forall₂_refl after))

/-- Putting an ordinary state in the place of the one that has a name keeps a collection in
step exactly if the new one is called the same. -/
theorem InStep.update_iff (h : c.InStep) {name : String} (hname : name ∈ c.names) {t : State}
    (ht : t.IsOrdinary) :
    ((Call.update name fun _ => t).after c).InStep ↔ t.name = name := by
  rcases h.update_cases name fun _ => t with ⟨hnot, -⟩ | ⟨before, s, after, hc, rfl, hedit⟩
  · exact absurd hname hnot
  rw [Call.after_update hedit]
  refine ⟨fun hd => ?_, fun heq => h.withUpdated hc heq ht⟩
  -- the position of `s` is still stored under its old name, and `t` is what is there now
  have hs : (c.states[before.length]?).map State.name = some s.name := by rw [hc]; simp
  have hposition := (h.index s.name before.length).mpr hs
  have ht := (hd.index s.name before.length).mp hposition
  simpa using ht

/-! ### Runs -/

/-- The collection after calls, each of them made on what the one before it left. -/
def run : List Call → Collection State → Collection State
  | [], c => c
  | call :: calls, c => run calls (call.after c)

/-- The states that calls add, in order; those that fail add none. -/
def added : List Call → Collection State → List State
  | [], _ => []
  | call :: calls, c => (call.added? c).toList ++ added calls (call.after c)

/-- Calls lead from the collection `c` to `d`, which is in step. -/
structure Steps (R : State → State → Prop) (calls : List Call) (c d : Collection State) :
    Prop where
  /-- The collection is in step. -/
  inStep : d.InStep
  /-- The states are the ones from before, and behind them those that are added. -/
  states : List.Forall₂ R (c.states ++ added calls c) d.states
  /-- The start is the last that is set, or stays as it is, or else is the first state that is
  added. -/
  startAt : d.startAt = (calls.filterMap Call.start?).getLast?.or
    (c.startAt.or ((added calls c).head?.map State.name))

/-- **What a run of calls does** to a collection in step: by induction on the calls, one step
in front of a run. -/
theorem InStep.steps (hR : Traces R) (h : c.InStep) {calls : List Call}
    (hcalls : ∀ call ∈ calls, call.IsOrdinary ∧ call.Within R) :
    Steps R calls c (run calls c) := by
  induction calls generalizing c with
  | nil =>
    refine ⟨h, ?_, ?_⟩
    · rw [added, List.append_nil]
      exact hR.forall₂_refl c.states
    · exact Option.or_none.symm
  | cons call calls ih =>
    obtain ⟨⟨hordinary, hwithin⟩, hcalls⟩ := List.forall_mem_cons.mp hcalls
    have hstep := h.step hR hordinary hwithin
    have hsteps := ih hstep.inStep hcalls
    refine ⟨hsteps.inStep, ?_, ?_⟩
    · rw [added, ← List.append_assoc]
      -- what is added later has not been touched by the first call
      have hfirst := List.rel_append hstep.states (hR.forall₂_refl (added calls (call.after c)))
      exact forall₂_trans hR.trans hfirst hsteps.states
    · -- the same start is looked for in the first call and in the rest
      have hfilter : (call :: calls).filterMap Call.start? =
          call.start?.toList ++ calls.filterMap Call.start? := by
        rw [List.filterMap_cons]
        cases call.start? <;> rfl
      have hlast : (call.start?.toList).getLast? = call.start? := by
        cases call.start? <;> rfl
      have hhead : (call.added? c).toList.head? = call.added? c := by
        cases call.added? c <;> rfl
      have hmap : ((call.added? c).or (added calls (call.after c)).head?).map State.name =
          ((call.added? c).map State.name).or
            ((added calls (call.after c)).head?.map State.name) := by
        cases call.added? c <;> rfl
      rw [run, hsteps.startAt, hstep.startAt, hfilter, List.getLast?_append, hlast, added,
        List.head?_append, hhead, hmap]
      simp only [Option.or_assoc]

/-- Adding an ordinary state fails exactly if its name is taken. -/
theorem InStep.add_fails_iff (h : c.InStep) {s : State} (hs : s.IsOrdinary) :
    (∃ e d, (addInPlace s).run c = .error e d) ↔ ∃ t ∈ c.states, t.name = s.name := by
  rw [run_addInPlace, ← h.mem_names]
  rcases h.add_cases hs with ⟨hname, hadd⟩ | ⟨hname, d, hadd, -⟩ <;> rw [hadd]
  · exact iff_of_true ⟨_, _, rfl⟩ hname
  · exact iff_of_false (by rintro ⟨e, d, h⟩; cases h) hname

/-- It fails because of the name, and changes nothing. -/
theorem InStep.eq_of_add_fails (h : c.InStep) {s : State} (hs : s.IsOrdinary) {e : Error}
    (he : (addInPlace s).run c = .error e d) : e = .duplicateName s.name ∧ d = c := by
  rw [run_addInPlace] at he
  rcases h.add_cases hs with ⟨-, hadd⟩ | ⟨-, d, hadd, -⟩ <;> rw [hadd] at he <;> cases he
  exact ⟨rfl, rfl⟩

theorem InStep.link_succeeds (h : c.InStep) : ∃ d, Call.link.perform.run c = .ok () d := by
  obtain ⟨d, hlink, -⟩ := h.link_cases
  exact ⟨d, congrArg c.settle hlink⟩

theorem inStep_empty (autolink : Bool) : (empty autolink).InStep :=
  inStep_iff.mpr ⟨⟨.refl _, .nil, fun h => absurd rfl h⟩, nofun⟩

/-- What holds of the collection `c` after calls on an empty one. -/
structure AfterRun (calls : List Call) (autolink : Bool) (c : Collection State) : Prop where
  /-- The collection is in step. -/
  inStep : c.InStep
  /-- Adding fails exactly if the name is taken. -/
  fails : ∀ s : State, s.IsOrdinary →
    ((∃ e d, (addInPlace s).run c = .error e d) ↔ ∃ t ∈ c.states, t.name = s.name)
  /-- It fails for no other reason, and changes nothing. -/
  error : ∀ (s : State) (e : Error) (d : Collection State), s.IsOrdinary →
    (addInPlace s).run c = .error e d → e = .duplicateName s.name ∧ d = c
  /-- Chaining never fails. -/
  link : ∃ d, Call.link.perform.run c = .ok () d
  /-- The states are those that have been added, in order. -/
  names : c.states.map State.name = (added calls (empty autolink)).map State.name
  /-- Nothing has become of them but for changes of their transitions and updates. -/
  states : ∀ R, Traces R → (∀ call ∈ calls, call.Within R) →
    List.Forall₂ R (added calls (empty autolink)) c.states
  /-- The start is the last that has been set, or else the first state. -/
  startAt : c.startAt = (calls.filterMap Call.start?).getLast?.or
    ((added calls (empty autolink)).head?.map State.name)

/-- Ordinary calls keep the names of the states. -/
theorem Call.IsOrdinary.within_name {call : Call} (h : call.IsOrdinary) :
    call.Within fun s t => t.name = s.name := by
  cases call with
  | update name f => exact fun s hname => (h s hname).1.trans hname.symm
  | add s => trivial
  | link => trivial
  | setStart name => trivial

/-- **Every run of calls** that rename nothing, on an empty collection. -/
theorem afterRun (autolink : Bool) {calls : List Call}
    (hcalls : ∀ call ∈ calls, call.IsOrdinary) :
    AfterRun calls autolink (run calls (empty autolink)) := by
  have hempty := inStep_empty autolink
  have hsteps {R : State → State → Prop} (hR : Traces R) (hwithin : ∀ call ∈ calls, call.Within R) :
      Steps R calls (empty autolink) (run calls (empty autolink)) :=
    hempty.steps hR fun call hcall => ⟨hcalls call hcall, hwithin call hcall⟩
  -- that states keep their names is a relation that every run is within
  have hnames := hsteps traces_name fun call hcall => (hcalls call hcall).within_name
  have hinStep := hnames.inStep
  exact ⟨hinStep, fun s hs => hinStep.add_fails_iff hs,
    fun s e d hs => hinStep.eq_of_add_fails hs, hinStep.link_succeeds,
    map_name_eq_of_forall₂ hnames.states, fun R hR hwithin => (hsteps hR hwithin).states,
    hnames.startAt⟩

/-- **Collections stay in step**: the empty ones are, calls keep those that are so, an update
among them exactly if it renames nothing, and a run of calls adds every state whose name is
free. What is built is ordinary, so that this is about all states that can be added. -/
theorem calls_keep_inStep :
    (∀ (s : State) (c : Collection State), (addInPlace s).run c = c.settle (c.add s)) ∧
      (∀ s : State, s.Built → s.IsOrdinary) ∧
      (∀ autolink, (empty autolink).InStep) ∧
      (∀ c : Collection State, c.InStep →
        (∀ name i, c.position? name = some i → i < c.states.length) ∧
        (∀ name s, c.get? name = some s ↔ s ∈ c.states ∧ s.name = name) ∧
        (∀ call : Call, call.IsOrdinary → (call.after c).InStep) ∧
        (∀ name t, name ∈ c.names → t.IsOrdinary →
          (((Call.update name fun _ => t).after c).InStep ↔ t.name = name))) ∧
      ∀ (autolink : Bool) (calls : List Call), (∀ call ∈ calls, call.IsOrdinary) →
        AfterRun calls autolink (run calls (empty autolink)) := by
  refine ⟨run_addInPlace, fun s hs => hs.isOrdinary, inStep_empty, fun c h => ?_,
    fun autolink calls hcalls => afterRun autolink hcalls⟩
  refine ⟨fun name i hi => h.position_lt hi, fun name s => h.get?_eq_some, fun call hcall => ?_,
    fun name t hname ht => h.update_iff hname ht⟩
  exact (h.step traces_name hcall hcall.within_name).inStep

/-- A run that adds a state, fails to add another one of the same name, adds one more, and
sets a comment. -/
def takenTwice : List Call :=
  [.add (.new .task "First"), .add (.new .wait "First"), .add (.new .pass "Second"),
    .update "First" fun s => { s with comment := some "Works" }, .link, .setStart "Second"]

theorem calls_keep_inStep_takenTwice :
    (∀ call ∈ takenTwice, call.IsOrdinary) ∧
      (run takenTwice (empty true)).InStep ∧
      (added takenTwice (empty true)).map State.name = ["First", "Second"] ∧
      (run takenTwice (empty true)).states.map State.name = ["First", "Second"] ∧
      (run takenTwice (empty true)).startAt = some "Second" ∧
      (∃ e d, (addInPlace (.new .fail "First")).run (run takenTwice (empty true)) =
        .error e d) := by
  have hnew (kind : StateKind) (name : String) : (State.new kind name).IsOrdinary :=
    (State.Built.new kind name).isOrdinary
  have hordinary : ∀ call ∈ takenTwice, call.IsOrdinary := by
    simp only [takenTwice, List.forall_mem_cons]
    exact ⟨hnew _ _, hnew _ _, hnew _ _, fun s hname => ⟨hname, id⟩, trivial, trivial, nofun⟩
  obtain ⟨-, -, -, -, hruns⟩ := calls_keep_inStep
  have hrun := hruns true takenTwice hordinary
  have hadded : (added takenTwice (empty true)).map State.name = ["First", "Second"] := rfl
  have hnames := hrun.names.trans hadded
  refine ⟨hordinary, hrun.inStep, hadded, hnames, hrun.startAt, (hrun.fails _ (hnew _ _)).mpr ?_⟩
  exact List.mem_map.mp (hnames ▸ List.mem_cons_self)

end Collection

end StatesLanguage
