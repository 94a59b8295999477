import StatesLanguage.Proofs.Places

/-!
# Calls that fail have no effect

Whoever builds a model may go on after a call that has failed, on the model that it has left
behind. The result here, `failed_calls_have_no_effect`, is that this is always the model from
before the call. From every run the calls that fail can be deleted: the others return the same
and lead to the same model. And what is in the model in the end is what those others have put
there, each place holding the last of it.

Error handlers, rules, states, collections and machines are all builders in the sense of
`StatesLanguage.Proofs.CallHistories`, and so are the two fields that are kept in more than one
place. That they are lawful has been shown before, in two halves: what a call leaves behind when
it fails in `StatesLanguage.Proofs.Atomicity`, what it changes when it does not in
`StatesLanguage.Proofs.Places`. What remains is to read from the history of a place whether a
field is configured, and whether a result is discarded (`Builder.FieldsFollow`).
-/

namespace StatesLanguage

/-! ### Builders -/

/-- A projection. -/
inductive PathsPlace where
  /-- That of the input. -/
  | input
  /-- That of the output. -/
  | output

/-- Calls on projections of input and output, as they are kept. -/
def DataPaths.builder : Builder PathsEdit DataPaths.Memory PathsPlace where
  perform := Memory.perform
  value
    | .input, m => m.input.map .text
    | .output, m => m.output.map .text
  puts
    | .input, .setInput text, _ => some (.text text)
    | .output, .setOutput text, _ => some (.text text)
    | _, _, _ => none

/-- Calls on what becomes of a result, as it is kept. -/
def ResultPath.builder : Builder ResultPathEdit ResultPath.Memory Unit where
  perform := Memory.perform
  value _ m := if m.discard then some .discarded else m.path.map .text
  puts
    | (), .place text, _ => some (.text text)
    | (), .discard, _ => some .discarded

/-- A place in an error handler. -/
inductive CatcherPlace where
  /-- Where control goes. -/
  | transition
  /-- What becomes of the error output. -/
  | resultPath

/-- Calls on error handlers. -/
def Catcher.builder : Builder CatcherEdit Catcher CatcherPlace where
  perform := Catcher.perform
  value
    | .transition, c => c.next.transition.map .transition
    | .resultPath, c => c.resultPath.stored
  puts
    | .transition, .setTarget target, _ => some (.transition (.next target))
    | .transition, .setTerminal, _ => some (.transition .terminal)
    | .resultPath, .place text, _ => some (.text text)
    | .resultPath, .discard, _ => some .discarded
    | _, _, _ => none

/-- Calls on the nodes of a tree of rules. -/
def Rule.builder : Builder (List Nat × RuleEdit) Rule (List Nat × RuleSetting) where
  perform call := Rule.perform call.2 call.1
  value p r := r.value p.2 p.1
  puts p call r := r.puts p.2 p.1 call.2 call.1

/-- Calls on states, and on all that is inside them. -/
def State.builder : Builder StateEdit State StatePlace :=
  ⟨State.perform, State.value, State.puts⟩

/-- Calls on collections, and on the states in them. -/
def Collection.builder : Builder CollectionEdit (Collection State) CollectionPlace :=
  ⟨Collection.perform, Collection.value, Collection.puts⟩

/-- A place in a machine. -/
inductive MachinePlace where
  /-- The comment. -/
  | comment
  /-- How long the machine may run. -/
  | timeout
  /-- The version of the language. -/
  | version
  /-- One in the states. -/
  | states (q : CollectionPlace)

/-- Calls on machines. -/
def Machine.builder : Builder MachineEdit Machine MachinePlace where
  perform := Machine.perform
  value
    | .comment, m => m.comment.map .text
    | .timeout, m => m.timeout.map fun t => .seconds t.count
    | .version, m => m.version.map .text
    | .states q, m => Collection.value q m.states
  puts
    | .comment, .setComment text, _ => some (.text text)
    | .timeout, .setTimeout n, _ => some (.seconds n)
    | .version, .setVersion text, _ => some (.text text)
    | .states q, .states e, m => Collection.puts q e m.states
    | _, _, _ => none

/-! ### Their laws -/

theorem DataPaths.lawful :
    DataPaths.builder.Lawful (fun m => ∃ p : DataPaths, m = p.memory) fun _ => True := by
  refine Builder.lawful_of_atomic ?_
  rintro e _ ⟨p, rfl⟩ -
  refine ⟨_, run_memory e p, fun t ht => ?_⟩
  obtain ⟨q, hq, rfl⟩ := map_eq_ok.mp ht
  refine ⟨⟨q, rfl⟩, fun place => ?_⟩
  cases e with
  | setInput text | setOutput text =>
    obtain ⟨path, hpath, rfl⟩ := map_eq_ok.mp hq
    obtain rfl := (Path.ofString_eq_ok _ _).mp hpath
    cases place <;> rfl

theorem ResultPath.lawful :
    ResultPath.builder.Lawful (fun m => ∃ r : ResultPath, m = r.memory) fun _ => True := by
  refine Builder.lawful_of_atomic ?_
  rintro e _ ⟨r, rfl⟩ -
  refine ⟨_, run_memory e r, fun t ht => ?_⟩
  obtain ⟨q, hq, rfl⟩ := map_eq_ok.mp ht
  refine ⟨⟨q, rfl⟩, fun _ => ?_⟩
  cases e with
  | place text =>
    obtain ⟨path, hpath, rfl⟩ := map_eq_ok.mp hq
    obtain rfl := (Path.ofString_eq_ok _ _).mp hpath
    rfl
  | discard =>
    obtain rfl := Except.ok.inj hq
    rfl

theorem Catcher.lawful : Catcher.builder.Lawful (fun _ => True) fun _ => True := by
  refine Builder.lawful_of_atomic fun {e c} _ _ => ⟨_, Catcher.run_perform e c, fun d hd => ?_⟩
  refine ⟨trivial, fun p => ?_⟩
  cases e with
  | setTarget target =>
    obtain ⟨next, hnext, rfl⟩ := map_eq_ok.mp hd
    obtain rfl := TransitionField.eq_of_setTarget hnext
    cases p <;> rfl
  | setTerminal =>
    obtain ⟨next, hnext, rfl⟩ := map_eq_ok.mp hd
    obtain rfl := TransitionField.eq_of_setTerminal hnext
    cases p <;> rfl
  | place text =>
    obtain ⟨r, hr, rfl⟩ := map_eq_ok.mp hd
    obtain ⟨path, hpath, rfl⟩ := map_eq_ok.mp hr
    obtain rfl := (Path.ofString_eq_ok _ _).mp hpath
    cases p <;> rfl
  | discard =>
    obtain rfl := Except.ok.inj hd
    cases p <;> rfl

theorem Rule.lawful : Rule.builder.Lawful (fun _ => True) fun _ => True :=
  Builder.lawful_of_atomic fun {call r} _ _ => ⟨_, Rule.run_perform call.2 call.1 r,
    fun _ ht => ⟨trivial, fun p => Rule.value_apply ht p.2 p.1⟩⟩

theorem State.lawful : State.builder.Lawful State.Sound StateEdit.Built :=
  Builder.lawful_of_atomic fun {e s} hs he => ⟨_, e.runsAtomically s hs,
    fun t ht => ⟨he.keeps s t hs ht, e.isAccountedFor s t hs ht⟩⟩

theorem Collection.lawful : Collection.builder.Lawful Collection.Sound CollectionEdit.Built :=
  Builder.lawful_of_atomic fun {e c} hc he => ⟨_, e.runsAtomically c hc,
    fun d hd => ⟨he.keeps c d hc hd, e.isAccountedFor c d hc hd⟩⟩

/-- An edit of a machine that brings along only what is built itself. -/
def MachineEdit.IsBuilt (e : MachineEdit) : Prop :=
  ∀ f, e = .states f → f.Built

theorem Machine.lawful :
    Machine.builder.Lawful (fun m => m.states.Sound) MachineEdit.IsBuilt := by
  refine Builder.lawful_of_atomic fun {e m} hm he => ⟨_, Machine.run_perform e hm, fun n hn => ?_⟩
  cases e with
  | states f =>
    obtain ⟨states, hstates, rfl⟩ := map_eq_ok.mp hn
    refine ⟨(he f rfl).keeps _ _ hm hstates, fun p => ?_⟩
    cases p with
    | states q => exact f.isAccountedFor _ _ hm hstates q
    | comment | timeout | version => exact Option.none_or.symm
  | setTimeout seconds =>
    obtain ⟨t, ht, rfl⟩ := map_eq_ok.mp hn
    obtain rfl := (Seconds.ofCount_eq_ok _ _ _).mp ht
    exact ⟨hm, fun p => by cases p <;> rfl⟩
  | setComment text | setVersion text =>
    obtain rfl := Except.ok.inj hn
    exact ⟨hm, fun p => by cases p <;> rfl⟩

/-! ### States inside of states -/

/-- The state at an address: in a branch, the state of a name, and so on downwards. -/
def State.at? : List (Nat × String) → State → Option State
  | [], s => some s
  | (i, name) :: address, s => s.branches[i]?.bind fun c => (c.get? name).bind (at? address)

/-- The place in the state at an address, as one of the whole state. -/
def StatePlace.within : List (Nat × String) → StatePlace → StatePlace
  | [], p => p
  | (i, name) :: address, p => .branch i (.held name (within address p))

/-- **What is stored inside is what the states inside store**: by induction on the address. -/
theorem State.value_within (address : List (Nat × String)) (p : StatePlace) (s : State) :
    State.value (p.within address) s = (s.at? address).bind (State.value p) := by
  induction address generalizing s with
  | nil => rfl
  | cons step address ih =>
    obtain ⟨i, name⟩ := step
    have hih : State.value (p.within address) = fun t => (t.at? address).bind (State.value p) :=
      funext ih
    have hheld : Collection.value (.held name (p.within address)) =
        fun c => ((c.get? name).bind (at? address)).bind (State.value p) := by
      funext c
      rw [Collection.value, hih, Option.bind_assoc]
    rw [StatePlace.within, State.value, hheld, at?, Option.bind_assoc]

section Fields

variable {κ σ π : Type} {B : Builder κ σ π} {calls : List κ} {s : σ} {place : StatePlace → π}
  {t : State}

/-- The declared fields of a state inside a model, as the history of its places has it. -/
structure Builder.FieldsFollow (B : Builder κ σ π) (calls : List κ) (s : σ)
    (place : StatePlace → π) (t : State) : Prop where
  /-- A field is configured if something has been put there. -/
  configured : ∀ f ∈ t.fields, f.isConfigured = true ↔
    ∃ x : Setting, x.field? = some f.kind ∧ B.history (place (.own x)) calls s ≠ []
  /-- A result is discarded if that has been said last. -/
  discarded : ∀ r, .resultPath r ∈ t.fields →
    (r.isDiscarded = true ↔
      (B.history (place (.own .resultPath)) calls s).getLast? = some .discarded)

theorem ResultPath.isDiscarded_iff (r : ResultPath) :
    r.isDiscarded = true ↔ r.stored = some .discarded := by
  cases r with
  | unset => exact iff_of_false Bool.false_ne_true (by rintro ⟨⟩)
  | discarded => exact iff_of_true rfl rfl
  | placed path => exact iff_of_false Bool.false_ne_true (by rintro ⟨⟩)

theorem ResultPath.isConfigured_eq (r : ResultPath) : r.isConfigured = r.stored.isSome := by
  cases r <;> rfl

/-- Where a model stores what is in a state, the history of the model is that of the state. -/
theorem Builder.Explains.fieldsFollow (h : B.Explains calls s)
    (ht : ∀ p, B.value (place p) (B.run calls s) = State.value p t) :
    B.FieldsFollow calls s place t := by
  have hstored : ∀ x : Setting, t.stored x = (B.history (place (.own x)) calls s).getLast? :=
    fun x => (ht (.own x)).symm.trans (h.stored _)
  refine ⟨fun f hf => ?_, fun r hr => ?_⟩
  · simp only [State.isConfigured_iff hf, hstored, List.getLast?_isSome]
  · have hget : Body.resultPathPart.get? t.body = some r := State.declares_of_mem_fields hr
    rw [ResultPath.isDiscarded_iff, ← hstored, State.stored, hget]
    rfl

end Fields

/-! ### The accounts of runs -/

/-- Calls on projections of input and output, of which none is set at first. -/
structure DataPaths.CallsExplained (calls : List PathsEdit) : Prop where
  /-- The projections are as their history has it. -/
  explains : builder.Explains calls (memory {})
  /-- The flag is in step with the projections, -/
  inStep : ∃ p : DataPaths, builder.run calls (memory {}) = p.memory
  /-- and set if one of them has been. -/
  configured : (builder.run calls (memory {})).configured = true ↔
    ∃ place, builder.history place calls (memory {}) ≠ []

theorem DataPaths.callsExplained (calls : List PathsEdit) : CallsExplained calls := by
  have hall : ∀ call ∈ calls, True := fun _ _ => trivial
  have hexplains : builder.Explains calls (memory {}) :=
    lawful.explains ⟨{}, rfl⟩ hall fun place => by cases place <;> rfl
  obtain ⟨p, hp⟩ := lawful.run_good (s := memory {}) ⟨{}, rfl⟩ hall
  refine ⟨hexplains, ⟨p, hp⟩, ?_⟩
  have hstored : ∀ place, builder.value place p.memory =
      (builder.history place calls (memory {})).getLast? := by
    intro place
    rw [← hp, hexplains.stored place]
  have hinput : p.input.isSome = (builder.value .input p.memory).isSome := by
    cases h : p.input <;> simp [builder, memory, h]
  have houtput : p.output.isSome = (builder.value .output p.memory).isSome := by
    cases h : p.output <;> simp [builder, memory, h]
  rw [hp, memory, isConfigured, hinput, houtput, hstored, hstored, Bool.or_eq_true,
    List.getLast?_isSome, List.getLast?_isSome]
  refine ⟨?_, ?_⟩
  · rintro (h | h)
    · exact ⟨_, h⟩
    · exact ⟨_, h⟩
  · rintro ⟨_ | _, h⟩
    · exact Or.inl h
    · exact Or.inr h

/-- Calls on what becomes of a result, of which nothing is said at first. -/
structure ResultPath.CallsExplained (calls : List ResultPathEdit) : Prop where
  /-- What is said is as its history has it. -/
  explains : builder.Explains calls unset.memory
  /-- The mark and the text are in step, -/
  inStep : ∃ r : ResultPath, builder.run calls unset.memory = r.memory
  /-- there is one of them if something has been said, -/
  configured : (builder.run calls unset.memory).discard = true ∨
    (builder.run calls unset.memory).path.isSome = true ↔ builder.history () calls unset.memory ≠ []
  /-- and it is the mark if it is the last that has been said. -/
  discarded : (builder.run calls unset.memory).discard = true ↔
    (builder.history () calls unset.memory).getLast? = some .discarded

theorem ResultPath.callsExplained (calls : List ResultPathEdit) : CallsExplained calls := by
  have hall : ∀ call ∈ calls, True := fun _ _ => trivial
  have hexplains : builder.Explains calls unset.memory :=
    lawful.explains ⟨.unset, rfl⟩ hall fun _ => rfl
  obtain ⟨r, hr⟩ := lawful.run_good (s := unset.memory) ⟨.unset, rfl⟩ hall
  have hstored : builder.value () r.memory = (builder.history () calls unset.memory).getLast? := by
    rw [← hr, hexplains.stored ()]
  refine ⟨hexplains, ⟨r, hr⟩, ?_, ?_⟩
  · rw [hr, ← List.getLast?_isSome, ← hstored]
    cases r <;> simp [builder, memory]
  · rw [hr, ← hstored]
    cases r <;> simp [builder, memory]

/-- An error handler in which nothing but the errors is set. -/
def Catcher.new (errors : List ErrorName) : Catcher :=
  ⟨errors, .unset .ordinary, .unset⟩

/-- Calls on a new error handler. -/
structure Catcher.CallsExplained (errors : List ErrorName) (calls : List CatcherEdit) : Prop where
  /-- The transition and the error output are as their history has it. -/
  explains : builder.Explains calls (new errors)
  /-- It is said what becomes of the error output, if it has been, -/
  configured : (builder.run calls (new errors)).resultPath.isConfigured = true ↔
    builder.history .resultPath calls (new errors) ≠ []
  /-- and it is discarded if that has been said last. -/
  discarded : (builder.run calls (new errors)).resultPath.isDiscarded = true ↔
    (builder.history .resultPath calls (new errors)).getLast? = some .discarded

theorem Catcher.callsExplained (errors : List ErrorName) (calls : List CatcherEdit) :
    CallsExplained errors calls := by
  have hexplains : builder.Explains calls (new errors) :=
    lawful.explains trivial (fun _ _ => trivial) fun p => by cases p <;> rfl
  have hstored := hexplains.stored .resultPath
  refine ⟨hexplains, ?_, ?_⟩
  · rw [ResultPath.isConfigured_eq, ← List.getLast?_isSome, ← hstored]
    rfl
  · rw [ResultPath.isDiscarded_iff, ← hstored]
    rfl

/-- Calls on a new state, and on all that is inside it. -/
structure State.CallsExplained (kind : StateKind) (name : String) (calls : List StateEdit) :
    Prop where
  /-- What is stored is as the history has it. -/
  explains : builder.Explains calls (.new kind name)
  /-- So are the fields of the state, and of each state inside it. -/
  fields : ∀ address t, (builder.run calls (.new kind name)).at? address = some t →
    builder.FieldsFollow calls (.new kind name) (StatePlace.within address) t

theorem State.callsExplained (kind : StateKind) (name : String) {calls : List StateEdit}
    (hcalls : ∀ e ∈ calls, e.Built) : CallsExplained kind name calls := by
  have hexplains : builder.Explains calls (.new kind name) :=
    lawful.explains (State.sound_new kind name) hcalls (State.value_new kind name)
  refine ⟨hexplains, fun address t ht => hexplains.fieldsFollow fun p => ?_⟩
  refine (State.value_within address p _).trans ?_
  rw [ht]
  rfl

/-- Calls on a new collection, and on the states in it. -/
structure Collection.CallsExplained (autolink : Bool) (calls : List CollectionEdit) : Prop where
  /-- What is stored is as the history has it. -/
  explains : builder.Explains calls (.empty autolink)
  /-- So are the fields of each state that is held, and of the states inside it. -/
  fields : ∀ name address s t, (builder.run calls (.empty autolink)).get? name = some s →
    s.at? address = some t → builder.FieldsFollow calls (.empty autolink)
      (fun p => .held name (p.within address)) t

theorem Collection.value_held_within {c : Collection State} {name : String} {s t : State}
    {address : List (Nat × String)} (hs : c.get? name = some s) (ht : s.at? address = some t)
    (p : StatePlace) : Collection.value (.held name (p.within address)) c = State.value p t := by
  rw [Collection.value, hs]
  refine (State.value_within address p s).trans ?_
  rw [ht]
  rfl

theorem Collection.callsExplained (autolink : Bool) {calls : List CollectionEdit}
    (hcalls : ∀ e ∈ calls, e.Built) : CallsExplained autolink calls := by
  have hexplains : builder.Explains calls (.empty autolink) :=
    lawful.explains (Collection.sound_empty autolink) hcalls (Collection.value_empty autolink)
  exact ⟨hexplains, fun name address s t hs ht => hexplains.fieldsFollow fun p =>
    Collection.value_held_within hs ht p⟩

/-- Calls on a new machine, and on its states. -/
structure Machine.CallsExplained (autolink : Bool) (calls : List MachineEdit) : Prop where
  /-- What is stored is as the history has it. -/
  explains : builder.Explains calls (.empty autolink)
  /-- So are the fields of each state, and of the states inside it. -/
  fields : ∀ name address s t, (builder.run calls (.empty autolink)).states.get? name = some s →
    s.at? address = some t → builder.FieldsFollow calls (.empty autolink)
      (fun p => .states (.held name (p.within address))) t

theorem Machine.callsExplained (autolink : Bool) {calls : List MachineEdit}
    (hcalls : ∀ e ∈ calls, e.IsBuilt) : CallsExplained autolink calls := by
  have hnew : ∀ p, builder.value p (.empty autolink) = none := by
    intro p
    cases p with
    | states q => exact Collection.value_empty autolink q
    | comment | timeout | version => rfl
  have hexplains : builder.Explains calls (.empty autolink) :=
    lawful.explains (s := .empty autolink) (Collection.sound_empty autolink) hcalls hnew
  exact ⟨hexplains, fun name address s t hs ht => hexplains.fieldsFollow fun p =>
    Collection.value_held_within hs ht p⟩

/-- **Calls that fail have no effect**, and the others have the one that is said of them. This
holds of every run of calls, on models of all sorts, whatever they are like when it begins; and
on a model in which nothing is stored then, the calls that do not fail explain everything. -/
theorem failed_calls_have_no_effect :
    (∀ calls, DataPaths.CallsExplained calls) ∧
      (∀ calls, ResultPath.CallsExplained calls) ∧
      (∀ c calls, Catcher.builder.Accounts calls c) ∧
      (∀ errors calls, Catcher.CallsExplained errors calls) ∧
      (∀ r calls, Rule.builder.Accounts calls r) ∧
      (∀ mode op calls, Rule.builder.Explains calls (.new mode op)) ∧
      (∀ s calls, s.Built → (∀ e ∈ calls, e.Built) → State.builder.Accounts calls s) ∧
      (∀ kind name calls, (∀ e ∈ calls, e.Built) → State.CallsExplained kind name calls) ∧
      (∀ c calls, c.Built → (∀ e ∈ calls, e.Built) → Collection.builder.Accounts calls c) ∧
      (∀ autolink calls, (∀ e ∈ calls, e.Built) → Collection.CallsExplained autolink calls) ∧
      (∀ m calls, m.Built → (∀ e ∈ calls, e.IsBuilt) → Machine.builder.Accounts calls m) ∧
      ∀ autolink calls, (∀ e ∈ calls, e.IsBuilt) → Machine.CallsExplained autolink calls := by
  have hall : ∀ {κ : Type} (calls : List κ), ∀ call ∈ calls, True := fun _ _ _ => trivial
  refine ⟨DataPaths.callsExplained, ResultPath.callsExplained, fun c calls => ?_,
    Catcher.callsExplained, fun r calls => ?_, fun mode op calls => ?_,
    fun s calls hs hcalls => ?_, fun kind name calls => State.callsExplained kind name,
    fun c calls hc hcalls => ?_, fun autolink calls => Collection.callsExplained autolink,
    fun m calls hm hcalls => ?_, fun autolink calls => Machine.callsExplained autolink⟩
  · exact Catcher.lawful.accounts trivial (hall calls)
  · exact Rule.lawful.accounts trivial (hall calls)
  · exact Rule.lawful.explains trivial (hall calls) fun p => Rule.value_new p.2 p.1 mode op
  · exact State.lawful.accounts hs.sound hcalls
  · exact Collection.lawful.accounts hc.sound hcalls
  · exact Machine.lawful.accounts hm.sound hcalls

/-- Calls on a collection, four of which fail: two are given what is no path expression, one
adds a second state of a name, and one sets a time of no seconds. -/
def fourFailing : List CollectionEdit :=
  [.add (.new .pass "First"), .editState "First" (.setInput "first"),
    .editState "First" .discardResult, .editState "First" (.placeResult "$"),
    .add (.new .wait "First"), .add (.new .task "Second"), .editState "Second" (.setTimeout 5),
    .editState "Second" (.setTimeout 0)]

theorem fourFailing_built : ∀ e ∈ fourFailing, e.Built := by
  simp only [fourFailing, List.forall_mem_cons]
  exact ⟨.add (.new _ _), .editState (.plain rfl), .editState (.plain rfl), .editState (.plain rfl),
    .add (.new _ _), .add (.new _ _), .editState (.plain rfl), .editState (.plain rfl),
    List.forall_mem_nil _⟩

theorem failed_calls_have_no_effect_fourFailing :
    (Collection.builder.results fourFailing (.empty true)).map Except.isOk =
        [true, false, true, false, false, true, true, false] ∧
      Collection.builder.run (Collection.builder.succeeding fourFailing (.empty true))
        (.empty true) = Collection.builder.run fourFailing (.empty true) ∧
      [Setting.input, .transition, .resultPath].map (fun x => Collection.builder.value
        (.held "First" (.own x)) (Collection.builder.run fourFailing (.empty true))) =
          [none, some (.transition (.next "Second")), some .discarded] ∧
      Collection.builder.value (.held "Second" (.own .timeout))
        (Collection.builder.run fourFailing (.empty true)) = some (.seconds 5) := by
  obtain ⟨-, -, -, -, -, -, -, -, -, hcollections, -⟩ := failed_calls_have_no_effect
  obtain ⟨⟨⟨hmodel, -, -⟩, hstored⟩, -⟩ := hcollections true fourFailing fourFailing_built
  refine ⟨rfl, hmodel, ?_, ?_⟩
  · simp only [List.map_cons, List.map_nil, hstored]
    rfl
  · rw [hstored]
    rfl

end StatesLanguage
