import StatesLanguage.Proofs.InPlace

/-!
# Edits of whole models are atomic

The programs for states, collections and machines are put together from those for their parts,
and nest in each other as the edits do (`State.perform`, `Collection.perform`). They are atomic
because the programs for the parts are, with two exceptions.

Adding a state changes several things of a collection, but checks all it has to check before;
that is `Collection.run_addInPlace`. Linking does not: it changes one state after another, and
a state that refused its transition would leave those before it linked. So
`Collection.run_linkInPlace` is about ordinary states, which refuse none, and an edit is atomic
on sound models (`StateEdit.runsAtomically`, `CollectionEdit.runsAtomically`,
`Machine.run_perform`), as all models are that are built.
-/

namespace StatesLanguage

/-! ### Bodies -/

namespace Body

variable {σ : Type}

/-- The transition. -/
def nextPart : Part (Body σ) TransitionField where
  get? := next?
  put next
    | .pass b => .pass { b with next }
    | .task b => .task { b with next }
    | .wait b => .wait { b with next }
    | .parallel b => .parallel { b with next }
    | b => b
  put_of_get? {b _} h := by
    cases b with
    | pass b | task b | wait b | parallel b =>
      obtain rfl := Option.some.inj h
      rfl
    | succeed | fail b | choice b => cases h

theorem edit_nextPart (f : TransitionField → Except Error TransitionField) :
    (nextPart : Part (Body σ) TransitionField).edit f = editNext f := by
  funext b
  cases b <;> rfl

/-- The projections of input and output. -/
def pathsPart : Part (Body σ) DataPaths where
  get?
    | .pass b => some b.paths
    | .task b => some b.paths
    | .parallel b => some b.paths
    | _ => none
  put paths
    | .pass b => .pass { b with paths }
    | .task b => .task { b with paths }
    | .parallel b => .parallel { b with paths }
    | b => b
  put_of_get? {b _} h := by
    cases b with
    | pass b | task b | parallel b =>
      obtain rfl := Option.some.inj h
      rfl
    | wait b | succeed | fail b | choice b => cases h

/-- The placement of the result. -/
def resultPathPart : Part (Body σ) ResultPath where
  get?
    | .pass b => some b.resultPath
    | .task b => some b.resultPath
    | .parallel b => some b.resultPath
    | _ => none
  put := withResultPath
  put_of_get? {b _} h := by
    cases b with
    | pass b | task b | parallel b =>
      obtain rfl := Option.some.inj h
      rfl
    | wait b | succeed | fail b | choice b => cases h

/-- The fixed result. -/
def resultPart : Part (Body σ) (Option Json) where
  get?
    | .pass b => some b.result
    | .task b => some b.result
    | _ => none
  put result
    | .pass b => .pass { b with result }
    | .task b => .task { b with result }
    | b => b
  put_of_get? {b _} h := by
    cases b with
    | pass b | task b =>
      obtain rfl := Option.some.inj h
      rfl
    | wait b | succeed | fail b | choice b | parallel b => cases h

/-- What a task is made of. -/
def taskPart : Part (Body σ) Task where
  get?
    | .task b => some b
    | _ => none
  put c
    | .task _ => .task c
    | b => b
  put_of_get? {b _} h := by
    cases b with
    | task b =>
      obtain rfl := Option.some.inj h
      rfl
    | _ => cases h

/-- What a wait is made of. -/
def waitPart : Part (Body σ) Wait where
  get?
    | .wait b => some b
    | _ => none
  put c
    | .wait _ => .wait c
    | b => b
  put_of_get? {b _} h := by
    cases b with
    | wait b =>
      obtain rfl := Option.some.inj h
      rfl
    | _ => cases h

/-- What a failure is made of. -/
def failPart : Part (Body σ) Fail where
  get?
    | .fail b => some b
    | _ => none
  put c
    | .fail _ => .fail c
    | b => b
  put_of_get? {b _} h := by
    cases b with
    | fail b =>
      obtain rfl := Option.some.inj h
      rfl
    | _ => cases h

/-- What a choice is made of. -/
def choicePart : Part (Body σ) Choice where
  get?
    | .choice b => some b
    | _ => none
  put c
    | .choice _ => .choice c
    | b => b
  put_of_get? {b _} h := by
    cases b with
    | choice b =>
      obtain rfl := Option.some.inj h
      rfl
    | _ => cases h

/-- The branches. -/
def branchesPart : Part (Body σ) (List (Collection σ)) where
  get?
    | .parallel b => some b.branches
    | _ => none
  put branches
    | .parallel b => .parallel { b with branches }
    | b => b
  put_of_get? {b _} h := by
    cases b with
    | parallel b =>
      obtain rfl := Option.some.inj h
      rfl
    | _ => cases h

end Body

/-- The rules of a choice. -/
def Choice.rulesPart : Part Choice (List Rule) where
  get? b := some b.rules
  put rules b := { b with rules }
  put_of_get? {_ _} h := by
    obtain rfl := Option.some.inj h
    rfl

namespace State

/-- The body. -/
def bodyPart : Part State (Body State) where
  get? s := some s.body
  put body s := { s with body }
  put_of_get? {s _} h := by
    cases s
    obtain rfl := Option.some.inj h
    rfl

/-- Changes a part of the body. -/
def inBody {τ : Type} (P : Part (Body State) τ) (x : EStateM Error τ Unit) :
    EStateM Error State Unit :=
  bodyPart.perform (P.perform x)

theorem run_inBody {τ : Type} {P : Part (Body State) τ} {x : EStateM Error τ Unit}
    {f : τ → Except Error τ} {s : State}
    (h : ∀ t, P.get? s.body = some t → x.run t = atomic t (f t)) :
    (inBody P x).run s = atomic s (s.editBody (P.edit f)) :=
  bodyPart.run_perform fun _ hb => P.run_perform fun t ht => h t (Option.some.inj hb ▸ ht)

end State

/-! ### Linking in place -/

namespace Collection

/-- The states. -/
def statesPart : Part (Collection State) (List State) where
  get? c := some c.states
  put states c := { c with states }
  put_of_get? {_ _} h := by
    obtain rfl := Option.some.inj h
    rfl

/-- The state of a name. -/
def heldPart (name : String) : Part (Collection State) State where
  get? c := c.get? name
  put s c :=
    match c.position? name with
    | some i => { c with states := c.states.set i s }
    | none => c
  put_of_get? {c s} h := by
    obtain ⟨i, hi, hs⟩ := Option.bind_eq_some_iff.mp h
    obtain ⟨hlt, rfl⟩ := List.getElem?_eq_some_iff.mp hs
    rw [hi]
    dsimp only
    rw [List.set_getElem_self]

theorem get?_of_position?_eq_some {c : Collection State} {name : String} {i : Nat}
    (h : c.position? name = some i) : c.get? name = c.states[i]? := by
  rw [get?, h]
  rfl

theorem get?_of_position?_eq_none {c : Collection State} {name : String}
    (h : c.position? name = none) : c.get? name = none := by
  rw [get?, h]
  rfl

theorem edit_heldPart (name : String) (f : State → Except Error State) (c : Collection State) :
    (heldPart name).edit f c = c.edit name f := by
  rw [Part.edit, edit]
  cases hi : c.position? name with
  | none =>
    have hget : (heldPart name).get? c = none := get?_of_position?_eq_none hi
    rw [hget]
  | some i =>
    have hget : (heldPart name).get? c = c.states[i]? := get?_of_position?_eq_some hi
    have hput : ∀ s, (heldPart name).put s c = { c with states := c.states.set i s } := by
      intro s
      simp only [heldPart, hi]
    rw [hget]
    cases hs : c.states[i]? with
    | none =>
      dsimp only
      rw [editAt_of_getElem?_eq_none f hs]
      rfl
    | some s =>
      dsimp only
      rw [editAt_of_getElem? f hs]
      simp only [hput]
      cases f s <;> rfl

theorem settle_eq_atomic (c : Collection State) (x : Except Error (Collection State)) :
    c.settle x = atomic c x := by
  cases x <;> rfl

/-- Chains the state at a position. -/
def linkAt (i : Nat) (following : Option String) : EStateM Error (Collection State) Unit :=
  statesPart.perform <| (Part.item i).perform <|
    State.inBody Body.nextPart (TransitionField.linkInPlace following)

/-- Chains the states from a position on, whose names are given. -/
def linkFrom : Nat → List String → EStateM Error (Collection State) Unit
  | _, [] => pure ()
  | i, _ :: names => do
    linkAt i names.head?
    linkFrom (i + 1) names

/-- Chains the states by changing one after another. Their names are noted beforehand. -/
def linkInPlace : EStateM Error (Collection State) Unit := do
  linkFrom 0 ((← get).states.map State.name)

theorem run_linkState (following : Option State) (s : State) :
    (State.inBody Body.nextPart (TransitionField.linkInPlace (following.map State.name))).run s =
      atomic s (linkState following s) := by
  refine (State.run_inBody fun f _ => TransitionField.run_linkInPlace following f).trans ?_
  rw [Body.edit_nextPart]
  rfl

theorem run_linkAt {before : List State} {s : State} (hs : s.IsOrdinary) (following : Option State)
    (c : Collection State) (after : List State) :
    (linkAt before.length (following.map State.name)).run
        { c with states := before ++ s :: after } =
      .ok () { c with
        states := before ++ s.mapNext (.filled (.onward following)) :: after } := by
  obtain ⟨t, ht, -⟩ := handles_linkState following hs
  have hitem : (before ++ s :: after)[before.length]? = some s := by simp
  have hrun : (linkAt before.length (following.map State.name)).run
      { c with states := before ++ s :: after } = atomic _ (statesPart.edit
        ((Part.item before.length).edit (linkState following)) _) :=
    statesPart.run_perform fun _ _ => (Part.item _).run_perform fun u _ => run_linkState following u
  rw [hrun, Part.edit]
  dsimp only [statesPart]
  rw [Part.edit_item, editAt_of_getElem? _ hitem, ht, eq_of_linkState ht]
  dsimp only [Except.map]
  rw [List.set_append_right _ _ (Nat.le_refl _), Nat.sub_self]
  rfl

/-- **Linking in place links**: by induction on the states that are still to be linked, of
which none refuses its transition. -/
theorem run_linkFrom (before : List State) {ss : List State} (hss : ∀ s ∈ ss, s.IsOrdinary)
    (c : Collection State) :
    (linkFrom before.length (ss.map State.name)).run { c with states := before ++ ss } =
      .ok () { c with states := before ++ chain .filled ss } := by
  induction ss generalizing before with
  | nil => rfl
  | cons s ss ih =>
    obtain ⟨hs, hss⟩ := List.forall_mem_cons.mp hss
    have hrest := ih (before ++ [s.mapNext (.filled (.onward ss.head?))]) hss
    rw [List.length_append, List.append_assoc, List.append_assoc] at hrest
    rw [List.map_cons, linkFrom, EStateM.run_bind, List.head?_map, run_linkAt hs]
    exact hrest

theorem run_linkInPlace {c : Collection State} (h : ∀ s ∈ c.states, s.IsOrdinary) :
    linkInPlace.run c = atomic c c.link := by
  rw [link_eq_ok h]
  exact run_linkFrom [] h c

end Collection

/-! ### Programs for states and collections -/

mutual

/-- Changes a state. -/
def State.perform : StateEdit → EStateM Error State Unit
  | .setComment text => modify fun s => { s with comment := some text }
  | .setTarget target => State.inBody Body.nextPart (TransitionField.targetInPlace target)
  | .setTerminal => State.inBody Body.nextPart TransitionField.terminalInPlace
  | .setInput text => State.inBody Body.pathsPart <|
    assign (Path.ofString text) fun path p => { p with input := some path }
  | .setOutput text => State.inBody Body.pathsPart <|
    assign (Path.ofString text) fun path p => { p with output := some path }
  | .placeResult text => assign (Path.ofString text) fun path s =>
    { s with body := s.body.withResultPath (.placed path) }
  | .discardResult => State.inBody Body.resultPathPart <| set ResultPath.discarded
  | .setResult v => State.inBody Body.resultPart <| set (some v)
  | .setResource text => State.inBody Body.taskPart <|
    modify fun b => { b with resource := some text }
  | .setTimeout n => State.inBody Body.taskPart <|
    assign (Seconds.ofCount "TimeoutSeconds" n) fun t b => { b with timeout := some t }
  | .setHeartbeat n => State.inBody Body.taskPart <|
    assign (Seconds.ofCount "HeartbeatSeconds" n) fun t b => { b with heartbeat := some t }
  | .addRetrier r => State.inBody Body.taskPart <|
    modify fun b => { b with retriers := b.retriers ++ [r] }
  | .addCatcher c => State.inBody Body.taskPart <|
    modify fun b => { b with catchers := b.catchers ++ [c] }
  | .setSeconds n => State.inBody Body.waitPart <|
    assign (Seconds.ofCount "Seconds" n) fun t b => { b with seconds := some t }
  | .setError text => State.inBody Body.failPart <| modify fun b => { b with error := some text }
  | .setCause text => State.inBody Body.failPart <| modify fun b => { b with cause := some text }
  | .setFallback target => State.inBody Body.choicePart <|
    modify fun b => { b with fallback := some target }
  | .addRule op => State.inBody Body.choicePart <| Choice.rulesPart.perform <|
    modify fun rules => rules ++ [.new .withoutEnd op]
  | .editRule root address e => State.inBody Body.choicePart <| Choice.rulesPart.perform <|
    (Part.item root).perform (Rule.perform e address)
  | .addBranch => State.inBody Body.branchesPart <|
    modify fun branches => branches ++ [.empty defaultAutolink]
  | .pushBranch c => State.inBody Body.branchesPart <| modify fun branches => branches ++ [c]
  | .editBranch i e => State.inBody Body.branchesPart <|
    (Part.item i).perform (Collection.perform e)

/-- Changes a collection. -/
def Collection.perform : CollectionEdit → EStateM Error (Collection State) Unit
  | .add s => Collection.addInPlace s
  | .link => Collection.linkInPlace
  | .setStart name => modify fun c => c.withStart name
  | .editState name e => (Collection.heldPart name).perform (State.perform e)

end

/-- The program of an edit of states is atomic on sound states. -/
def StateEdit.RunsAtomically (e : StateEdit) : Prop :=
  ∀ s : State, s.Sound → (State.perform e).run s = atomic s (State.apply e s)

/-- The program of an edit of collections is atomic on sound collections. -/
def CollectionEdit.RunsAtomically (e : CollectionEdit) : Prop :=
  ∀ c : Collection State, c.Sound → (Collection.perform e).run c = atomic c (Collection.apply e c)

theorem Rule.run_perform_item (e : RuleEdit) (address : List Nat) (i : Nat) (rules : List Rule) :
    ((Part.item i).perform (Rule.perform e address)).run rules =
      atomic rules (editAt (Rule.apply e address) i rules) := by
  rw [← Part.edit_item]
  exact (Part.item i).run_perform fun r _ => Rule.run_perform e address r

/-- An edit that brings no edit of a collection along. -/
def StateEdit.isFlat : StateEdit → Bool
  | .editBranch _ _ => false
  | _ => true

theorem StateEdit.runsAtomically_of_isFlat {e : StateEdit} (he : e.isFlat = true) :
    e.RunsAtomically := by
  rintro ⟨name, comment, body⟩ -
  cases e with
  | setComment text => rfl
  | setTarget target =>
    refine (State.run_inBody fun f _ => TransitionField.run_targetInPlace target f).trans ?_
    rw [Body.edit_nextPart]
    rfl
  | setTerminal =>
    refine (State.run_inBody fun f _ => TransitionField.run_terminalInPlace f).trans ?_
    rw [Body.edit_nextPart]
    rfl
  | setInput text | setOutput text | setTimeout n | setHeartbeat n | setSeconds n =>
    refine (State.run_inBody fun b _ => run_assign _ _ b).trans ?_
    cases body <;> rfl
  | placeResult text =>
    refine (run_assign _ _ _).trans ?_
    rw [State.apply, ResultPath.place]
    cases Path.ofString text <;> rfl
  | discardResult | setResult v | setResource text | addRetrier r | addCatcher c | setError text
  | setCause text | setFallback target | addRule op | addBranch | pushBranch c =>
    -- nothing is checked, and kinds that do not have the part are left as they are
    cases body <;> rfl
  | editRule root address f =>
    refine (State.run_inBody fun b _ => Choice.rulesPart.run_perform fun rules _ =>
      Rule.run_perform_item f address root rules).trans ?_
    cases body <;> rfl
  | editBranch i e => cases he

/-- The branches of a sound state are sound. -/
theorem StateEdit.runsAtomically_editBranch {e : CollectionEdit} (he : e.RunsAtomically) (i : Nat) :
    (StateEdit.editBranch i e).RunsAtomically := by
  intro s hs
  have hbranches : ∀ cs, Body.branchesPart.get? s.body = some cs →
      ((Part.item i).perform (Collection.perform e)).run cs =
        atomic cs (editAt (Collection.apply e) i cs) := by
    intro cs hcs
    have hsound : ∀ c ∈ cs, c.Sound := by
      obtain ⟨name, comment, body⟩ := s
      cases body with
      | parallel b =>
        obtain rfl := Option.some.inj hcs
        exact hs.branches
      | _ => cases hcs
    rw [← Part.edit_item]
    exact (Part.item i).run_perform fun c hc => he c (hsound c (List.mem_of_getElem? hc))
  refine (State.run_inBody hbranches).trans ?_
  obtain ⟨name, comment, body⟩ := s
  cases body <;> rfl

/-- The states of a sound collection are sound. -/
theorem CollectionEdit.runsAtomically_editState {e : StateEdit} (he : e.RunsAtomically)
    (name : String) : (CollectionEdit.editState name e).RunsAtomically := by
  intro c hc
  refine ((Collection.heldPart name).run_perform fun s hs => he s ?_).trans ?_
  · obtain ⟨i, -, hs⟩ := Option.bind_eq_some_iff.mp hs
    exact hc.inside s (List.mem_of_getElem? hs)
  · rw [Collection.edit_heldPart]
    rfl

theorem CollectionEdit.runsAtomically_link : CollectionEdit.link.RunsAtomically :=
  fun _ hc => Collection.run_linkInPlace fun s hs f hf => ((hc.inside s hs).body.next f hf).mode_eq

mutual

/-- **Edits of states are atomic**, those of all that is inside them included. -/
theorem StateEdit.runsAtomically (e : StateEdit) : e.RunsAtomically := by
  cases e with
  | editBranch i e => exact StateEdit.runsAtomically_editBranch e.runsAtomically i
  | _ => exact StateEdit.runsAtomically_of_isFlat rfl

/-- **Edits of collections are atomic.** -/
theorem CollectionEdit.runsAtomically (e : CollectionEdit) : e.RunsAtomically := by
  cases e with
  | add s => exact fun c _ => (Collection.run_addInPlace s c).trans (c.settle_eq_atomic (c.add s))
  | link => exact CollectionEdit.runsAtomically_link
  | setStart name => exact fun c _ => rfl
  | editState name e => exact CollectionEdit.runsAtomically_editState e.runsAtomically name

end

/-! ### Machines and error handlers -/

namespace Machine

/-- The states. -/
def statesPart : Part Machine (Collection State) where
  get? m := some m.states
  put states m := { m with states }
  put_of_get? {_ _} h := by
    obtain rfl := Option.some.inj h
    rfl

/-- Changes a machine. -/
def perform : MachineEdit → EStateM Error Machine Unit
  | .states e => statesPart.perform (Collection.perform e)
  | .setComment text => modify fun m => { m with comment := some text }
  | .setTimeout n =>
    assign (Seconds.ofCount "TimeoutSeconds" n) fun t m => { m with timeout := some t }
  | .setVersion text => modify fun m => { m with version := some text }

/-- **Edits of machines are atomic.** -/
theorem run_perform (e : MachineEdit) {m : Machine} (h : m.states.Sound) :
    (perform e).run m = atomic m (m.apply e) := by
  cases e with
  | states e =>
    exact statesPart.run_perform fun c hc => e.runsAtomically c (Option.some.inj hc ▸ h)
  | setTimeout n => exact run_assign _ _ m
  | setComment text | setVersion text => rfl

end Machine

/-- An edit of an error handler. -/
inductive CatcherEdit where
  /-- Lets control go on to a state. -/
  | setTarget (target : String)
  /-- Ends the execution. -/
  | setTerminal
  /-- Places the error output. -/
  | place (text : String)
  /-- Discards the error output. -/
  | discard

namespace Catcher

/-- Edits an error handler. -/
def apply : CatcherEdit → Catcher → Except Error Catcher
  | .setTarget target, c => c.setTarget target
  | .setTerminal, c => c.setTerminal
  | .place text, c => c.place text
  | .discard, c => .ok c.discard

/-- The transition. -/
def nextPart : Part Catcher TransitionField where
  get? c := some c.next
  put next c := { c with next }
  put_of_get? {_ _} h := by
    obtain rfl := Option.some.inj h
    rfl

/-- Changes an error handler. -/
def perform : CatcherEdit → EStateM Error Catcher Unit
  | .setTarget target => nextPart.perform (TransitionField.targetInPlace target)
  | .setTerminal => nextPart.perform TransitionField.terminalInPlace
  | .place text =>
    assign (Path.ofString text) fun path c => { c with resultPath := .placed path }
  | .discard => modify discard

/-- **Edits of error handlers are atomic.** -/
theorem run_perform (e : CatcherEdit) (c : Catcher) :
    (perform e).run c = atomic c (Catcher.apply e c) := by
  cases e with
  | setTarget target =>
    exact nextPart.run_perform fun f _ => TransitionField.run_targetInPlace target f
  | setTerminal => exact nextPart.run_perform fun f _ => TransitionField.run_terminalInPlace f
  | place text =>
    refine (run_assign _ _ c).trans ?_
    rw [Catcher.apply, Catcher.place, ResultPath.place]
    cases Path.ofString text <;> rfl
  | discard => rfl

end Catcher

end StatesLanguage
