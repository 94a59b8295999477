import StatesLanguage.Proofs.Chaining
import StatesLanguage.Proofs.Checklist

/-!
# What linking repairs

A state without a transition is a problem, and linking is there to solve it. Its only effect
is on the transitions of the states that a collection holds, and only where none is set
(`Collection.chain`, with `TransitionField.filled`). A missing transition of a rule, of an
error handler or of a state in a branch looks just the same in the list of problems, and
linking leaves it there.

So the problems with a state are told apart by where they come from: the problem with its own
transition, which is at the head of the list if there is one (`State.transitionProblem?`), and
all others (`State.otherProblems`). Linking takes the first away from every state and keeps
the others in their places.

That linking succeeds at all is a matter of how a collection comes about: only a transition
of a forbidding mode could make it fail, and no state gets one (`Collection.CalledUpon`). In
autolink mode a state never even lacks a transition (`Collection.Chained`). Both are
inductions over the calls that are made on a collection, and the main result is
`Collection.link_repairs`.
-/

namespace StatesLanguage

/-! ### The problem with the transition, and the others -/

namespace Body

variable {σ : Type}

/-- The first problem with each declared field other than the transition. -/
def otherFieldProblems (b : Body σ) : List Error :=
  (b.fields.filter fun f => f.kind != .next).filterMap Field.problem?

/-- The problems with what a body holds besides its declared fields. -/
def restProblems : Body σ → List Error
  | .task b => missing "Resource" b.resource ++ heartbeatProblems b.timeout b.heartbeat
  | .wait b => missing "Seconds" b.seconds
  | .fail b => missing "Error" b.error ++ missing "Cause" b.cause
  | .choice b =>
    if b.rules.isEmpty then [.emptyCollection "Choices"] else Rule.listProblems b.rules
  | .parallel b => if b.branches.isEmpty then [.emptyCollection "Branches"] else []
  | .pass _ | .succeed => []

/-- The transition is the first of the declared fields with which there can be a problem. -/
theorem ownProblems_eq_append (b : Body σ) :
    b.ownProblems = (b.next?.bind TransitionField.problem?).toList ++
      (b.otherFieldProblems ++ b.restProblems) := by
  cases b with
  | pass b | task b | wait b | parallel b =>
    simp [ownProblems, fieldProblems, fields, next?, otherFieldProblems, restProblems,
      filterMap_cons_eq_toList, Field.problem?, Field.kind]
  | succeed | fail b | choice b => rfl

end Body

namespace State

/-- The problem with the transition of a state. -/
def transitionProblem? (s : State) : Option Error :=
  s.next?.bind TransitionField.problem?

/-- The problems with a state apart from that with its transition: with its other declared
fields, with the rest of its body, and with all that is in its branches. -/
def otherProblems (s : State) : List Error :=
  s.body.otherFieldProblems ++ s.body.restProblems ++ s.branches.flatMap Collection.problems

theorem problems_eq_append (s : State) :
    s.problems = s.transitionProblem?.toList ++ s.otherProblems := by
  rw [problems_eq, Body.ownProblems_eq_append, List.append_assoc]
  rfl

theorem otherProblems_mapNext (g : TransitionField → TransitionField) (s : State) :
    (s.mapNext g).otherProblems = s.otherProblems := by
  obtain ⟨name, comment, body⟩ := s
  cases body <;> rfl

/-- The transition of a state is set, if its kind has one. -/
def IsSettled (s : State) : Prop :=
  ∀ f, s.next? = some f → f.isConfigured = true

theorem transitionProblem?_of_isSettled {s : State} (h : s.IsSettled) :
    s.transitionProblem? = none := by
  rw [transitionProblem?, Option.bind_eq_none_iff]
  intro f hf
  rw [TransitionField.problem?, h f hf, Bool.not_true, Bool.and_false]
  rfl

/-- An ordinary transition that is not set is always a problem. -/
theorem IsOrdinary.transitionProblem? {s : State} (h : s.IsOrdinary) {f : TransitionField}
    (hf : s.next? = some f) (hunset : f.isConfigured = false) :
    s.transitionProblem? = some (.configurationMissing "Next") := by
  rw [State.transitionProblem?, hf]
  change f.problem? = _
  rw [TransitionField.problem?, TransitionField.isRequired, h f hf, hunset]
  rfl

/-- A change of transitions that keeps their modes keeps states ordinary. -/
theorem IsOrdinary.mapNext {g : TransitionField → TransitionField} (hg : ∀ f, (g f).mode = f.mode)
    {s : State} (h : s.IsOrdinary) : (s.mapNext g).IsOrdinary := by
  intro f hf
  rw [next?_mapNext] at hf
  obtain ⟨x, hx, rfl⟩ := Option.map_eq_some_iff.mp hf
  exact (hg x).trans (h x hx)

theorem isSettled_mapNext {g : TransitionField → TransitionField} {s : State}
    (hg : ∀ f, s.next? = some f → (g f).isConfigured = true) : (s.mapNext g).IsSettled := by
  intro f hf
  rw [next?_mapNext] at hf
  obtain ⟨x, hx, rfl⟩ := Option.map_eq_some_iff.mp hf
  exact hg x hx

end State

theorem State.mapNext_eq_self {g : TransitionField → TransitionField} {s : State}
    (hg : ∀ f, s.next? = some f → g f = f) : s.mapNext g = s := by
  rw [mapNext_congr hg]
  obtain ⟨name, comment, body⟩ := s
  cases body <;> rfl

namespace TransitionField

theorem mode_filled (t : Transition) (f : TransitionField) : (f.filled t).mode = f.mode :=
  rfl

theorem mode_continued (target : String) (f : TransitionField) :
    (f.continued target).mode = f.mode := by
  rw [continued]
  split <;> rfl

theorem isConfigured_continued (target : String) {f : TransitionField}
    (h : f.isConfigured = true) : (f.continued target).isConfigured = true := by
  rw [continued]
  split
  · rfl
  · exact h

theorem isConfigured_filled (t : Transition) (f : TransitionField) :
    (f.filled t).isConfigured = true := by
  obtain ⟨mode, _ | transition⟩ := f <;> rfl

theorem filled_eq_self {f : TransitionField} (h : f.isConfigured = true) (t : Transition) :
    f.filled t = f := by
  obtain ⟨mode, _ | transition⟩ := f
  · nomatch h
  · rfl

end TransitionField

/-! ### What edits do to the transition -/

namespace State

variable {s t : State}

/-- An edit of a body that leaves its transition alone leaves that of the state alone. -/
theorem next?_editBody {f : Body State → Except Error (Body State)}
    (hf : ∀ b c, f b = .ok c → c.next? = b.next?) (h : s.editBody f = .ok t) :
    t.next? = s.next? := by
  obtain ⟨body, hbody, rfl⟩ := map_eq_ok.mp h
  exact hf _ _ hbody

theorem next?_editTask {f : Task → Except Error Task} (hf : ∀ b c, f b = .ok c → c.next = b.next)
    (h : s.editTask f = .ok t) : t.next? = s.next? := by
  refine next?_editBody (fun b c hc => ?_) h
  cases b with
  | task b =>
    obtain ⟨d, hd, rfl⟩ := map_eq_ok.mp hc
    exact congrArg some (hf b d hd)
  | _ =>
    obtain rfl := Except.ok.inj hc
    rfl

theorem next?_editWait {f : Wait → Except Error Wait} (hf : ∀ b c, f b = .ok c → c.next = b.next)
    (h : s.editWait f = .ok t) : t.next? = s.next? := by
  refine next?_editBody (fun b c hc => ?_) h
  cases b with
  | wait b =>
    obtain ⟨d, hd, rfl⟩ := map_eq_ok.mp hc
    exact congrArg some (hf b d hd)
  | _ =>
    obtain rfl := Except.ok.inj hc
    rfl

/-- Failures and choices have no transition that an edit could change. -/
theorem next?_editFail {f : Fail → Except Error Fail} (h : s.editFail f = .ok t) :
    t.next? = s.next? := by
  refine next?_editBody (fun b c hc => ?_) h
  cases b with
  | fail b =>
    obtain ⟨d, -, rfl⟩ := map_eq_ok.mp hc
    rfl
  | _ =>
    obtain rfl := Except.ok.inj hc
    rfl

theorem next?_editChoice {f : Choice → Except Error Choice} (h : s.editChoice f = .ok t) :
    t.next? = s.next? := by
  refine next?_editBody (fun b c hc => ?_) h
  cases b with
  | choice b =>
    obtain ⟨d, -, rfl⟩ := map_eq_ok.mp hc
    rfl
  | _ =>
    obtain rfl := Except.ok.inj hc
    rfl

theorem next?_editBranches {f : List (Collection State) → Except Error (List (Collection State))}
    (h : s.editBranches f = .ok t) : t.next? = s.next? := by
  refine next?_editBody (fun b c hc => ?_) h
  cases b with
  | parallel b =>
    obtain ⟨branches, -, rfl⟩ := map_eq_ok.mp hc
    rfl
  | _ =>
    obtain rfl := Except.ok.inj hc
    rfl

/-- **An edit sets the transition of a state, or leaves it as it is**; it never takes one
away. -/
theorem next?_apply {e : StateEdit} (h : State.apply e s = .ok t) : t.next? = s.next? ∨
    ∃ transition, t.next? = s.next?.map fun f => ⟨f.mode, some transition⟩ := by
  cases e with
  | setTarget target =>
    refine Or.inr ⟨.next target, ?_⟩
    rw [eq_mapNext_of_editNext (fun _ _ => TransitionField.eq_of_setTarget) h, next?_mapNext]
  | setTerminal =>
    refine Or.inr ⟨.terminal, ?_⟩
    rw [eq_mapNext_of_editNext (fun _ _ => TransitionField.eq_of_setTerminal) h, next?_mapNext]
  | setComment text =>
    obtain rfl := Except.ok.inj h
    exact Or.inl rfl
  | setInput text | setOutput text =>
    refine Or.inl (next?_editBody (fun b c hc => ?_) h)
    cases b with
    | pass b | task b | parallel b =>
      obtain ⟨paths, -, rfl⟩ := map_eq_ok.mp hc
      rfl
    | _ =>
      obtain rfl := Except.ok.inj hc
      rfl
  | placeResult text =>
    rw [apply] at h
    refine Or.inl (next?_editBody (fun b c hc => ?_) h)
    obtain ⟨r, -, rfl⟩ := map_eq_ok.mp hc
    cases b <;> rfl
  | discardResult | setResult v =>
    rw [apply] at h
    refine Or.inl (next?_editBody (fun b c hc => ?_) h)
    obtain rfl := Except.ok.inj hc
    cases b <;> rfl
  | setResource text | addRetrier r | addCatcher c =>
    refine Or.inl (next?_editTask (fun b d hd => ?_) h)
    obtain rfl := Except.ok.inj hd
    rfl
  | setTimeout n | setHeartbeat n =>
    refine Or.inl (next?_editTask (fun b d hd => ?_) h)
    obtain ⟨_, -, rfl⟩ := map_eq_ok.mp hd
    rfl
  | setSeconds n =>
    refine Or.inl (next?_editWait (fun b d hd => ?_) h)
    obtain ⟨_, -, rfl⟩ := map_eq_ok.mp hd
    rfl
  | setError text | setCause text => exact Or.inl (next?_editFail h)
  | setFallback target | addRule op | editRule root address e => exact Or.inl (next?_editChoice h)
  | addBranch | pushBranch c | editBranch i e =>
    rw [apply] at h
    exact Or.inl (next?_editBranches h)

/-- What an edit leaves of a state, whether it fails or not. -/
def afterEdit (e : StateEdit) (s : State) : State :=
  match State.apply e s with
  | .ok t => t
  | .error _ => s

/-- Edits keep states ordinary, and keep a transition that is set. -/
theorem keeps_afterEdit (e : StateEdit) (s : State) :
    (s.IsOrdinary → (s.afterEdit e).IsOrdinary) ∧ (s.IsSettled → (s.afterEdit e).IsSettled) := by
  rw [afterEdit]
  split
  · next t ht =>
    rcases next?_apply ht with hsame | ⟨transition, hset⟩
    · simp only [IsOrdinary, IsSettled, hsame]
      exact ⟨id, id⟩
    · simp only [IsOrdinary, IsSettled, hset, Option.map_eq_some_iff]
      exact ⟨by rintro h _ ⟨f, hf, rfl⟩; exact h f hf, by rintro - _ ⟨f, -, rfl⟩; rfl⟩
  · exact ⟨id, id⟩

end State

namespace Collection

/-! ### Chains of settled states -/

/-- What filling a transition makes of each state holds of every state of a chain. -/
theorem forall_mem_chain {P Q : State → Prop}
    {fill : Transition → TransitionField → TransitionField}
    (hPQ : ∀ s t, P s → Q (s.mapNext (fill t))) {ss : List State} (h : ∀ s ∈ ss, P s) :
    ∀ s ∈ chain fill ss, Q s := by
  intro t ht
  obtain ⟨i, hi⟩ := List.mem_iff_getElem?.mp ht
  rw [getElem?_chain] at hi
  obtain ⟨s, hs, rfl⟩ := Option.map_eq_some_iff.mp hi
  exact hPQ s _ (h s (List.mem_of_getElem? hs))

/-- Where every transition is set, there is nothing to fill. -/
theorem chain_eq_self {ss : List State} (h : ∀ s ∈ ss, s.IsSettled) : chain .filled ss = ss := by
  induction ss with
  | nil => rfl
  | cons s ss ih =>
    obtain ⟨hs, hss⟩ := List.forall_mem_cons.mp h
    rw [chain, ih hss, State.mapNext_eq_self fun f hf => TransitionField.filled_eq_self (hs f hf) _]

theorem isSettled_of_mem_chain (ss : List State) : ∀ s ∈ chain .filled ss, s.IsSettled :=
  forall_mem_chain (P := fun _ => True)
    (fun _ t _ => State.isSettled_mapNext fun f _ => f.isConfigured_filled t) fun _ _ => trivial

theorem otherProblems_chain (fill : Transition → TransitionField → TransitionField)
    (ss : List State) :
    (chain fill ss).flatMap State.otherProblems = ss.flatMap State.otherProblems := by
  induction ss with
  | nil => rfl
  | cons s ss ih => rw [chain, List.flatMap_cons, List.flatMap_cons, ih, s.otherProblems_mapNext]

/-- The problem with the start depends on the names only, and on whether there are states. -/
theorem startProblems_chain (fill : Transition → TransitionField → TransitionField)
    (c : Collection State) :
    ({ c with states := chain fill c.states } : Collection State).startProblems =
      c.startProblems := by
  obtain ⟨_ | ⟨s, ss⟩, index, startAt, autolink⟩ := c <;> rfl

/-- The problems with a collection, those with the transitions of its states set apart. -/
theorem problems_eq_append (c : Collection State) :
    c.problems = (c.states.flatMap fun s => s.transitionProblem?.toList ++ s.otherProblems) ++
      c.startProblems := by
  rw [problems, State.listProblems_eq_flatMap]
  exact congrArg (· ++ _) (List.flatMap_congr fun s _ => s.problems_eq_append)

/-- Where every transition is set, the others are all problems there are. -/
theorem problems_of_isSettled {c : Collection State} (h : ∀ s ∈ c.states, s.IsSettled) :
    c.problems = c.states.flatMap State.otherProblems ++ c.startProblems := by
  rw [problems_eq_append]
  refine congrArg (· ++ _) (List.flatMap_congr fun s hs => ?_)
  rw [State.transitionProblem?_of_isSettled (h s hs)]
  rfl

/-! ### What calls keep -/

/-- A property of states that chaining keeps. -/
structure Chainable (P : State → Prop) : Prop where
  /-- It is kept where a transition that is not set is filled. -/
  filled : ∀ s t, P s → P (s.mapNext (.filled t))
  /-- It is kept where control goes on instead of ending. -/
  continued : ∀ s target, P s → P (s.mapNext (.continued target))

theorem chainable_isOrdinary : Chainable State.IsOrdinary :=
  ⟨fun _ t h => h.mapNext (TransitionField.mode_filled t),
    fun _ target h => h.mapNext (TransitionField.mode_continued target)⟩

theorem chainable_isSettled : Chainable State.IsSettled :=
  ⟨fun _ t _ => State.isSettled_mapNext fun f _ => f.isConfigured_filled t,
    fun _ target h => State.isSettled_mapNext fun f hf =>
      TransitionField.isConfigured_continued target (h f hf)⟩

theorem Chainable.and {P Q : State → Prop} (hP : Chainable P) (hQ : Chainable Q) :
    Chainable fun s => P s ∧ Q s :=
  ⟨fun s t h => ⟨hP.filled s t h.1, hQ.filled s t h.2⟩,
    fun s target h => ⟨hP.continued s target h.1, hQ.continued s target h.2⟩⟩

theorem after_link_of_error {c : Collection State} {e : Error} (h : c.link = .error e) :
    Call.link.after c = c := by
  have hrun : Call.link.perform.run c = c.settle c.link := rfl
  rw [Call.after, hrun, h]
  rfl

theorem after_update_of_error {c : Collection State} {name : String} {f : State → State}
    {e : Error} (h : (c.edit name fun s => .ok (f s)) = .error e) :
    (Call.update name f).after c = c := by
  have hrun : (Call.update name f).perform.run c = c.settle (c.edit name fun s => .ok (f s)) := rfl
  rw [Call.after, hrun, h]
  rfl

/-- The state before a new one is the only one that adding changes. -/
theorem Chainable.before {P : State → Prop} (hP : Chainable P) (s : State) {ss : List State}
    (h : ∀ t ∈ ss, P t) : ∀ t ∈ before s ss, P t := by
  rcases List.eq_nil_or_concat ss with rfl | ⟨front, last, rfl⟩
  · exact h
  · rw [List.concat_eq_append] at h ⊢
    rw [Collection.before, List.modifyLast_concat]
    obtain ⟨hfront, hlast⟩ := List.forall_mem_append.mp h
    exact forall_mem_snoc hfront (hP.continued last s.name (hlast last List.mem_cons_self))

/-- **What chaining keeps is kept by every call**, if it holds of what the call brings along
and is kept by its updates. -/
theorem Chainable.after {P : State → Prop} (hP : Chainable P) {c : Collection State}
    (h : ∀ s ∈ c.states, P s) {call : Call}
    (hadd : ∀ s, call = .add s → P (if c.autolink then s.mapNext (.filled .terminal) else s))
    (hupdate : ∀ name f, call = .update name f → ∀ s, P s → P (f s)) :
    (∀ s ∈ (call.after c).states, P s) ∧ (call.after c).autolink = c.autolink := by
  cases call with
  | add s =>
    rcases hd : c.add s with e | d
    · rw [Call.after_add_of_error hd]
      exact ⟨h, rfl⟩
    · have hadded := hadd s rfl
      rw [Call.after_add_of_ok hd]
      cases hauto : c.autolink with
      | true =>
        obtain ⟨hautod, hstates⟩ := states_of_add hauto hd
        rw [hauto] at hadded
        exact ⟨hstates ▸ forall_mem_snoc (hP.before s h) hadded, hautod⟩
      | false =>
        obtain ⟨-, rfl⟩ := (add_eq_ok hauto).mp hd
        rw [hauto] at hadded
        exact ⟨forall_mem_snoc h hadded, rfl⟩
  | link =>
    rcases hd : c.link with e | d
    · rw [after_link_of_error hd]
      exact ⟨h, rfl⟩
    · rw [Call.after_link hd]
      obtain ⟨states, hstates, rfl⟩ := map_eq_ok.mp hd
      rw [eq_of_linkStates hstates]
      exact ⟨forall_mem_chain hP.filled h, rfl⟩
  | setStart name => exact ⟨h, rfl⟩
  | update name f =>
    rcases hd : c.edit name fun s => .ok (f s) with e | d
    · rw [after_update_of_error hd]
      exact ⟨h, rfl⟩
    · rw [Call.after_update hd]
      rw [Collection.edit] at hd
      split at hd
      · obtain ⟨states, hstates, rfl⟩ := map_eq_ok.mp hd
        exact ⟨forall_mem_editAt (fun s t hs ht => Except.ok.inj ht ▸ hupdate name f rfl s hs) h
          hstates, rfl⟩
      · obtain rfl := Except.ok.inj hd
        exact ⟨h, rfl⟩

/-! ### Collections as they come about -/

/-- A call brings along ordinary states only, and its updates keep what `P` says of a state. -/
def Call.Keeps (P : State → Prop) : Call → Prop
  | .add s => s.IsOrdinary
  | .update _ f => ∀ s, P s → P (f s)
  | .link => True
  | .setStart _ => True

/-- The collections that come about by edits, by reading, or by any calls on such a
collection. A call that updates a state may put any other ordinary state in its place, even
under another name. -/
inductive CalledUpon : Collection State → Prop
  | built {c : Collection State} (h : c.Built) : CalledUpon c
  | call {c : Collection State} {call : Call} (hc : CalledUpon c)
    (hcall : call.Keeps State.IsOrdinary) : CalledUpon (call.after c)

/-- The collections whose states have all been added in autolink mode. Calls may update the
states, but they never take a transition away. -/
inductive Chained : Collection State → Prop
  | empty : Chained (empty true)
  | call {c : Collection State} {call : Call} (hc : Chained c)
    (hcall : call.Keeps fun s => s.IsOrdinary ∧ s.IsSettled) : Chained (call.after c)

theorem CalledUpon.isOrdinary {c : Collection State} (h : c.CalledUpon) :
    ∀ s ∈ c.states, s.IsOrdinary := by
  induction h with
  | built h => exact fun s hs => (State.Built.held h hs).isOrdinary
  | @call c call _ hcall ih =>
    refine (chainable_isOrdinary.after ih ?_ ?_).1
    · rintro s rfl
      split
      · exact chainable_isOrdinary.filled s _ hcall
      · exact hcall
    · rintro name f rfl
      exact hcall

/-- Where states are chained as they are added, no transition is left open. -/
theorem Chained.isSettled {c : Collection State} (h : c.Chained) :
    c.autolink = true ∧ ∀ s ∈ c.states, s.IsOrdinary ∧ s.IsSettled := by
  induction h with
  | empty => exact ⟨rfl, nofun⟩
  | @call c call _ hcall ih =>
    obtain ⟨hauto, hstates⟩ := ih
    have hadd : ∀ s, call = .add s →
        let t := if c.autolink then s.mapNext (.filled .terminal) else s
        t.IsOrdinary ∧ t.IsSettled := by
      rintro s rfl
      rw [hauto]
      exact ⟨chainable_isOrdinary.filled s _ hcall,
        State.isSettled_mapNext fun f _ => f.isConfigured_filled .terminal⟩
    have hupdate : ∀ name f, call = .update name f → ∀ s : State,
        s.IsOrdinary ∧ s.IsSettled → (f s).IsOrdinary ∧ (f s).IsSettled := by
      rintro name f rfl
      exact hcall
    obtain ⟨hafter, hsame⟩ :=
      (chainable_isOrdinary.and chainable_isSettled).after hstates hadd hupdate
    exact ⟨hsame.trans hauto, hafter⟩

/-! ### Linking -/

/-- Linking has repaired the missing transitions of the states of `c`, and nothing else; what
has come about is `d`. -/
structure Repaired (c d : Collection State) : Prop where
  /-- The states are found under the same names, in the same positions. -/
  index : d.index = c.index
  /-- The states are called the same, in the same order. -/
  order : d.states.map State.name = c.states.map State.name
  /-- The start is the same. -/
  startAt : d.startAt = c.startAt
  /-- States that are added later are chained as before. -/
  autolink : d.autolink = c.autolink
  /-- A state is the same as before, unless its transition was not set. Then it differs in
  that, and goes on to the state behind it, or ends the execution if there is none. -/
  states : ∀ (i : Nat) (s : State), c.states[i]? = some s → ∃ t, d.states[i]? = some t ∧
    s.SameButNext t ∧ (s.IsSettled → t = s) ∧ ∀ f, s.next? = some f → f.isConfigured = false →
      t.next? = some ⟨f.mode, some (.onward c.states[i + 1]?)⟩
  /-- Every transition is set. -/
  settled : ∀ s ∈ d.states, s.IsSettled
  /-- A transition that was not set was a problem of its state. -/
  missing : ∀ s ∈ c.states, ∀ f, s.next? = some f → s.transitionProblem? =
    if f.isConfigured then none else some (.configurationMissing "Next")
  /-- These problems stood among all others that there were, each before those of its state. -/
  before : c.problems =
    (c.states.flatMap fun s => s.transitionProblem?.toList ++ s.otherProblems) ++ c.startProblems
  /-- They are gone, and the others are still there, in their places. -/
  after : d.problems = c.states.flatMap State.otherProblems ++ c.startProblems

/-- Chaining states that are all ordinary repairs what is missing. -/
theorem repaired_chain {c : Collection State} (h : ∀ s ∈ c.states, s.IsOrdinary) :
    Repaired c { c with states := chain .filled c.states } where
  index := rfl
  order := map_name_chain c.states
  startAt := rfl
  autolink := rfl
  states i s hs := by
    refine ⟨_, by rw [getElem?_chain, hs]; rfl, s.sameButNext_mapNext _, fun hsettled => ?_,
      fun f hf hunset => ?_⟩
    · exact State.mapNext_eq_self fun f hf => TransitionField.filled_eq_self (hsettled f hf) _
    · obtain ⟨mode, _ | transition⟩ := f
      · rw [State.next?_mapNext, hf]
        rfl
      · nomatch hunset
  settled := isSettled_of_mem_chain c.states
  missing s hs f hf := by
    cases hset : f.isConfigured with
    | true =>
      refine State.transitionProblem?_of_isSettled fun g hg => ?_
      obtain rfl := Option.some.inj (hf.symm.trans hg)
      exact hset
    | false => exact (h s hs).transitionProblem? hf hset
  before := c.problems_eq_append
  after := by
    rw [problems_of_isSettled (isSettled_of_mem_chain c.states), otherProblems_chain,
      startProblems_chain]

/-- **Linking repairs missing transitions and nothing else.** It succeeds on every collection,
however that has come about, and once is enough. Where all states have been added in autolink
mode there is nothing to repair, whatever edits they have seen since. -/
theorem link_repairs :
    (∀ c : Collection State, c.CalledUpon → ∃ d, c.link = .ok d ∧ Repaired c d ∧ d.link = .ok d) ∧
      (∀ c : Collection State, c.Chained → c.link = .ok c) ∧
      ∀ (name : String) (e : StateEdit),
        (Call.update name (State.afterEdit e)).Keeps State.IsOrdinary ∧
        (Call.update name (State.afterEdit e)).Keeps fun s => s.IsOrdinary ∧ s.IsSettled := by
  refine ⟨fun c hc => ?_, fun c hc => ?_, fun name e => ⟨fun s => ?_, fun s => ?_⟩⟩
  · have hordinary := hc.isOrdinary
    refine ⟨_, link_eq_ok hordinary, repaired_chain hordinary, ?_⟩
    rw [link_eq_ok (forall_mem_chain chainable_isOrdinary.filled hordinary),
      chain_eq_self (isSettled_of_mem_chain c.states)]
  · obtain ⟨-, hstates⟩ := hc.isSettled
    rw [link_eq_ok fun s hs => (hstates s hs).1, chain_eq_self fun s hs => (hstates s hs).2]
  · exact (s.keeps_afterEdit e).1
  · exact And.imp (s.keeps_afterEdit e).1 (s.keeps_afterEdit e).2

/-- A wait, and a choice behind it that is given a rule. -/
def openEnded : Collection State :=
  (Call.update "Decide" (State.afterEdit (.addRule (.logic .and)))).after
    ((Call.add (.new .choice "Decide")).after ((Call.add (.new .wait "Pause")).after (empty false)))

theorem link_repairs_openEnded : openEnded.CalledUpon ∧
    openEnded.problems = [.configurationMissing "Next", .configurationMissing "Seconds",
      .arity .and 0, .configurationMissing "Next"] ∧
    ∃ d, openEnded.link = .ok d ∧
      (d.get? "Pause").bind State.next? = some ⟨.ordinary, some (.next "Decide")⟩ ∧
      d.problems = [.configurationMissing "Seconds", .arity .and 0,
        .configurationMissing "Next"] := by
  obtain ⟨hlink, -, hedits⟩ := link_repairs
  have hnew (kind : StateKind) (name : String) :
      (Call.add (.new kind name)).Keeps State.IsOrdinary :=
    (State.Built.new kind name).isOrdinary
  have hcalled : openEnded.CalledUpon :=
    .call (.call (.call (.built (.empty false)) (hnew _ _)) (hnew _ _)) (hedits _ _).1
  obtain ⟨d, hd, hrepaired, -⟩ := hlink openEnded hcalled
  obtain ⟨t, ht, -, -, hnext⟩ := hrepaired.states 0 _ rfl
  refine ⟨hcalled, rfl, d, hd, ?_, hrepaired.after.trans rfl⟩
  have hfound : d.get? "Pause" = some t := by
    rw [get?, position?, hrepaired.index]
    exact ht
  rw [hfound]
  exact hnext _ rfl rfl

end Collection

end StatesLanguage
