import StatesLanguage.Proofs.Built

/-!
# The order of a check

A check goes through fields, trees of rules and branches in several ways: it takes the first
problem of a field, all problems of a rule, and stops early at a choice without rules. Here it
is one walk over the model. `Collection.walk` lists the visits of the walk: the states of a
collection in their order, each followed by the nodes of its rules in preorder, then by its
branches, and at the end the departure from the collection. Each visit has its own few
findings, which depend on nothing else.

A visit tells what is missing by where it is, and not by the mode of a transition: a state or
an error handler without a transition is incomplete, and so is the root of a rule, but no node
below it. That the modes say the same is an invariant of all models that are built
(`Machine.Built.sound`), and so is that a collection knows its states by their names.

The main result, `Machine.Built.problems_eq_findings`, is that the problems of a machine are the
findings of its walk, one visit after another, and that there are none exactly if every visit
finds everything settled.
-/

namespace StatesLanguage

/-! ### The walk -/

/-- A moment of the walk over a model. -/
inductive Visit where
  /-- The arrival at a state. -/
  | state (s : State)
  /-- The arrival at a node of a rule, which is the root of its tree or not. -/
  | rule (isRoot : Bool) (r : Rule)
  /-- The departure from a collection, after all that is in it. -/
  | leave (c : Collection State)

mutual

/-- The visits of a tree of rules. -/
def Rule.walk (isRoot : Bool) : Rule → List Visit
  | .logic op children next => .rule isRoot (.logic op children next) :: Rule.listWalk children
  | .compare c next => [.rule isRoot (.compare c next)]

/-- The visits of rules below another one, one after another. -/
def Rule.listWalk : List Rule → List Visit
  | [] => []
  | r :: rs => Rule.walk false r ++ Rule.listWalk rs

end

mutual

/-- The visits of a state and all that is inside it. -/
def State.walk : State → List Visit
  | ⟨name, comment, body⟩ =>
    .state ⟨name, comment, body⟩ ::
      match body with
      | .choice b => b.rules.flatMap (Rule.walk true)
      | .parallel ⟨_, _, _, branches⟩ => Collection.listWalk branches
      | _ => []

/-- The visits of branches, one after another. -/
def Collection.listWalk : List (Collection State) → List Visit
  | [] => []
  | ⟨states, index, startAt, autolink⟩ :: cs =>
    State.listWalk states ++ .leave ⟨states, index, startAt, autolink⟩ :: Collection.listWalk cs

/-- The visits of states, one after another. -/
def State.listWalk : List State → List Visit
  | [] => []
  | s :: ss => State.walk s ++ State.listWalk ss

end

/-- The visits of a collection: those of its states, then the departure. -/
def Collection.walk (c : Collection State) : List Visit :=
  c.states.flatMap State.walk ++ [.leave c]

/-- The visits of a machine. -/
def Machine.walk (m : Machine) : List Visit :=
  m.states.walk

theorem Rule.listWalk_eq_flatMap (rs : List Rule) :
    Rule.listWalk rs = rs.flatMap (Rule.walk false) := by
  induction rs with
  | nil => rfl
  | cons r rs ih => rw [Rule.listWalk, ih, List.flatMap_cons]

theorem State.listWalk_eq_flatMap (ss : List State) :
    State.listWalk ss = ss.flatMap State.walk := by
  induction ss with
  | nil => rfl
  | cons s ss ih => rw [State.listWalk, ih, List.flatMap_cons]

theorem Collection.listWalk_eq_flatMap (cs : List (Collection State)) :
    Collection.listWalk cs = cs.flatMap Collection.walk := by
  induction cs with
  | nil => rfl
  | cons c cs ih =>
    rw [Collection.listWalk, ih, State.listWalk_eq_flatMap, List.flatMap_cons, Collection.walk,
      List.append_assoc]
    rfl

/-- A state comes before the rules and the branches in it. -/
theorem State.walk_eq (s : State) :
    s.walk = .state s ::
      (s.body.rules.flatMap (Rule.walk true) ++ s.branches.flatMap Collection.walk) := by
  rw [← Collection.listWalk_eq_flatMap]
  obtain ⟨name, comment, body⟩ := s
  cases body with
  | choice b => exact congrArg (Visit.state _ :: ·) (List.append_nil _).symm
  | _ => rfl

/-! ### Findings -/

/-- The finding at a transition that is not set. -/
def TransitionField.findings (f : TransitionField) : List Error :=
  if f.transition.isSome then [] else [.configurationMissing "Next"]

/-- The finding at retry policies, some of which may not name any error. -/
def Retrier.findings (rs : List Retrier) : List Error :=
  match rs.find? fun r => r.errors.isEmpty with
  | none => []
  | some _ => [.configurationMissing "ErrorEquals"]

/-- Whether an error handler names no error, or does not say where to go. -/
def Catcher.isBroken (c : Catcher) : Bool :=
  c.errors.isEmpty || c.next.transition.isNone

/-- The finding at error handlers: that of the first one that is broken. -/
def Catcher.findings (cs : List Catcher) : List Error :=
  match cs.find? isBroken with
  | none => []
  | some c => [.configurationMissing (if c.errors.isEmpty then "ErrorEquals" else "Next")]

namespace Body

variable {σ : Type}

/-- The findings at the body of a state, before its rules and its branches. -/
def findings : Body σ → List Error
  | .pass b => b.next.findings
  | .task b =>
    b.next.findings ++ Retrier.findings b.retriers ++ Catcher.findings b.catchers ++
      (if b.resource.isSome then [] else [.configurationMissing "Resource"]) ++
      match b.timeout, b.heartbeat with
      | some timeout, some heartbeat =>
        if heartbeat.count < timeout.count then []
        else [.invalidValue (.heartbeat heartbeat.count timeout.count)]
      | _, _ => []
  | .wait b =>
    b.next.findings ++ if b.seconds.isSome then [] else [.configurationMissing "Seconds"]
  | .succeed => []
  | .fail b =>
    (if b.error.isSome then [] else [.configurationMissing "Error"]) ++
      if b.cause.isSome then [] else [.configurationMissing "Cause"]
  | .choice b => if b.rules.isEmpty then [.emptyCollection "Choices"] else []
  | .parallel b =>
    b.next.findings ++ if b.branches.isEmpty then [.emptyCollection "Branches"] else []

end Body

/-- The findings at a node of a rule, apart from those at the nodes below it. -/
def Rule.findings (isRoot : Bool) : Rule → List Error
  | .logic op children next =>
    (if op.admits children.length then [] else [.arity op children.length]) ++
      if isRoot then next.findings else []
  | .compare c next =>
    (if c.input.isSome then [] else [.configurationMissing "Variable"]) ++
      (if c.literal.isSome then [] else [.configurationMissing "Literal"]) ++
      if isRoot then next.findings else []

/-- The findings at the departure from a collection. -/
def Collection.findings (c : Collection State) : List Error :=
  if c.states.isEmpty then [.emptyCollection "States"]
  else
    match c.startAt with
    | none => [.configurationMissing "StartAt"]
    | some name =>
      if c.states.any fun s => s.name == name then [] else [.invalidValue (.unknownStart name)]

/-- The findings of a visit. -/
def Visit.findings : Visit → List Error
  | .state s => s.body.findings
  | .rule isRoot r => r.findings isRoot
  | .leave c => c.findings

/-! ### What is settled -/

/-- A task is settled. -/
structure Task.Settled (b : Task) : Prop where
  /-- Control goes somewhere. -/
  next : b.next.transition.isSome = true
  /-- Each policy names an error. -/
  retriers : ∀ r ∈ b.retriers, r.errors ≠ []
  /-- Each handler names an error and lets control go somewhere. -/
  catchers : ∀ c ∈ b.catchers, c.errors ≠ [] ∧ c.next.transition.isSome = true
  /-- There is something to do. -/
  resource : b.resource.isSome = true
  /-- The heartbeat interval is smaller than the timeout. -/
  heartbeat : ∀ timeout heartbeat, b.timeout = some timeout → b.heartbeat = some heartbeat →
    heartbeat.count < timeout.count

/-- The body of a state is settled, apart from the rules and the branches inside. -/
def Body.Settled {σ : Type} : Body σ → Prop
  | .pass b => b.next.transition.isSome = true
  | .task b => b.Settled
  | .wait b => b.next.transition.isSome = true ∧ b.seconds.isSome = true
  | .succeed => True
  | .fail b => b.error.isSome = true ∧ b.cause.isSome = true
  | .choice b => b.rules ≠ []
  | .parallel b => b.next.transition.isSome = true ∧ b.branches ≠ []

/-- The node of a rule is settled, apart from the nodes below it. -/
def Rule.Settled (isRoot : Bool) : Rule → Prop
  | .logic op children next =>
    (if op = .not then children.length = 1 else 2 ≤ children.length) ∧
      (isRoot = true → next.transition.isSome = true)
  | .compare c next =>
    c.input.isSome = true ∧ c.literal.isSome = true ∧
      (isRoot = true → next.transition.isSome = true)

/-- Everything that a visit looks at is settled. -/
def Visit.Settled : Visit → Prop
  | .state s => s.body.Settled
  | .rule isRoot r => r.Settled isRoot
  | .leave c => ∃ s ∈ c.states, c.startAt = some s.name

theorem ite_nil_eq_nil {α : Type} {c : Prop} [Decidable c] {a : α} :
    (if c then [] else [a]) = [] ↔ c := by
  split
  · next h => exact iff_of_true rfl h
  · next h => exact iff_of_false nofun h

theorem TransitionField.findings_eq_nil {f : TransitionField} :
    f.findings = [] ↔ f.transition.isSome = true :=
  ite_nil_eq_nil

theorem Retrier.findings_eq_nil {rs : List Retrier} :
    findings rs = [] ↔ ∀ r ∈ rs, r.errors ≠ [] := by
  have hnone : findings rs = [] ↔ (rs.find? fun r => r.errors.isEmpty) = none := by
    rw [findings]
    split
    · next h => exact iff_of_true rfl h
    · next h => exact iff_of_false nofun (h ▸ nofun)
  rw [hnone, List.find?_eq_none]
  simp only [List.isEmpty_iff]

theorem Catcher.findings_eq_nil {cs : List Catcher} :
    findings cs = [] ↔ ∀ c ∈ cs, c.errors ≠ [] ∧ c.next.transition.isSome = true := by
  have hnone : findings cs = [] ↔ cs.find? isBroken = none := by
    rw [findings]
    split
    · next h => exact iff_of_true rfl h
    · next h => exact iff_of_false nofun (h ▸ nofun)
  rw [hnone, List.find?_eq_none]
  refine forall₂_congr fun c _ => ?_
  rw [isBroken, Bool.or_eq_true, not_or, List.isEmpty_iff, Option.isNone_iff_eq_none,
    ← ne_eq c.next.transition, Option.isSome_iff_ne_none]

theorem Task.findings_eq_nil {σ : Type} {b : Task} :
    (Body.task b : Body σ).findings = [] ↔ b.Settled := by
  have hheartbeat : (match b.timeout, b.heartbeat with
      | some timeout, some heartbeat =>
        if heartbeat.count < timeout.count then []
        else [Error.invalidValue (.heartbeat heartbeat.count timeout.count)]
      | _, _ => []) = [] ↔ ∀ timeout heartbeat, b.timeout = some timeout →
        b.heartbeat = some heartbeat → heartbeat.count < timeout.count := by
    rcases b.timeout with _ | timeout <;> rcases b.heartbeat with _ | heartbeat <;> simp
  simp only [Body.findings, List.append_eq_nil_iff, TransitionField.findings_eq_nil,
    Retrier.findings_eq_nil, Catcher.findings_eq_nil, ite_nil_eq_nil, hheartbeat]
  constructor
  · rintro ⟨⟨⟨⟨hnext, hretriers⟩, hcatchers⟩, hresource⟩, hheartbeat⟩
    exact ⟨hnext, hretriers, hcatchers, hresource, hheartbeat⟩
  · intro h
    exact ⟨⟨⟨⟨h.next, h.retriers⟩, h.catchers⟩, h.resource⟩, h.heartbeat⟩

theorem Body.findings_eq_nil {σ : Type} {b : Body σ} : b.findings = [] ↔ b.Settled := by
  cases b with
  | task b => exact Task.findings_eq_nil
  | succeed => exact iff_of_true rfl trivial
  | pass b => exact TransitionField.findings_eq_nil
  | wait b | fail b =>
    simp only [findings, Settled, List.append_eq_nil_iff, TransitionField.findings_eq_nil,
      ite_nil_eq_nil]
  | choice b =>
    rw [findings, Settled]
    cases b.rules <;> simp
  | parallel b =>
    rw [findings, Settled, List.append_eq_nil_iff, TransitionField.findings_eq_nil]
    cases b.branches <;> simp

theorem Rule.findings_eq_nil {isRoot : Bool} {r : Rule} :
    r.findings isRoot = [] ↔ r.Settled isRoot := by
  cases r with
  | logic op children next =>
    have harity : op.admits children.length = true ↔
        if op = .not then children.length = 1 else 2 ≤ children.length := by
      cases op <;> simp [LogicOp.admits]
    simp only [findings, Settled, List.append_eq_nil_iff, ite_nil_eq_nil, harity]
    cases isRoot <;> simp [TransitionField.findings_eq_nil]
  | compare c next =>
    simp only [findings, Settled, List.append_eq_nil_iff, ite_nil_eq_nil, and_assoc]
    cases isRoot <;> simp [TransitionField.findings_eq_nil]

theorem Collection.findings_eq_nil {c : Collection State} :
    c.findings = [] ↔ ∃ s ∈ c.states, c.startAt = some s.name := by
  rw [findings]
  rcases hstates : c.states with _ | ⟨s, ss⟩
  · simp
  · rw [← hstates, if_neg (by simp [hstates])]
    rcases c.startAt with _ | name
    · simp
    · dsimp only
      rw [ite_nil_eq_nil, List.any_eq_true]
      simp only [beq_iff_eq, Option.some.injEq, eq_comm (a := name)]

/-- **A visit finds nothing exactly where everything is settled.** -/
theorem Visit.findings_eq_nil {v : Visit} : v.findings = [] ↔ v.Settled := by
  cases v with
  | state s => exact Body.findings_eq_nil
  | rule isRoot r => exact Rule.findings_eq_nil
  | leave c => exact Collection.findings_eq_nil

/-! ### A check is a walk -/

theorem TransitionField.Fits.problem?_toList {mode : TransitionMode} {f : TransitionField}
    (h : f.Fits mode) :
    f.problem?.toList = if mode = .locked then [] else f.findings := by
  obtain ⟨m, t⟩ := f
  obtain rfl : m = mode := h.mode_eq
  cases m <;> cases t <;> rfl

/-- In an ordinary place a transition that is not set is a problem. -/
theorem TransitionField.Fits.problem?_eq {f : TransitionField} (h : f.Fits .ordinary) :
    f.problem? = if f.transition.isSome then none else some (.configurationMissing "Next") := by
  obtain ⟨m, t⟩ := f
  obtain rfl : m = .ordinary := h.mode_eq
  cases t <;> rfl

theorem Retrier.findSome?_toList (rs : List Retrier) :
    (rs.findSome? Retrier.problem?).toList = findings rs := by
  induction rs with
  | nil => rfl
  | cons r rs ih =>
    rw [findings] at ih ⊢
    rw [List.findSome?_cons, List.find?_cons, Retrier.problem?]
    cases r.errors.isEmpty with
    | true => rfl
    | false => exact ih

theorem Catcher.findSome?_toList {cs : List Catcher} (h : ∀ c ∈ cs, c.next.Fits .ordinary) :
    (cs.findSome? Catcher.problem?).toList = findings cs := by
  induction cs with
  | nil => rfl
  | cons c cs ih =>
    rw [List.forall_mem_cons] at h
    have ih := ih h.2
    rw [findings] at ih ⊢
    rw [List.findSome?_cons, List.find?_cons, Catcher.problem?, isBroken, h.1.problem?_eq]
    -- the first handler that is broken settles the matter, and any other one is passed over
    cases he : c.errors.isEmpty <;> cases c.next.transition <;> simp [he, ih]

namespace Body

variable {σ : Type}

theorem missing_eq {α : Type} (key : String) (a : Option α) :
    missing key a = if a.isSome then [] else [.configurationMissing key] := by
  cases a <;> rfl

theorem heartbeatProblems_eq (timeout heartbeat : Option Seconds) :
    heartbeatProblems timeout heartbeat =
      match timeout, heartbeat with
      | some timeout, some heartbeat =>
        if heartbeat.count < timeout.count then []
        else [.invalidValue (.heartbeat heartbeat.count timeout.count)]
      | _, _ => [] := by
  rcases timeout with _ | timeout <;> rcases heartbeat with _ | heartbeat <;> try rfl
  simp only [heartbeatProblems, ← UInt32.not_le, ite_not]

/-- The problems with a field come first, those with the rest of the fields after them. -/
theorem filterMap_cons_eq_toList (f : Field) (fs : List Field) :
    (f :: fs).filterMap Field.problem? = f.problem?.toList ++ fs.filterMap Field.problem? := by
  rw [List.filterMap_cons]
  cases f.problem? <;> rfl

end Body

/-- The problems with a sound body are its own findings, then those at its rules. -/
theorem Body.Sound.ownProblems_eq {b : Body State} (h : b.Sound)
    (hrules : ∀ r ∈ b.rules, r.problems = (r.walk true).flatMap Visit.findings) :
    b.ownProblems =
      b.findings ++ (b.rules.flatMap (Rule.walk true)).flatMap Visit.findings := by
  have hnext {f : TransitionField} (hf : b.next? = some f) : f.problem?.toList = f.findings := by
    have := (h.next f hf).problem?_toList
    rwa [if_neg nofun] at this
  cases b with
  | pass b =>
    simp [ownProblems, fieldProblems, fields, Body.findings, Body.rules,
      filterMap_cons_eq_toList, Field.problem?, hnext rfl]
  | task b =>
    have hcatchers : (b.catchers.findSome? Catcher.problem?).toList = _ :=
      Catcher.findSome?_toList h.catchers
    simp [ownProblems, fieldProblems, fields, Body.findings, Body.rules,
      filterMap_cons_eq_toList, Field.problem?, hnext rfl, Retrier.findSome?_toList, hcatchers,
      missing_eq, heartbeatProblems_eq]
  | wait b =>
    simp [ownProblems, fieldProblems, fields, Body.findings, Body.rules,
      filterMap_cons_eq_toList, Field.problem?, hnext rfl, missing_eq]
  | succeed => rfl
  | fail b => simp [ownProblems, Body.findings, Body.rules, missing_eq]
  | choice b =>
    rw [ownProblems, Body.findings, Rule.listProblems_eq_flatMap, List.flatMap_assoc,
      ← List.flatMap_congr hrules, Body.rules]
    cases b.rules <;> rfl
  | parallel b =>
    simp [ownProblems, fieldProblems, fields, Body.findings, Body.rules,
      filterMap_cons_eq_toList, Field.problem?, hnext rfl]

/-- **The problems with a rule are the findings at its nodes**, by induction on the rule: in
the place of the root a transition is asked for, and in a locked one it is not. -/
theorem Rule.Placed.problems_eq {mode : TransitionMode} {isRoot : Bool} {r : Rule}
    (h : r.Placed mode) (hroot : isRoot = true ↔ mode ≠ .locked) :
    r.problems = (r.walk isRoot).flatMap Visit.findings := by
  have hnext {f : TransitionField} (hf : f.Fits mode) :
      f.problem?.toList = if isRoot then f.findings else [] := by
    rw [hf.problem?_toList]
    by_cases hmode : mode = .locked
    · rw [if_pos hmode, if_neg fun hr => hroot.mp hr hmode]
    · rw [if_neg hmode, if_pos (hroot.mpr hmode)]
  induction r generalizing mode isRoot with
  | logic op children next ih =>
    cases h with
    | logic fits inside =>
      have hchildren : children.flatMap Rule.problems =
          children.flatMap fun r => (r.walk false).flatMap Visit.findings := by
        refine List.flatMap_congr fun r hr => ?_
        have hlocked : false = true ↔ TransitionMode.locked ≠ .locked := by simp
        refine ih r hr (inside r hr) hlocked fun hf => ?_
        exact hf.problem?_toList
      rw [Rule.problems, Rule.listProblems_eq_flatMap, Rule.walk, Rule.listWalk_eq_flatMap,
        List.flatMap_cons, List.flatMap_assoc, hchildren, hnext fits, Visit.findings,
        Rule.findings, Rule.arityProblem?]
      split <;> rfl
  | compare c next =>
    cases h with
    | compare fits =>
      rw [Rule.problems, Rule.walk, List.flatMap_singleton, hnext fits, Visit.findings,
        Rule.findings, Comparison.problems]
      cases c.input <;> cases c.literal <;> rfl

theorem Collection.Indexed.startProblems_eq {c : Collection State} (h : c.Indexed) :
    c.startProblems = c.findings := by
  rw [startProblems, findings]
  rcases c.startAt with _ | name
  · rfl
  · have hname : c.names.contains name = c.states.any fun s => s.name == name := by
      rw [Bool.eq_iff_iff, List.contains_iff_mem, h.names.mem_iff, List.mem_map, List.any_eq_true]
      simp only [beq_iff_eq]
    dsimp only
    rw [hname]

/-- The problems with a collection are the findings of its walk, given that for its states. -/
theorem Collection.Indexed.problems_eq {c : Collection State} (h : c.Indexed)
    (hstates : ∀ s ∈ c.states, s.problems = s.walk.flatMap Visit.findings) :
    c.problems = c.walk.flatMap Visit.findings := by
  rw [Collection.problems, Collection.walk, State.listProblems_eq_flatMap,
    List.flatMap_congr hstates, h.startProblems_eq, List.flatMap_append, List.flatMap_assoc,
    List.flatMap_singleton]
  rfl

/-- **The problems with a sound state are the findings of its walk**: by induction on its
branches. -/
theorem State.Sound.problems_eq {s : State} (h : s.Sound) :
    s.problems = s.walk.flatMap Visit.findings := by
  induction s using State.branchInduction with
  | step s ih =>
    have hrules : ∀ r ∈ s.body.rules, r.problems = (r.walk true).flatMap Visit.findings :=
      fun r hr => (h.body.rules r hr).problems_eq (by simp)
    have hbranches : ∀ c ∈ s.branches, c.problems = c.walk.flatMap Visit.findings :=
      fun c hc => (h.branches c hc).indexed.problems_eq fun t ht =>
        ih c hc t ht ((h.branches c hc).inside t ht)
    rw [State.problems_eq, State.walk_eq, h.body.ownProblems_eq hrules,
      List.flatMap_congr hbranches, List.flatMap_cons, List.flatMap_append,
      List.flatMap_assoc (l := s.branches), List.append_assoc]
    rfl

/-- **The problems of a machine are the findings of one walk over it**, visit by visit, and
there are none exactly if every visit finds everything settled. -/
theorem Machine.Built.problems_eq_findings {m : Machine} (h : m.Built) :
    m.problems = m.walk.flatMap Visit.findings ∧
      (m.problems = [] ↔ ∀ v ∈ m.walk, v.Settled) := by
  have hproblems : m.problems = m.walk.flatMap Visit.findings :=
    h.sound.indexed.problems_eq fun s hs => (h.sound.inside s hs).problems_eq
  refine ⟨hproblems, ?_⟩
  rw [hproblems, List.flatMap_eq_nil_iff]
  exact forall₂_congr fun v _ => Visit.findings_eq_nil

/-- A document in which something is missing at every kind of place. -/
def Machine.unfinished : Json :=
  .object [("StartAt", .string "Nowhere"), ("States", .object [
    ("Work", .object [("Type", .string "Task"), ("TimeoutSeconds", .ofUInt32 5),
      ("HeartbeatSeconds", .ofUInt32 5), ("Retry", .array [.object [], .object []]),
      ("Catch", .array [.object [("ErrorEquals", .array [.string "Broken"])]])]),
    ("Decide", .object [("Type", .string "Choice"), ("Choices", .array [
      .object [("And", .array [.object [("Variable", .string "$.x"), ("Not", .object
        [("BooleanEquals", .bool true)])]])]])]),
    ("Split", .object [("Type", .string "Parallel"), ("End", .bool true),
      ("Branches", .array [.object []])])])]

theorem Machine.problems_unfinished : ∃ m : Machine, m.Built ∧
    (∃ v ∈ m.walk, ¬v.Settled) ∧
      m.problems = [.configurationMissing "Next", .configurationMissing "ErrorEquals",
        .configurationMissing "Next", .configurationMissing "Resource",
        .invalidValue (.heartbeat 5 5), .arity .and 1, .configurationMissing "Next",
        .configurationMissing "Variable", .emptyCollection "States",
        .invalidValue (.unknownStart "Nowhere")] := by
  have hdistinct : unfinished.HasDistinctKeys := (Json.distinctKeys_iff _).mp (by decide)
  have hread : (Machine.ofDocument .standard unfinished).outcome = .ok _ := rfl
  have hbuilt := Machine.Built.read hdistinct hread
  obtain ⟨hfindings, hsettled⟩ := hbuilt.problems_eq_findings
  refine ⟨_, hbuilt, ?_, hfindings.trans rfl⟩
  by_contra hall
  have hnil := hsettled.mpr fun v hv => by_contra fun hv' => hall ⟨v, hv, hv'⟩
  nomatch hnil

end StatesLanguage
