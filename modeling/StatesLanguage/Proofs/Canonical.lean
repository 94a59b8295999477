import StatesLanguage.Proofs.Reading
import StatesLanguage.Proofs.Writing

/-!
# What survives of a document

Reading a document and writing the machine again drops what the language knows nothing of,
and settles what a document may leave open. `Canonical.machine` says what is left, as a
function on JSON values: of each object the keys that count for it, in a fixed order, with
their values brought into the same form. It never looks at a model.

The main result, `Machine.toDocument_eq_canonical`, is that this is what is written for
every document that is read as a machine without problems.

In an object in canonical form the values come first: a walk brings the values of all
members into the form that they would have under the key in question, and then the keys
that count are picked from the outcome.
-/

namespace StatesLanguage

open Json (Members)

namespace Canonical

/-! ### Fields -/

/-- The member of a key, if there is one. -/
def keep (key : String) (ms : Members) : Members :=
  optionalMember key id (ms.lookup key)

/-- A member whose value is an array that is not empty, with the items in another form. -/
def keepItems (key : String) (item : Json → Json) (ms : Members) : Members :=
  match ms.lookup key with
  | some (.array items) => listMember key (items.map item)
  | _ => []

/-- The end if it is true, and else the target. -/
def next (ms : Members) : Members :=
  match ms.lookup "End" with
  | some (.bool true) => [("End", .bool true)]
  | _ => keep "Next" ms

/-- A retry policy. -/
def retrier : Json → Json
  | .object ms =>
    .object <|
      keep "ErrorEquals" ms ++ keep "IntervalSeconds" ms ++ keep "BackoffRate" ms ++
        keep "MaxAttempts" ms
  | v => v

/-- An error handler. -/
def catcher : Json → Json
  | .object ms => .object (keep "ErrorEquals" ms ++ next ms ++ keep "ResultPath" ms)
  | v => v

/-! ### Rules -/

/-- The members of a rule, given the form of the rules below it: the operator that counts,
with its operand or its variable and literal, and the transition. -/
def ruleMembers (ms inside : Members) : Members :=
  match Operator.find? ms with
  | some (.logic op) => keep op.keyword inside ++ next ms
  | some (.compare op) => keep "Variable" ms ++ keep op.keyword ms ++ next ms
  | none => ms

mutual

/-- A rule, or an array of rules. -/
def rule : Json → Json
  | .object ms => .object (ruleMembers ms (ruleValues ms))
  | .array items => .array (ruleItems items)
  | v => v

/-- Members with a rule, or an array of rules, under each key. -/
def ruleValues : Members → Members
  | [] => []
  | (key, v) :: ms => (key, rule v) :: ruleValues ms

/-- Rules. -/
def ruleItems : List Json → List Json
  | [] => []
  | v :: vs => rule v :: ruleItems vs

end

/-! ### States -/

/-- The members of a kind of states, given the form of branches. -/
def settings (ms branches : Members) : StateKind → Members
  | .pass =>
    keep "InputPath" ms ++ keep "OutputPath" ms ++ keep "ResultPath" ms ++ keep "Result" ms ++
      next ms
  | .task =>
    keep "Resource" ms ++ keep "TimeoutSeconds" ms ++ keep "HeartbeatSeconds" ms ++
      keep "InputPath" ms ++ keep "OutputPath" ms ++ keep "ResultPath" ms ++ keep "Result" ms ++
      next ms ++ keepItems "Retry" retrier ms ++ keepItems "Catch" catcher ms
  | .wait => keep "Seconds" ms ++ next ms
  | .succeed => []
  | .fail => keep "Error" ms ++ keep "Cause" ms
  | .choice => keep "Choices" (ruleValues ms) ++ keep "Default" ms
  | .parallel =>
    keep "Branches" branches ++ next ms ++ keep "InputPath" ms ++ keep "OutputPath" ms ++
      keep "ResultPath" ms

/-- The kind of states that a type names. -/
def kind? (ms : Members) : Option StateKind :=
  match ms.lookup "Type" with
  | some (.string type) => StateKind.all.find? fun kind => kind.name == type
  | _ => none

/-- The members of a state, given the form of branches. -/
def stateMembers (ms branches : Members) : Members :=
  match kind? ms with
  | some kind => keep "Type" ms ++ keep "Comment" ms ++ settings ms branches kind
  | none => ms

/-- The start of a collection: the first of its states, if nothing else is said. -/
def start (ms : Members) : Members :=
  match ms.lookup "StartAt", ms.lookup "States" with
  | some v, _ => [("StartAt", v)]
  | none, some (.object ((name, _) :: _)) => [("StartAt", .string name)]
  | none, _ => []

mutual

/-- A state. -/
def state : Json → Json
  | .object ms => .object (stateMembers ms (branchValues ms))
  | v => v

/-- States under their names. -/
def stateValues : Members → Members
  | [] => []
  | (name, v) :: ms => (name, state v) :: stateValues ms

/-- An object of states. -/
def states : Json → Json
  | .object members => .object (stateValues members)
  | v => v

/-- Members with an object of states under each key. -/
def statesValues : Members → Members
  | [] => []
  | (key, v) :: ms => (key, states v) :: statesValues ms

/-- A branch. -/
def branch : Json → Json
  | .object ms => .object (start ms ++ keep "States" (statesValues ms))
  | v => v

/-- Branches. -/
def branchItems : List Json → List Json
  | [] => []
  | v :: vs => branch v :: branchItems vs

/-- An array of branches. -/
def branches : Json → Json
  | .array items => .array (branchItems items)
  | v => v

/-- Members with an array of branches under each key. -/
def branchValues : Members → Members
  | [] => []
  | (key, v) :: ms => (key, branches v) :: branchValues ms

end

/-- A machine. -/
def machine : Json → Json
  | .object ms =>
    .object <|
      start ms ++ keep "States" (statesValues ms) ++ keep "Comment" ms ++
        keep "TimeoutSeconds" ms ++ keep "Version" ms
  | v => v

/-! ### Values under keys -/

theorem ruleItems_eq_map (vs : List Json) : ruleItems vs = vs.map rule := by
  induction vs with
  | nil => rfl
  | cons v vs ih => rw [ruleItems, ih, List.map_cons]

theorem branchItems_eq_map (vs : List Json) : branchItems vs = vs.map branch := by
  induction vs with
  | nil => rfl
  | cons v vs ih => rw [branchItems, ih, List.map_cons]

theorem stateValues_eq_map (ms : Members) :
    stateValues ms = ms.map fun m => (m.1, state m.2) := by
  induction ms with
  | nil => rfl
  | cons m ms ih => rw [stateValues, ih, List.map_cons]

theorem ruleValues_eq_map (ms : Members) : ruleValues ms = ms.map fun m => (m.1, rule m.2) := by
  induction ms with
  | nil => rfl
  | cons m ms ih => rw [ruleValues, ih, List.map_cons]

theorem statesValues_eq_map (ms : Members) :
    statesValues ms = ms.map fun m => (m.1, states m.2) := by
  induction ms with
  | nil => rfl
  | cons m ms ih => rw [statesValues, ih, List.map_cons]

theorem branchValues_eq_map (ms : Members) :
    branchValues ms = ms.map fun m => (m.1, branches m.2) := by
  induction ms with
  | nil => rfl
  | cons m ms ih => rw [branchValues, ih, List.map_cons]

theorem lookup_ruleValues (key : String) (ms : Members) :
    (ruleValues ms).lookup key = (ms.lookup key).map rule := by
  rw [ruleValues_eq_map, lookup_map_member fun _ => rule]

theorem lookup_statesValues (key : String) (ms : Members) :
    (statesValues ms).lookup key = (ms.lookup key).map states := by
  rw [statesValues_eq_map, lookup_map_member fun _ => states]

theorem lookup_branchValues (key : String) (ms : Members) :
    (branchValues ms).lookup key = (ms.lookup key).map branches := by
  rw [branchValues_eq_map, lookup_map_member fun _ => branches]

/-! ### Fields -/

/-- A key that shows a setting is kept as the setting is written. -/
theorem keep_eq {α : Type} {key : String} {toJson : α → Json} {a : Option α} {ms : Members}
    (h : ms.lookup key = a.map toJson) : keep key ms = optionalMember key toJson a := by
  rw [keep, h]
  cases a <;> rfl

/-- A key that shows a value is kept with the value. -/
theorem keep_value {key : String} {v : Option Json} {ms : Members} (h : ms.lookup key = v) :
    keep key ms = optionalMember key id v := by
  rw [keep, h]

theorem keep_of_some {key : String} {v : Json} {ms : Members} (h : ms.lookup key = some v) :
    keep key ms = [(key, v)] := by
  rw [keep, h]
  rfl

theorem keepItems_eq {key : String} {item : Json → Json} {ms : Members} {items : List Json}
    (h : (ms.lookup key).getD (.array []) = .array items) :
    keepItems key item ms = listMember key (items.map item) := by
  rw [keepItems]
  rcases Option.getD_eq_iff.mp h with hv | ⟨hv, he⟩
  · rw [hv]
  · obtain rfl := Json.array.inj he
    rw [hv]
    rfl

theorem next_of_not_end {ms : Members} (h : ms.lookup "End" ≠ some (.bool true)) :
    next ms = keep "Next" ms := by
  rw [next]
  split
  · next he => exact absurd he h
  · rfl

theorem next_eq {mode : TransitionMode} {f : TransitionField} {ms : Members}
    (h : f.Shown mode ms) : next ms = f.members := by
  obtain ⟨m, _ | target | _⟩ := f
  · obtain ⟨-, hend, hnext⟩ := h
    rw [next_of_not_end hend, keep, hnext]
    cases m <;> rfl
  · obtain ⟨rfl, hmode, hend, hnext⟩ := h
    rw [next_of_not_end hend, keep_of_some hnext]
    cases m with
    | locked => exact absurd rfl hmode
    | ordinary | withoutEnd => rfl
  · obtain ⟨rfl, rfl, hend⟩ := h
    rw [next, hend]
    rfl

theorem keep_resultPath {r : ResultPath} {ms : Members}
    (h : ms.lookup "ResultPath" = r.toJson?) : keep "ResultPath" ms = r.members := by
  rw [keep, h]
  cases r <;> rfl

theorem keep_paths {p : DataPaths} {ms : Members} (h : p.Shown ms) :
    keep "InputPath" ms ++ keep "OutputPath" ms = p.members := by
  rw [keep_eq h.input, keep_eq h.output, DataPaths.members]

/-- A value other than that of an absent key is there. -/
theorem lookup_of_getD {key : String} {d v : Json} {ms : Members}
    (h : (ms.lookup key).getD d = v) (hne : v ≠ d) : ms.lookup key = some v :=
  (Option.getD_eq_iff.mp h).resolve_right fun hd => hne hd.2.symm

/-- A retry policy without problems is written in canonical form. -/
theorem retrier_eq {r : Retrier} {v : Json} (h : Retrier.ofJson v = .ok r)
    (hproblem : r.problem? = none) : retrier v = r.toJson := by
  obtain ⟨ms, rfl, hshown⟩ := Retrier.ofJson_eq_ok.mp h
  have hne := Retrier.problem?_eq_none.mp hproblem
  have herrors := lookup_of_getD hshown.errors (by simpa using hne)
  rw [retrier, keep_of_some herrors, keep_eq hshown.interval, keep_eq hshown.backoff,
    keep_eq hshown.attempts, Retrier.toJson]

/-- An error handler without problems is written in canonical form. -/
theorem catcher_eq {c : Catcher} {v : Json} (h : Catcher.ofJson v = .ok c)
    (hproblem : c.problem? = none) : catcher v = c.toJson := by
  obtain ⟨ms, rfl, hshown⟩ := Catcher.ofJson_eq_ok.mp h
  have hne := (Catcher.problem?_eq_none.mp hproblem).1
  have herrors := lookup_of_getD hshown.errors (by simpa using hne)
  rw [catcher, keep_of_some herrors, next_eq hshown.next, keep_resultPath hshown.resultPath,
    Catcher.toJson]

/-! ### Rules and bodies -/

/-- The operand of a logic operator is brought into canonical form rule by rule. -/
theorem rule_of_operands {op : LogicOp} {v : Json} {items : List Json}
    (h : op.operands v = some items) : rule v = op.operand (items.map rule) := by
  by_cases hop : op = .not
  · subst hop
    obtain ⟨-, rfl⟩ := LogicOp.operands_not_eq_some.mp h
    rfl
  · obtain rfl := (LogicOp.operands_eq_some hop).mp h
    rw [rule, ruleItems_eq_map]
    cases op with
    | not => exact absurd rfl hop
    | and | or => rfl

/-- A rule is written in canonical form: by induction on the rule. -/
theorem rule_eq {r : Rule} {mode : TransitionMode} {v : Json} (h : Rule.ofJson mode v = .ok r) :
    rule v = r.toJson := by
  induction r generalizing mode v with
  | logic op children next ih =>
    obtain ⟨ms, rfl, hfind, ⟨w, items, hw, hitems, hread⟩, hnext⟩ := Rule.ofJson_eq_ok.mp h
    have hvalue : (ruleValues ms).lookup op.keyword =
        some (op.operand (children.map Rule.toJson)) := by
      rw [lookup_ruleValues, hw, Option.map_some, rule_of_operands hitems,
        map_eq_map_of_forall₂ hread fun r hr x hx => ih r hr hx]
    rw [rule, ruleMembers, hfind, Rule.toJson_eq, Rule.documentMembers]
    dsimp only
    rw [keep_of_some hvalue, next_eq hnext]
  | compare c next =>
    obtain ⟨ms, rfl, hfind, hinput, hliteral, hnext⟩ := Rule.ofJson_eq_ok.mp h
    rw [rule, ruleMembers, hfind, Rule.toJson, Comparison.members]
    dsimp only
    rw [keep_eq hinput, keep_value hliteral, next_eq hnext]

/-- A task without problems is written in canonical form. -/
theorem settings_task {b : Task} {ms bs : Members} (h : b.Shown ms) (hcomplete : b.Complete) :
    settings ms bs .task = (Body.task b : Body State).ownMembers ++
      (Body.task b : Body State).fieldMembers := by
  obtain ⟨policies, hpolicies, hretriers⟩ := h.retriers
  obtain ⟨handlers, hhandlers, hcatchers⟩ := h.catchers
  rw [settings, keep_eq h.resource, keep_eq h.timeout, keep_eq h.heartbeat,
    keep_resultPath h.resultPath, keep_value h.result, next_eq h.next, keepItems_eq hpolicies,
    keepItems_eq hhandlers,
    map_eq_map_of_forall₂ hretriers fun r hr v hv => retrier_eq hv (hcomplete.retriers r hr),
    map_eq_map_of_forall₂ hcatchers fun c hc v hv => catcher_eq hv (hcomplete.catchers c hc)]
  simp [← keep_paths h.paths]

theorem settings_choice {b : Choice} {ms bs : Members} (h : b.Shown ms) (hne : b.rules ≠ []) :
    settings ms bs .choice = (Body.choice b : Body State).ownMembers := by
  obtain ⟨items, hitems, hread⟩ := h.rules
  have hcons : Json.array items ≠ .array [] := by
    rintro ⟨rfl⟩
    exact hne (List.forall₂_nil_left_iff.mp hread)
  have hchoices : (ruleValues ms).lookup "Choices" = some (.array (Rule.listToJson b.rules)) := by
    rw [lookup_ruleValues, lookup_of_getD hitems hcons, Option.map_some, rule, ruleItems_eq_map,
      Rule.listToJson_eq_map, map_eq_map_of_forall₂ hread fun r _ v hv => rule_eq hv]
  rw [settings, keep_of_some hchoices, keep_eq h.fallback, Body.ownMembers]

/-- **The settings of a body without problems are written in canonical form.** -/
theorem settings_eq {b : Body State} {ms bs : Members} (h : b.Shown ms)
    (hproblems : b.ownProblems = [])
    (hbranches : b.kind = .parallel → keep "Branches" bs = b.branchMembers) :
    settings ms bs b.kind = b.ownMembers ++ b.branchMembers ++ b.fieldMembers := by
  cases b with
  | pass b =>
    rw [Body.kind, settings, keep_paths h.paths, keep_resultPath h.resultPath,
      keep_value h.result, next_eq h.next]
    simp
  | task b =>
    rw [Body.kind, settings_task h (Body.task_ownProblems hproblems)]
    simp
  | wait b =>
    rw [Body.kind, settings, keep_eq h.seconds, next_eq h.next]
    simp
  | succeed => rfl
  | fail b =>
    rw [Body.kind, settings, keep_eq h.error, keep_eq h.cause]
    simp
  | choice b =>
    rw [Body.kind, settings_choice h (Body.rules_ne_nil_of_ownProblems hproblems)]
    simp
  | parallel b =>
    rw [Body.kind, settings, hbranches rfl, next_eq h.next, keep_resultPath h.resultPath]
    simp [← keep_paths h.paths]

/-! ### States and collections -/

theorem kind?_eq {ms : Members} {kind : StateKind}
    (h : ms.lookup "Type" = some (.string kind.name)) : kind? ms = some kind := by
  rw [kind?, h]
  cases kind <;> rfl

theorem start_eq {r : Registry} {c : Collection State} {ms : Members} (h : c.Shown r ms)
    (hne : c.states ≠ []) : start ms = optionalMember "StartAt" .string c.startAt := by
  obtain ⟨members, hmembers, hreads⟩ := h.states
  obtain ⟨given, hgiven, hstart⟩ := h.startAt
  rw [start, hstart, hgiven]
  cases given with
  | some name => rfl
  | none =>
    -- the first state is also the first member under `States`
    have hnames := State.names_of_reads hreads
    cases members with
    | nil => exact absurd (List.forall₂_nil_left_iff.mp hreads) hne
    | cons m members =>
      have hstates := lookup_of_getD hmembers nofun
      obtain ⟨s, ss, hs⟩ := List.exists_cons_of_ne_nil hne
      rw [hs, List.map_cons, List.map_cons, List.cons.injEq] at hnames
      rw [hstates, hs]
      simp [optionalMember, hnames.1]

/-- What is written for the states of a collection, given that for each of them. -/
theorem keep_states_eq {r : Registry} {c : Collection State} {ms : Members} (h : c.Shown r ms)
    (hne : c.states ≠ []) (hstates : ∀ s ∈ c.states, ∀ name v,
      (State.ofJson r name v).outcome = .ok s → s.document = state v) :
    keep "States" (statesValues ms) =
      [("States", .object (Json.collect (c.states.map fun s => (s.name, s.document))))] := by
  obtain ⟨members, hmembers, hreads⟩ := h.states
  have hnames := State.names_of_reads hreads
  have hvalue : ms.lookup "States" = some (.object members) := by
    refine lookup_of_getD hmembers fun hnil => hne ?_
    rw [Json.object.inj hnil] at hreads
    exact List.forall₂_nil_left_iff.mp hreads
  have hmap : members.map (fun m => (m.1, state m.2)) =
      c.states.map fun s => (s.name, s.document) := by
    refine map_eq_map_of_forall₂ hreads fun s hs m hm => ?_
    obtain ⟨_, _, hshown⟩ := State.ofJson_eq_ok.mp hm
    rw [hstates s hs m.1 m.2 hm, hshown.name]
  refine keep_of_some ?_
  rw [lookup_statesValues, hvalue, Option.map_some, states, stateValues_eq_map, hmap,
    Collection.collect_documents h.distinct]

/-- A collection is written in canonical form, given that for its states. -/
theorem documentMembers_eq {r : Registry} {c : Collection State} {ms : Members}
    (h : c.Shown r ms) (hne : c.states ≠ []) (hstates : ∀ s ∈ c.states, ∀ name v,
      (State.ofJson r name v).outcome = .ok s → s.document = state v) :
    c.documentMembers = start ms ++ keep "States" (statesValues ms) := by
  rw [Collection.documentMembers, start_eq h hne, keep_states_eq h hne hstates]

/-- **A state without problems is written in canonical form**: by induction on its
branches. -/
theorem document_eq_state {s : State} {name : String} {v : Json} (hproblems : s.problems = [])
    (h : (State.ofJson .standard name v).outcome = .ok s) : s.document = state v := by
  induction s using State.branchInduction generalizing name v with
  | step s ih =>
  obtain ⟨ms, rfl, hshown⟩ := State.ofJson_eq_ok.mp h
  obtain ⟨type, htype, hkind⟩ := hshown.type
  obtain rfl := (Registry.resolve_standard type s.kind).mp hkind
  have hown := State.ownProblems_eq_nil hproblems
  have hbranches : s.body.kind = .parallel →
      keep "Branches" (branchValues ms) = s.body.branchMembers := by
    intro hpar
    obtain ⟨items, hitems, hreads⟩ := hshown.branches hpar
    have hmap : items.map branch = s.branches.map fun c => .object c.documentMembers := by
      refine map_eq_map_of_forall₂ hreads fun c hc v hv => ?_
      obtain ⟨ms', rfl, hread⟩ := hv
      have hcproblems := State.problems_of_mem hproblems c hc
      rw [branch, documentMembers_eq (Collection.ofMembers_eq_ok.mp hread)
        (Collection.states_ne_nil_of_problems_eq_nil hcproblems) fun t ht _ _ hread =>
          ih c hc t ht (Collection.problems_of_mem hcproblems t ht) hread]
    obtain ⟨b, hb⟩ := Body.exists_eq_parallel hpar
    rw [State.branches, hb, Body.branches] at hmap hreads
    rw [hb] at hown ⊢
    have hcons : Json.array items ≠ .array [] := by
      rintro ⟨rfl⟩
      exact Body.branches_ne_nil_of_ownProblems hown (List.forall₂_nil_left_iff.mp hreads)
    refine keep_of_some ?_
    rw [lookup_branchValues, lookup_of_getD hitems hcons, Option.map_some, branches,
      branchItems_eq_map, hmap]
  have hsettings := settings_eq hshown.body hown hbranches
  rw [State.document_eq, State.documentMembers, state, stateMembers, kind?_eq htype,
    List.append_assoc, List.append_assoc, ← List.append_assoc s.body.ownMembers, ← hsettings]
  dsimp only
  rw [keep_of_some htype, keep_eq hshown.comment]
  rfl

end Canonical

/-! ### Machines -/

/-- A machine without problems is written in canonical form. -/
theorem Canonical.document_eq_machine {document : Json} {m : Machine}
    (h : (Machine.ofDocument .standard document).outcome = .ok m) (hproblems : m.problems = []) :
    m.document = Canonical.machine document := by
  obtain ⟨ms, rfl, hshown⟩ := Machine.ofDocument_eq_ok.mp h
  have hstates := Canonical.documentMembers_eq hshown.states
    (Collection.states_ne_nil_of_problems_eq_nil hproblems) fun s hs _ _ hread =>
      Canonical.document_eq_state (Collection.problems_of_mem hproblems s hs) hread
  rw [Canonical.machine, Machine.document, Machine.documentMembers, hstates,
    Canonical.keep_eq hshown.comment, Canonical.keep_eq hshown.timeout,
    Canonical.keep_eq hshown.version]

/-- **What is written for a document is its canonical form**, if it is read as a machine
without problems. -/
theorem Machine.toDocument_eq_canonical {document : Json} {m : Machine}
    (h : (Machine.ofDocument .standard document).outcome = .ok m) (hproblems : m.problems = []) :
    m.toDocument.outcome = .ok (Canonical.machine document) :=
  Machine.toDocument_eq_ok.mpr ⟨hproblems, (Canonical.document_eq_machine h hproblems).symm⟩

/-- A document with a contradiction and a key that nobody reads, and without a start. -/
def Canonical.untidy : Json :=
  .object [("States", .object [("Idle", .object [("Next", .string "Idle"), ("End", .bool true),
    ("Colour", .string "red"), ("Type", .string "Pass")])])]

theorem Machine.toDocument_untidy : ∃ m : Machine,
    (Machine.ofDocument .standard Canonical.untidy).outcome = .ok m ∧ m.problems = [] ∧
      m.toDocument.outcome = .ok (.object [("StartAt", .string "Idle"), ("States", .object
        [("Idle", .object [("Type", .string "Pass"), ("End", .bool true)])])]) := by
  have hread : (Machine.ofDocument .standard Canonical.untidy).outcome = .ok _ := rfl
  exact ⟨_, hread, rfl, toDocument_eq_canonical hread rfl⟩

end StatesLanguage
