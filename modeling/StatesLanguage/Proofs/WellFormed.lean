import StatesLanguage.Proofs.Built
import StatesLanguage.Proofs.Shape
import StatesLanguage.Proofs.Writing

/-!
# What is written is well-formed

The predicates here say what a document of a machine has to look like, as statements on
JSON values: which keys there must be, which there may be, and what stands under them, for
machines, states and rules at all depths. `Collection.Mirrors` compares a document with a
model, and says that it holds one entry for each state, in order.

The main result, `Machine.Built.isMachine_of_toDocument`, is that every document that is
written for a machine that is built satisfies both. The guarantees come from three sides:
the checks of single values are kept by the types of the model, what the modes of
transitions exclude is part of soundness, and the rest is what the list of problems leaves
no room for.
-/

namespace StatesLanguage

open Json (Members)

namespace WellFormed

/-! ### Fields -/

/-- What stands under `Next` and `End` in a place: exactly one of a target and a true
value in an ordinary one, a target at the root of a rule, and nothing below it. -/
def IsNext : TransitionMode → Members → Prop
  | .ordinary, ms =>
    (Requires "Next" Json.IsString ms ∧ ms.lookup "End" = none) ∨
      (ms.lookup "End" = some (.bool true) ∧ ms.lookup "Next" = none)
  | .withoutEnd, ms => Requires "Next" Json.IsString ms ∧ ms.lookup "End" = none
  | .locked, ms => ms.lookup "Next" = none ∧ ms.lookup "End" = none

/-- An array that is not empty, of values of a shape. -/
def IsNonemptyArrayOf (P : Json → Prop) (v : Json) : Prop :=
  ∃ items, v = .array items ∧ items ≠ [] ∧ ∀ w ∈ items, P w

/-- A retry policy. -/
inductive IsRetrier : Json → Prop
  /-- An object that names predefined errors. -/
  | object {ms : Members} (errors : Requires "ErrorEquals" (IsNonemptyArrayOf Json.IsErrorCode) ms)
    (interval : Allows "IntervalSeconds" Json.IsPositiveCount ms)
    (backoff : Allows "BackoffRate" Json.IsRate ms)
    (attempts : Allows "MaxAttempts" Json.IsCount ms) : IsRetrier (.object ms)

/-- An error handler. -/
inductive IsCatcher : Json → Prop
  /-- An object that names errors, and where control goes then. -/
  | object {ms : Members} (errors : Requires "ErrorEquals" (IsNonemptyArrayOf Json.IsString) ms)
    (next : IsNext .ordinary ms) (resultPath : Allows "ResultPath" Json.IsResultPath ms) :
    IsCatcher (.object ms)

/-! ### Rules -/

/-- The members hold the keyword of no other operator. -/
def Only (op : Operator) (ms : Members) : Prop :=
  ∀ other ≠ op, ms.lookup other.keyword = none

/-- A rule in a place. -/
inductive IsRule : TransitionMode → Json → Prop
  /-- Two or more rules, all or some of which match. -/
  | junction {mode : TransitionMode} {ms : Members} {op : LogicOp} {items : List Json}
    (only : Only (.logic op) ms) (several : op ≠ .not)
    (operand : ms.lookup op.keyword = some (.array items)) (two : 2 ≤ items.length)
    (inside : ∀ v ∈ items, IsRule .locked v) (next : IsNext mode ms) : IsRule mode (.object ms)
  /-- One rule that does not match. -/
  | negation {mode : TransitionMode} {ms : Members} {v : Json} (only : Only (.logic .not) ms)
    (operand : ms.lookup "Not" = some v) (inside : IsRule .locked v) (next : IsNext mode ms) :
    IsRule mode (.object ms)
  /-- A variable and a literal. -/
  | comparison {mode : TransitionMode} {ms : Members} {op : Comparator}
    (only : Only (.compare op) ms) (input : Requires "Variable" Json.IsPathText ms)
    (literal : Requires op.keyword (fun v => op.operand.accepts v = true) ms)
    (next : IsNext mode ms) : IsRule mode (.object ms)

/-! ### Bodies -/

/-- What stands under the keys of a Task state. -/
structure IsTask (ms : Members) : Prop where
  /-- The identifier of the work. -/
  resource : Requires "Resource" Json.IsString ms
  /-- How long the task may run. -/
  timeout : Allows "TimeoutSeconds" Json.IsPositiveCount ms
  /-- How long the task may be silent. -/
  heartbeat : Allows "HeartbeatSeconds" Json.IsPositiveCount ms
  /-- It may not be silent for as long as it may run. -/
  smaller : ∀ i j : Json.Integer, ms.lookup "TimeoutSeconds" = some (.number (.int i)) →
    ms.lookup "HeartbeatSeconds" = some (.number (.int j)) → j.value < i.value
  /-- The flow of data. -/
  flow : IsDataFlow ms
  /-- Where control goes. -/
  next : IsNext .ordinary ms
  /-- The retry policies. -/
  retriers : Allows "Retry" (IsNonemptyArrayOf IsRetrier) ms
  /-- The error handlers. -/
  catchers : Allows "Catch" (IsNonemptyArrayOf IsCatcher) ms

/-- What stands under the keys of a kind of states, the branches apart. -/
def IsBody : StateKind → Members → Prop
  | .pass, ms => IsNext .ordinary ms ∧ IsDataFlow ms
  | .task, ms => IsTask ms
  | .wait, ms => IsNext .ordinary ms ∧ Requires "Seconds" Json.IsPositiveCount ms
  | .succeed, ms => IsNext .locked ms
  | .fail, ms =>
    IsNext .locked ms ∧ Requires "Error" Json.IsString ms ∧ Requires "Cause" Json.IsString ms
  | .choice, ms =>
    IsNext .locked ms ∧ Requires "Choices" (IsNonemptyArrayOf (IsRule .withoutEnd)) ms ∧
      Allows "Default" Json.IsString ms
  | .parallel, ms => IsNext .ordinary ms ∧ IsDataFlow ms

/-! ### States and collections -/

mutual

/-- A state. -/
inductive IsState : Json → Prop
  /-- An object with a type, and what stands under the keys of its kind. -/
  | object {ms : Members} {kind : StateKind} (type : ms.lookup "Type" = some (.string kind.name))
    (comment : Allows "Comment" Json.IsString ms) (body : IsBody kind ms)
    (branches : kind = .parallel →
      ∃ items, ms.lookup "Branches" = some (.array items) ∧ items ≠ [])
    (inside : kind = .parallel → ∀ items, ms.lookup "Branches" = some (.array items) →
      ∀ v ∈ items, IsCollection v) : IsState (.object ms)

/-- A collection of states. -/
inductive IsCollection : Json → Prop
  /-- An object with states under different names, one of which is the start. -/
  | object {ms members : Members} {start : String}
    (states : ms.lookup "States" = some (.object members)) (nonempty : members ≠ [])
    (distinct : (members.map Prod.fst).Nodup)
    (startAt : ms.lookup "StartAt" = some (.string start)) (known : start ∈ members.map Prod.fst)
    (inside : ∀ m ∈ members, IsState m.2) : IsCollection (.object ms)

end

/-- A machine. -/
inductive IsMachine : Json → Prop
  /-- A collection that may have a description, a time limit and a version. -/
  | object {ms : Members} (comment : Allows "Comment" Json.IsString ms)
    (version : Allows "Version" Json.IsString ms)
    (timeout : Allows "TimeoutSeconds" Json.IsPositiveCount ms)
    (collection : IsCollection (.object ms)) : IsMachine (.object ms)

end WellFormed

/-! ### One entry for each state -/

mutual

/-- A document holds a state of the kind, with the branches of the state, in order. -/
inductive State.Mirrors : Json → State → Prop
  /-- An object whose branches are those of the state. -/
  | object {ms : Members} {s : State} {items : List Json}
    (type : ms.lookup "Type" = some (.string s.kind.name))
    (array : (ms.lookup "Branches").getD (.array []) = .array items)
    (branches : List.Forall₂ Collection.Mirrors items s.branches) : State.Mirrors (.object ms) s

/-- A document holds an entry for each state of a collection, in order. -/
inductive Collection.Mirrors : Json → Collection State → Prop
  /-- An object whose states are those of the collection. -/
  | object {ms members : Members} {c : Collection State}
    (object : ms.lookup "States" = some (.object members))
    (names : members.map Prod.fst = c.states.map State.name)
    (states : List.Forall₂ State.Mirrors (members.map Prod.snd) c.states) :
    Collection.Mirrors (.object ms) c

end

open WellFormed

/-! ### Transitions and policies -/

theorem requires_of_isSome {α : Type} {P : Json → Prop} {toJson : α → Json}
    (hP : ∀ v, P v ↔ ∃ a, v = toJson a) {key : String} {ms : Members} {a : Option α}
    (h : ms.lookup key = a.map toJson) (hset : a.isSome = true) : Requires key P ms := by
  obtain ⟨b, rfl⟩ := Option.isSome_iff_exists.mp hset
  exact ⟨_, h, (hP _).mpr ⟨b, rfl⟩⟩

/-- A transition that fits its place, and is set where it has to be, is well-formed. -/
theorem TransitionField.Fits.isNext {mode : TransitionMode} {f : TransitionField} {ms : Members}
    (h : f.Fits mode) (hset : f.problem? = none)
    (hend : ms.lookup "End" = f.members.lookup "End")
    (hnext : ms.lookup "Next" = f.members.lookup "Next") : IsNext mode ms := by
  obtain ⟨m, t⟩ := f
  obtain rfl : m = mode := h.mode_eq
  cases m with
  -- a locked field is never a problem, and never set
  | locked => exact ⟨hnext, hend⟩
  | ordinary =>
    have hsome := (TransitionField.problem?_eq_none.mp hset).resolve_left nofun
    obtain ⟨target | _, rfl⟩ := Option.isSome_iff_exists.mp hsome
    · exact Or.inl ⟨⟨_, hnext, target, rfl⟩, hend⟩
    · exact Or.inr ⟨hend, hnext⟩
  | withoutEnd =>
    have hsome := (TransitionField.problem?_eq_none.mp hset).resolve_left nofun
    obtain ⟨target | _, rfl⟩ := Option.isSome_iff_exists.mp hsome
    · exact ⟨⟨_, hnext, target, rfl⟩, hend⟩
    · nomatch h.terminal rfl

theorem Retrier.isRetrier_toJson {r : Retrier} (h : r.problem? = none) :
    IsRetrier r.toJson := by
  have hne := Retrier.problem?_eq_none.mp h
  refine .object ⟨_, ?_, r.errors.map fun code => .string code.text, rfl, ?_, fun v hv => ?_⟩
    ((allows_iff fun _ => Seconds.isPositiveCount_iff).mpr ⟨r.interval, ?_⟩)
    ((allows_iff fun _ => BackoffRate.isRate_iff).mpr ⟨r.backoff, ?_⟩)
    ((allows_iff fun _ => Json.isCount_iff).mpr ⟨r.attempts, ?_⟩)
  · simp
  · simpa using hne
  · obtain ⟨code, -, rfl⟩ := List.mem_map.mp hv
    exact ⟨code, rfl⟩
  · simp
  · simp
  · simp

theorem Catcher.isCatcher_toJson {c : Catcher} (h : c.problem? = none)
    (hfits : c.next.Fits .ordinary) : IsCatcher c.toJson := by
  obtain ⟨hne, hset⟩ := Catcher.problem?_eq_none.mp h
  refine .object ⟨_, ?_, c.errors.map fun name => .string name.text, rfl, ?_, fun v hv => ?_⟩
    (hfits.isNext hset ?_ ?_) (ResultPath.allows_iff.mpr ⟨c.resultPath, ?_⟩)
  · simp
  · simpa using hne
  · obtain ⟨name, -, rfl⟩ := List.mem_map.mp hv
    exact ⟨_, rfl⟩
  · simp
  · simp
  · simp

/-! ### Rules -/

/-- A rule without problems is well-formed in its place: by induction on the rule. -/
theorem Rule.isRule_toJson {mode : TransitionMode} {r : Rule} (h : r.Placed mode)
    (hproblems : r.problems = []) : IsRule mode r.toJson := by
  induction r generalizing mode with
  | logic op children next ih =>
    obtain ⟨harity, hset, hchildren⟩ := Rule.problems_logic_eq_nil.mp hproblems
    cases h with
    | logic fits inside =>
      have hnext := fits.isNext hset (Rule.lookup_transition (r := .logic op children next)
        (Or.inr rfl)) (Rule.lookup_transition (Or.inl rfl))
      have honly : Only (.logic op) (Rule.logic op children next).documentMembers :=
        fun _ hother => Rule.lookup_keyword_of_ne hother
      have hitems : ∀ v ∈ children.map Rule.toJson, IsRule .locked v := by
        intro v hv
        obtain ⟨r, hr, rfl⟩ := List.mem_map.mp hv
        exact ih r hr (inside r hr) (hchildren r hr)
      have hoperand := Rule.lookup_operand op children next
      rw [Rule.toJson_eq]
      cases op with
      | and | or =>
        have htwo : 2 ≤ (children.map Rule.toJson).length := by
          rw [List.length_map]
          exact of_decide_eq_true harity
        exact .junction honly nofun hoperand htwo hitems hnext
      | not =>
        obtain ⟨r, rfl⟩ := List.length_eq_one_iff.mp (beq_iff_eq.mp harity)
        exact .negation honly hoperand (hitems r.toJson List.mem_cons_self) hnext
  | compare c next =>
    obtain ⟨hinput, hliteral, hset⟩ := Rule.problems_compare_eq_nil.mp hproblems
    obtain ⟨v, hv⟩ := Option.isSome_iff_exists.mp hliteral
    rw [Rule.toJson_eq]
    exact .comparison (fun _ hother => Rule.lookup_keyword_of_ne hother)
      (requires_of_isSome (fun _ => Path.isPathText_iff) (Rule.lookup_variable c next) hinput)
      ⟨v, (Rule.lookup_literal c next).trans hv, c.accepted v hv⟩
      (h.next.isNext hset (Rule.lookup_transition (Or.inr rfl))
        (Rule.lookup_transition (Or.inl rfl)))

/-! ### Bodies -/

/-- A list that is written only if it is not empty is written in its shape. -/
theorem allows_of_listMember {P : Json → Prop} {key : String} (items : List Json) {ms : Members}
    (h : ms.lookup key = (listMember key items).lookup key) (hitems : ∀ v ∈ items, P v) :
    Allows key (IsNonemptyArrayOf P) ms := by
  rw [lookup_listMember] at h
  by_cases hne : items = []
  · exact .of_none (h.trans (if_neg fun hkey => hkey.2 hne))
  · exact .of_some (h.trans (if_pos ⟨rfl, hne⟩)) ⟨items, rfl, hne, hitems⟩

/-- Of two numbers of seconds that are written, the smaller one stands for fewer. -/
theorem Seconds.value_lt_of_count_lt {s t : Seconds} (h : s.count < t.count)
    {i j : Json.Integer} (hi : s.toJson = .number (.int i)) (hj : t.toJson = .number (.int j)) :
    i.value < j.value := by
  rw [← Json.Number.int.inj (Json.number.inj hi), ← Json.Number.int.inj (Json.number.inj hj)]
  exact Int.ofNat_lt.mpr (UInt32.lt_iff_toNat_lt.mp h)

theorem Task.isTask_documentMembers {s : State} {b : Task} (hs : s.body = .task b)
    (hsound : s.body.Sound) (hproblems : s.body.ownProblems = []) :
    IsTask s.documentMembers := by
  rw [hs] at hsound hproblems
  have hcomplete := Body.task_ownProblems hproblems
  have htimeout : s.documentMembers.lookup "TimeoutSeconds" = b.timeout.map Seconds.toJson := by
    simp [hs]
  have hheartbeat :
      s.documentMembers.lookup "HeartbeatSeconds" = b.heartbeat.map Seconds.toJson := by
    simp [hs]
  refine ⟨requires_of_isSome (a := b.resource) (fun _ => Iff.rfl) (by simp [hs])
      hcomplete.resource,
    (allows_iff fun _ => Seconds.isPositiveCount_iff).mpr ⟨_, htimeout⟩,
    (allows_iff fun _ => Seconds.isPositiveCount_iff).mpr ⟨_, hheartbeat⟩, ?_,
    isDataFlow_iff.mpr ⟨⟨b.paths, ?_⟩, b.resultPath, by simp [hs]⟩,
    (hsound.next b.next rfl).isNext (Body.problem?_next_of_ownProblems hproblems rfl)
      (by simp [hs]) (by simp [hs]),
    allows_of_listMember (b.retriers.map Retrier.toJson) (by simp [hs]) fun v hv => ?_,
    allows_of_listMember (b.catchers.map Catcher.toJson) (by simp [hs]) fun v hv => ?_⟩
  · intro i j hi hj
    obtain ⟨timeout, ht, hi⟩ := Option.map_eq_some_iff.mp (htimeout.symm.trans hi)
    obtain ⟨heartbeat, hh, hj⟩ := Option.map_eq_some_iff.mp (hheartbeat.symm.trans hj)
    exact Seconds.value_lt_of_count_lt (hcomplete.heartbeat timeout heartbeat ht hh) hj hi
  · constructor <;> simp [hs]
  · obtain ⟨r, hr, rfl⟩ := List.mem_map.mp hv
    exact r.isRetrier_toJson (hcomplete.retriers r hr)
  · obtain ⟨c, hc, rfl⟩ := List.mem_map.mp hv
    exact c.isCatcher_toJson (hcomplete.catchers c hc) (hsound.catchers c hc)

/-- **A sound body without problems is well-formed** in the document of its state, its
branches apart. -/
theorem Body.isBody_documentMembers {s : State} (hsound : s.body.Sound)
    (hproblems : s.body.ownProblems = []) : IsBody s.kind s.documentMembers := by
  have hnext {f : TransitionField} (hf : s.body.next? = some f)
      (hend : s.documentMembers.lookup "End" = f.members.lookup "End")
      (hnext : s.documentMembers.lookup "Next" = f.members.lookup "Next") :
      IsNext .ordinary s.documentMembers :=
    (hsound.next f hf).isNext (problem?_next_of_ownProblems hproblems hf) hend hnext
  rw [State.kind]
  cases hs : s.body with
  | pass b =>
    rw [hs] at hnext
    refine ⟨hnext rfl (by simp [hs]) (by simp [hs]),
      isDataFlow_iff.mpr ⟨⟨b.paths, ?_⟩, b.resultPath, by simp [hs]⟩⟩
    constructor <;> simp [hs]
  | task b => exact Task.isTask_documentMembers hs hsound hproblems
  | wait b =>
    rw [hs] at hnext hproblems
    exact ⟨hnext rfl (by simp [hs]) (by simp [hs]),
      requires_of_isSome (fun _ => Seconds.isPositiveCount_iff) (a := b.seconds) (by simp [hs])
        (missing_eq_nil.mp (List.append_eq_nil_iff.mp hproblems).2)⟩
  | succeed => exact ⟨by simp [hs], by simp [hs]⟩
  | fail b =>
    rw [hs] at hproblems
    obtain ⟨herror, hcause⟩ := List.append_eq_nil_iff.mp hproblems
    exact ⟨⟨by simp [hs], by simp [hs]⟩,
      requires_of_isSome (fun _ => Iff.rfl) (a := b.error) (by simp [hs])
        (missing_eq_nil.mp herror),
      requires_of_isSome (fun _ => Iff.rfl) (a := b.cause) (by simp [hs])
        (missing_eq_nil.mp hcause)⟩
  | choice b =>
    have hrules := problems_of_mem_rules hproblems
    rw [hs] at hsound hproblems hrules
    refine ⟨⟨by simp [hs], by simp [hs]⟩,
      ⟨_, ?_, b.rules.map Rule.toJson, rfl, ?_, fun v hv => ?_⟩,
      allowsString_iff.mpr ⟨b.fallback, by simp [hs]⟩⟩
    · simp [hs, Rule.listToJson_eq_map]
    · rw [Ne, List.map_eq_nil_iff]
      exact rules_ne_nil_of_ownProblems hproblems
    · obtain ⟨r, hr, rfl⟩ := List.mem_map.mp hv
      exact r.isRule_toJson (hsound.rules r hr) (hrules r hr)
  | parallel b =>
    rw [hs] at hnext
    refine ⟨hnext rfl (by simp [hs]) (by simp [hs]),
      isDataFlow_iff.mpr ⟨⟨b.paths, ?_⟩, b.resultPath, by simp [hs]⟩⟩
    constructor <;> simp [hs]

/-! ### States and collections -/

/-- A collection is well-formed in members that show what is written for it, given that
its states are. -/
theorem Collection.isCollection_of_lookup {ms : Members} {c : Collection State}
    (hindexed : c.Indexed) (hproblems : c.problems = [])
    (hstart : ms.lookup "StartAt" = c.documentMembers.lookup "StartAt")
    (hstates : ms.lookup "States" = c.documentMembers.lookup "States")
    (hinside : ∀ s ∈ c.states, IsState s.document) : IsCollection (.object ms) := by
  obtain ⟨name, hname, hstartAt⟩ := Collection.exists_start_of_problems_eq_nil hproblems
  rw [Collection.lookup_startAt, hstartAt] at hstart
  rw [Collection.lookup_states hindexed.distinct] at hstates
  have hnames : (c.states.map fun s => (s.name, s.document)).map Prod.fst =
      c.states.map State.name := List.map_map
  refine .object hstates ?_ ?_ hstart ?_ fun m hm => ?_
  · rw [Ne, List.map_eq_nil_iff]
    exact Collection.states_ne_nil_of_problems_eq_nil hproblems
  · rw [hnames]
    exact hindexed.distinct
  · rw [hnames]
    exact hindexed.names.mem_iff.mp hname
  · obtain ⟨s, hs, rfl⟩ := List.mem_map.mp hm
    exact hinside s hs

/-- **A sound state without problems is written as a well-formed document**: by induction
on its branches. -/
theorem State.isState_document {s : State} (hsound : s.Sound) (hproblems : s.problems = []) :
    IsState s.document := by
  induction s using State.branchInduction with
  | step s ih =>
  have hown := State.ownProblems_eq_nil hproblems
  have hinside : ∀ c ∈ s.branches, IsCollection (.object c.documentMembers) := by
    intro c hc
    have hcproblems := State.problems_of_mem hproblems c hc
    exact Collection.isCollection_of_lookup (hsound.branches c hc).indexed hcproblems rfl rfl
      fun t ht => ih c hc t ht ((hsound.branches c hc).inside t ht)
        (Collection.problems_of_mem hcproblems t ht)
  rw [State.document_eq]
  refine .object s.lookup_type (allowsString_iff.mpr ⟨_, s.lookup_comment⟩)
    (Body.isBody_documentMembers hsound.body hown) (fun hpar => ?_) fun hpar items hitems v hv => ?_
  · obtain ⟨name, comment, body⟩ := s
    obtain ⟨b, rfl⟩ := Body.exists_eq_parallel hpar
    refine ⟨b.branches.map fun c => .object c.documentMembers, by simp, ?_⟩
    rw [Ne, List.map_eq_nil_iff]
    exact Body.branches_ne_nil_of_ownProblems hown
  · -- whatever array stands under `Branches` is the one that is written
    have hbranches := s.lookup_branches
    rw [hitems] at hbranches
    obtain rfl := Json.array.inj hbranches
    obtain ⟨c, hc, rfl⟩ := List.mem_map.mp hv
    exact hinside c hc

/-- A collection is mirrored by members that show what is written for it, given that its
states are. -/
theorem Collection.mirrors_of_lookup {ms : Members} {c : Collection State}
    (hindexed : c.Indexed) (hstates : ms.lookup "States" = c.documentMembers.lookup "States")
    (hinside : ∀ s ∈ c.states, State.Mirrors s.document s) :
    Collection.Mirrors (.object ms) c := by
  rw [Collection.lookup_states hindexed.distinct] at hstates
  refine .object hstates ?_ ?_
  · rw [List.map_map]
    rfl
  · rw [List.map_map, List.forall₂_map_left_iff, List.forall₂_same]
    exact hinside

/-- The document of a sound state mirrors the state: by induction on its branches. -/
theorem State.mirrors_document {s : State} (hsound : s.Sound) : State.Mirrors s.document s := by
  induction s using State.branchInduction with
  | step s ih =>
  rw [State.document_eq]
  refine .object s.lookup_type s.lookup_branches ?_
  rw [List.forall₂_map_left_iff, List.forall₂_same]
  exact fun c hc => Collection.mirrors_of_lookup (hsound.branches c hc).indexed rfl
    fun t ht => ih c hc t ht ((hsound.branches c hc).inside t ht)

/-! ### Machines -/

/-- **Every document that is written is well-formed**, and holds one entry for each state,
in order: at any depth, and for every machine that is built. -/
theorem Machine.Built.isMachine_of_toDocument {m : Machine} {document : Json} (hm : m.Built)
    (h : m.toDocument.outcome = .ok document) :
    IsMachine document ∧ Collection.Mirrors document m.states := by
  obtain ⟨hproblems, rfl⟩ := Machine.toDocument_eq_ok.mp h
  have hsound := hm.sound
  constructor
  · refine .object (allowsString_iff.mpr ⟨_, m.lookup_comment⟩)
      (allowsString_iff.mpr ⟨_, m.lookup_version⟩)
      ((allows_iff fun _ => Seconds.isPositiveCount_iff).mpr ⟨_, m.lookup_timeout⟩)
      (Collection.isCollection_of_lookup hsound.indexed hproblems m.lookup_startAt
        m.lookup_states fun s hs => ?_)
    exact State.isState_document (hsound.inside s hs) (Collection.problems_of_mem hproblems s hs)
  · exact Collection.mirrors_of_lookup hsound.indexed m.lookup_states
      fun s hs => State.mirrors_document (hsound.inside s hs)

theorem Machine.isMachine_oneTask : oneTask.Built ∧
    oneTask.toDocument.outcome = .ok oneTask.document ∧ IsMachine oneTask.document ∧
      Collection.Mirrors oneTask.document oneTask.states :=
  ⟨oneTask_built, rfl, Machine.Built.isMachine_of_toDocument oneTask_built rfl⟩

end StatesLanguage
