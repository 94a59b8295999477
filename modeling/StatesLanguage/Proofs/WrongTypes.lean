import StatesLanguage.Proofs.Grammar
import StatesLanguage.Proofs.Retyping

/-!
# Values of the wrong type

The format gives every key a type of values, and a document in which a key that is read finds
a value of another type is not read at all. That is a statement about some thirty keys, in the
objects of states, retry policies, error handlers, rules and branches at every depth of a
document. So there is one table of the keys (`Spot.keys`), and one relation for what can be
reached from the object of a state (`Inside`).

Not every key of an object is read. A true `End` settles the transition of a state, and what
stands under `Next` is not looked at then; of the keywords of operators in a rule the first one
is read, and `Variable` only if that is a comparator. `Spot.Heeds` says which keys are. There is
no such exception for `Next` in a rule, because the end is forbidden there.

The main result is `State.ofJson_fails_of_wrong_type`. It is proved the other way round: what
is read is read down to every object in it (`Inside.accepts`), and an object that is read finds
values of the right types (`Spot.Accepts.typed`).
-/

namespace StatesLanguage

open Json (Members)

open Grammar

/-! ### The types of keys -/

/-- The types of values that the format knows. -/
inductive JsonType where
  /-- A string. -/
  | string
  /-- A truth value. -/
  | boolean
  /-- A number that is written as an integer. -/
  | integer
  /-- Any number. -/
  | number
  /-- An array of any items. -/
  | array
  /-- An array of strings. -/
  | strings
  /-- An object. -/
  | object
  /-- A string, or null. -/
  | stringOrNull
deriving DecidableEq

/-- A value is of a type. -/
def JsonType.Has : JsonType → Json → Prop
  | .string, v => v.IsString
  | .boolean, v => ∃ b, v = .bool b
  | .integer, v => ∃ i, v = .number (.int i)
  | .number, v => ∃ n, v = .number n
  | .array, v => v.IsArray
  | .strings, v => v.IsArrayOf Json.IsString
  | .object, v => v.IsObject
  | .stringOrNull, v => v.IsString ∨ v = .null

/-- The type of the literals of a class. -/
def Operand.type : Operand → JsonType
  | .boolean => .boolean
  | .string => .string
  | .timestamp => .string
  | .numeric => .number

/-- The type of what stands under the keyword of an operator. -/
def Operator.type : Operator → JsonType
  | .logic .not => .object
  | .logic _ => .array
  | .compare op => op.operand.type

/-- The keys of a transition. -/
def transitionKeys : List (String × JsonType) :=
  [("Next", .string), ("End", .boolean)]

/-- The keys of the flow of data. -/
def dataFlowKeys : List (String × JsonType) :=
  [("InputPath", .string), ("OutputPath", .string), ("ResultPath", .stringOrNull)]

/-- The keys that a kind of states has beyond those of all states. A fixed result is not among
them, as it may be of any type. -/
def StateKind.keys : StateKind → List (String × JsonType)
  | .pass => dataFlowKeys ++ transitionKeys
  | .task =>
    [("Resource", .string), ("TimeoutSeconds", .integer), ("HeartbeatSeconds", .integer),
      ("Retry", .array), ("Catch", .array)] ++ dataFlowKeys ++ transitionKeys
  | .wait => ("Seconds", .integer) :: transitionKeys
  | .succeed => []
  | .fail => [("Error", .string), ("Cause", .string)]
  | .choice => [("Choices", .array), ("Default", .string)]
  | .parallel => ("Branches", .array) :: dataFlowKeys ++ transitionKeys

/-- The objects of a document that are read key by key. -/
inductive Spot where
  /-- A state of a kind. -/
  | state (kind : StateKind)
  /-- An item of `Retry`. -/
  | retrier
  /-- An item of `Catch`. -/
  | catcher
  /-- A rule, at the root of a tree or below another one. -/
  | rule
  /-- An item of `Branches`. -/
  | branch

namespace Spot

/-- The keys of an object, and the types of what stands under them. -/
def keys : Spot → List (String × JsonType)
  | .state kind => ("Type", .string) :: ("Comment", .string) :: kind.keys
  | .retrier =>
    [("ErrorEquals", .strings), ("IntervalSeconds", .integer), ("BackoffRate", .number),
      ("MaxAttempts", .integer)]
  | .catcher => ("ErrorEquals", .strings) :: ("ResultPath", .stringOrNull) :: transitionKeys
  | .rule =>
    ("Variable", .string) :: Operator.all.map (fun op => (op.keyword, op.type)) ++ transitionKeys
  | .branch => [("StartAt", .string), ("States", .object)]

/-- A key of an object is read. A true `End` hides `Next`, except in a rule; an operator of a
rule hides those of lower priority, and a logic operator the variable. Of `End` itself, only
whether it is true is ever asked. -/
def Heeds : Spot → Members → String → Prop
  | .state _, ms, key | .catcher, ms, key =>
    key ≠ "End" ∧ (key = "Next" → ms.lookup "End" ≠ some (.bool true))
  | .rule, ms, key =>
    key ≠ "End" ∧ (key = "Variable" → ∃ op, Operator.find? ms = some (.compare op)) ∧
      ∀ op : Operator, key = op.keyword → Operator.find? ms = some op
  | .retrier, _, _ | .branch, _, _ => True

end Spot

/-! ### What can be reached -/

/-- An object that is reached from an outer one, through the keys under which objects are read. -/
inductive Inside (r : Registry) (spot : Spot) (ms : Members) : Spot → Members → Prop
  /-- The outer object itself. -/
  | self : Inside r spot ms spot ms
  /-- A retry policy of a task. -/
  | retrier {outer inner : Members} {items : List Json} (h : Inside r spot ms (.state .task) outer)
    (hkey : outer.lookup "Retry" = some (.array items)) (hitem : .object inner ∈ items) :
    Inside r spot ms .retrier inner
  /-- An error handler of a task. -/
  | catcher {outer inner : Members} {items : List Json} (h : Inside r spot ms (.state .task) outer)
    (hkey : outer.lookup "Catch" = some (.array items)) (hitem : .object inner ∈ items) :
    Inside r spot ms .catcher inner
  /-- A rule of a choice. -/
  | choice {outer inner : Members} {items : List Json} (h : Inside r spot ms (.state .choice) outer)
    (hkey : outer.lookup "Choices" = some (.array items)) (hitem : .object inner ∈ items) :
    Inside r spot ms .rule inner
  /-- A rule below the logic operator of another one. -/
  | operand {outer inner : Members} {op : LogicOp} {v : Json} {items : List Json}
    (h : Inside r spot ms .rule outer) (hop : Operator.find? outer = some (.logic op))
    (hkey : outer.lookup op.keyword = some v) (hitems : op.operands v = some items)
    (hitem : .object inner ∈ items) : Inside r spot ms .rule inner
  /-- A branch of a parallel state. -/
  | branch {outer inner : Members} {items : List Json}
    (h : Inside r spot ms (.state .parallel) outer)
    (hkey : outer.lookup "Branches" = some (.array items)) (hitem : .object inner ∈ items) :
    Inside r spot ms .branch inner
  /-- A state of a branch. -/
  | state {outer members inner : Members} {name : String} {kind : StateKind}
    (h : Inside r spot ms .branch outer)
    (hkey : outer.lookup "States" = some (.object members))
    (hmember : (name, .object inner) ∈ members) (hkind : r.kindOfMembers name inner = .ok kind) :
    Inside r spot ms (.state kind) inner

/-- An object is read. A rule never stands in an ordinary place. -/
def Spot.Accepts (r : Registry) : Spot → Members → Prop
  | .state kind, ms => ∃ name s, (State.ofJson r name (.object ms)).outcome = .ok s ∧ s.kind = kind
  | .retrier, ms => ∃ x, Retrier.ofJson (.object ms) = .ok x
  | .catcher, ms => ∃ x, Catcher.ofJson (.object ms) = .ok x
  | .rule, ms => ∃ mode x, mode ≠ .ordinary ∧ Rule.ofJson mode (.object ms) = .ok x
  | .branch, ms => ∃ c, (Collection.ofMembers r ms).outcome = .ok c

/-- A state that is read is of the kind that its type tells. -/
theorem Registry.kindOfMembers_of_ofJson {r : Registry} {name other : String} {ms : Members}
    {s : State} (h : (State.ofJson r name (.object ms)).outcome = .ok s) :
    r.kindOfMembers other ms = .ok s.kind :=
  kindOfMembers_eq_ok.mpr (State.ofJson_object_eq_ok.mp h).type

/-- Where a state of a kind is read, its object shows one. -/
theorem Spot.Accepts.exists_shown {r : Registry} {kind : StateKind} {ms : Members}
    (h : Accepts r (.state kind) ms) : ∃ name s, State.Shown r name ms s ∧ s.body.kind = kind := by
  obtain ⟨name, s, hs, hkind⟩ := h
  exact ⟨name, s, State.ofJson_object_eq_ok.mp hs, hkind⟩

theorem Spot.Accepts.exists_task {r : Registry} {ms : Members} (h : Accepts r (.state .task) ms) :
    ∃ b : Task, b.Shown ms := by
  obtain ⟨name, ⟨_, _, body⟩, hs, hkind⟩ := h.exists_shown
  cases body with
  | task b => exact ⟨b, hs.body⟩
  | _ => nomatch hkind

theorem Spot.Accepts.exists_choice {r : Registry} {ms : Members}
    (h : Accepts r (.state .choice) ms) : ∃ b : Choice, b.Shown ms := by
  obtain ⟨name, ⟨_, _, body⟩, hs, hkind⟩ := h.exists_shown
  cases body with
  | choice b => exact ⟨b, hs.body⟩
  | _ => nomatch hkind

/-- The items that a key finds are those that are read. -/
theorem items_eq_of_getD {key : String} {ms : Members} {items others : List Json}
    (h : ms.lookup key = some (.array items))
    (hothers : (ms.lookup key).getD (.array []) = .array others) : others = items := by
  rw [h] at hothers
  exact (Json.array.inj hothers).symm

/-- **What is read is read down to every object in it**: by induction on the way there. -/
theorem Inside.accepts {r : Registry} {spot inner : Spot} {ms ns : Members}
    (h : Inside r spot ms inner ns) (hms : spot.Accepts r ms) : inner.Accepts r ns := by
  induction h with
  | self => exact hms
  | retrier _ hkey hitem ih =>
    obtain ⟨b, hb⟩ := ih.exists_task
    obtain ⟨items, hitems, hread⟩ := hb.retriers
    obtain rfl := items_eq_of_getD hkey hitems
    obtain ⟨x, -, hx⟩ := forall₂_mem_left hread hitem
    exact ⟨x, hx⟩
  | catcher _ hkey hitem ih =>
    obtain ⟨b, hb⟩ := ih.exists_task
    obtain ⟨items, hitems, hread⟩ := hb.catchers
    obtain rfl := items_eq_of_getD hkey hitems
    obtain ⟨x, -, hx⟩ := forall₂_mem_left hread hitem
    exact ⟨x, hx⟩
  | choice _ hkey hitem ih =>
    obtain ⟨b, hb⟩ := ih.exists_choice
    obtain ⟨items, hitems, hread⟩ := hb.rules
    obtain rfl := items_eq_of_getD hkey hitems
    obtain ⟨x, -, hx⟩ := forall₂_mem_left hread hitem
    exact ⟨.withoutEnd, x, nofun, hx⟩
  | operand _ hop hkey hitems hitem ih =>
    obtain ⟨mode, x, -, hx⟩ := ih
    obtain ⟨_, ⟨⟩, hshown⟩ := Rule.ofJson_eq_ok.mp hx
    cases x with
    | logic op children next =>
      obtain ⟨hop', ⟨v, items, hv, hitems', hread⟩, -⟩ := hshown
      obtain rfl := Operator.logic.inj (Option.some.inj (hop.symm.trans hop'))
      obtain rfl := Option.some.inj (hkey.symm.trans hv)
      obtain rfl := Option.some.inj (hitems.symm.trans hitems')
      obtain ⟨child, -, hchild⟩ := forall₂_mem_left hread hitem
      exact ⟨.locked, child, nofun, hchild⟩
    | compare c next => nomatch hop.symm.trans hshown.1
  | branch _ hkey hitem ih =>
    obtain ⟨name, s, hs, hkind⟩ := ih.exists_shown
    obtain ⟨items, hitems, hread⟩ := hs.branches hkind
    obtain rfl := items_eq_of_getD hkey hitems
    obtain ⟨c, -, _, ⟨⟩, hc⟩ := forall₂_mem_left hread hitem
    exact ⟨c, hc⟩
  | @state outer members inner name kind _ hkey hmember hkind ih =>
    obtain ⟨c, hc⟩ := ih
    obtain ⟨members', hmembers, hread⟩ := (Collection.ofMembers_eq_ok.mp hc).states
    rw [hkey] at hmembers
    obtain rfl := Json.object.inj hmembers
    obtain ⟨s, -, hs⟩ := forall₂_mem_left hread hmember
    refine ⟨name, s, hs, ?_⟩
    exact Except.ok.inj ((Registry.kindOfMembers_of_ofJson hs).symm.trans hkind)

/-! ### Objects that are read -/

/-- A shape is of a type. -/
theorem Allows.mono {key : String} {P Q : Json → Prop} {ms : Members} (h : Allows key P ms)
    (hPQ : ∀ v, P v → Q v) : Allows key Q ms :=
  fun v hv => hPQ v (h v hv)

theorem JsonType.has_of_isPathText {v : Json} (h : v.IsPathText) : JsonType.string.Has v := by
  obtain ⟨s, rfl, -⟩ := h
  exact ⟨s, rfl⟩

theorem JsonType.has_of_isCount {v : Json} (h : v.IsCount) : JsonType.integer.Has v := by
  obtain ⟨i, rfl, -⟩ := h
  exact ⟨i, rfl⟩

theorem JsonType.has_of_isPositiveCount {v : Json} (h : v.IsPositiveCount) :
    JsonType.integer.Has v := by
  obtain ⟨i, rfl, -⟩ := h
  exact ⟨i, rfl⟩

theorem JsonType.has_of_isRate {v : Json} (h : v.IsRate) : JsonType.number.Has v := by
  obtain ⟨n, rfl, -⟩ := h
  exact ⟨n, rfl⟩

theorem JsonType.has_of_isResultPath {v : Json} (h : v.IsResultPath) :
    JsonType.stringOrNull.Has v :=
  h.symm.imp has_of_isPathText id

theorem JsonType.has_of_isArrayOf {P : Json → Prop} {v : Json} (h : v.IsArrayOf P) :
    JsonType.array.Has v := by
  obtain ⟨items, rfl, -⟩ := h
  exact ⟨items, rfl⟩

/-- Names of errors are strings. -/
theorem JsonType.has_of_isArrayOf_names {P : Json → Prop} (hP : ∀ v, P v → v.IsString) {v : Json}
    (h : v.IsArrayOf P) : JsonType.strings.Has v := by
  obtain ⟨items, rfl, hitems⟩ := h
  exact ⟨items, rfl, fun w hw => hP w (hitems w hw)⟩

/-- A literal that a class accepts is of the type of the class. -/
theorem JsonType.has_of_accepts {operand : Operand} {v : Json} (h : operand.accepts v = true) :
    operand.type.Has v := by
  cases operand <;> cases v <;> first | exact ⟨_, rfl⟩ | nomatch h

/-- The keys of a table that are heeded find values of their types. -/
def Typed (heeds : String → Prop) (keys : List (String × JsonType)) (ms : Members) : Prop :=
  ∀ k ∈ keys, heeds k.1 → Allows k.1 k.2.Has ms

section Typed

variable {heeds : String → Prop} {ms : Members}

theorem typed_nil : Typed heeds [] ms :=
  nofun

theorem Typed.cons {key : String} {type : JsonType} {keys : List (String × JsonType)}
    (h : heeds key → Allows key type.Has ms) (hkeys : Typed heeds keys ms) :
    Typed heeds ((key, type) :: keys) ms :=
  List.forall_mem_cons.mpr ⟨h, hkeys⟩

theorem Typed.append {keys keys' : List (String × JsonType)} (h : Typed heeds keys ms)
    (h' : Typed heeds keys' ms) : Typed heeds (keys ++ keys') ms :=
  List.forall_mem_append.mpr ⟨h, h'⟩

theorem typed_dataFlow (h : IsDataFlow ms) : Typed heeds dataFlowKeys ms :=
  .cons (fun _ => h.input.mono fun _ => JsonType.has_of_isPathText) <|
    .cons (fun _ => h.output.mono fun _ => JsonType.has_of_isPathText) <|
      .cons (fun _ => h.resultPath.mono fun _ => JsonType.has_of_isResultPath) typed_nil

/-- In any place `Next` finds a string, where no true `End` hides it. -/
theorem typed_transition {mode : TransitionMode} (h : IsNext mode ms)
    (hend : ¬heeds "End") (hnext : mode = .ordinary → heeds "Next" →
      ms.lookup "End" ≠ some (.bool true)) : Typed heeds transitionKeys ms := by
  refine .cons (fun hheeds => ?_) (.cons (fun hheeds => absurd hheeds hend) typed_nil)
  cases mode with
  | ordinary => exact h.resolve_left (hnext rfl hheeds)
  | withoutEnd => exact h.2
  | locked => exact .of_none h.2

end Typed

/-- A body of a kind finds values of the right types. -/
theorem Grammar.typed_of_isBody {kind : StateKind} {ms : Members} (h : IsBody kind ms)
    (hbranches : kind = .parallel → Allows "Branches" Json.IsArray ms) :
    Typed ((Spot.state kind).Heeds ms) kind.keys ms := by
  have htransition (hnext : IsNext .ordinary ms) :
      Typed ((Spot.state kind).Heeds ms) transitionKeys ms :=
    typed_transition hnext (fun hend => hend.1 rfl) fun _ hheeds => hheeds.2 rfl
  have hcount {key : String} (hkey : Allows key Json.IsPositiveCount ms) :
      Allows key JsonType.integer.Has ms := hkey.mono fun _ => JsonType.has_of_isPositiveCount
  have harray {key : String} {P : Json → Prop} (hkey : Allows key (Json.IsArrayOf P) ms) :
      Allows key JsonType.array.Has ms := hkey.mono fun _ => JsonType.has_of_isArrayOf
  cases kind with
  | pass => exact (typed_dataFlow h.2).append (htransition h.1)
  | task =>
    refine .append (.append ?_ (typed_dataFlow h.flow)) (htransition h.next)
    exact .cons (fun _ => h.resource) <| .cons (fun _ => hcount h.timeout) <|
      .cons (fun _ => hcount h.heartbeat) <| .cons (fun _ => harray h.retriers) <|
        .cons (fun _ => harray h.catchers) typed_nil
  | wait => exact .cons (fun _ => hcount h.2) (htransition h.1)
  | succeed => exact typed_nil
  | fail => exact .cons (fun _ => h.1) (.cons (fun _ => h.2) typed_nil)
  | choice => exact .cons (fun _ => harray h.1) (.cons (fun _ => h.2) typed_nil)
  | parallel =>
    exact .cons (fun _ => hbranches rfl) ((typed_dataFlow h.2).append (htransition h.1))

/-- The operator that is read finds a value of its type. -/
theorem Grammar.IsRule.typed {mode : TransitionMode} (hmode : mode ≠ .ordinary) {ms : Members}
    (h : IsRule mode (.object ms)) : Typed (Spot.rule.Heeds ms) Spot.rule.keys ms := by
  have htransition (hnext : IsNext mode ms) : Typed (Spot.rule.Heeds ms) transitionKeys ms :=
    typed_transition hnext (fun hend => hend.1 rfl) fun hordinary => absurd hordinary hmode
  -- only one operator leads, so it is enough to look at that one
  have hoperators {op : Operator} (hleads : Leads op ms)
      (hop : Allows op.keyword op.type.Has ms) :
      Typed (Spot.rule.Heeds ms) (Operator.all.map fun op => (op.keyword, op.type)) ms := by
    intro k hk hheeds
    obtain ⟨other, -, rfl⟩ := List.mem_map.mp hk
    have hfound := Grammar.find?_eq_some_iff_leads.mpr hleads
    obtain rfl := Option.some.inj (hfound.symm.trans (hheeds.2.2 other rfl))
    exact hop
  -- and the variable is read with a comparator only
  have hvariable {op : LogicOp} (hleads : Leads (.logic op) ms) :
      Spot.rule.Heeds ms "Variable" → Allows "Variable" JsonType.string.Has ms := by
    rintro ⟨-, hcompare, -⟩
    obtain ⟨other, hother⟩ := hcompare rfl
    nomatch (Grammar.find?_eq_some_iff_leads.mpr hleads).symm.trans hother
  cases h with
  | @junction _ _ op items hleads hseveral hoperand _ hnext =>
    have htype : (Operator.logic op).type = .array := by
      cases op with
      | not => exact absurd rfl hseveral
      | and | or => rfl
    have harray : Allows op.keyword (Operator.logic op).type.Has ms := by
      rw [htype]
      exact .of_some hoperand ⟨items, rfl⟩
    exact .append (.cons (hvariable hleads) (hoperators hleads harray)) (htransition hnext)
  | negation hleads hoperand hinside hnext =>
    have hobject : Allows "Not" JsonType.object.Has ms := .of_some hoperand hinside.isObject
    exact .append (.cons (hvariable hleads) (hoperators hleads hobject)) (htransition hnext)
  | @comparison _ _ op hleads hinput hliteral hnext =>
    have htype : Allows op.keyword (Operator.compare op).type.Has ms :=
      hliteral.mono fun _ => JsonType.has_of_accepts
    exact .append (.cons (fun _ => hinput.mono fun _ => JsonType.has_of_isPathText)
      (hoperators hleads htype)) (htransition hnext)

/-- **An object that is read finds values of the right types** under the keys that it heeds. -/
theorem Spot.Accepts.typed {r : Registry} {spot : Spot} {ms : Members} (h : spot.Accepts r ms) :
    Typed (spot.Heeds ms) spot.keys ms := by
  cases spot with
  | state kind =>
    obtain ⟨name, s, hs, rfl⟩ := h.exists_shown
    obtain ⟨type, htype, -⟩ := hs.type
    refine .cons (fun _ => .of_some htype ⟨type, rfl⟩) <|
      .cons (fun _ => allowsString_iff.mpr ⟨s.comment, hs.comment⟩) ?_
    refine typed_of_isBody (Body.exists_shown_iff.mp ⟨s.body, rfl, hs.body⟩) fun hpar => ?_
    obtain ⟨items, hitems, -⟩ := hs.branches hpar
    intro v hv
    rw [hv] at hitems
    exact ⟨items, hitems⟩
  | retrier =>
    cases Retrier.exists_ofJson_iff.mp h with
    | object errors interval backoff attempts =>
      exact .cons (fun _ => errors.mono fun _ => JsonType.has_of_isArrayOf_names
          fun _ ⟨code, hcode⟩ => ⟨code.text, hcode⟩) <|
        .cons (fun _ => interval.mono fun _ => JsonType.has_of_isPositiveCount) <|
          .cons (fun _ => backoff.mono fun _ => JsonType.has_of_isRate) <|
            .cons (fun _ => attempts.mono fun _ => JsonType.has_of_isCount) typed_nil
  | catcher =>
    cases Catcher.exists_ofJson_iff.mp h with
    | object errors next resultPath =>
      exact .cons (fun _ => errors.mono fun _ => JsonType.has_of_isArrayOf_names
          fun _ ⟨s, hs, _⟩ => ⟨s, hs⟩) <|
        .cons (fun _ => resultPath.mono fun _ => JsonType.has_of_isResultPath) <|
          typed_transition next (fun hend => hend.1 rfl) fun _ hheeds => hheeds.2 rfl
  | rule =>
    obtain ⟨mode, x, hmode, hx⟩ := h
    exact (Rule.isRule_of_ofJson hx).typed hmode
  | branch =>
    obtain ⟨c, hc⟩ := h
    have hshown := Collection.ofMembers_eq_ok.mp hc
    obtain ⟨start, hstart, -⟩ := hshown.startAt
    obtain ⟨members, hmembers, -⟩ := hshown.states
    refine .cons (fun _ => allowsString_iff.mpr ⟨start, hstart⟩) <|
      .cons (fun _ v hv => ?_) typed_nil
    rw [hv] at hmembers
    exact ⟨members, hmembers⟩

/-! ### Wrong types -/

/-- **A value of the wrong type makes the reading fail.** In the object of a state of a
registered type, and in every object that is reached from it, a key that is heeded and finds a
value of another type than its own is never passed over. -/
theorem State.ofJson_fails_of_wrong_type {r : Registry} {name : String} {ms : Members}
    {kind : StateKind} (hkind : r.kindOfMembers name ms = .ok kind) {spot : Spot} {inner : Members}
    (hinside : Inside r (.state kind) ms spot inner) {key : String} {type : JsonType}
    (hkey : (key, type) ∈ spot.keys) (hheeds : spot.Heeds inner key) {v : Json}
    (hv : inner.lookup key = some v) (hwrong : ¬type.Has v) :
    ∃ e, (State.ofJson r name (.object ms)).outcome = .error e := by
  cases hread : (State.ofJson r name (.object ms)).outcome with
  | error e => exact ⟨e, rfl⟩
  | ok s =>
    have hsame := Except.ok.inj ((Registry.kindOfMembers_of_ofJson hread).symm.trans hkind)
    have haccepts : (Spot.state kind).Accepts r ms := ⟨name, s, hread, hsame⟩
    exact absurd ((hinside.accepts haccepts).typed _ hkey hheeds v hv) hwrong

/-- A parallel state with a task in its only branch, of which an error handler places the error
output nowhere that can be named. -/
def State.misplaced : Members :=
  [("Type", .string "Parallel"), ("Branches", .array [.object [("States", .object
    [("Work", .object [("Type", .string "Task"), ("Catch", .array [.object
      [("End", .bool true), ("Next", .null), ("ResultPath", .bool false)]])])])]])]

theorem State.ofJson_misplaced :
    (Registry.standard.kindOfMembers "Split" misplaced = .ok .parallel) ∧
      ∃ e, (State.ofJson .standard "Split" (.object misplaced)).outcome = .error e := by
  have hkind : Registry.standard.kindOfMembers "Split" misplaced = .ok .parallel := rfl
  have hbranch : Inside .standard (.state .parallel) misplaced .branch _ :=
    .branch .self rfl List.mem_cons_self
  have hwork : Inside .standard (.state .parallel) misplaced (.state .task) _ :=
    .state hbranch rfl List.mem_cons_self rfl
  have hhandler : Inside .standard (.state .parallel) misplaced .catcher _ :=
    .catcher hwork rfl List.mem_cons_self
  have hkey : ("ResultPath", JsonType.stringOrNull) ∈ Spot.catcher.keys := by decide
  refine ⟨hkind, ofJson_fails_of_wrong_type hkind hhandler hkey ?_ rfl ?_⟩
  · exact ⟨by decide, fun h => absurd h (by decide)⟩
  · rintro (⟨s, hs⟩ | hnull) <;> contradiction

/-- A state that ends the execution, and would go on to a state that has no name. -/
def State.endsAnyway : Members :=
  [("Type", .string "Pass"), ("End", .bool true), ("Next", .ofUInt32 5)]

/-- A choice with a negation beside which a variable and a literal are left over. -/
def State.negatesAnyway : Members :=
  [("Type", .string "Choice"), ("Choices", .array [.object [("Not", .object
    [("Variable", .string "$.x"), ("BooleanEquals", .bool true)]), ("Variable", .ofUInt32 5),
    ("StringEquals", .null), ("Next", .string "Other")]])]

/-- Keys that are not heeded may find anything, so that not every key finds a value of its
type. -/
theorem State.wrong_types_hidden :
    (∃ s, (State.ofJson .standard "Stop" (.object endsAnyway)).outcome = .ok s) ∧
      (∃ s, (State.ofJson .standard "Decide" (.object negatesAnyway)).outcome = .ok s) ∧
      ¬∀ (name : String) (ms inner : Members) (kind : StateKind) (spot : Spot) (key : String)
        (type : JsonType) (v : Json), Registry.standard.kindOfMembers name ms = .ok kind →
        Inside .standard (.state kind) ms spot inner → (key, type) ∈ spot.keys →
        inner.lookup key = some v → ¬type.Has v →
        ∃ e, (State.ofJson .standard name (.object ms)).outcome = .error e := by
  refine ⟨⟨_, rfl⟩, ⟨_, rfl⟩, fun h => ?_⟩
  have hkey : ("Next", JsonType.string) ∈ (Spot.state .pass).keys := by decide
  have hwrong : ¬JsonType.string.Has (.ofUInt32 5) := by
    rintro ⟨s, hs⟩
    contradiction
  obtain ⟨e, he⟩ := h "Stop" endsAnyway endsAnyway .pass (.state .pass) "Next" .string _ rfl .self
    hkey rfl hwrong
  contradiction

end StatesLanguage
