import StatesLanguage.Proofs.Items

/-!
# Reading rules and bodies

One level of a document at a time: which members a rule or the body of a state is read
from, given what the values inside it are read as. `Rule.Shown` and `Body.Shown` say
what the members hold for a given rule or body, and reading finds exactly that.

The operator of a rule is the first one whose keyword is present, so the members of a
rule may hold keywords that are passed over; `Operator.find?` picks it in the
statements here as well.
-/

namespace StatesLanguage

open Json (Members)

/-! ### Keywords -/

theorem Operator.mem_all (op : Operator) : op ∈ all := by
  rcases op with op | r | r | _ | r
  · cases op <;> decide
  · cases r <;> decide
  · cases r <;> decide
  · decide
  · cases r <;> decide

theorem Operator.nodup_keywords : (all.map keyword).Nodup := by decide

/-- An operator is known by its keyword. -/
theorem Operator.keyword_injective {op other : Operator} (h : op.keyword = other.keyword) :
    op = other :=
  List.inj_on_of_nodup_map nodup_keywords op.mem_all other.mem_all h

/-- No keyword of an operator is the key of something else in a rule. -/
theorem Operator.keyword_ne (op : Operator) :
    op.keyword ≠ "Next" ∧ op.keyword ≠ "End" ∧ op.keyword ≠ "Variable" := by
  have h : ∀ op ∈ all, op.keyword ≠ "Next" ∧ op.keyword ≠ "End" ∧ op.keyword ≠ "Variable" := by
    decide
  exact h op op.mem_all

/-- The only keyword among the members is that of the operator. -/
theorem Operator.find?_eq_some_of_only {ms : Members} {op : Operator}
    (h : (ms.lookup op.keyword).isSome = true)
    (hother : ∀ other ≠ op, ms.lookup other.keyword = none) : Operator.find? ms = some op := by
  obtain ⟨before, after, hall, hbefore⟩ := List.eq_append_cons_of_mem op.mem_all
  rw [Operator.find?, List.find?_eq_some_iff_append]
  refine ⟨h, before, after, hall, fun other hmem => ?_⟩
  -- the search passes over the operators in front, whose keywords are absent
  have hne : other ≠ op := fun heq => hbefore (heq ▸ hmem)
  rw [hother other hne]
  rfl

/-! ### Rules -/

theorem Operator.find?_eq_some_lookup {ms : Members} {op : Operator}
    (h : Operator.find? ms = some op) : ∃ v, ms.lookup op.keyword = some v := by
  have hfound := List.find?_some h
  exact Option.isSome_iff_exists.mp hfound

theorem Json.isObject_iff {v : Json} : v.isObject = true ↔ ∃ ms, v = .object ms := by
  cases v <;> simp [Json.isObject, Json.members?]

/-- The values that the rules below a logic operator are read from. -/
def LogicOp.operands (op : LogicOp) (v : Json) : Option (List Json) :=
  if op = .not then if v.isObject then some [v] else none
  else
    match v with
    | .array items => some items
    | _ => none

theorem LogicOp.operands_not_eq_some {v : Json} {items : List Json} :
    LogicOp.not.operands v = some items ↔ v.isObject = true ∧ items = [v] := by
  cases v <;> simp [operands, Json.isObject, Json.members?, eq_comm]

theorem LogicOp.operands_eq_some {op : LogicOp} (h : op ≠ .not) {v : Json} {items : List Json} :
    op.operands v = some items ↔ v = .array items := by
  unfold operands
  rw [if_neg h]
  cases v <;> simp

theorem Rule.listOfJson_eq_ok {mode : TransitionMode} {vs : List Json} {rs : List Rule} :
    Rule.listOfJson mode vs = .ok rs ↔
      List.Forall₂ (fun v r => Rule.ofJson mode v = .ok r) vs rs := by
  rw [Rule.listOfJson_eq_mapM, mapM_eq_ok]

theorem Rule.operandOfJson_eq_ok {op : LogicOp} {v : Json} {rs : List Rule} :
    Rule.operandOfJson op v = .ok rs ↔ ∃ items, op.operands v = some items ∧
      List.Forall₂ (fun v r => Rule.ofJson .locked v = .ok r) items rs := by
  unfold Rule.operandOfJson LogicOp.operands
  by_cases hop : op = .not
  · rw [if_pos hop, if_pos hop]
    -- the operand of `Not` is the rule itself and not an array of one
    by_cases hv : v.isObject = true
    · rw [if_pos hv, if_pos hv, bind_eq_ok]
      constructor
      · rintro ⟨r, hr, h⟩
        rw [← pure_eq_ok.mp h]
        exact ⟨[v], rfl, .cons hr .nil⟩
      · rintro ⟨_, ⟨rfl⟩, h⟩
        obtain ⟨r, _, hr, hnil, rfl⟩ := List.forall₂_cons_left_iff.mp h
        rw [List.forall₂_nil_left_iff.mp hnil]
        exact ⟨r, hr, rfl⟩
    · rw [if_neg hv, if_neg hv]
      simp [Json.malformed]
  · rw [if_neg hop, if_neg hop]
    cases v <;> simp [Json.malformed, Rule.listOfJson_eq_ok]

theorem Rule.operandOfMembers_eq_ok {op : LogicOp} {ms : Members} {v : Json} {rs : List Rule}
    (h : ms.lookup op.keyword = some v) :
    Rule.operandOfMembers op ms = .ok rs ↔ Rule.operandOfJson op v = .ok rs := by
  rw [Rule.operandOfMembers_eq_lookup, h]

/-- The members show the root of a rule, given what the rules below it show. -/
def Rule.Shown (mode : TransitionMode) (ms : Members) : Rule → Prop
  | .logic op children next =>
    Operator.find? ms = some (.logic op) ∧
      (∃ v items, ms.lookup op.keyword = some v ∧ op.operands v = some items ∧
        List.Forall₂ (fun v r => Rule.ofJson .locked v = .ok r) items children) ∧
      next.Shown mode ms
  | .compare c next =>
    Operator.find? ms = some (.compare c.op) ∧
      ms.lookup "Variable" = c.input.map Path.toJson ∧ ms.lookup c.op.keyword = c.literal ∧
      next.Shown mode ms

theorem Rule.ofJson_logic_eq_ok {mode : TransitionMode} {ms : Members} {op : LogicOp} {r : Rule}
    (h : Operator.find? ms = some (.logic op)) :
    Rule.ofJson mode (.object ms) = .ok r ↔ ∃ children next, r = .logic op children next ∧
      Rule.operandOfMembers op ms = .ok children ∧ next.Shown mode ms := by
  rw [Rule.ofJson, h]
  simp only [bind_eq_ok, TransitionField.ofMembers_eq_ok, pure_eq_ok]
  constructor
  · rintro ⟨children, hc, next, hn, rfl⟩
    exact ⟨children, next, rfl, hc, hn⟩
  · rintro ⟨children, next, rfl, hc, hn⟩
    exact ⟨children, hc, next, hn, rfl⟩

theorem Rule.ofJson_compare_eq_ok {mode : TransitionMode} {ms : Members} {op : Comparator}
    {r : Rule} (h : Operator.find? ms = some (.compare op)) :
    Rule.ofJson mode (.object ms) = .ok r ↔ ∃ c next, r = .compare c next ∧
      Comparison.ofMembers op ms = .ok c ∧ next.Shown mode ms := by
  rw [Rule.ofJson, h]
  simp only [bind_eq_ok, TransitionField.ofMembers_eq_ok, pure_eq_ok]
  constructor
  · rintro ⟨c, hc, next, hn, rfl⟩
    exact ⟨c, next, rfl, hc, hn⟩
  · rintro ⟨c, next, rfl, hc, hn⟩
    exact ⟨c, hc, next, hn, rfl⟩

/-- **A rule is read from the objects that show it.** -/
theorem Rule.ofJson_eq_ok {mode : TransitionMode} {v : Json} {r : Rule} :
    Rule.ofJson mode v = .ok r ↔ ∃ ms, v = .object ms ∧ r.Shown mode ms := by
  constructor
  · intro h
    cases v with
    | object ms =>
      refine ⟨ms, rfl, ?_⟩
      rcases hop : Operator.find? ms with _ | op | op
      · rw [Rule.ofJson, hop] at h
        nomatch h
      · obtain ⟨children, next, rfl, hc, hn⟩ := (Rule.ofJson_logic_eq_ok hop).mp h
        obtain ⟨v, hv⟩ := Operator.find?_eq_some_lookup hop
        obtain ⟨items, hitems⟩ :=
          Rule.operandOfJson_eq_ok.mp ((Rule.operandOfMembers_eq_ok hv).mp hc)
        exact ⟨hop, ⟨v, items, hv, hitems⟩, hn⟩
      · obtain ⟨c, next, rfl, hc, hn⟩ := (Rule.ofJson_compare_eq_ok hop).mp h
        obtain ⟨rfl, hi, hl⟩ := Comparison.ofMembers_eq_ok.mp hc
        exact ⟨hop, hi, hl, hn⟩
    | _ => nomatch h
  · rintro ⟨ms, rfl, h⟩
    cases r with
    | logic op children next =>
      obtain ⟨hop, ⟨v, items, hv, hitems⟩, hn⟩ := h
      exact (Rule.ofJson_logic_eq_ok hop).mpr ⟨children, next, rfl,
        (Rule.operandOfMembers_eq_ok hv).mpr (Rule.operandOfJson_eq_ok.mpr ⟨items, hitems⟩), hn⟩
    | compare c next =>
      obtain ⟨hop, hi, hl, hn⟩ := h
      exact (Rule.ofJson_compare_eq_ok hop).mpr
        ⟨c, next, rfl, Comparison.ofMembers_eq_ok.mpr ⟨rfl, hi, hl⟩, hn⟩

/-! ### Types -/

theorem Registry.resolve_standard (type : String) (kind : StateKind) :
    Registry.standard.resolve type = .ok kind ↔ type = kind.name := by
  simp only [Registry.standard, StateKind.all, List.foldl_cons, List.foldl_nil,
    Registry.resolve_register]
  constructor
  · intro h
    repeat' split at h
    all_goals first
      | (obtain rfl := Except.ok.inj h; assumption)
      | nomatch h
  · rintro rfl
    cases kind <;> simp [StateKind.name]

theorem StateKind.typeOfMembers_eq_ok {state type : String} {ms : Members} :
    StateKind.typeOfMembers state ms = .ok type ↔ ms.lookup "Type" = some (.string type) := by
  rw [StateKind.typeOfMembers, bind_eq_ok]
  constructor
  · rintro ⟨_ | found, hfound, h⟩
    · nomatch h
    · rw [← pure_eq_ok.mp h]
      exact Json.lookupString_eq_ok.mp hfound
  · intro h
    exact ⟨some type, Json.lookupString_eq_ok.mpr h, rfl⟩

/-! ### Bodies -/

/-- The members show the settings of a Pass state. -/
structure Pass.Shown (ms : Members) (b : Pass) : Prop where
  /-- The projections of input and output. -/
  paths : b.paths.Shown ms
  /-- The placement of the result. -/
  resultPath : ms.lookup "ResultPath" = b.resultPath.toJson?
  /-- The fixed result. -/
  result : ms.lookup "Result" = b.result
  /-- Where control goes. -/
  next : b.next.Shown .ordinary ms

/-- The members show the settings of a Task state. -/
structure Task.Shown (ms : Members) (b : Task) : Prop where
  /-- The identifier of the work. -/
  resource : ms.lookup "Resource" = b.resource.map .string
  /-- How long the task may run. -/
  timeout : ms.lookup "TimeoutSeconds" = b.timeout.map Seconds.toJson
  /-- How long the task may be silent. -/
  heartbeat : ms.lookup "HeartbeatSeconds" = b.heartbeat.map Seconds.toJson
  /-- The projections of input and output. -/
  paths : b.paths.Shown ms
  /-- The placement of the result. -/
  resultPath : ms.lookup "ResultPath" = b.resultPath.toJson?
  /-- The fixed result. -/
  result : ms.lookup "Result" = b.result
  /-- Where control goes. -/
  next : b.next.Shown .ordinary ms
  /-- The retry policies. -/
  retriers : ∃ items, (ms.lookup "Retry").getD (.array []) = .array items ∧
    List.Forall₂ (fun v r => Retrier.ofJson v = .ok r) items b.retriers
  /-- The error handlers. -/
  catchers : ∃ items, (ms.lookup "Catch").getD (.array []) = .array items ∧
    List.Forall₂ (fun v c => Catcher.ofJson v = .ok c) items b.catchers

/-- The members show the settings of a Wait state. -/
structure Wait.Shown (ms : Members) (b : Wait) : Prop where
  /-- The delay. -/
  seconds : ms.lookup "Seconds" = b.seconds.map Seconds.toJson
  /-- Where control goes. -/
  next : b.next.Shown .ordinary ms

/-- The members show the settings of a Fail state. -/
structure Fail.Shown (ms : Members) (b : Fail) : Prop where
  /-- The name of the error. -/
  error : ms.lookup "Error" = b.error.map .string
  /-- A description of the error. -/
  cause : ms.lookup "Cause" = b.cause.map .string

/-- The members show the settings of a Choice state. -/
structure Choice.Shown (ms : Members) (b : Choice) : Prop where
  /-- The rules. -/
  rules : ∃ items, (ms.lookup "Choices").getD (.array []) = .array items ∧
    List.Forall₂ (fun v r => Rule.ofJson .withoutEnd v = .ok r) items b.rules
  /-- The state that control goes on to if no rule matches. -/
  fallback : ms.lookup "Default" = b.fallback.map .string

/-- The members show the settings of a Parallel state, its branches apart. -/
structure Parallel.Shown (ms : Members) (b : Parallel State) : Prop where
  /-- Where control goes. -/
  next : b.next.Shown .ordinary ms
  /-- The projections of input and output. -/
  paths : b.paths.Shown ms
  /-- The placement of the array of results. -/
  resultPath : ms.lookup "ResultPath" = b.resultPath.toJson?

/-- The members show the settings of a body, its branches apart. -/
def Body.Shown (ms : Members) : Body State → Prop
  | .pass b => b.Shown ms
  | .task b => b.Shown ms
  | .wait b => b.Shown ms
  | .succeed => True
  | .fail b => b.Shown ms
  | .choice b => b.Shown ms
  | .parallel b => b.Shown ms

/-- A body is read for a kind in two steps: the settings of the kind, then the
declared fields. -/
def Body.ReadFrom (ms : Members) (kind : StateKind) (b : Body State) : Prop :=
  ∃ own, Body.ofMembers ms kind = .ok own ∧ own.readFields ms = .ok b

theorem Pass.readFrom_iff {ms : Members} {body : Body State} :
    body.ReadFrom ms .pass ↔ ∃ b, body = .pass b ∧ b.Shown ms := by
  simp only [Body.ReadFrom, Body.ofMembers, Body.new, pure_eq_ok, exists_eq_left',
    Body.readFields, bind_eq_ok, DataPaths.ofMembers_eq_ok, ResultPath.ofMembers_eq_ok,
    TransitionField.ofMembers_eq_ok]
  constructor
  · rintro ⟨paths, hp, resultPath, hr, next, hn, rfl⟩
    exact ⟨_, rfl, hp, hr, rfl, hn⟩
  · rintro ⟨b, rfl, h⟩
    exact ⟨b.paths, h.paths, b.resultPath, h.resultPath, b.next, h.next, by rw [h.result]⟩

theorem Task.readFrom_iff {ms : Members} {body : Body State} :
    body.ReadFrom ms .task ↔ ∃ b, body = .task b ∧ b.Shown ms := by
  simp only [Body.ReadFrom, Body.ofMembers, bind_eq_ok, Json.lookupString_eq_ok,
    Seconds.lookup_eq_ok, pure_eq_ok]
  constructor
  · rintro ⟨own, ⟨resource, hres, timeout, ht, heartbeat, hh, rfl⟩, h⟩
    simp only [Body.readFields, bind_eq_ok, DataPaths.ofMembers_eq_ok,
      ResultPath.ofMembers_eq_ok, TransitionField.ofMembers_eq_ok, Retrier.listOfMembers_eq_ok,
      Catcher.listOfMembers_eq_ok, pure_eq_ok] at h
    obtain ⟨paths, hp, resultPath, hr, next, hn, retriers, hrs, catchers, hcs, rfl⟩ := h
    exact ⟨_, rfl, hres, ht, hh, hp, hr, rfl, hn, hrs, hcs⟩
  · rintro ⟨b, rfl, h⟩
    refine ⟨_, ⟨b.resource, h.resource, b.timeout, h.timeout, b.heartbeat, h.heartbeat, rfl⟩, ?_⟩
    simp only [Body.readFields, bind_eq_ok, DataPaths.ofMembers_eq_ok,
      ResultPath.ofMembers_eq_ok, TransitionField.ofMembers_eq_ok, Retrier.listOfMembers_eq_ok,
      Catcher.listOfMembers_eq_ok, pure_eq_ok]
    exact ⟨b.paths, h.paths, b.resultPath, h.resultPath, b.next, h.next, b.retriers, h.retriers,
      b.catchers, h.catchers, by rw [h.result]⟩

theorem Wait.readFrom_iff {ms : Members} {body : Body State} :
    body.ReadFrom ms .wait ↔ ∃ b, body = .wait b ∧ b.Shown ms := by
  simp only [Body.ReadFrom, Body.ofMembers, bind_eq_ok, Seconds.lookup_eq_ok, pure_eq_ok]
  constructor
  · rintro ⟨own, ⟨seconds, hs, rfl⟩, h⟩
    simp only [Body.readFields, bind_eq_ok, TransitionField.ofMembers_eq_ok, pure_eq_ok] at h
    obtain ⟨next, hn, rfl⟩ := h
    exact ⟨_, rfl, hs, hn⟩
  · rintro ⟨b, rfl, h⟩
    refine ⟨_, ⟨b.seconds, h.seconds, rfl⟩, ?_⟩
    simp only [Body.readFields, bind_eq_ok, TransitionField.ofMembers_eq_ok, pure_eq_ok]
    exact ⟨b.next, h.next, rfl⟩

theorem Fail.readFrom_iff {ms : Members} {body : Body State} :
    body.ReadFrom ms .fail ↔ ∃ b, body = .fail b ∧ b.Shown ms := by
  simp only [Body.ReadFrom, Body.ofMembers, bind_eq_ok, Json.lookupString_eq_ok, pure_eq_ok]
  constructor
  · rintro ⟨own, ⟨error, he, cause, hc, rfl⟩, h⟩
    exact ⟨_, (pure_eq_ok.mp h).symm, he, hc⟩
  · rintro ⟨b, rfl, h⟩
    exact ⟨_, ⟨b.error, h.error, b.cause, h.cause, rfl⟩, rfl⟩

theorem Choice.readFrom_iff {ms : Members} {body : Body State} :
    body.ReadFrom ms .choice ↔ ∃ b, body = .choice b ∧ b.Shown ms := by
  simp only [Body.ReadFrom, Body.ofMembers, bind_eq_ok, Json.lookupArray_eq_ok,
    Rule.listOfJson_eq_ok, Json.lookupString_eq_ok, pure_eq_ok]
  constructor
  · rintro ⟨own, ⟨items, hi, rules, hr, fallback, hf, rfl⟩, h⟩
    exact ⟨_, (pure_eq_ok.mp h).symm, ⟨items, hi, hr⟩, hf⟩
  · rintro ⟨b, rfl, ⟨items, hi, hr⟩, hf⟩
    exact ⟨_, ⟨items, hi, b.rules, hr, b.fallback, hf, rfl⟩, rfl⟩

theorem Parallel.readFields_eq_ok {ms : Members} {branches : List (Collection State)}
    {body : Body State} : (Body.parallel { branches }).readFields ms = .ok body ↔
      ∃ b : Parallel State, body = .parallel b ∧ b.Shown ms ∧ b.branches = branches := by
  simp only [Body.readFields, bind_eq_ok, TransitionField.ofMembers_eq_ok,
    DataPaths.ofMembers_eq_ok, ResultPath.ofMembers_eq_ok, pure_eq_ok]
  constructor
  · rintro ⟨next, hn, paths, hp, resultPath, hr, rfl⟩
    exact ⟨_, rfl, ⟨hn, hp, hr⟩, rfl⟩
  · rintro ⟨b, rfl, h, rfl⟩
    exact ⟨b.next, h.next, b.paths, h.paths, b.resultPath, h.resultPath, rfl⟩

/-- **A body without branches is read from the members that show it.** -/
theorem Body.readFrom_iff {ms : Members} {kind : StateKind} {body : Body State}
    (hkind : kind ≠ .parallel) : body.ReadFrom ms kind ↔ body.kind = kind ∧ body.Shown ms := by
  cases kind with
  | parallel => exact absurd rfl hkind
  | pass => rw [Pass.readFrom_iff]; cases body <;> simp [Body.kind, Body.Shown]
  | task => rw [Task.readFrom_iff]; cases body <;> simp [Body.kind, Body.Shown]
  | wait => rw [Wait.readFrom_iff]; cases body <;> simp [Body.kind, Body.Shown]
  | fail => rw [Fail.readFrom_iff]; cases body <;> simp [Body.kind, Body.Shown]
  | choice => rw [Choice.readFrom_iff]; cases body <;> simp [Body.kind, Body.Shown]
  | succeed =>
    simp only [Body.ReadFrom, Body.ofMembers, Body.new, pure_eq_ok, exists_eq_left',
      Body.readFields]
    cases body <;> simp [Body.kind, Body.Shown]

end StatesLanguage
