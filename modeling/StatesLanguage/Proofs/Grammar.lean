import StatesLanguage.Proofs.Reading
import StatesLanguage.Proofs.Shape

/-!
# The grammar of documents

Which documents are read at all. The predicates here speak of JSON values only: they
say key by key what may stand under it, and go down into rules, states and branches.
They are the grammar of documents for someone who knows nothing of models.

The main result, `Machine.exists_ofDocument_iff_isMachine`, is that reading succeeds on the
documents of the grammar and on no others. It is an induction on the size of the
document, with the lemmas on one level of reading for its step.

The keys that decide are those of the kind of a state, and of the operator of a rule.
`Grammar.Leads` tells the operator that counts among those whose keywords are present.
-/

namespace StatesLanguage

open Json (Members)

namespace Grammar

/-! ### Fields -/

/-- What may stand under `Next` and `End` in a place: an ordinary one takes either, the
root of a rule takes no end, and a rule below another one takes nothing. A value of
`End` other than true does not count. -/
def IsNext : TransitionMode → Members → Prop
  | .ordinary, ms =>
    ms.lookup "End" = some (.bool true) ∨ Allows "Next" Json.IsString ms
  | .withoutEnd, ms =>
    ms.lookup "End" ≠ some (.bool true) ∧ Allows "Next" Json.IsString ms
  | .locked, ms => ms.lookup "End" ≠ some (.bool true) ∧ ms.lookup "Next" = none

/-- A retry policy. -/
inductive IsRetrier : Json → Prop
  /-- An object with allowed settings. -/
  | object {ms : Members} (errors : Allows "ErrorEquals" (Json.IsArrayOf Json.IsErrorCode) ms)
    (interval : Allows "IntervalSeconds" Json.IsPositiveCount ms)
    (backoff : Allows "BackoffRate" Json.IsRate ms)
    (attempts : Allows "MaxAttempts" Json.IsCount ms) : IsRetrier (.object ms)

/-- An error handler. -/
inductive IsCatcher : Json → Prop
  /-- An object with allowed settings. -/
  | object {ms : Members} (errors : Allows "ErrorEquals" (Json.IsArrayOf Json.IsErrorName) ms)
    (next : IsNext .ordinary ms) (resultPath : Allows "ResultPath" Json.IsResultPath ms) :
    IsCatcher (.object ms)

/-! ### Rules -/

/-- The operator of a rule: its keyword is present, and the keyword of none of the
operators of higher priority. -/
def Leads (op : Operator) (ms : Members) : Prop :=
  ∃ before after, Operator.all = before ++ op :: after ∧
    (ms.lookup op.keyword).isSome = true ∧ ∀ o ∈ before, ms.lookup o.keyword = none

/-- A rule in a place. -/
inductive IsRule : TransitionMode → Json → Prop
  /-- Some rules, or every one of some, below which no rule has a transition. -/
  | junction {mode : TransitionMode} {ms : Members} {op : LogicOp} {items : List Json}
    (leads : Leads (.logic op) ms) (several : op ≠ .not)
    (operand : ms.lookup op.keyword = some (.array items))
    (inside : ∀ v ∈ items, IsRule .locked v) (next : IsNext mode ms) : IsRule mode (.object ms)
  /-- The opposite of a rule. -/
  | negation {mode : TransitionMode} {ms : Members} {v : Json}
    (leads : Leads (.logic .not) ms) (operand : ms.lookup "Not" = some v)
    (inside : IsRule .locked v) (next : IsNext mode ms) : IsRule mode (.object ms)
  /-- A comparison with a literal of the class of the comparator. -/
  | comparison {mode : TransitionMode} {ms : Members} {op : Comparator}
    (leads : Leads (.compare op) ms) (input : Allows "Variable" Json.IsPathText ms)
    (literal : Allows op.keyword (fun v => op.operand.accepts v = true) ms)
    (next : IsNext mode ms) : IsRule mode (.object ms)

/-! ### Bodies -/

/-- What may stand under the keys of a Task state. -/
structure IsTask (ms : Members) : Prop where
  /-- The identifier of the work. -/
  resource : Allows "Resource" Json.IsString ms
  /-- How long the task may run. -/
  timeout : Allows "TimeoutSeconds" Json.IsPositiveCount ms
  /-- How long the task may be silent. -/
  heartbeat : Allows "HeartbeatSeconds" Json.IsPositiveCount ms
  /-- The flow of data. -/
  flow : IsDataFlow ms
  /-- Where control goes. -/
  next : IsNext .ordinary ms
  /-- The retry policies. -/
  retriers : Allows "Retry" (Json.IsArrayOf IsRetrier) ms
  /-- The error handlers. -/
  catchers : Allows "Catch" (Json.IsArrayOf IsCatcher) ms

/-- What may stand under the keys of a kind of states, the branches apart. -/
def IsBody : StateKind → Members → Prop
  | .pass, ms => IsNext .ordinary ms ∧ IsDataFlow ms
  | .task, ms => IsTask ms
  | .wait, ms => IsNext .ordinary ms ∧ Allows "Seconds" Json.IsPositiveCount ms
  | .succeed, _ => True
  | .fail, ms => Allows "Error" Json.IsString ms ∧ Allows "Cause" Json.IsString ms
  | .choice, ms =>
    Allows "Choices" (Json.IsArrayOf (IsRule .withoutEnd)) ms ∧ Allows "Default" Json.IsString ms
  | .parallel, ms => IsNext .ordinary ms ∧ IsDataFlow ms

/-! ### States and collections -/

mutual

/-- A state, whatever its name. -/
inductive IsState : Json → Prop
  /-- An object with a type, and what may stand under the keys of its kind. -/
  | object {ms : Members} {kind : StateKind} (type : ms.lookup "Type" = some (.string kind.name))
    (comment : Allows "Comment" Json.IsString ms) (body : IsBody kind ms)
    (branches : kind = .parallel → Allows "Branches" Json.IsArray ms)
    (inside : kind = .parallel → ∀ items, ms.lookup "Branches" = some (.array items) →
      ∀ v ∈ items, IsCollection v) : IsState (.object ms)

/-- A collection of states, and maybe where to start. -/
inductive IsCollection : Json → Prop
  /-- An object with an object of states. -/
  | object {ms : Members} (startAt : Allows "StartAt" Json.IsString ms)
    (states : Allows "States" Json.IsDictionary ms)
    (inside : ∀ members, ms.lookup "States" = some (.object members) →
      ∀ m ∈ members, IsState m.2) : IsCollection (.object ms)

end

/-- A machine. -/
inductive IsMachine : Json → Prop
  /-- A collection that may have a description, a time limit and a version. -/
  | object {ms : Members} (comment : Allows "Comment" Json.IsString ms)
    (version : Allows "Version" Json.IsString ms)
    (timeout : Allows "TimeoutSeconds" Json.IsPositiveCount ms)
    (collection : IsCollection (.object ms)) : IsMachine (.object ms)

end Grammar

open Grammar

/-! ### Fields that show something -/

/-- Beside no true `End`, a place that takes targets shows what stands under `Next`. -/
theorem TransitionField.exists_shown_of_allows {mode : TransitionMode} {ms : Members}
    (hmode : mode ≠ .locked) (hend : ms.lookup "End" ≠ some (.bool true))
    (h : Allows "Next" Json.IsString ms) : ∃ f : TransitionField, f.Shown mode ms := by
  obtain ⟨_ | target, hnext⟩ := allowsString_iff.mp h
  · exact ⟨⟨mode, none⟩, rfl, hend, hnext⟩
  · exact ⟨⟨mode, some (.next target)⟩, rfl, hmode, hend, hnext⟩

/-- **Some transition is shown** by what may stand in its place. -/
theorem TransitionField.exists_shown_iff {mode : TransitionMode} {ms : Members} :
    (∃ f : TransitionField, f.Shown mode ms) ↔ IsNext mode ms := by
  constructor
  · rintro ⟨⟨m, _ | target | _⟩, rfl, h⟩
    · obtain ⟨hend, hnext⟩ := h
      rcases m with _ | _ | _
      · exact Or.inr (.of_none hnext)
      · exact ⟨hend, .of_none hnext⟩
      · exact ⟨hend, hnext⟩
    · obtain ⟨hmode, hend, hnext⟩ := h
      rcases m with _ | _ | _
      · exact Or.inr (.of_some hnext ⟨target, rfl⟩)
      · exact ⟨hend, .of_some hnext ⟨target, rfl⟩⟩
      · exact absurd rfl hmode
    · obtain ⟨rfl, hend⟩ := h
      exact Or.inl hend
  · intro h
    cases mode with
    | ordinary =>
      by_cases hend : ms.lookup "End" = some (.bool true)
      · exact ⟨⟨.ordinary, some .terminal⟩, rfl, rfl, hend⟩
      · exact exists_shown_of_allows nofun hend (h.resolve_left hend)
    | withoutEnd => exact exists_shown_of_allows nofun h.1 h.2
    | locked => exact ⟨⟨.locked, none⟩, rfl, h⟩

/-! ### Arrays that show something -/

/-- An array that is allowed shows a list, whether it is there or not. -/
theorem allowsArrayOf_iff {P : Json → Prop} {key : String} {ms : Members} :
    Allows key (Json.IsArrayOf P) ms ↔
      ∃ items, (ms.lookup key).getD (.array []) = .array items ∧ ∀ v ∈ items, P v := by
  constructor
  · intro h
    rcases hv : ms.lookup key with _ | v
    · exact ⟨[], rfl, fun _ h => nomatch h⟩
    · exact h v hv
  · rintro ⟨items, hitems, h⟩ v hv
    rw [hv] at hitems
    exact ⟨items, hitems, h⟩

/-- An array of what can be read shows what it is read as. -/
theorem allowsArrayOf_read_iff {α : Type} {P : Json → Prop} {R : Json → α → Prop}
    (hP : ∀ v, (∃ a, R v a) ↔ P v) {key : String} {ms : Members} :
    Allows key (Json.IsArrayOf P) ms ↔ ∃ as : List α, ∃ items,
      (ms.lookup key).getD (.array []) = .array items ∧ List.Forall₂ R items as := by
  rw [allowsArrayOf_iff, exists_comm]
  refine exists_congr fun items => ?_
  rw [exists_and_left, exists_forall₂_iff]
  simp only [hP]

/-- An array of texts shows what they are the texts of. -/
theorem allowsTexts_iff {α : Type} {P : Json → Prop} {text : α → String} {good : α → Prop}
    (hP : ∀ v, P v ↔ ∃ a, v = .string (text a) ∧ good a) {key : String} {ms : Members} :
    Allows key (Json.IsArrayOf P) ms ↔ ∃ as : List α,
      (ms.lookup key).getD (.array []) = .array (as.map fun a => .string (text a)) ∧
        ∀ a ∈ as, good a := by
  rw [allowsArrayOf_read_iff fun v => (hP v).symm]
  refine exists_congr fun as => ?_
  simp only [forall₂_eq_map_iff]
  constructor
  · rintro ⟨items, hitems, rfl, hgood⟩
    exact ⟨hitems, hgood⟩
  · rintro ⟨hitems, hgood⟩
    exact ⟨_, hitems, rfl, hgood⟩

/-! ### Retry policies and error handlers -/

theorem Retrier.exists_ofJson_iff {v : Json} :
    (∃ r, Retrier.ofJson v = .ok r) ↔ IsRetrier v := by
  simp only [Retrier.ofJson_eq_ok]
  have hcodes (ms : Members) := @allowsTexts_iff _ Json.IsErrorCode ErrorCode.text
    (fun _ => True) (fun v => by simp [Json.IsErrorCode]) "ErrorEquals" ms
  constructor
  · rintro ⟨r, ms, rfl, h⟩
    exact .object ((hcodes ms).mpr ⟨r.errors, h.errors, fun _ _ => trivial⟩)
      ((allows_iff fun _ => Seconds.isPositiveCount_iff).mpr ⟨r.interval, h.interval⟩)
      ((allows_iff fun _ => BackoffRate.isRate_iff).mpr ⟨r.backoff, h.backoff⟩)
      ((allows_iff fun _ => Json.isCount_iff).mpr ⟨r.attempts, h.attempts⟩)
  · rintro ⟨herrors, hinterval, hbackoff, hattempts⟩
    obtain ⟨errors, herrors, -⟩ := (hcodes _).mp herrors
    obtain ⟨interval, hinterval⟩ := (allows_iff fun _ => Seconds.isPositiveCount_iff).mp hinterval
    obtain ⟨backoff, hbackoff⟩ := (allows_iff fun _ => BackoffRate.isRate_iff).mp hbackoff
    obtain ⟨attempts, hattempts⟩ := (allows_iff fun _ => Json.isCount_iff).mp hattempts
    exact ⟨⟨errors, interval, backoff, attempts⟩, _, rfl, herrors, hinterval, hbackoff, hattempts⟩

theorem Catcher.exists_ofJson_iff {v : Json} :
    (∃ c, Catcher.ofJson v = .ok c) ↔ IsCatcher v := by
  simp only [Catcher.ofJson_eq_ok]
  have hnames (ms : Members) := @allowsTexts_iff _ Json.IsErrorName ErrorName.text
    (fun n => n.clashes = false) (fun _ => ErrorName.isErrorName_iff) "ErrorEquals" ms
  constructor
  · rintro ⟨c, ms, rfl, h⟩
    exact .object ((hnames ms).mpr ⟨c.errors, h.errors, h.readable⟩)
      (TransitionField.exists_shown_iff.mp ⟨c.next, h.next⟩)
      (ResultPath.allows_iff.mpr ⟨c.resultPath, h.resultPath⟩)
  · rintro ⟨herrors, hnext, hresult⟩
    obtain ⟨errors, herrors, hgood⟩ := (hnames _).mp herrors
    obtain ⟨next, hnext⟩ := TransitionField.exists_shown_iff.mpr hnext
    obtain ⟨resultPath, hresult⟩ := ResultPath.allows_iff.mp hresult
    exact ⟨⟨errors, next, resultPath⟩, _, rfl, herrors, hgood, hnext, hresult⟩

/-! ### Rules -/

theorem Grammar.find?_eq_some_iff_leads {op : Operator} {ms : Members} :
    Operator.find? ms = some op ↔ Leads op ms := by
  rw [Operator.find?, List.find?_eq_some_iff_append]
  constructor
  · rintro ⟨hop, before, after, hall, hbefore⟩
    refine ⟨before, after, hall, hop, fun o ho => ?_⟩
    simpa using hbefore o ho
  · rintro ⟨before, after, hall, hop, hbefore⟩
    refine ⟨hop, before, after, hall, fun o ho => ?_⟩
    simpa using hbefore o ho

/-- Whatever is read as a rule is one of the grammar: by induction on the rule. -/
theorem Rule.isRule_of_ofJson {r : Rule} {mode : TransitionMode} {v : Json}
    (h : Rule.ofJson mode v = .ok r) : IsRule mode v := by
  induction r generalizing mode v with
  | logic op children next ih =>
    obtain ⟨ms, rfl, hfind, ⟨w, items, hw, hitems, hread⟩, hnext⟩ := Rule.ofJson_eq_ok.mp h
    have hleads := find?_eq_some_iff_leads.mp hfind
    have hplace := TransitionField.exists_shown_iff.mp ⟨next, hnext⟩
    have inside : ∀ x ∈ items, IsRule .locked x := by
      intro x hx
      obtain ⟨child, hchild, hx⟩ := forall₂_mem_left hread hx
      exact ih child hchild hx
    by_cases hop : op = .not
    · subst hop
      obtain ⟨-, rfl⟩ := LogicOp.operands_not_eq_some.mp hitems
      exact .negation hleads hw (inside w List.mem_cons_self) hplace
    · obtain rfl := (LogicOp.operands_eq_some hop).mp hitems
      exact .junction hleads hop hw inside hplace
  | compare c next =>
    obtain ⟨ms, rfl, hfind, hinput, hliteral, hnext⟩ := Rule.ofJson_eq_ok.mp h
    refine .comparison (find?_eq_some_iff_leads.mp hfind) ?_ ?_
      (TransitionField.exists_shown_iff.mp ⟨next, hnext⟩)
    · exact (allows_iff fun _ => Path.isPathText_iff).mpr ⟨c.input, hinput⟩
    · intro v hv
      exact c.accepted v (hliteral.symm.trans hv)

theorem Grammar.IsRule.isObject {mode : TransitionMode} {v : Json} (h : IsRule mode v) :
    v.IsObject := by
  cases h <;> exact ⟨_, rfl⟩

/-- Whatever is a rule of the grammar is read: by induction on the grammar. -/
theorem Grammar.IsRule.exists_ofJson {mode : TransitionMode} {v : Json} (h : IsRule mode v) :
    ∃ r, Rule.ofJson mode v = .ok r := by
  induction h with
  | @junction mode ms op items leads several operand inside next ih =>
    obtain ⟨children, hchildren⟩ := exists_forall₂_iff.mpr ih
    obtain ⟨f, hf⟩ := TransitionField.exists_shown_iff.mpr next
    exact ⟨.logic op children f, Rule.ofJson_eq_ok.mpr ⟨ms, rfl,
      find?_eq_some_iff_leads.mpr leads,
      ⟨_, items, operand, (LogicOp.operands_eq_some several).mpr rfl, hchildren⟩, hf⟩⟩
  | @negation mode ms v leads operand inside next ih =>
    obtain ⟨child, hchild⟩ := ih
    obtain ⟨f, hf⟩ := TransitionField.exists_shown_iff.mpr next
    have hoperands : LogicOp.not.operands v = some [v] :=
      LogicOp.operands_not_eq_some.mpr ⟨Json.isObject_iff.mpr inside.isObject, rfl⟩
    exact ⟨.logic .not [child] f, Rule.ofJson_eq_ok.mpr ⟨ms, rfl,
      find?_eq_some_iff_leads.mpr leads, ⟨v, [v], operand, hoperands, .cons hchild .nil⟩, hf⟩⟩
  | @comparison mode ms op leads input literal next =>
    obtain ⟨path, hpath⟩ := (allows_iff fun _ => Path.isPathText_iff).mp input
    obtain ⟨f, hf⟩ := TransitionField.exists_shown_iff.mpr next
    exact ⟨.compare ⟨op, path, ms.lookup op.keyword, literal⟩ f, Rule.ofJson_eq_ok.mpr ⟨ms, rfl,
      find?_eq_some_iff_leads.mpr leads, hpath, rfl, hf⟩⟩

theorem Rule.exists_ofJson_iff {mode : TransitionMode} {v : Json} :
    (∃ r, Rule.ofJson mode v = .ok r) ↔ IsRule mode v :=
  ⟨fun ⟨_, h⟩ => Rule.isRule_of_ofJson h, fun h => h.exists_ofJson⟩

/-! ### Bodies -/

theorem Task.exists_shown_iff {ms : Members} : (∃ b : Task, b.Shown ms) ↔ IsTask ms := by
  have hseconds (key : String) := @allows_iff _ _ Seconds.toJson
    (fun _ => Seconds.isPositiveCount_iff) key ms
  have hretriers := @allowsArrayOf_read_iff _ _ (fun v r => Retrier.ofJson v = .ok r)
    (fun _ => Retrier.exists_ofJson_iff) "Retry" ms
  have hcatchers := @allowsArrayOf_read_iff _ _ (fun v c => Catcher.ofJson v = .ok c)
    (fun _ => Catcher.exists_ofJson_iff) "Catch" ms
  constructor
  · rintro ⟨b, h⟩
    exact ⟨allowsString_iff.mpr ⟨_, h.resource⟩, (hseconds _).mpr ⟨_, h.timeout⟩,
      (hseconds _).mpr ⟨_, h.heartbeat⟩,
      isDataFlow_iff.mpr ⟨⟨_, h.paths⟩, ⟨_, h.resultPath⟩⟩,
      TransitionField.exists_shown_iff.mp ⟨_, h.next⟩, hretriers.mpr ⟨_, h.retriers⟩,
      hcatchers.mpr ⟨_, h.catchers⟩⟩
  · intro h
    obtain ⟨resource, hresource⟩ := allowsString_iff.mp h.resource
    obtain ⟨timeout, htimeout⟩ := (hseconds _).mp h.timeout
    obtain ⟨heartbeat, hheartbeat⟩ := (hseconds _).mp h.heartbeat
    obtain ⟨⟨paths, hpaths⟩, ⟨resultPath, hresult⟩⟩ := isDataFlow_iff.mp h.flow
    obtain ⟨next, hnext⟩ := TransitionField.exists_shown_iff.mpr h.next
    obtain ⟨retriers, hretriers⟩ := hretriers.mp h.retriers
    obtain ⟨catchers, hcatchers⟩ := hcatchers.mp h.catchers
    exact ⟨⟨paths, resultPath, ms.lookup "Result", next, retriers, catchers, resource, timeout,
      heartbeat⟩, hresource, htimeout, hheartbeat, hpaths, hresult, rfl, hnext, hretriers,
      hcatchers⟩

theorem Choice.exists_shown_iff {ms : Members} :
    (∃ b : Choice, b.Shown ms) ↔ IsBody .choice ms := by
  have hrules := @allowsArrayOf_read_iff _ _ (fun v r => Rule.ofJson .withoutEnd v = .ok r)
    (fun _ => Rule.exists_ofJson_iff) "Choices" ms
  constructor
  · rintro ⟨b, h⟩
    exact ⟨hrules.mpr ⟨_, h.rules⟩, allowsString_iff.mpr ⟨_, h.fallback⟩⟩
  · rintro ⟨h, hdefault⟩
    obtain ⟨rules, hrules⟩ := hrules.mp h
    obtain ⟨fallback, hfallback⟩ := allowsString_iff.mp hdefault
    exact ⟨⟨rules, fallback⟩, hrules, hfallback⟩

/-- **Some body of a kind is shown** by what may stand under the keys of the kind. -/
theorem Body.exists_shown_iff {kind : StateKind} {ms : Members} :
    (∃ b : Body State, b.kind = kind ∧ b.Shown ms) ↔ IsBody kind ms := by
  constructor
  · rintro ⟨b, rfl, h⟩
    cases b with
    | pass b =>
      exact ⟨TransitionField.exists_shown_iff.mp ⟨_, h.next⟩,
        isDataFlow_iff.mpr ⟨⟨_, h.paths⟩, ⟨_, h.resultPath⟩⟩⟩
    | task b => exact Task.exists_shown_iff.mp ⟨b, h⟩
    | wait b =>
      exact ⟨TransitionField.exists_shown_iff.mp ⟨_, h.next⟩,
        (allows_iff fun _ => Seconds.isPositiveCount_iff).mpr ⟨_, h.seconds⟩⟩
    | succeed => trivial
    | fail b => exact ⟨allowsString_iff.mpr ⟨_, h.error⟩, allowsString_iff.mpr ⟨_, h.cause⟩⟩
    | choice b => exact Choice.exists_shown_iff.mp ⟨b, h⟩
    | parallel b =>
      exact ⟨TransitionField.exists_shown_iff.mp ⟨_, h.next⟩,
        isDataFlow_iff.mpr ⟨⟨_, h.paths⟩, ⟨_, h.resultPath⟩⟩⟩
  · intro h
    cases kind with
    | pass =>
      obtain ⟨next, hnext⟩ := TransitionField.exists_shown_iff.mpr h.1
      obtain ⟨⟨paths, hpaths⟩, ⟨resultPath, hresult⟩⟩ := isDataFlow_iff.mp h.2
      exact ⟨.pass ⟨paths, resultPath, ms.lookup "Result", next⟩, rfl, hpaths, hresult, rfl, hnext⟩
    | task =>
      obtain ⟨b, hb⟩ := Task.exists_shown_iff.mpr h
      exact ⟨.task b, rfl, hb⟩
    | wait =>
      obtain ⟨next, hnext⟩ := TransitionField.exists_shown_iff.mpr h.1
      obtain ⟨seconds, hseconds⟩ := (allows_iff fun _ => Seconds.isPositiveCount_iff).mp h.2
      exact ⟨.wait ⟨next, seconds⟩, rfl, hseconds, hnext⟩
    | succeed => exact ⟨.succeed, rfl, trivial⟩
    | fail =>
      obtain ⟨error, herror⟩ := allowsString_iff.mp h.1
      obtain ⟨cause, hcause⟩ := allowsString_iff.mp h.2
      exact ⟨.fail ⟨error, cause⟩, rfl, herror, hcause⟩
    | choice =>
      obtain ⟨b, hb⟩ := Choice.exists_shown_iff.mpr h
      exact ⟨.choice b, rfl, hb⟩
    | parallel =>
      obtain ⟨next, hnext⟩ := TransitionField.exists_shown_iff.mpr h.1
      obtain ⟨⟨paths, hpaths⟩, ⟨resultPath, hresult⟩⟩ := isDataFlow_iff.mp h.2
      exact ⟨.parallel ⟨next, paths, resultPath, []⟩, rfl, hnext, hpaths, hresult⟩

/-- What stands in a body beside the branches does not depend on them. -/
theorem Body.exists_shown_with_branches {ms : Members} (h : IsBody .parallel ms)
    (branches : List (Collection State)) :
    ∃ b : Parallel State, b.Shown ms ∧ b.branches = branches := by
  obtain ⟨body, hkind, hb⟩ := Body.exists_shown_iff.mpr h
  obtain ⟨b, rfl⟩ := Body.exists_eq_parallel hkind
  exact ⟨{ b with branches }, ⟨hb.next, hb.paths, hb.resultPath⟩, rfl⟩

/-! ### States and collections -/

/-- The values smaller than a bound are read as states exactly if the grammar says so. -/
def StatesAccepted (bound : Nat) : Prop :=
  ∀ v : Json, sizeOf v < bound → ∀ name,
    (∃ s, (State.ofJson .standard name v).outcome = .ok s) ↔ IsState v

/-- A collection is read exactly if it is one of the grammar, given that for the states
in it. -/
theorem Collection.exists_shown_iff {ms : Members}
    (ih : StatesAccepted (sizeOf (Json.object ms))) :
    (∃ c : Collection State, c.Shown .standard ms) ↔ IsCollection (.object ms) := by
  have hstate {members : Members} (h : ms.lookup "States" = some (.object members))
      {m : String × Json} (hm : m ∈ members) :
      (∃ s, State.Reads .standard m s) ↔ IsState m.2 :=
    ih m.2 (Nat.lt_trans (sizeOf_lt_of_mem_members hm) (sizeOf_lt_of_lookup h)) m.1
  constructor
  · rintro ⟨c, ⟨members, hmembers, hreads⟩, -, hdistinct, ⟨start, hstart, -⟩, -⟩
    rw [State.names_of_reads hreads] at hdistinct
    refine .object (allowsString_iff.mpr ⟨start, hstart⟩) ?_ ?_
    · intro v hv
      rw [hv] at hmembers
      exact ⟨members, hmembers, hdistinct⟩
    · intro members' h m hm
      rw [h] at hmembers
      obtain rfl := Json.object.inj hmembers
      obtain ⟨s, -, hs⟩ := forall₂_mem_left hreads hm
      exact (hstate h hm).mp ⟨s, hs⟩
  · rintro ⟨hstart, hobject, hinside⟩
    obtain ⟨start, hstart⟩ := allowsString_iff.mp hstart
    -- an absent object of states is read as an empty one
    rcases hv : ms.lookup "States" with _ | v
    · refine ⟨⟨[], [], start.or none, false⟩, ⟨[], by rw [hv]; rfl, .nil⟩, rfl, List.nodup_nil,
        ⟨start, hstart, rfl⟩, rfl⟩
    · obtain ⟨members, rfl, hdistinct⟩ := hobject v hv
      obtain ⟨ss, hss⟩ := exists_forall₂_iff.mpr fun m hm =>
        (hstate hv hm).mpr (hinside members hv m hm)
      refine ⟨⟨ss, (ss.map State.name).zipIdx, start.or (ss.head?.map State.name), false⟩,
        ⟨members, by rw [hv]; rfl, hss⟩, rfl, ?_, ⟨start, hstart, rfl⟩, rfl⟩
      rw [State.names_of_reads hss]
      exact hdistinct

theorem Collection.exists_reads_iff {v : Json} (ih : StatesAccepted (sizeOf v)) :
    (∃ c, Collection.Reads .standard v c) ↔ IsCollection v := by
  constructor
  · rintro ⟨c, ms, rfl, hc⟩
    exact (Collection.exists_shown_iff ih).mp ⟨c, Collection.ofMembers_eq_ok.mp hc⟩
  · intro h
    cases h with
    | @object ms hstart hstates hinside =>
      obtain ⟨c, hc⟩ := (Collection.exists_shown_iff ih).mpr (.object hstart hstates hinside)
      exact ⟨c, ms, rfl, Collection.ofMembers_eq_ok.mpr hc⟩

/-- **A state is read exactly if it is one of the grammar**: by induction on the size of
the value, for all names at once. -/
theorem State.exists_ofJson_iff {v : Json} : ∀ name : String,
    (∃ s, (State.ofJson .standard name v).outcome = .ok s) ↔ IsState v := by
  induction v using Json.sizeInduction with
  | step v ih =>
  intro name
  -- a branch stands two levels down, in the array under `Branches`, and its states lower
  have hbranch {items : List Json} (hv : sizeOf (Json.array items) < sizeOf v) {w : Json}
      (hw : w ∈ items) : (∃ c, Collection.Reads .standard w c) ↔ IsCollection w :=
    Collection.exists_reads_iff fun x hx =>
      ih x (Nat.lt_trans hx (Nat.lt_trans (sizeOf_lt_of_mem_items hw) hv))
  constructor
  · rintro ⟨s, hs⟩
    obtain ⟨ms, rfl, h⟩ := State.ofJson_eq_ok.mp hs
    obtain ⟨type, htype, hkind⟩ := h.type
    obtain rfl := (Registry.resolve_standard type s.kind).mp hkind
    refine .object htype (allowsString_iff.mpr ⟨_, h.comment⟩)
      (Body.exists_shown_iff.mp ⟨s.body, rfl, h.body⟩) ?_ ?_
    · intro hpar w hw
      obtain ⟨items, hitems, -⟩ := h.branches hpar
      rw [hw] at hitems
      exact ⟨items, hitems⟩
    · intro hpar items hitems w hw
      obtain ⟨items', hitems', hreads⟩ := h.branches hpar
      rw [hitems] at hitems'
      obtain rfl := Json.array.inj hitems'
      obtain ⟨c, -, hc⟩ := forall₂_mem_left hreads hw
      exact (hbranch (sizeOf_lt_of_lookup hitems) hw).mp ⟨c, hc⟩
  · intro h
    cases h with
    | @object ms kind htype hcomment hbody harray hinside =>
    obtain ⟨comment, hcomment⟩ := allowsString_iff.mp hcomment
    have hresolve := (Registry.resolve_standard kind.name kind).mpr rfl
    by_cases hpar : kind = .parallel
    · subst hpar
      -- the branches are read first, and then put into a body that shows the rest
      have hitems : ∃ cs, ∃ items, (ms.lookup "Branches").getD (.array []) = .array items ∧
          List.Forall₂ (Collection.Reads .standard) items cs := by
        rcases hv : ms.lookup "Branches" with _ | w
        · exact ⟨[], [], rfl, .nil⟩
        · obtain ⟨items, rfl⟩ := harray rfl w hv
          obtain ⟨cs, hcs⟩ := exists_forall₂_iff.mpr fun w hw =>
            (hbranch (sizeOf_lt_of_lookup hv) hw).mpr (hinside rfl items hv w hw)
          exact ⟨cs, items, rfl, hcs⟩
      obtain ⟨cs, hcs⟩ := hitems
      obtain ⟨b, hb, rfl⟩ := Body.exists_shown_with_branches hbody cs
      exact ⟨⟨name, comment, .parallel b⟩, State.ofJson_eq_ok.mpr ⟨ms, rfl, rfl,
        ⟨_, htype, hresolve⟩, hcomment, hb, fun _ => hcs⟩⟩
    · obtain ⟨b, rfl, hb⟩ := Body.exists_shown_iff.mpr hbody
      exact ⟨⟨name, comment, b⟩, State.ofJson_eq_ok.mpr ⟨ms, rfl, rfl,
        ⟨_, htype, hresolve⟩, hcomment, hb, fun h => absurd h hpar⟩⟩

/-! ### Machines -/

/-- **Reading accepts exactly the documents of the grammar.** -/
theorem Machine.exists_ofDocument_iff_isMachine {document : Json} :
    (∃ m, (Machine.ofDocument .standard document).outcome = .ok m) ↔ IsMachine document := by
  have hstates : ∀ bound, StatesAccepted bound := fun _ _ _ => State.exists_ofJson_iff
  constructor
  · rintro ⟨m, hm⟩
    obtain ⟨ms, rfl, hshown⟩ := Machine.ofDocument_eq_ok.mp hm
    exact .object (allowsString_iff.mpr ⟨_, hshown.comment⟩)
      (allowsString_iff.mpr ⟨_, hshown.version⟩)
      ((allows_iff fun _ => Seconds.isPositiveCount_iff).mpr ⟨_, hshown.timeout⟩)
      ((Collection.exists_shown_iff (hstates _)).mp ⟨_, hshown.states⟩)
  · rintro ⟨hcomment, hversion, htimeout, hcollection⟩
    obtain ⟨comment, hcomment⟩ := allowsString_iff.mp hcomment
    obtain ⟨version, hversion⟩ := allowsString_iff.mp hversion
    obtain ⟨timeout, htimeout⟩ := (allows_iff fun _ => Seconds.isPositiveCount_iff).mp htimeout
    obtain ⟨c, hc⟩ := (Collection.exists_shown_iff (hstates _)).mpr hcollection
    exact ⟨⟨c, comment, timeout, version⟩, Machine.ofDocument_eq_ok.mpr
      ⟨_, rfl, hc, hcomment, htimeout, hversion⟩⟩

end StatesLanguage
