import StatesLanguage.Proofs.Bodies
import StatesLanguage.Proofs.Complete

/-!
# What is written

The writer checks a state before it writes it, and so every state inside it again. Yet
only the outermost check can fail: `State.toJson_outcome_of_problems_eq_nil` and
`Machine.toDocument_eq_ok` say that a model without problems is written, as a document
that `State.document` and `Machine.document` give outright, and that a machine with
problems is not.

The second half is about that document: which members each kind of state has, and what
its keys find in them.
-/

namespace StatesLanguage

open Json (Members)

/-! ### The document itself -/

mutual

/-- The document of a state, whether anything is missing or not. -/
def State.document : State → Json
  | ⟨_, comment, body⟩ =>
    .object <|
      [("Type", .string body.kind.name)] ++ optionalMember "Comment" .string comment ++
        body.ownMembers ++
          (match body with
            | .parallel ⟨_, _, _, branches⟩ =>
              [("Branches", .array (Collection.listDocument branches))]
            | _ => []) ++
          body.fieldMembers

/-- The documents of branches. -/
def Collection.listDocument : List (Collection State) → List Json
  | [] => []
  | ⟨states, _, startAt, _⟩ :: cs =>
    .object (optionalMember "StartAt" .string startAt ++
      [("States", .object (Json.collect (State.listDocument states)))]) ::
        Collection.listDocument cs

/-- The documents of states, under their names. -/
def State.listDocument : List State → Members
  | [] => []
  | s :: ss => (s.name, State.document s) :: State.listDocument ss

end

/-- The members of the document of a collection. -/
def Collection.documentMembers (c : Collection State) : Members :=
  optionalMember "StartAt" .string c.startAt ++
    [("States", .object (Json.collect (c.states.map fun s => (s.name, s.document))))]

theorem State.listDocument_eq_map (ss : List State) :
    State.listDocument ss = ss.map fun s => (s.name, s.document) := by
  induction ss with
  | nil => rfl
  | cons s ss ih => rw [State.listDocument, ih, List.map_cons]

theorem Collection.listDocument_eq_map (cs : List (Collection State)) :
    Collection.listDocument cs = cs.map fun c => .object c.documentMembers := by
  induction cs with
  | nil => rfl
  | cons c cs ih =>
    rw [Collection.listDocument, ih, List.map_cons, State.listDocument_eq_map,
      Collection.documentMembers]

/-- The members of the branches of a body. -/
def Body.branchMembers : Body State → Members
  | .parallel b => [("Branches", .array (b.branches.map fun c => .object c.documentMembers))]
  | _ => []

/-- The members of the document of a state. -/
def State.documentMembers (s : State) : Members :=
  [("Type", .string s.kind.name)] ++ optionalMember "Comment" .string s.comment ++
    s.body.ownMembers ++ s.body.branchMembers ++ s.body.fieldMembers

theorem State.document_eq (s : State) : s.document = .object s.documentMembers := by
  obtain ⟨name, comment, body⟩ := s
  cases body <;>
    simp [State.document, State.documentMembers, Body.branchMembers, State.kind,
      Collection.listDocument_eq_map]

/-- The members of the document of a machine. -/
def Machine.documentMembers (m : Machine) : Members :=
  m.states.documentMembers ++ optionalMember "Comment" .string m.comment ++
    optionalMember "TimeoutSeconds" Seconds.toJson m.timeout ++
    optionalMember "Version" .string m.version

/-- The document of a machine, whether anything is missing or not. -/
def Machine.document (m : Machine) : Json :=
  .object m.documentMembers

/-! ### Only the outermost check can fail -/

theorem Logged.outcome_map {α β : Type} (f : α → β) (x : Logged Error α) :
    (f <$> x).outcome = x.outcome.map f := by
  rw [map_eq_pure_bind, Logged.outcome_bind]
  cases x.outcome <;> rfl

theorem State.listMembers_outcome {ss : List State}
    (h : ∀ s ∈ ss, s.toJson.outcome = .ok s.document) :
    (State.listMembers ss).outcome = .ok (ss.map fun s => (s.name, s.document)) := by
  induction ss with
  | nil => rfl
  | cons s ss ih =>
    rw [List.forall_mem_cons] at h
    rw [State.listMembers]
    simp only [Logged.outcome_bind, h.1, ih h.2]
    rfl

theorem Collection.members_outcome {c : Collection State} (h : c.problems = [])
    (hstates : ∀ s ∈ c.states, s.toJson.outcome = .ok s.document) :
    c.members.outcome = .ok c.documentMembers := by
  obtain ⟨name, -, hname⟩ := Collection.exists_start_of_problems_eq_nil h
  rw [Collection.members, Collection.documentMembers, hname, Logged.start]
  simp only [Logged.outcome_bind, State.listMembers_outcome hstates]
  rfl

theorem Collection.listToJson_outcome {cs : List (Collection State)}
    (h : ∀ c ∈ cs, c.members.outcome = .ok c.documentMembers) :
    (Collection.listToJson cs).outcome = .ok (cs.map fun c => .object c.documentMembers) := by
  rw [Collection.listToJson_eq_mapM]
  induction cs with
  | nil => rfl
  | cons c cs ih =>
    rw [List.forall_mem_cons] at h
    rw [List.mapM_cons]
    simp only [Logged.outcome_bind, Logged.outcome_map, ih h.2, h.1]
    rfl

/-- A state that is written makes the document of its branches and its own members. -/
theorem State.toJson_outcome_of_branches {s : State} (h : s.problems = [])
    (hbranches : ∀ c ∈ s.branches, c.members.outcome = .ok c.documentMembers) :
    s.toJson.outcome = .ok s.document := by
  obtain ⟨name, comment, body⟩ := s
  rw [State.toJson, h, State.document_eq]
  cases body with
  | parallel b =>
    simp only [Logged.outcome_bind, Logged.check, Logged.outcome_event]
    have := Collection.listToJson_outcome hbranches
    rw [State.branches, Body.branches] at this
    simp only [this]
    rfl
  | _ => rfl

/-- **A state without problems is written**, with all that is inside it: by induction on
the branches. No check of a state inside it can fail, and every branch has a start. -/
theorem State.toJson_outcome_of_problems_eq_nil {s : State} (h : s.problems = []) :
    s.toJson.outcome = .ok s.document := by
  induction s using State.branchInduction with
  | step s ih =>
  refine State.toJson_outcome_of_branches h fun c hc => ?_
  have hproblems := State.problems_of_mem h c hc
  exact Collection.members_outcome hproblems fun t ht =>
    ih c hc t ht (Collection.problems_of_mem hproblems t ht)

theorem Logged.outcome_check_bind {α : Type} {es : List Error} {x : Logged Error α} {a : α}
    (h : es = [] → x.outcome = .ok a) {b : α} :
    (Logged.check es >>= fun _ => x).outcome = .ok b ↔ es = [] ∧ b = a := by
  cases es with
  | nil =>
    have hx : (Logged.check ([] : List Error) >>= fun _ => x).outcome = .ok a := by
      rw [Logged.outcome_bind]
      exact h rfl
    rw [hx, Except.ok.injEq]
    simp [eq_comm]
  | cons e es =>
    constructor
    · intro h
      nomatch h
    · rintro ⟨h, -⟩
      nomatch h

/-- **A machine is written exactly if it has no problems**, and then as its document. -/
theorem Machine.toDocument_eq_ok {m : Machine} {document : Json} :
    m.toDocument.outcome = .ok document ↔ m.problems = [] ∧ document = m.document := by
  rw [Machine.toDocument]
  refine Logged.outcome_check_bind fun h => ?_
  have hmembers := Collection.members_outcome h fun s hs =>
    State.toJson_outcome_of_problems_eq_nil (Collection.problems_of_mem h s hs)
  rw [Logged.outcome_bind, hmembers]
  rfl

/-! ### The members of declared fields -/

/-- A member for a list that is not empty. -/
def listMember (key : String) : List Json → Members
  | [] => []
  | items => [(key, .array items)]

/-- The members of a declared field, which are none if nothing is set. -/
def Field.written : Field → Members
  | .next f => f.members
  | .paths p => p.members
  | .result r => optionalMember "Result" id r
  | .resultPath r => r.members
  | .retriers rs => listMember "Retry" (rs.map Retrier.toJson)
  | .catchers cs => listMember "Catch" (cs.map Catcher.toJson)

theorem Field.members_of_isConfigured {f : Field} (h : f.isConfigured = true) :
    f.members = f.written := by
  cases f with
  | retriers rs => cases rs <;> first | rfl | nomatch h
  | catchers cs => cases cs <;> first | rfl | nomatch h
  | _ => rfl

theorem Field.written_of_not_isConfigured {f : Field} (h : f.isConfigured = false) :
    f.written = [] := by
  cases f with
  | next f =>
    obtain ⟨mode, transition⟩ := f
    obtain rfl : transition = none := Option.isNone_iff_eq_none.mp (by
      rw [← Option.not_isSome, show transition.isSome = false from h]
      rfl)
    cases mode <;> rfl
  | paths p =>
    obtain ⟨_ | _, _ | _⟩ := p <;> first | rfl | nomatch h
  | result r => cases r <;> first | rfl | nomatch h
  | resultPath r => cases r <;> first | rfl | nomatch h
  | retriers rs => cases rs <;> first | rfl | nomatch h
  | catchers cs => cases cs <;> first | rfl | nomatch h

/-- The fields are written one after another. -/
theorem Body.fieldMembers_eq {σ : Type} (b : Body σ) :
    b.fieldMembers = b.fields.flatMap Field.written := by
  rw [Body.fieldMembers]
  induction b.fields with
  | nil => rfl
  | cons f fs ih =>
    rw [List.flatMap_cons, ← ih]
    -- a field in which nothing is set is passed over, and would write nothing
    cases h : f.isConfigured with
    | true => rw [List.filter_cons_of_pos h, List.flatMap_cons, Field.members_of_isConfigured h]
    | false =>
      rw [List.filter_cons_of_neg (by rw [h]; exact Bool.false_ne_true),
        Field.written_of_not_isConfigured h, List.nil_append]

section Fields

variable {σ : Type}

@[simp] theorem Body.fieldMembers_pass (b : Pass) :
    (Body.pass b : Body σ).fieldMembers = b.paths.members ++ b.resultPath.members ++
      optionalMember "Result" id b.result ++ b.next.members := by
  simp [Body.fieldMembers_eq, Body.fields, Field.written]

@[simp] theorem Body.fieldMembers_task (b : Task) :
    (Body.task b : Body σ).fieldMembers = b.paths.members ++ b.resultPath.members ++
      optionalMember "Result" id b.result ++ b.next.members ++
      listMember "Retry" (b.retriers.map Retrier.toJson) ++
      listMember "Catch" (b.catchers.map Catcher.toJson) := by
  simp [Body.fieldMembers_eq, Body.fields, Field.written]

@[simp] theorem Body.fieldMembers_wait (b : Wait) :
    (Body.wait b : Body σ).fieldMembers = b.next.members := by
  simp [Body.fieldMembers_eq, Body.fields, Field.written]

@[simp] theorem Body.fieldMembers_parallel (b : Parallel σ) :
    (Body.parallel b).fieldMembers =
      b.next.members ++ b.paths.members ++ b.resultPath.members := by
  simp [Body.fieldMembers_eq, Body.fields, Field.written]

@[simp] theorem Body.fieldMembers_succeed : (Body.succeed : Body σ).fieldMembers = [] := rfl

@[simp] theorem Body.fieldMembers_fail (b : Fail) : (Body.fail b : Body σ).fieldMembers = [] := rfl

@[simp] theorem Body.fieldMembers_choice (b : Choice) :
    (Body.choice b : Body σ).fieldMembers = [] := rfl

end Fields

/-! ### Looking up what is written -/

@[simp] theorem lookup_member_cons (key : String) (v : Json) (ms : Members) (k : String) :
    ((key, v) :: ms).lookup k = if k = key then some v else ms.lookup k := by
  rw [List.lookup_cons]
  by_cases h : k = key
  · rw [if_pos h, beq_iff_eq.mpr h]
  · rw [if_neg h, beq_eq_false_iff_ne.mpr h]

@[simp] theorem TransitionField.lookup_members_of_ne {f : TransitionField} {key : String}
    (hnext : key ≠ "Next") (hend : key ≠ "End") : f.members.lookup key = none := by
  obtain ⟨_ | _ | _, _ | _ | _⟩ := f <;> simp [TransitionField.members, hnext, hend]

@[simp] theorem DataPaths.lookup_members (p : DataPaths) (key : String) :
    p.members.lookup key = if key = "InputPath" then p.input.map Path.toJson
      else if key = "OutputPath" then p.output.map Path.toJson else none := by
  rw [DataPaths.members, List.lookup_append]
  simp only [lookup_optionalMember]
  split <;> simp_all

@[simp] theorem ResultPath.lookup_members (r : ResultPath) (key : String) :
    r.members.lookup key = if key = "ResultPath" then r.toJson? else none := by
  cases r <;> simp [ResultPath.members, ResultPath.toJson?]

@[simp] theorem lookup_listMember (key : String) (items : List Json) (k : String) :
    (listMember key items).lookup k =
      if k = key ∧ items ≠ [] then some (.array items) else none := by
  cases items <;> simp [listMember]

attribute [simp] List.lookup_append Body.ownMembers Body.branchMembers

theorem State.lookup_type (s : State) :
    s.documentMembers.lookup "Type" = some (.string s.kind.name) := by
  simp [State.documentMembers]

theorem State.lookup_comment (s : State) :
    s.documentMembers.lookup "Comment" = s.comment.map .string := by
  obtain ⟨name, comment, body⟩ := s
  cases body <;> simp [State.documentMembers]

/-- Apart from the type and the comment, all that is found is about the body. -/
@[simp] theorem State.lookup_documentMembers {s : State} {key : String} (htype : key ≠ "Type")
    (hcomment : key ≠ "Comment") :
    s.documentMembers.lookup key =
      ((s.body.ownMembers.lookup key).or (s.body.branchMembers.lookup key)).or
        (s.body.fieldMembers.lookup key) := by
  simp [State.documentMembers, htype, hcomment, Option.or_assoc]

theorem State.lookup_branches (s : State) :
    (s.documentMembers.lookup "Branches").getD (.array []) =
      .array (s.branches.map fun c => .object c.documentMembers) := by
  obtain ⟨name, comment, body⟩ := s
  cases body <;> simp [State.branches, Body.branches]

theorem Collection.lookup_startAt (c : Collection State) :
    c.documentMembers.lookup "StartAt" = c.startAt.map .string := by
  simp [Collection.documentMembers]

/-- States with different names are written one after another. -/
theorem Collection.collect_documents {c : Collection State}
    (h : (c.states.map State.name).Nodup) :
    Json.collect (c.states.map fun s => (s.name, s.document)) =
      c.states.map fun s => (s.name, s.document) := by
  refine Json.collect_eq_self ?_
  rw [List.map_map]
  exact h

theorem Collection.lookup_states {c : Collection State} (h : (c.states.map State.name).Nodup) :
    c.documentMembers.lookup "States" =
      some (.object (c.states.map fun s => (s.name, s.document))) := by
  simp [Collection.documentMembers, Collection.collect_documents h]

section Machine

variable (m : Machine)

theorem Machine.lookup_comment :
    m.documentMembers.lookup "Comment" = m.comment.map .string := by
  simp [Machine.documentMembers, Collection.documentMembers]

theorem Machine.lookup_timeout :
    m.documentMembers.lookup "TimeoutSeconds" = m.timeout.map Seconds.toJson := by
  simp [Machine.documentMembers, Collection.documentMembers]

theorem Machine.lookup_version :
    m.documentMembers.lookup "Version" = m.version.map .string := by
  simp [Machine.documentMembers, Collection.documentMembers]

theorem Machine.lookup_startAt :
    m.documentMembers.lookup "StartAt" = m.states.documentMembers.lookup "StartAt" := by
  simp [Machine.documentMembers, Collection.documentMembers]

theorem Machine.lookup_states :
    m.documentMembers.lookup "States" = m.states.documentMembers.lookup "States" := by
  simp [Machine.documentMembers, Collection.documentMembers]

end Machine

/-! ### Rules -/

/-- What stands under the keyword of a logic operator, for the rules below it. -/
def LogicOp.operand : LogicOp → List Json → Json
  | .not, items => items.headD .null
  | _, items => .array items

/-- The rules below an operator are found again in what is written for them. -/
theorem LogicOp.operands_operand {op : LogicOp} {items : List Json}
    (h : op.admits items.length = true) (hobject : ∀ v ∈ items, v.isObject = true) :
    op.operands (op.operand items) = some items := by
  cases op with
  | and | or => rfl
  | not =>
    obtain ⟨v, rfl⟩ := List.length_eq_one_iff.mp (beq_iff_eq.mp h)
    exact if_pos (hobject v List.mem_cons_self)

namespace Rule

/-- The members of the document of a rule. -/
def documentMembers : Rule → Members
  | .logic op children next =>
    [(op.keyword, op.operand (children.map Rule.toJson))] ++ next.members
  | .compare c next => c.members ++ next.members

theorem toJson_eq (r : Rule) : r.toJson = .object r.documentMembers := by
  cases r with
  | logic op children next =>
    rw [documentMembers, ← Rule.listToJson_eq_map]
    cases op <;> rfl
  | compare c next => rfl

theorem isObject_toJson (r : Rule) : r.toJson.isObject = true := by
  rw [toJson_eq]
  rfl

theorem lookup_operand (op : LogicOp) (children : List Rule) (next : TransitionField) :
    (logic op children next).documentMembers.lookup op.keyword =
      some (op.operand (children.map Rule.toJson)) := by
  simp [documentMembers]

theorem lookup_literal (c : Comparison) (next : TransitionField) :
    (compare c next).documentMembers.lookup c.op.keyword = c.literal := by
  obtain ⟨hnext, hend, hvariable⟩ : c.op.keyword ≠ "Next" ∧ c.op.keyword ≠ "End" ∧
    c.op.keyword ≠ "Variable" := (Operator.compare c.op).keyword_ne
  simp [documentMembers, Comparison.members, hnext, hend, hvariable]

theorem lookup_variable (c : Comparison) (next : TransitionField) :
    (compare c next).documentMembers.lookup "Variable" = c.input.map Path.toJson := by
  have hvariable : "Variable" ≠ c.op.keyword := (Operator.compare c.op).keyword_ne.2.2.symm
  simp [documentMembers, Comparison.members, hvariable]

/-- The keyword of a rule is not that of any other operator. -/
theorem lookup_keyword_of_ne {r : Rule} {op : Operator} (h : op ≠ r.operator) :
    r.documentMembers.lookup op.keyword = none := by
  obtain ⟨hnext, hend, hvariable⟩ := op.keyword_ne
  have hkeyword : op.keyword ≠ r.operator.keyword := fun heq => h (Operator.keyword_injective heq)
  cases r with
  | logic op' children next =>
    have hkeyword : op.keyword ≠ op'.keyword := hkeyword
    simp [documentMembers, hnext, hend, hkeyword]
  | compare c next =>
    have hkeyword : op.keyword ≠ c.op.keyword := hkeyword
    simp [documentMembers, Comparison.members, hnext, hend, hvariable, hkeyword]

/-- What is found about the transition of a rule is what is written for it. -/
theorem lookup_transition {r : Rule} {key : String} (h : key = "Next" ∨ key = "End") :
    r.documentMembers.lookup key = r.next.members.lookup key := by
  obtain ⟨hnext, hend, -⟩ := r.operator.keyword_ne
  have hkeyword : key ≠ r.operator.keyword := by
    rcases h with rfl | rfl
    · exact hnext.symm
    · exact hend.symm
  have hvariable : key ≠ "Variable" := by
    rcases h with rfl | rfl <;> decide
  cases r with
  | logic op children next =>
    have hkeyword : key ≠ op.keyword := hkeyword
    simp [documentMembers, hkeyword, Rule.next]
  | compare c next =>
    have hkeyword : key ≠ c.op.keyword := hkeyword
    simp [documentMembers, Comparison.members, hkeyword, hvariable, Rule.next]

end Rule

end StatesLanguage
