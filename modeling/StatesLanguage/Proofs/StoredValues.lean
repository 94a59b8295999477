import StatesLanguage.Proofs.Atomicity
import StatesLanguage.Proofs.CallHistories
import StatesLanguage.Proofs.RuleTrees

/-!
# What rules and states store themselves

A node of a tree of rules stores a transition, a path and a literal; a state stores its comment,
its fields and a few values more, by its kind. For both there is a list of what can be stored
(`RuleSetting`, `Setting`), a function that looks it up, and one that says what an edit sets.

What an edit does to a model that nothing else is said about is the point here: that a setting
is changed is one line of the edit, that all others are not is the rest of it.
`Rule.value_apply` says both of the nodes of a tree and `State.changes_of_apply` of a state, in
one form: what is stored afterwards is what the edit sets, or else what was stored before.
-/

namespace StatesLanguage

/-! ### Reading a list after an edit -/

section Items

variable {α β : Type} {value put : α → Option β}

/-- What is read of an item of which no other is, after it has been edited. -/
theorem bind_getElem?_editAt {f : α → Except Error α} {i : Nat} {xs ys : List α}
    (h : editAt f i xs = .ok ys)
    (hf : ∀ x ∈ xs, ∀ y, f x = .ok y → value y = (put x).or (value x)) (j : Nat) :
    ys[j]?.bind value = (if i = j then xs[j]?.bind put else none).or (xs[j]?.bind value) := by
  cases hi : xs[i]? with
  | none =>
    rw [editAt_of_getElem?_eq_none f hi] at h
    obtain rfl := Except.ok.inj h
    split
    · next heq =>
      subst heq
      rw [hi]
      rfl
    · exact (Option.none_or).symm
  | some x =>
    rw [editAt_of_getElem? f hi] at h
    obtain ⟨y, hy, rfl⟩ := map_eq_ok.mp h
    obtain ⟨hlt, -⟩ := List.getElem?_eq_some_iff.mp hi
    rw [List.getElem?_set]
    split
    · next heq =>
      subst heq
      rw [hi]
      simpa [hlt] using hf x (List.mem_of_getElem? hi) y hy
    · exact (Option.none_or).symm

/-- What is read of the items after one has been appended. -/
theorem bind_getElem?_concat (value : α → Option β) (xs : List α) (x : α) (j : Nat) :
    (xs ++ [x])[j]?.bind value =
      (if j = xs.length then value x else none).or (xs[j]?.bind value) := by
  rcases Nat.lt_trichotomy j xs.length with hlt | rfl | hgt
  · rw [List.getElem?_append_left hlt, if_neg (Nat.ne_of_lt hlt), Option.none_or]
  · simp
  · have hj : (xs ++ [x])[j]? = none := by simp; omega
    have hj' : xs[j]? = none := by simp; omega
    rw [hj, hj', if_neg (Nat.ne_of_gt hgt)]
    rfl

end Items

/-! ### Rules -/

/-- What a node of a tree of rules stores. -/
inductive RuleSetting where
  /-- Where control goes. -/
  | transition
  /-- The part of the input that a comparison looks at. -/
  | input
  /-- The literal of a comparison. -/
  | literal

namespace Rule

/-- What the root stores. -/
def stored : RuleSetting → Rule → Option Value
  | .transition, r => r.next.transition.map .transition
  | .input, .compare c _ => c.input.map fun path => .text path.text
  | .literal, .compare c _ => c.literal.map .json
  | _, .logic _ _ _ => none

/-- What an edit of the root stores. -/
def sets : RuleSetting → RuleEdit → Rule → Option Value
  | .transition, .setTarget target, _ => some (.transition (.next target))
  | .transition, .setTerminal, _ => some (.transition .terminal)
  | .input, .setVariable text, .compare _ _ => some (.text text)
  | .literal, .setLiteral v, .compare _ _ => some (.json v)
  | _, _, _ => none

/-- What the node at an address stores. -/
def value (x : RuleSetting) (address : List Nat) (r : Rule) : Option Value :=
  (r.node? address).bind (stored x)

/-- What an edit of one node stores at the node of an address. -/
def puts (x : RuleSetting) (address : List Nat) (e : RuleEdit) (edited : List Nat) (r : Rule) :
    Option Value :=
  if edited = address then (r.node? address).bind (sets x e) else none

theorem value_cons (x : RuleSetting) (i : Nat) (address : List Nat) (r : Rule) :
    r.value x (i :: address) = r.children[i]?.bind (value x address) := by
  rw [value, node?, Option.bind_assoc]
  rfl

/-- Nothing is stored anywhere in a new rule. -/
theorem value_new (x : RuleSetting) (address : List Nat) (mode : TransitionMode) (op : Operator) :
    (new mode op).value x address = none := by
  cases address with
  | nil => cases op <;> cases x <;> rfl
  | cons i address => rw [value_cons]; cases op <;> rfl

theorem stored_applyHere {e : RuleEdit} {r t : Rule} (h : r.applyHere e = .ok t)
    (x : RuleSetting) : t.stored x = (sets x e r).or (r.stored x) := by
  cases e with
  | setTarget target =>
    obtain ⟨next, hnext, rfl⟩ := map_eq_ok.mp h
    obtain rfl := TransitionField.eq_of_setTarget hnext
    cases r <;> cases x <;> rfl
  | setTerminal =>
    obtain ⟨next, hnext, rfl⟩ := map_eq_ok.mp h
    obtain rfl := TransitionField.eq_of_setTerminal hnext
    cases r <;> cases x <;> rfl
  | setVariable text =>
    cases r with
    | logic op children next =>
      obtain rfl := Except.ok.inj h
      cases x <;> rfl
    | compare c next =>
      obtain ⟨d, hd, rfl⟩ := map_eq_ok.mp h
      obtain ⟨path, hpath, rfl⟩ := map_eq_ok.mp hd
      obtain rfl := (Path.ofString_eq_ok _ _).mp hpath
      cases x <;> rfl
  | setLiteral v =>
    cases r with
    | logic op children next =>
      obtain rfl := Except.ok.inj h
      cases x <;> rfl
    | compare c next =>
      obtain ⟨d, hd, rfl⟩ := map_eq_ok.mp h
      obtain ⟨-, hinput, hliteral⟩ := Comparison.setLiteral_eq_ok.mp hd
      cases x with
      | transition => rfl
      | input => exact congrArg (Option.map fun path => Value.text path.text) hinput
      | literal => exact congrArg (Option.map Value.json) hliteral
  | add op =>
    cases r <;> obtain rfl := Except.ok.inj h <;> cases x <;> rfl

theorem puts_cons (x : RuleSetting) (i j : Nat) (address edited : List Nat) (e : RuleEdit)
    (r : Rule) : r.puts x (i :: address) e (j :: edited) =
      if j = i then r.children[i]?.bind (puts x address e edited) else none := by
  have hputs : puts x address e edited =
      fun r => if edited = address then (r.node? address).bind (sets x e) else none := rfl
  rw [hputs, puts, node?]
  by_cases hij : j = i <;> by_cases haddress : edited = address <;>
    simp [hij, haddress, Option.bind_assoc]

/-- An edit of the root appends a new child at most. -/
theorem value_child_applyHere {e : RuleEdit} {r t : Rule} (h : r.applyHere e = .ok t)
    (x : RuleSetting) (i : Nat) (address : List Nat) :
    t.children[i]?.bind (value x address) = r.children[i]?.bind (value x address) := by
  cases e with
  | setTarget target | setTerminal =>
    obtain ⟨next, -, rfl⟩ := map_eq_ok.mp h
    cases r <;> rfl
  | setVariable text | setLiteral v =>
    cases r with
    | logic op children next =>
      obtain rfl := Except.ok.inj h
      rfl
    | compare c next =>
      obtain ⟨d, -, rfl⟩ := map_eq_ok.mp h
      rfl
  | add op =>
    cases r with
    | compare c next =>
      obtain rfl := Except.ok.inj h
      rfl
    | logic op' children next =>
      obtain rfl := Except.ok.inj h
      change (children ++ [new .locked op])[i]?.bind _ = children[i]?.bind _
      rw [bind_getElem?_concat, value_new, ite_self, Option.none_or]

/-- **An edit of a node stores what it sets there, and changes nothing else**: by induction on
the address of the node. -/
theorem value_apply {e : RuleEdit} {edited : List Nat} {r t : Rule}
    (h : r.apply e edited = .ok t) (x : RuleSetting) (address : List Nat) :
    t.value x address = (r.puts x address e edited).or (r.value x address) := by
  induction edited generalizing r t address with
  | nil =>
    cases address with
    | nil => exact stored_applyHere h x
    | cons i address =>
      rw [value_cons, value_cons, puts, if_neg (List.cons_ne_nil i address).symm, Option.none_or]
      exact value_child_applyHere h x i address
  | cons j edited ih =>
    cases r with
    | compare c next =>
      -- there are no nodes below, to edit or to look at
      obtain rfl := Except.ok.inj h
      have hputs : puts x address e (j :: edited) (compare c next) = none := by
        rw [puts]
        split
        · next heq => subst heq; rfl
        · rfl
      rw [hputs, Option.none_or]
    | logic op children next =>
      obtain ⟨children', hchildren, rfl⟩ := map_eq_ok.mp h
      cases address with
      | nil =>
        rw [puts, if_neg (List.cons_ne_nil j edited), Option.none_or]
        cases x <;> rfl
      | cons i address =>
        rw [value_cons, value_cons, puts_cons]
        exact bind_getElem?_editAt hchildren (fun _ _ _ hy => ih hy address) i

end Rule

/-! ### States -/

/-- What a state stores, apart from its rules and branches. -/
inductive Setting where
  /-- The comment. -/
  | comment
  /-- Where control goes. -/
  | transition
  /-- The part of the input that is used. -/
  | input
  /-- The part of the output that is passed on. -/
  | output
  /-- What becomes of the result. -/
  | resultPath
  /-- The fixed result. -/
  | result
  /-- The identifier of the work. -/
  | resource
  /-- How long a task may run. -/
  | timeout
  /-- How long a task may be silent. -/
  | heartbeat
  /-- The retry policy at a position. -/
  | retrier (i : Nat)
  /-- The error handler at a position. -/
  | catcher (i : Nat)
  /-- The delay. -/
  | seconds
  /-- The name of the error. -/
  | error
  /-- The description of the error. -/
  | cause
  /-- The state that control goes on to if no rule matches. -/
  | fallback

/-- The kinds of states that store something. -/
def Setting.kinds : Setting → List StateKind
  | .comment => StateKind.all
  | .transition => [.pass, .task, .wait, .parallel]
  | .input | .output | .resultPath => [.pass, .task, .parallel]
  | .result => [.pass, .task]
  | .resource | .timeout | .heartbeat | .retrier _ | .catcher _ => [.task]
  | .seconds => [.wait]
  | .error | .cause => [.fail]
  | .fallback => [.choice]

/-- What is said of a result. -/
def ResultPath.stored : ResultPath → Option Value
  | .unset => none
  | .discarded => some .discarded
  | .placed path => some (.text path.text)

/-- The retry policies, for the kind of states that has some. -/
def Body.retriers {σ : Type} : Body σ → List Retrier
  | .task b => b.retriers
  | _ => []

namespace State

/-- What a state stores. -/
def stored : Setting → State → Option Value
  | .comment, s => s.comment.map .text
  | .transition, s => s.next?.bind fun f => f.transition.map .transition
  | .input, s => (Body.pathsPart.get? s.body).bind fun p => p.input.map fun path => .text path.text
  | .output, s => (Body.pathsPart.get? s.body).bind fun p =>
    p.output.map fun path => .text path.text
  | .resultPath, s => (Body.resultPathPart.get? s.body).bind ResultPath.stored
  | .result, s => s.body.result?.map .json
  | .resource, s => (Body.taskPart.get? s.body).bind fun b => b.resource.map .text
  | .timeout, s => (Body.taskPart.get? s.body).bind fun b => b.timeout.map fun t => .seconds t.count
  | .heartbeat, s => (Body.taskPart.get? s.body).bind fun b =>
    b.heartbeat.map fun t => .seconds t.count
  | .retrier i, s => s.body.retriers[i]?.bind fun r => some (.retrier r)
  | .catcher i, s => s.body.catchers[i]?.bind fun c => some (.catcher c)
  | .seconds, s => (Body.waitPart.get? s.body).bind fun b => b.seconds.map fun t => .seconds t.count
  | .error, s => (Body.failPart.get? s.body).bind fun b => b.error.map .text
  | .cause, s => (Body.failPart.get? s.body).bind fun b => b.cause.map .text
  | .fallback, s => (Body.choicePart.get? s.body).bind fun b => b.fallback.map .text

/-- What an edit sets, in states that store it. -/
def argument : Setting → StateEdit → State → Option Value
  | .comment, .setComment text, _ => some (.text text)
  | .transition, .setTarget target, _ => some (.transition (.next target))
  | .transition, .setTerminal, _ => some (.transition .terminal)
  | .input, .setInput text, _ => some (.text text)
  | .output, .setOutput text, _ => some (.text text)
  | .resultPath, .placeResult text, _ => some (.text text)
  | .resultPath, .discardResult, _ => some .discarded
  | .result, .setResult v, _ => some (.json v)
  | .resource, .setResource text, _ => some (.text text)
  | .timeout, .setTimeout n, _ => some (.seconds n)
  | .heartbeat, .setHeartbeat n, _ => some (.seconds n)
  | .retrier i, .addRetrier r, s => if i = s.body.retriers.length then some (.retrier r) else none
  | .catcher i, .addCatcher c, s => if i = s.body.catchers.length then some (.catcher c) else none
  | .seconds, .setSeconds n, _ => some (.seconds n)
  | .error, .setError text, _ => some (.text text)
  | .cause, .setCause text, _ => some (.text text)
  | .fallback, .setFallback target, _ => some (.text target)
  | _, _, _ => none

/-- What an edit of a state sets. -/
def sets (x : Setting) (e : StateEdit) (s : State) : Option Value :=
  if x.kinds.contains s.kind then argument x e s else none

end State

/-- An edit that leaves the rules of a choice alone. -/
def StateEdit.keepsRules : StateEdit → Bool
  | .addRule _ | .editRule _ _ _ => false
  | _ => true

/-- An edit that leaves the branches of a parallel state alone. -/
def StateEdit.keepsBranches : StateEdit → Bool
  | .addBranch | .pushBranch _ | .editBranch _ _ => false
  | _ => true

/-- What an edit changes, apart from rules and branches. -/
structure State.Changes (e : StateEdit) (s t : State) : Prop where
  /-- Something is stored, and the rest stays as it is. -/
  stored : ∀ x, t.stored x = (sets x e s).or (s.stored x)
  /-- The rules are only changed by edits of rules. -/
  rules : e.keepsRules = true → t.body.rules = s.body.rules
  /-- The branches are only changed by edits of branches. -/
  branches : e.keepsBranches = true → t.branches = s.branches

namespace State

/-- An edit changes nothing in a state where it sets nothing. -/
theorem Changes.same {e : StateEdit} {s : State} (h : ∀ x, sets x e s = none) : Changes e s s :=
  ⟨fun x => by rw [h x, Option.none_or], fun _ => rfl, fun _ => rfl⟩

/-- A wait stores its delay. -/
theorem changes_setSeconds {n : UInt32} {s t : State} (h : State.apply (.setSeconds n) s = .ok t) :
    Changes (.setSeconds n) s t := by
  obtain ⟨name, comment, body⟩ := s
  obtain ⟨body', hbody, rfl⟩ := map_eq_ok.mp h
  cases body with
  | wait b =>
    obtain ⟨d, hd, rfl⟩ := map_eq_ok.mp hbody
    obtain ⟨seconds, hseconds, rfl⟩ := map_eq_ok.mp hd
    obtain rfl := (Seconds.ofCount_eq_ok _ _ _).mp hseconds
    refine ⟨fun x => ?_, fun _ => rfl, fun _ => rfl⟩
    cases x <;> rfl
  | _ =>
    obtain rfl := Except.ok.inj hbody
    exact .same fun x => by cases x <;> rfl

/-- Editing a rule changes the rules of a choice. -/
theorem changes_editRule {root : Nat} {address : List Nat} {e : RuleEdit} {s t : State}
    (h : State.apply (.editRule root address e) s = .ok t) :
    Changes (.editRule root address e) s t := by
  obtain ⟨name, comment, body⟩ := s
  obtain ⟨body', hbody, rfl⟩ := map_eq_ok.mp h
  cases body with
  | choice b =>
    obtain ⟨d, hd, rfl⟩ := map_eq_ok.mp hbody
    obtain ⟨rules, -, rfl⟩ := map_eq_ok.mp hd
    refine ⟨fun x => ?_, fun hkeeps => absurd hkeeps Bool.false_ne_true, fun _ => rfl⟩
    cases x <;> rfl
  | _ =>
    obtain rfl := Except.ok.inj hbody
    exact .same fun x => by cases x <;> rfl

/-- Editing a branch changes the branches of a parallel state. -/
theorem changes_editBranch {i : Nat} {e : CollectionEdit} {s t : State}
    (h : State.apply (.editBranch i e) s = .ok t) : Changes (.editBranch i e) s t := by
  obtain ⟨name, comment, body⟩ := s
  rw [apply] at h
  obtain ⟨body', hbody, rfl⟩ := map_eq_ok.mp h
  cases body with
  | parallel b =>
    obtain ⟨branches, -, rfl⟩ := map_eq_ok.mp hbody
    refine ⟨fun x => ?_, fun _ => rfl, fun hkeeps => absurd hkeeps Bool.false_ne_true⟩
    cases x <;> rfl
  | _ =>
    obtain rfl := Except.ok.inj hbody
    exact .same fun x => by cases x <;> rfl

/-- **What an edit changes**, if it succeeds: it stores its argument, in states of the kinds that
store it, and leaves everything else as it is. -/
theorem changes_of_apply {e : StateEdit} {s t : State} (h : State.apply e s = .ok t) :
    Changes e s t := by
  obtain ⟨name, comment, body⟩ := s
  cases e with
  | setComment text =>
    obtain rfl := Except.ok.inj h
    refine ⟨fun x => ?_, fun _ => rfl, fun _ => rfl⟩
    cases body <;> cases x <;> rfl
  | setTarget target =>
    obtain rfl := eq_mapNext_of_editNext (fun _ _ => TransitionField.eq_of_setTarget) h
    cases body <;> refine ⟨fun x => ?_, fun _ => rfl, fun _ => rfl⟩ <;> cases x <;> rfl
  | setTerminal =>
    obtain rfl := eq_mapNext_of_editNext (fun _ _ => TransitionField.eq_of_setTerminal) h
    cases body <;> refine ⟨fun x => ?_, fun _ => rfl, fun _ => rfl⟩ <;> cases x <;> rfl
  | setInput text | setOutput text =>
    obtain ⟨body', hbody, rfl⟩ := map_eq_ok.mp h
    cases body with
    | pass b | task b | parallel b =>
      obtain ⟨paths, hpaths, rfl⟩ := map_eq_ok.mp hbody
      obtain ⟨path, hpath, rfl⟩ := map_eq_ok.mp hpaths
      obtain rfl := (Path.ofString_eq_ok _ _).mp hpath
      refine ⟨fun x => ?_, fun _ => rfl, fun _ => rfl⟩
      cases x <;> rfl
    | wait b | succeed | fail b | choice b =>
      obtain rfl := Except.ok.inj hbody
      exact .same fun x => by cases x <;> rfl
  | placeResult text =>
    rw [apply] at h
    obtain ⟨body', hbody, rfl⟩ := map_eq_ok.mp h
    obtain ⟨r, hr, rfl⟩ := map_eq_ok.mp hbody
    obtain ⟨path, hpath, rfl⟩ := map_eq_ok.mp hr
    obtain rfl := (Path.ofString_eq_ok _ _).mp hpath
    cases body <;> refine ⟨fun x => ?_, fun _ => rfl, fun _ => rfl⟩ <;> cases x <;> rfl
  | discardResult | setResult v | setResource text | setError text | setCause text
  | setFallback target =>
    cases body <;> obtain rfl := Except.ok.inj h <;>
      refine ⟨fun x => ?_, fun _ => rfl, fun _ => rfl⟩ <;> cases x <;> rfl
  | setTimeout n | setHeartbeat n =>
    obtain ⟨body', hbody, rfl⟩ := map_eq_ok.mp h
    cases body with
    | task b =>
      obtain ⟨d, hd, rfl⟩ := map_eq_ok.mp hbody
      obtain ⟨seconds, hseconds, rfl⟩ := map_eq_ok.mp hd
      obtain rfl := (Seconds.ofCount_eq_ok _ _ _).mp hseconds
      refine ⟨fun x => ?_, fun _ => rfl, fun _ => rfl⟩
      cases x <;> rfl
    | _ =>
      obtain rfl := Except.ok.inj hbody
      exact .same fun x => by cases x <;> rfl
  | addRetrier r =>
    cases body <;> obtain rfl := Except.ok.inj h <;>
      refine ⟨fun x => ?_, fun _ => rfl, fun _ => rfl⟩ <;> cases x
    case task.retrier b i => exact bind_getElem?_concat _ b.retriers r i
    all_goals rfl
  | addCatcher c =>
    cases body <;> obtain rfl := Except.ok.inj h <;>
      refine ⟨fun x => ?_, fun _ => rfl, fun _ => rfl⟩ <;> cases x
    case task.catcher b i => exact bind_getElem?_concat _ b.catchers c i
    all_goals rfl
  | addRule op =>
    cases body <;> obtain rfl := Except.ok.inj h <;>
      refine ⟨fun x => ?_, fun hkeeps => absurd hkeeps Bool.false_ne_true, fun _ => rfl⟩ <;>
      cases x <;> rfl
  | addBranch | pushBranch c =>
    cases body <;> obtain rfl := Except.ok.inj h <;>
      refine ⟨fun x => ?_, fun _ => rfl, fun hkeeps => absurd hkeeps Bool.false_ne_true⟩ <;>
      cases x <;> rfl
  | setSeconds n => exact changes_setSeconds h
  | editRule root address f => exact changes_editRule h
  | editBranch i f => exact changes_editBranch h

theorem stored_new (kind : StateKind) (name : String) (x : Setting) :
    (State.new kind name).stored x = none := by
  cases kind <;> cases x <;> rfl

/-- Changing the transition of a state changes nothing else of what it stores. -/
theorem stored_mapNext {g : TransitionField → TransitionField} (s : State) {x : Setting}
    (hx : x ≠ .transition) : (s.mapNext g).stored x = s.stored x := by
  obtain ⟨name, comment, body⟩ := s
  cases x with
  | transition => exact absurd rfl hx
  | _ => cases body <;> rfl

end State

/-! ### Declared fields -/

/-- The kind of field that stores something, if it is one. -/
def Setting.field? : Setting → Option FieldKind
  | .transition => some .next
  | .input | .output => some .paths
  | .resultPath => some .resultPath
  | .result => some .result
  | .retrier _ => some .retriers
  | .catcher _ => some .catchers
  | _ => none

namespace State

/-- A state has a declared field. -/
def Declares (s : State) : Field → Prop
  | .next n => s.next? = some n
  | .paths p => Body.pathsPart.get? s.body = some p
  | .result r => s.body.result? = r
  | .resultPath r => Body.resultPathPart.get? s.body = some r
  | .retriers rs => s.body.retriers = rs
  | .catchers cs => s.body.catchers = cs

theorem declares_of_mem_fields {s : State} {f : Field} (hf : f ∈ s.fields) : s.Declares f := by
  obtain ⟨name, comment, body⟩ := s
  cases body with
  | pass b =>
    simp only [fields, Body.fields, List.mem_cons, List.not_mem_nil, or_false] at hf
    rcases hf with rfl | rfl | rfl | rfl <;> rfl
  | task b =>
    simp only [fields, Body.fields, List.mem_cons, List.not_mem_nil, or_false] at hf
    rcases hf with rfl | rfl | rfl | rfl | rfl | rfl <;> rfl
  | wait b =>
    obtain rfl := List.mem_singleton.mp hf
    rfl
  | parallel b =>
    simp only [fields, Body.fields, List.mem_cons, List.not_mem_nil, or_false] at hf
    rcases hf with rfl | rfl | rfl <;> rfl
  | succeed | fail b | choice b => exact absurd hf List.not_mem_nil

/-- A list has items if one is found at some position. -/
theorem isEmpty_eq_false_iff_exists {α : Type} (xs : List α) (g : α → Value) :
    xs.isEmpty = false ↔ ∃ i : Nat, (xs[i]?.bind fun x => some (g x)).isSome = true := by
  cases xs with
  | nil => simp
  | cons x xs => exact iff_of_true rfl ⟨0, rfl⟩

/-- **A declared field is configured if the state stores something in it.** -/
theorem isConfigured_iff {s : State} {f : Field} (hf : f ∈ s.fields) :
    f.isConfigured = true ↔ ∃ x, x.field? = some f.kind ∧ (s.stored x).isSome = true := by
  have hdeclares := declares_of_mem_fields hf
  cases f with
  | next n =>
    have hx : ∀ x : Setting, x.field? = some .next ↔ x = .transition := by
      intro x; cases x <;> simp [Setting.field?]
    have hnext : s.next? = some n := hdeclares
    simp [Field.kind, hx, stored, hnext, Field.isConfigured, TransitionField.isConfigured]
  | paths p =>
    have hx : ∀ x : Setting, x.field? = some .paths ↔ x = .input ∨ x = .output := by
      intro x; cases x <;> simp [Setting.field?]
    have hpaths : Body.pathsPart.get? s.body = some p := hdeclares
    simp [Field.kind, hx, stored, hpaths, Field.isConfigured, DataPaths.isConfigured,
      or_and_right, exists_or]
  | result r =>
    have hx : ∀ x : Setting, x.field? = some .result ↔ x = .result := by
      intro x; cases x <;> simp [Setting.field?]
    have hresult : s.body.result? = r := hdeclares
    simp [Field.kind, hx, stored, hresult, Field.isConfigured]
  | resultPath r =>
    have hx : ∀ x : Setting, x.field? = some .resultPath ↔ x = .resultPath := by
      intro x; cases x <;> simp [Setting.field?]
    have hresultPath : Body.resultPathPart.get? s.body = some r := hdeclares
    cases r <;> simp [Field.kind, hx, stored, hresultPath, Field.isConfigured,
      ResultPath.isConfigured, ResultPath.stored]
  | retriers rs =>
    have hx : ∀ x : Setting, x.field? = some .retriers ↔ ∃ i, .retrier i = x := by
      intro x; cases x <;> simp [Setting.field?]
    obtain rfl : s.body.retriers = rs := hdeclares
    simp only [Field.kind, hx, exists_exists_eq_and, Field.isConfigured, Bool.not_eq_true']
    exact isEmpty_eq_false_iff_exists _ Value.retrier
  | catchers cs =>
    have hx : ∀ x : Setting, x.field? = some .catchers ↔ ∃ i, .catcher i = x := by
      intro x; cases x <;> simp [Setting.field?]
    obtain rfl : s.body.catchers = cs := hdeclares
    simp only [Field.kind, hx, exists_exists_eq_and, Field.isConfigured, Bool.not_eq_true']
    exact isEmpty_eq_false_iff_exists _ Value.catcher

end State

end StatesLanguage
