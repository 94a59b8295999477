import StatesLanguage.Proofs.Chaining

/-!
# Edits in place

An edit is a function to a new model, or to an error and no model at all. A builder works on
one model that is there all along: it checks, changes one thing after another, and where a
check fails it stops, and whatever it has changed by then stays changed. So that nothing *is*
changed by then is a property of the order of its steps, and not of its type.

Here the edits are written down as such programs, in `EStateM`, which end in some model
whether they fail or not. A part of a model is changed by a program for the part
(`Part.perform`), and what a failing program has done to the part is done to the model. The
one thing to show is that each program is atomic: it ends in what the edit returns, or else
fails with the error of the edit and leaves the model as it was (`atomic`). For most programs
this follows from the way they are put together (`Part.run_perform`).

This file has the programs for the fields of states, also for those that are kept in more than
one place (`DataPaths.Memory`, `ResultPath.Memory`), and for rules. States, collections and
machines follow in `StatesLanguage.Proofs.Atomicity`.
-/

namespace StatesLanguage

/-! ### Programs and parts -/

section Parts

variable {σ τ α : Type}

/-- What an atomic change leaves of a model: the new one, or the old one where it fails. -/
def atomic (s : σ) : Except Error σ → EStateM.Result Error σ Unit
  | .ok t => .ok () t
  | .error e => .error e s

/-- Stores what comes of a check, if it succeeds. -/
def assign (checked : Except Error α) (store : α → σ → σ) : EStateM Error σ Unit := do
  let a ← MonadExcept.ofExcept checked
  modify (store a)

theorem run_assign (checked : Except Error α) (store : α → σ → σ) (s : σ) :
    (assign checked store).run s = atomic s (checked.map fun a => store a s) := by
  cases checked <;> rfl

/-- Where there is no item, nothing is edited. -/
theorem editAt_of_getElem?_eq_none (f : α → Except Error α) {i : Nat} {xs : List α}
    (h : xs[i]? = none) : editAt f i xs = .ok xs := by
  induction xs generalizing i with
  | nil => rw [editAt]
  | cons x xs ih =>
    cases i with
    | zero => exact absurd h (Option.some_ne_none x)
    | succ i =>
      rw [editAt, ih h]
      rfl

/-- A part that some models have, and others do not. -/
structure Part (σ τ : Type) where
  /-- The part, where there is one. -/
  get? : σ → Option τ
  /-- The model with another one in its place. -/
  put : τ → σ → σ
  /-- Putting back what is there changes nothing. -/
  put_of_get? : ∀ {s : σ} {t : τ}, get? s = some t → put t s = s

namespace Part

/-- Edits the part. Where there is none, nothing changes. -/
def edit (P : Part σ τ) (f : τ → Except Error τ) (s : σ) : Except Error σ :=
  match P.get? s with
  | some t => (f t).map fun u => P.put u s
  | none => .ok s

/-- Runs a program on the part, and keeps what it leaves of the part, also where it fails. -/
def perform (P : Part σ τ) (x : EStateM Error τ Unit) : EStateM Error σ Unit := fun s =>
  match P.get? s with
  | some t =>
    match x.run t with
    | .ok _ u => .ok () (P.put u s)
    | .error e u => .error e (P.put u s)
  | none => .ok () s

/-- **A program that is atomic on a part is atomic on the model.** -/
theorem run_perform (P : Part σ τ) {x : EStateM Error τ Unit} {f : τ → Except Error τ} {s : σ}
    (h : ∀ t, P.get? s = some t → x.run t = atomic t (f t)) :
    (P.perform x).run s = atomic s (P.edit f s) := by
  rw [EStateM.run, perform, edit]
  cases hget : P.get? s with
  | none => rfl
  | some t =>
    dsimp only
    rw [h t hget]
    cases f t with
    | ok u => rfl
    | error e => exact congrArg (EStateM.Result.error e) (P.put_of_get? hget)

/-- The item at a position of a list. -/
def item (i : Nat) : Part (List α) α where
  get? xs := xs[i]?
  put x xs := xs.set i x
  put_of_get? h := by
    obtain ⟨hi, rfl⟩ := List.getElem?_eq_some_iff.mp h
    exact List.set_getElem_self hi

theorem edit_item (i : Nat) (f : α → Except Error α) (xs : List α) :
    (item i).edit f xs = editAt f i xs := by
  rw [edit]
  cases hi : (item i).get? xs with
  | some x => exact (editAt_of_getElem? f hi).symm
  | none =>
    exact (editAt_of_getElem?_eq_none f hi).symm

end Part

end Parts

/-! ### Fields -/

namespace TransitionField

/-- Fails on a locked field. -/
def assertUnlocked : EStateM Error TransitionField Unit := do
  if (← get).mode = .locked then
    throw (.lockedField "Next")

/-- Lets control go on to a state. -/
def targetInPlace (target : String) : EStateM Error TransitionField Unit := do
  assertUnlocked
  modify fun f => { f with transition := some (.next target) }

/-- Ends the execution. -/
def terminalInPlace : EStateM Error TransitionField Unit := do
  assertUnlocked
  if (← get).mode = .withoutEnd then
    throw (.lockedField "End")
  modify fun f => { f with transition := some .terminal }

/-- Sets a transition that is not set: to the name of the following state, or to the end. -/
def linkInPlace (following : Option String) : EStateM Error TransitionField Unit := do
  if (← get).isConfigured then
    return
  match following with
  | some target => targetInPlace target
  | none => terminalInPlace

theorem run_targetInPlace (target : String) (f : TransitionField) :
    (targetInPlace target).run f = atomic f (f.setTarget target) := by
  obtain ⟨_ | _ | _, transition⟩ := f <;> rfl

theorem run_terminalInPlace (f : TransitionField) :
    terminalInPlace.run f = atomic f f.setTerminal := by
  obtain ⟨_ | _ | _, transition⟩ := f <;> rfl

theorem run_linkInPlace (following : Option State) (f : TransitionField) :
    (linkInPlace (following.map State.name)).run f = atomic f (if f.isConfigured then .ok f else
      match following with
      | some t => f.setTarget t.name
      | none => f.setTerminal) := by
  obtain ⟨_ | _ | _, _ | transition⟩ := f <;> cases following <;> rfl

end TransitionField

/-- A change of the projections of input and output. -/
inductive PathsEdit where
  /-- Sets the projection of the input. -/
  | setInput (text : String)
  /-- Sets the projection of the output. -/
  | setOutput (text : String)

namespace DataPaths

/-- Edits the projections. -/
def apply : PathsEdit → DataPaths → Except Error DataPaths
  | .setInput text, p => p.setInput text
  | .setOutput text, p => p.setOutput text

/-- How projections are kept: as texts, and beside them a flag for whether one is set. -/
structure Memory where
  /-- The projection of the input. -/
  input : Option String
  /-- The projection of the output. -/
  output : Option String
  /-- Whether one of them is set. -/
  configured : Bool

/-- The projections as they are kept. -/
def memory (p : DataPaths) : Memory :=
  ⟨p.input.map Path.text, p.output.map Path.text, p.isConfigured⟩

/-- Changes the projections, and then the flag. -/
def Memory.perform : PathsEdit → EStateM Error Memory Unit
  | .setInput text => do
    let path ← MonadExcept.ofExcept (Path.ofString text)
    modify fun m => { m with input := some path.text }
    modify fun m => { m with configured := true }
  | .setOutput text => do
    let path ← MonadExcept.ofExcept (Path.ofString text)
    modify fun m => { m with output := some path.text }
    modify fun m => { m with configured := true }

/-- **The flag stays in step with the projections.** -/
theorem run_memory (e : PathsEdit) (p : DataPaths) :
    (Memory.perform e).run p.memory = atomic p.memory ((p.apply e).map memory) := by
  obtain ⟨input, output⟩ := p
  cases e with
  | setInput text =>
    rw [apply, setInput]
    cases h : Path.ofString text <;> simp only [Memory.perform, h] <;> rfl
  | setOutput text =>
    rw [apply, setOutput]
    cases h : Path.ofString text <;> simp only [Memory.perform, h]
    · rfl
    · cases input <;> rfl

end DataPaths

/-- A change of what becomes of a result. -/
inductive ResultPathEdit where
  /-- Places the result. -/
  | place (text : String)
  /-- Discards the result. -/
  | discard

namespace ResultPath

/-- Edits what becomes of a result. -/
def apply : ResultPathEdit → ResultPath → Except Error ResultPath
  | .place text, _ => place text
  | .discard, _ => .ok .discarded

/-- How it is kept what becomes of a result: as a text, and beside it a mark for whether the
result is discarded. -/
structure Memory where
  /-- Where the result is placed. -/
  path : Option String
  /-- Whether it is discarded. -/
  discard : Bool

/-- What becomes of a result, as it is kept. -/
def memory : ResultPath → Memory
  | .unset => ⟨none, false⟩
  | .discarded => ⟨none, true⟩
  | .placed path => ⟨some path.text, false⟩

/-- Changes the text, and then the mark. -/
def Memory.perform : ResultPathEdit → EStateM Error Memory Unit
  | .place text => do
    let path ← MonadExcept.ofExcept (Path.ofString text)
    modify fun m => { m with path := some path.text }
    modify fun m => { m with discard := false }
  | .discard => do
    modify fun m => { m with path := none }
    modify fun m => { m with discard := true }

/-- **There is never both a text and the mark.** -/
theorem run_memory (e : ResultPathEdit) (r : ResultPath) :
    (Memory.perform e).run r.memory = atomic r.memory ((r.apply e).map memory) := by
  cases e with
  | place text =>
    rw [apply, place]
    cases h : Path.ofString text <;> simp only [Memory.perform, h] <;> rfl
  | discard => rfl

end ResultPath

namespace Comparison

/-- What a comparator accepts is accepted as its literal. -/
theorem accepts_of_eq_some {c : Comparison} {v : Json} (h : c.op.operand.accepts v = true) :
    ∀ u, some v = some u → c.op.operand.accepts u = true := by
  rintro u ⟨⟩
  exact h

/-- Sets the literal, which the comparator has to accept. -/
def literalInPlace (v : Json) : EStateM Error Comparison Unit := do
  let c ← get
  if h : c.op.operand.accepts v = true then
    set { c with literal := some v, accepted := accepts_of_eq_some h }
  else
    throw (.unsupportedOperand c.op v)

theorem run_literalInPlace (v : Json) (c : Comparison) :
    (literalInPlace v).run c = atomic c (c.setLiteral v) := by
  rw [literalInPlace, setLiteral, EStateM.run_bind, EStateM.run_get]
  dsimp only
  split <;> rfl

end Comparison

/-! ### Rules -/

namespace Rule

/-- The transition of the root. -/
def nextPart : Part Rule TransitionField where
  get? r := some r.next
  put next r := r.withNext next
  put_of_get? {r _} h := by
    obtain rfl := Option.some.inj h
    cases r <;> rfl

/-- The comparison, if the root is one. -/
def comparisonPart : Part Rule Comparison where
  get?
    | .compare c _ => some c
    | .logic _ _ _ => none
  put c
    | .compare _ next => .compare c next
    | r => r
  put_of_get? {r _} h := by
    cases r with
    | logic op children next => cases h
    | compare c next =>
      obtain rfl := Option.some.inj h
      rfl

/-- The rules below the root, if it combines some. -/
def childrenPart : Part Rule (List Rule) where
  get?
    | .logic _ children _ => some children
    | .compare _ _ => none
  put children
    | .logic op _ next => .logic op children next
    | r => r
  put_of_get? {r _} h := by
    cases r with
    | compare c next => cases h
    | logic op children next =>
      obtain rfl := Option.some.inj h
      rfl

/-- Changes the root. -/
def performHere : RuleEdit → EStateM Error Rule Unit
  | .setTarget target => nextPart.perform (TransitionField.targetInPlace target)
  | .setTerminal => nextPart.perform TransitionField.terminalInPlace
  | .setVariable text => comparisonPart.perform <|
    assign (Path.ofString text) fun path c => { c with input := some path }
  | .setLiteral v => comparisonPart.perform (Comparison.literalInPlace v)
  | .add op => childrenPart.perform <| modify fun children => children ++ [.new .locked op]

/-- Changes the node at an address. -/
def perform (e : RuleEdit) : List Nat → EStateM Error Rule Unit
  | [] => performHere e
  | i :: address => childrenPart.perform ((Part.item i).perform (perform e address))

theorem run_performHere (e : RuleEdit) (r : Rule) :
    (performHere e).run r = atomic r (r.applyHere e) := by
  cases e with
  | setTarget target =>
    exact nextPart.run_perform fun f _ => TransitionField.run_targetInPlace target f
  | setTerminal => exact nextPart.run_perform fun f _ => TransitionField.run_terminalInPlace f
  | setVariable text =>
    refine (comparisonPart.run_perform fun c _ => run_assign _ _ c).trans ?_
    cases r <;> rfl
  | setLiteral v =>
    refine (comparisonPart.run_perform fun c _ => c.run_literalInPlace v).trans ?_
    cases r <;> rfl
  | add op =>
    refine (childrenPart.run_perform (f := fun children => .ok (children ++ [.new .locked op]))
      fun _ _ => rfl).trans ?_
    cases r <;> rfl

/-- **Edits of rules are atomic**: by induction on the address. -/
theorem run_perform (e : RuleEdit) (address : List Nat) (r : Rule) :
    (perform e address).run r = atomic r (r.apply e address) := by
  induction address generalizing r with
  | nil => exact run_performHere e r
  | cons i address ih =>
    have hitem : ∀ children, ((Part.item i).perform (perform e address)).run children =
        atomic children (editAt (apply e address) i children) := by
      intro children
      rw [← Part.edit_item]
      exact (Part.item i).run_perform fun child _ => ih child
    refine (childrenPart.run_perform fun children _ => hitem children).trans ?_
    cases r <;> rfl

end Rule

end StatesLanguage
