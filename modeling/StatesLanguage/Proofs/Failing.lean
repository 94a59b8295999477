import StatesLanguage.Proofs.Reading

/-!
# Which errors are met where

Reading a document and checking a model report errors of the same type, but never the same
errors. A document that cannot be read is malformed at some place, or holds a value that no
model can hold there; `Error.OfReading` lists the ways. What a check finds is something that
is not set, too few or too many parts, or values that do not go together;
`Error.OfChecking` lists these.

Reading builds the model with the calls that everyone else builds it with, and these may also
fail because a name is taken. It takes a document without a key twice to rule that out: the
states of a collection are then added under distinct names, those of a branch to a collection
of its own.

A reader is a chain of steps, and it fails only with errors with which one of the steps may
fail. `FailsWithin` has a lemma for each way of chaining, so that each reader takes one short
proof. The main result, `Error.ofReading_ofChecking_apart`, puts the readers and the check
side by side.
-/

namespace StatesLanguage

open Json (Members)

/-! ### The two classes of errors -/

/-- An error with which reading may fail. -/
inductive Error.OfReading : Error → Prop
  /-- A departure from the shape of a document. -/
  | malformedDocument (cause : Malformation) : OfReading (.malformedDocument cause)
  /-- A type that is not registered. -/
  | unknownStateType (type : String) : OfReading (.unknownStateType type)
  /-- A reserved name of no predefined error. -/
  | unsupportedErrorCode (name : String) : OfReading (.unsupportedErrorCode name)
  /-- A text that is no path expression. -/
  | invalidPath (text : String) : OfReading (.invalidPath text)
  /-- A literal of the wrong class. -/
  | unsupportedOperand (op : Comparator) (found : Json) : OfReading (.unsupportedOperand op found)
  /-- A transition that its place forbids. -/
  | lockedField (field : String) : OfReading (.lockedField field)
  /-- Zero seconds. -/
  | notPositive (key : String) : OfReading (.invalidValue (.notPositive key))
  /-- A backoff rate below one. -/
  | rateBelowOne (rate : Json.Number) : OfReading (.invalidValue (.rateBelowOne rate))

/-- An error that a check may list. -/
inductive Error.OfChecking : Error → Prop
  /-- Something that is required is not set. -/
  | configurationMissing (key : String) : OfChecking (.configurationMissing key)
  /-- Too few or too many rules. -/
  | arity (op : LogicOp) (found : Nat) : OfChecking (.arity op found)
  /-- Nothing where something is required. -/
  | emptyCollection (what : String) : OfChecking (.emptyCollection what)
  /-- A heartbeat interval that is not smaller than the timeout. -/
  | heartbeat (silence limit : UInt32) : OfChecking (.invalidValue (.heartbeat silence limit))
  /-- A start that is no state. -/
  | unknownStart (name : String) : OfChecking (.invalidValue (.unknownStart name))

theorem Error.OfReading.not_ofChecking {e : Error} (h : e.OfReading) : ¬e.OfChecking := by
  rintro ⟨⟩ <;> nomatch h

theorem Error.not_ofReading_duplicateName (name : String) :
    ¬(Error.duplicateName name).OfReading := by
  rintro ⟨⟩

/-! ### Chains of steps -/

/-- A computation fails, if at all, with an error of a class. -/
def FailsWithin {ε α : Type} (P : ε → Prop) (x : Except ε α) : Prop :=
  ∀ e, x = .error e → P e

namespace FailsWithin

variable {ε α β : Type} {P : ε → Prop}

theorem ok (a : α) : FailsWithin P (.ok a : Except ε α) := by
  intro e h
  nomatch h

theorem of_eq_ok {x : Except ε α} {a : α} (h : x = .ok a) : FailsWithin P x :=
  h ▸ ok a

theorem error {e : ε} (h : P e) : FailsWithin P (.error e : Except ε α) := by
  intro e' he
  rwa [← Except.error.inj he]

/-- A chain fails where the first step does, or the second one after it. -/
theorem bind {x : Except ε α} {f : α → Except ε β} (hx : FailsWithin P x)
    (hf : ∀ a, x = .ok a → FailsWithin P (f a)) : FailsWithin P (x >>= f) := by
  cases h : x with
  | error e => exact error (hx e h)
  | ok a => exact hf a h

theorem map {x : Except ε α} (f : α → β) (hx : FailsWithin P x) : FailsWithin P (x.map f) := by
  cases h : x with
  | error e => exact error (hx e h)
  | ok a => exact ok (f a)

/-- A walk over a list fails where one of its steps does. -/
theorem mapM {f : α → Except ε β} {xs : List α} (h : ∀ x ∈ xs, FailsWithin P (f x)) :
    FailsWithin P (xs.mapM f) := by
  induction xs with
  | nil => exact ok []
  | cons x xs ih =>
    rw [List.forall_mem_cons] at h
    rw [List.mapM_cons]
    exact h.1.bind fun y _ => (ih h.2).bind fun ys _ => ok (y :: ys)

/-- A check fails with its own error. -/
theorem dite {c : Prop} [Decidable c] {f : c → α} {e : ε} (he : P e) :
    FailsWithin P (if h : c then Except.ok (f h) else .error e) := by
  split
  · exact ok _
  · exact error he

end FailsWithin

open Error

/-! ### Values under keys -/

theorem Json.malformed_failsWithin {α : Type} (cause : Malformation) :
    FailsWithin OfReading (Json.malformed cause : Except Error α) :=
  .error (.malformedDocument cause)

theorem Json.asObject_failsWithin (what : String) (v : Json) :
    FailsWithin OfReading (v.asObject what) := by
  cases v with
  | object ms => exact .ok ms
  | _ => exact malformed_failsWithin _

theorem Json.lookupString_failsWithin (key : String) (ms : Members) :
    FailsWithin OfReading (lookupString key ms) := by
  rw [lookupString]
  split
  · exact .ok _
  · exact .ok _
  · exact malformed_failsWithin _

theorem Json.lookupCount_failsWithin (key : String) (ms : Members) :
    FailsWithin OfReading (lookupCount key ms) := by
  rw [lookupCount]
  split
  · exact .ok _
  · split
    · exact .ok _
    · exact malformed_failsWithin _
  · exact malformed_failsWithin _

theorem Json.lookupNumber_failsWithin (key : String) (ms : Members) :
    FailsWithin OfReading (lookupNumber key ms) := by
  rw [lookupNumber]
  split
  · exact .ok _
  · exact .ok _
  · exact malformed_failsWithin _

theorem Json.lookupArray_failsWithin (key : String) (ms : Members) :
    FailsWithin OfReading (lookupArray key ms) := by
  rw [lookupArray]
  split
  · exact .ok _
  · exact .ok _
  · exact malformed_failsWithin _

theorem Json.asStrings_failsWithin (key : String) (items : List Json) :
    FailsWithin OfReading (asStrings key items) := by
  induction items with
  | nil => exact .ok []
  | cons v vs ih =>
    cases v with
    | string s => exact ih.map _
    | _ => exact malformed_failsWithin _

theorem Json.lookupStrings_failsWithin (key : String) (ms : Members) :
    FailsWithin OfReading (lookupStrings key ms) :=
  (lookupArray_failsWithin key ms).bind fun items _ => asStrings_failsWithin key items

/-- A checked reading fails as the reading or the check does. -/
theorem FailsWithin.checked {α ρ : Type} {P : Error → Prop} {x : Except Error (Option ρ)}
    {check : ρ → Except Error α} {f : Option ρ → Except Error (Option α)}
    (hx : FailsWithin P x) (hcheck : ∀ r, FailsWithin P (check r)) (hnone : f none = .ok none)
    (hsome : ∀ r, f (some r) = (check r).map some) : FailsWithin P (x >>= f) := by
  refine hx.bind fun r _ => ?_
  cases r with
  | none => exact .of_eq_ok hnone
  | some r =>
    rw [hsome]
    exact (hcheck r).map _

theorem Path.ofString_failsWithin (text : String) : FailsWithin OfReading (ofString text) :=
  .dite (.invalidPath text)

theorem Path.lookup_failsWithin (key : String) (ms : Members) :
    FailsWithin OfReading (Path.lookup key ms) :=
  (Json.lookupString_failsWithin key ms).checked ofString_failsWithin rfl fun _ => rfl

theorem Seconds.lookup_failsWithin (key : String) (ms : Members) :
    FailsWithin OfReading (Seconds.lookup key ms) :=
  (Json.lookupCount_failsWithin key ms).checked (fun _ => .dite (.notPositive key)) rfl
    fun _ => rfl

theorem BackoffRate.lookup_failsWithin (key : String) (ms : Members) :
    FailsWithin OfReading (BackoffRate.lookup key ms) :=
  (Json.lookupNumber_failsWithin key ms).checked (fun n => .dite (.rateBelowOne n)) rfl
    fun _ => rfl

/-! ### Fields -/

theorem DataPaths.ofMembers_failsWithin (ms : Members) :
    FailsWithin OfReading (DataPaths.ofMembers ms) :=
  (Path.lookup_failsWithin "InputPath" ms).bind fun _ _ =>
    (Path.lookup_failsWithin "OutputPath" ms).bind fun _ _ => .ok _

theorem ResultPath.ofMembers_failsWithin (ms : Members) :
    FailsWithin OfReading (ResultPath.ofMembers ms) := by
  rw [ResultPath.ofMembers]
  split
  · exact .ok _
  · exact .ok _
  · exact (Path.ofString_failsWithin _).map _
  · exact Json.malformed_failsWithin _

theorem TransitionField.setTarget_failsWithin (target : String) (f : TransitionField) :
    FailsWithin OfReading (f.setTarget target) := by
  rw [setTarget]
  split
  · exact .error (.lockedField "Next")
  · exact .ok _

theorem TransitionField.setTerminal_failsWithin (f : TransitionField) :
    FailsWithin OfReading f.setTerminal := by
  rw [setTerminal]
  split
  · exact .error (.lockedField "Next")
  · exact .error (.lockedField "End")
  · exact .ok _

theorem TransitionField.ofMembers_failsWithin (mode : TransitionMode) (ms : Members) :
    FailsWithin OfReading (ofMembers mode ms) := by
  rw [ofMembers]
  split
  · exact setTerminal_failsWithin _
  · refine (Json.lookupString_failsWithin "Next" ms).bind fun target _ => ?_
    cases target with
    | some target => exact setTarget_failsWithin target _
    | none => exact .ok _

theorem ErrorCode.ofString_failsWithin (s : String) : FailsWithin OfReading (ofString s) := by
  rw [ofString]
  split
  · exact .ok _
  · exact .error (.unsupportedErrorCode s)

theorem ErrorName.ofString_failsWithin (s : String) : FailsWithin OfReading (ofString s) := by
  rw [ofString]
  split
  · exact (ErrorCode.ofString_failsWithin s).map _
  · exact .ok _

theorem Retrier.ofJson_failsWithin (v : Json) : FailsWithin OfReading (Retrier.ofJson v) := by
  refine (Json.asObject_failsWithin _ v).bind fun ms _ => ?_
  refine (Json.lookupStrings_failsWithin _ ms).bind fun names _ => ?_
  refine (FailsWithin.mapM fun s _ => ErrorCode.ofString_failsWithin s).bind fun errors _ => ?_
  refine (Seconds.lookup_failsWithin _ ms).bind fun interval _ => ?_
  refine (BackoffRate.lookup_failsWithin _ ms).bind fun backoff _ => ?_
  exact (Json.lookupCount_failsWithin _ ms).bind fun attempts _ => .ok _

theorem Catcher.ofJson_failsWithin (v : Json) : FailsWithin OfReading (Catcher.ofJson v) := by
  refine (Json.asObject_failsWithin _ v).bind fun ms _ => ?_
  refine (Json.lookupStrings_failsWithin _ ms).bind fun names _ => ?_
  refine (FailsWithin.mapM fun s _ => ErrorName.ofString_failsWithin s).bind fun errors _ => ?_
  refine (TransitionField.ofMembers_failsWithin _ ms).bind fun next _ => ?_
  exact (ResultPath.ofMembers_failsWithin ms).bind fun resultPath _ => .ok _

theorem Retrier.listOfMembers_failsWithin (ms : Members) :
    FailsWithin OfReading (Retrier.listOfMembers ms) :=
  (Json.lookupArray_failsWithin "Retry" ms).bind fun _ _ =>
    .mapM fun v _ => Retrier.ofJson_failsWithin v

theorem Catcher.listOfMembers_failsWithin (ms : Members) :
    FailsWithin OfReading (Catcher.listOfMembers ms) :=
  (Json.lookupArray_failsWithin "Catch" ms).bind fun _ _ =>
    .mapM fun v _ => Catcher.ofJson_failsWithin v

/-! ### Rules -/

theorem Comparison.ofMembers_failsWithin (op : Comparator) (ms : Members) :
    FailsWithin OfReading (Comparison.ofMembers op ms) := by
  refine (Path.lookup_failsWithin "Variable" ms).bind fun input _ => ?_
  split
  · exact .dite (.unsupportedOperand _ _)
  · exact .ok _

/-- The operand of a logic operator fails as one of the rules in it does. -/
theorem Rule.operandOfJson_failsWithin (op : LogicOp) (v : Json)
    (hself : FailsWithin OfReading (Rule.ofJson .locked v))
    (hitems : ∀ items, v = .array items →
      ∀ w ∈ items, FailsWithin OfReading (Rule.ofJson .locked w)) :
    FailsWithin OfReading (Rule.operandOfJson op v) := by
  unfold Rule.operandOfJson
  split
  · split
    · exact hself.bind fun r _ => .ok [r]
    · exact Json.malformed_failsWithin _
  · cases v with
    | array items =>
      have hwalk := FailsWithin.mapM (hitems items rfl)
      rw [← Rule.listOfJson_eq_mapM] at hwalk
      exact hwalk
    | _ => exact Json.malformed_failsWithin _

/-- By induction on the size of the value: the rules of an operand stand one level down, or
two in an array. -/
theorem Rule.ofJson_failsWithin (v : Json) :
    ∀ mode, FailsWithin OfReading (Rule.ofJson mode v) := by
  induction v using Json.sizeInduction with
  | step v ih =>
  intro mode
  cases v with
  | object ms =>
    rw [Rule.ofJson]
    split
    · exact Json.malformed_failsWithin _
    · next op _ =>
      refine FailsWithin.bind ?_ fun children _ =>
        (TransitionField.ofMembers_failsWithin mode ms).bind fun next _ => .ok _
      rw [Rule.operandOfMembers_eq_lookup]
      split
      · exact .ok []
      · next w hw =>
        have hsize := sizeOf_lt_of_lookup hw
        refine Rule.operandOfJson_failsWithin op w (ih w hsize .locked) fun items hitems x hx => ?_
        subst hitems
        exact ih x (Nat.lt_trans (sizeOf_lt_of_mem_items hx) hsize) .locked
    · next op _ =>
      exact (Comparison.ofMembers_failsWithin op ms).bind fun c _ =>
        (TransitionField.ofMembers_failsWithin mode ms).bind fun next _ => .ok _
  | _ => exact Json.malformed_failsWithin _

/-! ### Bodies -/

theorem Body.ofMembers_failsWithin (ms : Members) (kind : StateKind) :
    FailsWithin OfReading (Body.ofMembers ms kind) := by
  cases kind with
  | task =>
    refine (Json.lookupString_failsWithin _ ms).bind fun resource _ => ?_
    refine (Seconds.lookup_failsWithin _ ms).bind fun timeout _ => ?_
    exact (Seconds.lookup_failsWithin _ ms).bind fun heartbeat _ => .ok _
  | wait => exact (Seconds.lookup_failsWithin _ ms).bind fun seconds _ => .ok _
  | fail =>
    refine (Json.lookupString_failsWithin _ ms).bind fun error _ => ?_
    exact (Json.lookupString_failsWithin _ ms).bind fun cause _ => .ok _
  | choice =>
    refine (Json.lookupArray_failsWithin _ ms).bind fun items _ => ?_
    rw [Rule.listOfJson_eq_mapM]
    refine (FailsWithin.mapM fun v _ => Rule.ofJson_failsWithin v _).bind fun rules _ => ?_
    exact (Json.lookupString_failsWithin _ ms).bind fun fallback _ => .ok _
  | pass | succeed | parallel => exact .ok _

theorem Body.readFields_failsWithin (ms : Members) (b : Body State) :
    FailsWithin OfReading (b.readFields ms) := by
  have hnext := TransitionField.ofMembers_failsWithin .ordinary ms
  have hpaths := DataPaths.ofMembers_failsWithin ms
  have hresult := ResultPath.ofMembers_failsWithin ms
  cases b with
  | pass b => exact hpaths.bind fun _ _ => hresult.bind fun _ _ => hnext.bind fun _ _ => .ok _
  | task b =>
    exact hpaths.bind fun _ _ => hresult.bind fun _ _ => hnext.bind fun _ _ =>
      (Retrier.listOfMembers_failsWithin ms).bind fun _ _ =>
        (Catcher.listOfMembers_failsWithin ms).bind fun _ _ => .ok _
  | wait b => exact hnext.bind fun _ _ => .ok _
  | parallel b => exact hnext.bind fun _ _ => hpaths.bind fun _ _ => hresult.bind fun _ _ => .ok _
  | succeed | fail b | choice b => exact .ok _

/-! ### States and collections -/

theorem StateKind.typeOfMembers_failsWithin (state : String) (ms : Members) :
    FailsWithin OfReading (typeOfMembers state ms) := by
  refine (Json.lookupString_failsWithin "Type" ms).bind fun type _ => ?_
  cases type with
  | some type => exact .ok type
  | none => exact Json.malformed_failsWithin _

theorem Registry.resolve_failsWithin (r : Registry) (type : String) :
    FailsWithin OfReading (r.resolve type) := by
  rw [resolve]
  split
  · exact .ok _
  · exact .error (.unknownStateType type)

theorem Collection.readStart_failsWithin (ms : Members) (c : Collection State) :
    FailsWithin OfReading (c.readStart ms) := by
  refine (Json.lookupString_failsWithin "StartAt" ms).bind fun start _ => ?_
  cases start <;> exact .ok _

/-- **No name is taken** when members with distinct keys are added to a collection that holds
none of them, so adding them fails only as reading one of them does. -/
theorem Collection.addMembers_failsWithin {r : Registry} {ms : Members} {c : Collection State}
    (hlink : c.autolink = false) (hdistinct : (c.names ++ ms.map Prod.fst).Nodup)
    (hstates : ∀ m ∈ ms, FailsWithin OfReading (State.ofJson r m.1 m.2).outcome) :
    FailsWithin OfReading (Collection.addMembers r ms c).outcome := by
  induction ms generalizing c with
  | nil => exact .ok c
  | cons m ms ih =>
    obtain ⟨name, v⟩ := m
    rw [List.forall_mem_cons] at hstates
    rw [Collection.addMembers, Logged.outcome_bind]
    refine hstates.1.bind fun s hs => ?_
    -- the state has been read under the key, which is the name that is looked for
    obtain ⟨_, _, hshown⟩ := State.ofJson_eq_ok.mp hs
    obtain rfl := hshown.name
    rw [List.map_cons, List.append_cons] at hdistinct
    have hnew : s.name ∉ c.names := by
      have := hdistinct.of_append_left
      rw [← List.concat_eq_append, List.nodup_concat] at this
      exact this.1
    have hadd := (Collection.add_eq_ok hlink).mpr ⟨hnew, rfl⟩
    rw [Logged.outcome_bind, Logged.outcome_liftM, hadd]
    refine ih rfl ?_ hstates.2
    rw [Collection.names_concat]
    exact hdistinct

/-- Reading a collection fails as one of its states does. -/
theorem Collection.ofMembers_failsWithin {r : Registry} {ms : Members}
    (hms : (Json.object ms).HasDistinctKeys)
    (hstates : ∀ members, ms.lookup "States" = some (.object members) → ∀ m ∈ members,
      FailsWithin OfReading (State.ofJson r m.1 m.2).outcome) :
    FailsWithin OfReading (Collection.ofMembers r ms).outcome := by
  rw [Collection.ofMembers, Logged.outcome_bind]
  refine FailsWithin.bind ?_ fun c _ => Collection.readStart_failsWithin ms c
  rw [Collection.statesOfMembers_eq_lookup]
  split
  · exact .ok _
  · next v hv =>
    cases v with
    | object members =>
      exact Collection.addMembers_failsWithin rfl (hms.lookup hv).nodup (hstates members hv)
    | _ => exact .error (.malformedDocument _)

/-- Reading branches fails as one of them does. -/
theorem Collection.listOfJson_failsWithin {r : Registry} {vs : List Json}
    (h : ∀ ms, Json.object ms ∈ vs → FailsWithin OfReading (Collection.ofMembers r ms).outcome) :
    FailsWithin OfReading (Collection.listOfJson r vs).outcome := by
  induction vs with
  | nil => exact .ok []
  | cons v vs ih =>
    have ih := ih fun ms hms => h ms (List.mem_cons_of_mem v hms)
    cases v with
    | object ms =>
      rw [Collection.listOfJson_cons, Logged.outcome_bind]
      refine (h ms List.mem_cons_self).bind fun c _ => ?_
      rw [Logged.outcome_bind]
      exact ih.bind fun cs _ => .ok (c :: cs)
    | _ => exact .error (.malformedDocument _)

/-- **A state of a document without a key twice** is read, or reading it fails with an error
of reading: by induction on the size of the value. -/
theorem State.ofJson_failsWithin {r : Registry} {v : Json} (hv : v.HasDistinctKeys) :
    ∀ name, FailsWithin OfReading (State.ofJson r name v).outcome := by
  induction v using Json.sizeInduction with
  | step v ih =>
  intro name
  cases v with
  | object ms =>
    -- a branch is an item of the array under its key, and its states are smaller still
    have hbranches : FailsWithin OfReading (Collection.branchesOfMembers r ms).outcome := by
      rw [Collection.branchesOfMembers_eq_lookup]
      split
      · exact .ok []
      · next w hw =>
        cases w with
        | array items =>
          refine Collection.listOfJson_failsWithin fun branch hbranch => ?_
          have hdistinct := (hv.lookup hw).items _ hbranch
          refine Collection.ofMembers_failsWithin hdistinct fun members hmembers m hm => ?_
          refine ih m.2 ?_ ((hdistinct.lookup hmembers).members m hm) m.1
          calc sizeOf m.2 < sizeOf (Json.object members) := sizeOf_lt_of_mem_members hm
            _ < sizeOf (Json.object branch) := sizeOf_lt_of_lookup hmembers
            _ < sizeOf (Json.array items) := sizeOf_lt_of_mem_items hbranch
            _ < sizeOf (Json.object ms) := sizeOf_lt_of_lookup hw
        | _ => exact .error (.malformedDocument _)
    have hcomment := Json.lookupString_failsWithin "Comment" ms
    have hfields := Body.readFields_failsWithin ms
    rw [State.ofJson]
    simp only [Logged.outcome_bind, Logged.outcome_liftM, Logged.outcome_event]
    refine (StateKind.typeOfMembers_failsWithin name ms).bind fun type _ => ?_
    refine (Registry.resolve_failsWithin r type).bind fun kind _ => ?_
    refine (FailsWithin.ok ()).bind fun _ _ => ?_
    split
    · simp only [Logged.outcome_bind, Logged.outcome_liftM]
      refine hbranches.bind fun cs _ => (FailsWithin.ok _).bind fun own _ => ?_
      exact hcomment.bind fun comment _ => (hfields own).bind fun body _ => .ok _
    · simp only [Logged.outcome_bind, Logged.outcome_liftM]
      refine (Body.ofMembers_failsWithin ms kind).bind fun own _ => ?_
      exact hcomment.bind fun comment _ => (hfields own).bind fun body _ => .ok _
  | _ => exact .error (.malformedDocument _)

/-! ### Machines -/

theorem Machine.readVersion_failsWithin (ms : Members) :
    FailsWithin OfReading (Machine.readVersion ms).outcome := by
  rw [Machine.readVersion, Logged.outcome_bind]
  refine (Json.lookupString_failsWithin _ ms).bind fun version _ => ?_
  cases version with
  | none => exact .ok _
  | some found =>
    dsimp only
    split <;> exact .ok _

theorem Machine.ofDocument_failsWithin {r : Registry} {document : Json}
    (h : document.HasDistinctKeys) :
    FailsWithin OfReading (Machine.ofDocument r document).outcome := by
  rw [Machine.ofDocument]
  simp only [Logged.outcome_bind, Logged.outcome_liftM]
  refine (Json.asObject_failsWithin _ document).bind fun ms hms => ?_
  obtain rfl := Json.asObject_eq_ok.mp hms
  have hcollection : FailsWithin OfReading (Collection.ofMembers r ms).outcome :=
    Collection.ofMembers_failsWithin h fun members hmembers m hm =>
      State.ofJson_failsWithin ((h.lookup hmembers).members m hm) m.1
  rw [Collection.ofMembers, Logged.outcome_bind] at hcollection
  rw [← bind_assoc]
  refine hcollection.bind fun c _ => ?_
  refine (Json.lookupString_failsWithin _ ms).bind fun comment _ => ?_
  refine (Seconds.lookup_failsWithin _ ms).bind fun timeout _ => ?_
  exact (Machine.readVersion_failsWithin ms).bind fun version _ => .ok _

/-! ### Problems -/

section Problems

variable {e : Error}

theorem TransitionField.ofChecking_of_problem? {f : TransitionField} (h : f.problem? = some e) :
    e.OfChecking := by
  rw [problem?] at h
  split at h
  · rw [← Option.some.inj h]
    exact .configurationMissing "Next"
  · nomatch h

theorem Retrier.ofChecking_of_problem? {r : Retrier} (h : r.problem? = some e) :
    e.OfChecking := by
  rw [problem?] at h
  split at h
  · rw [← Option.some.inj h]
    exact .configurationMissing "ErrorEquals"
  · nomatch h

theorem Catcher.ofChecking_of_problem? {c : Catcher} (h : c.problem? = some e) :
    e.OfChecking := by
  rw [problem?] at h
  split at h
  · rw [← Option.some.inj h]
    exact .configurationMissing "ErrorEquals"
  · exact TransitionField.ofChecking_of_problem? h

theorem Field.ofChecking_of_problem? {f : Field} (h : f.problem? = some e) : e.OfChecking := by
  cases f with
  | next f => exact TransitionField.ofChecking_of_problem? h
  | retriers rs =>
    obtain ⟨r, -, hr⟩ := List.exists_of_findSome?_eq_some h
    exact Retrier.ofChecking_of_problem? hr
  | catchers cs =>
    obtain ⟨c, -, hc⟩ := List.exists_of_findSome?_eq_some h
    exact Catcher.ofChecking_of_problem? hc
  | paths p | result r | resultPath r => nomatch h

theorem Comparison.ofChecking_of_mem_problems {c : Comparison} (h : e ∈ c.problems) :
    e.OfChecking := by
  have hone {b : Bool} {key : String}
      (he : e ∈ if b = true then [Error.configurationMissing key] else []) : e.OfChecking := by
    split at he
    · rw [List.mem_singleton.mp he]
      exact .configurationMissing key
    · nomatch he
  exact (List.mem_append.mp h).elim hone hone

theorem Rule.ofChecking_of_arityProblem? {r : Rule} (h : r.arityProblem? = some e) :
    e.OfChecking := by
  cases r with
  | logic op children next =>
    rw [arityProblem?] at h
    split at h
    · nomatch h
    · rw [← Option.some.inj h]
      exact .arity op children.length
  | compare c next => nomatch h

theorem Rule.ofChecking_of_mem_problems {r : Rule} (h : e ∈ r.problems) : e.OfChecking := by
  induction r with
  | logic op children next ih =>
    rw [problems, listProblems_eq_flatMap, List.mem_append, List.mem_append, Option.mem_toList,
      Option.mem_toList, List.mem_flatMap] at h
    obtain (h | h) | ⟨r, hr, h⟩ := h
    · exact ofChecking_of_arityProblem? h
    · exact TransitionField.ofChecking_of_problem? h
    · exact ih r hr h
  | compare c next =>
    rw [problems, List.mem_append, Option.mem_toList] at h
    exact h.elim Comparison.ofChecking_of_mem_problems TransitionField.ofChecking_of_problem?

namespace Body

variable {σ : Type}

theorem ofChecking_of_mem_missing {α : Type} {key : String} {a : Option α}
    (h : e ∈ missing key a) : e.OfChecking := by
  cases a with
  | some _ => nomatch h
  | none =>
    rw [List.mem_singleton.mp h]
    exact .configurationMissing key

theorem ofChecking_of_mem_fieldProblems {b : Body σ} (h : e ∈ b.fieldProblems) :
    e.OfChecking := by
  obtain ⟨f, -, hf⟩ := List.mem_filterMap.mp h
  exact Field.ofChecking_of_problem? hf

theorem ofChecking_of_mem_heartbeatProblems {timeout heartbeat : Option Seconds}
    (h : e ∈ heartbeatProblems timeout heartbeat) : e.OfChecking := by
  rw [heartbeatProblems.eq_def] at h
  split at h
  · split at h
    · rw [List.mem_singleton.mp h]
      exact .heartbeat _ _
    · nomatch h
  · nomatch h

theorem ofChecking_of_mem_ownProblems {b : Body σ} (h : e ∈ b.ownProblems) : e.OfChecking := by
  cases b with
  | pass b => exact ofChecking_of_mem_fieldProblems h
  | task b =>
    rw [ownProblems, List.mem_append, List.mem_append] at h
    obtain (h | h) | h := h
    · exact ofChecking_of_mem_fieldProblems h
    · exact ofChecking_of_mem_missing h
    · exact ofChecking_of_mem_heartbeatProblems h
  | wait b =>
    rw [ownProblems, List.mem_append] at h
    exact h.elim ofChecking_of_mem_fieldProblems ofChecking_of_mem_missing
  | succeed => nomatch h
  | fail b =>
    rw [ownProblems, List.mem_append] at h
    exact h.elim ofChecking_of_mem_missing ofChecking_of_mem_missing
  | choice b =>
    rw [ownProblems] at h
    split at h
    · rw [List.mem_singleton.mp h]
      exact .emptyCollection "Choices"
    · rw [Rule.listProblems_eq_flatMap] at h
      obtain ⟨r, -, hr⟩ := List.mem_flatMap.mp h
      exact Rule.ofChecking_of_mem_problems hr
  | parallel b =>
    rw [ownProblems, List.mem_append] at h
    obtain h | h := h
    · exact ofChecking_of_mem_fieldProblems h
    · split at h
      · rw [List.mem_singleton.mp h]
        exact .emptyCollection "Branches"
      · nomatch h

end Body

theorem Collection.ofChecking_of_mem_startProblems {σ : Type} {c : Collection σ}
    (h : e ∈ c.startProblems) : e.OfChecking := by
  rw [startProblems] at h
  split at h
  · rw [List.mem_singleton.mp h]
    exact .emptyCollection "States"
  · split at h
    · rw [List.mem_singleton.mp h]
      exact .configurationMissing "StartAt"
    · split at h
      · nomatch h
      · rw [List.mem_singleton.mp h]
        exact .unknownStart _

/-- A collection lists such errors, if its states do. -/
theorem Collection.ofChecking_of_mem_problems {c : Collection State}
    (hstates : ∀ s ∈ c.states, e ∈ s.problems → e.OfChecking) (h : e ∈ c.problems) :
    e.OfChecking := by
  rw [Collection.problems, State.listProblems_eq_flatMap] at h
  obtain h | h := List.mem_append.mp h
  · obtain ⟨s, hs, h⟩ := List.mem_flatMap.mp h
    exact hstates s hs h
  · exact ofChecking_of_mem_startProblems h

/-- **A state lists errors of checking only**: by induction on its branches. -/
theorem State.ofChecking_of_mem_problems {s : State} (h : e ∈ s.problems) : e.OfChecking := by
  induction s using State.branchInduction with
  | step s ih =>
    rw [State.problems_eq] at h
    obtain h | h := List.mem_append.mp h
    · exact Body.ofChecking_of_mem_ownProblems h
    · obtain ⟨c, hc, h⟩ := List.mem_flatMap.mp h
      exact Collection.ofChecking_of_mem_problems (ih c hc) h

end Problems

/-! ### Both together -/

/-- **Reading and checking report different errors.** With any registry, reading a document
without a key twice fails, if at all, with an error of reading; the check of any machine, by
whatever calls it came about, lists errors of checking; no error is of both classes, and that a
name is taken is never reported by either. -/
theorem Error.ofReading_ofChecking_apart :
    (∀ (r : Registry) (document : Json), document.HasDistinctKeys →
        ∀ e, (Machine.ofDocument r document).outcome = .error e → e.OfReading) ∧
      (∀ m : Machine, ∀ e ∈ m.problems, e.OfChecking) ∧
      (∀ e : Error, e.OfReading → ¬e.OfChecking) ∧
      ∀ name, ¬(Error.duplicateName name).OfReading ∧ ¬(Error.duplicateName name).OfChecking := by
  refine ⟨fun r document h => Machine.ofDocument_failsWithin h, fun m e he => ?_,
    fun e he => he.not_ofChecking, fun name => ⟨not_ofReading_duplicateName name, nofun⟩⟩
  exact Collection.ofChecking_of_mem_problems
    (fun s _ => State.ofChecking_of_mem_problems) he

/-- A document with a branch that holds states of the names of the states around it, and that
lets a rule inside a rule go on. -/
def Error.lockedRule : Json :=
  .object [("StartAt", .string "A"), ("States", .object [
    ("A", .object [("Type", .string "Pass"), ("Next", .string "B")]),
    ("B", .object [("Type", .string "Parallel"), ("End", .bool true), ("Branches", .array [
      .object [("StartAt", .string "A"), ("States", .object [
        ("A", .object [("Type", .string "Succeed")]),
        ("B", .object [("Type", .string "Choice"), ("Choices", .array [
          .object [("Not", .object [("Variable", .string "$.x"), ("BooleanEquals", .bool true),
            ("Next", .string "A")]), ("Next", .string "A")]])])])]])])])]

theorem Error.ofReading_lockedRule : lockedRule.HasDistinctKeys ∧
    (Machine.ofDocument .standard lockedRule).outcome = .error (.lockedField "Next") ∧
      (Error.lockedField "Next").OfReading := by
  have hdistinct : lockedRule.HasDistinctKeys := (Json.distinctKeys_iff _).mp (by decide)
  have hfails : (Machine.ofDocument .standard lockedRule).outcome =
      .error (.lockedField "Next") := rfl
  exact ⟨hdistinct, hfails, ofReading_ofChecking_apart.1 .standard _ hdistinct _ hfails⟩

end StatesLanguage
