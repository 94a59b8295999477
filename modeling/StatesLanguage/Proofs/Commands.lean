import StatesLanguage.Command
import StatesLanguage.Proofs.Depth
import StatesLanguage.Proofs.FirstProblem
import StatesLanguage.Proofs.FixedPoint
import StatesLanguage.Proofs.Printing

/-!
# The commands, on all texts

Both commands begin with the machine in a text (`Command.machineOf`). Validating lists its
problems, so that it fails only where there is no machine. Formatting writes it, and writing
fails exactly with the first problem. `Command.format_agrees_validate` compares the two, for
any codec.

A text that has been formatted is what the codec prints of the document of a machine. A codec
that reads back what it prints (`Json.Codec.ReadsBack`) reads that document again, as it is not
nested more deeply than the one before, and the machine in it is the same. So formatting again,
in either layout, gives what formatting at once gives: `Command.format_format`.
-/

namespace StatesLanguage

section

variable {ε ε' α β : Type}

theorem mapError_eq_ok {f : ε → ε'} {x : Except ε α} {a : α} :
    x.mapError f = .ok a ↔ x = .ok a := by
  cases x <;> simp [Except.mapError]

theorem mapError_eq_error {f : ε → ε'} {x : Except ε α} {e : ε'} :
    x.mapError f = .error e ↔ ∃ d, x = .error d ∧ f d = e := by
  cases x <;> simp [Except.mapError]

end

/-! ### Reading back -/

/-- A codec reads back what it prints, and is asked to only for what it can have read itself:
values in which no object holds a key twice and whose brackets are not nested too deeply. -/
structure Json.Codec.ReadsBack (codec : Json.Codec) : Prop where
  /-- No object that is read holds a key twice. -/
  distinctKeys : ∀ {text : String} {v : Json}, codec.parse? text = some v → v.HasDistinctKeys
  /-- A text with too many brackets around one place is not read. -/
  depth : ∀ {text : String} {v : Json}, codec.parse? text = some v → v.depth ≤ Json.maxDepth
  /-- What is printed is read as the same value, with all members in their order. -/
  parse?_print : ∀ {v : Json}, v.HasDistinctKeys → v.depth ≤ Json.maxDepth →
    ∀ layout, codec.parse? (codec.print layout v) = some v

theorem Json.Codec.nearest_readsBack : Json.Codec.nearest.ReadsBack where
  distinctKeys := Json.hasDistinctKeys_of_parse?
  depth := Json.depth_of_parse?
  parse?_print := Json.parse?_print

namespace Command

variable {codec : Json.Codec}

/-! ### The machine in a text -/

/-- A text holds the machine of the document that it spells. -/
theorem machineOf_eq_ok {text : String} {m : Machine} :
    (machineOf text codec).outcome = .ok m ↔
      ∃ document, codec.parse? text = some document ∧
        (Machine.ofDocument .standard document).outcome = .ok m := by
  rw [machineOf]
  cases codec.parse? text with
  | none => simp
  | some document =>
    show (Machine.ofDocument .standard document).outcome.mapError Failure.invalid = .ok m ↔ _
    simp [mapError_eq_ok]

/-- A text that spells nothing, or no machine, holds none. -/
theorem machineOf_eq_error {text : String} {f : Failure} :
    (machineOf text codec).outcome = .error f ↔
      (codec.parse? text = none ∧ f = .notJson) ∨
        ∃ document e, codec.parse? text = some document ∧
          (Machine.ofDocument .standard document).outcome = .error e ∧ f = .invalid e := by
  rw [machineOf]
  cases codec.parse? text with
  | none => simp [eq_comm]
  | some document =>
    show (Machine.ofDocument .standard document).outcome.mapError Failure.invalid = .error f ↔ _
    rw [mapError_eq_error]
    simp [eq_comm (a := f)]

/-! ### Validating and formatting -/

theorem validate_outcome (codec : Json.Codec) (text : String) :
    (validate text codec).outcome = (machineOf text codec).outcome.map Machine.problems := by
  rw [validate, Logged.outcome_bind]
  cases (machineOf text codec).outcome <;> rfl

theorem validate_eq_ok {text : String} {es : List Error} :
    (validate text codec).outcome = .ok es ↔
      ∃ m, (machineOf text codec).outcome = .ok m ∧ m.problems = es := by
  rw [validate_outcome, map_eq_ok]

theorem validate_eq_error {text : String} {f : Failure} :
    (validate text codec).outcome = .error f ↔ (machineOf text codec).outcome = .error f := by
  rw [validate_outcome, map_eq_error]

theorem format_outcome (codec : Json.Codec) (layout : Json.Layout) (text : String) :
    (format layout text codec).outcome = (machineOf text codec).outcome >>= fun m =>
      (m.toDocument.outcome.mapError .invalid).map (codec.print layout) := by
  rw [format, Logged.outcome_bind]
  refine congrArg _ (funext fun m => ?_)
  rw [Logged.outcome_bind, Logged.mapError]
  cases m.toDocument.outcome <;> rfl

/-- What is formatted is the document of a machine without problems. -/
theorem format_eq_ok {layout : Json.Layout} {text t : String} :
    (format layout text codec).outcome = .ok t ↔
      ∃ m, (machineOf text codec).outcome = .ok m ∧ m.problems = [] ∧
        codec.print layout m.document = t := by
  rw [format_outcome, bind_eq_ok]
  refine exists_congr fun m => and_congr_right fun _ => ?_
  simp only [map_eq_ok, mapError_eq_ok, Machine.toDocument_eq_ok]
  constructor
  · rintro ⟨document, ⟨hproblems, rfl⟩, ht⟩
    exact ⟨hproblems, ht⟩
  · rintro ⟨hproblems, ht⟩
    exact ⟨_, ⟨hproblems, rfl⟩, ht⟩

/-- **The two commands agree on every text, in either layout**, however texts are read and
printed. A text is formatted exactly if validating it lists no problem. If some are listed,
formatting fails with the first of them, and in its words. If validating fails, the text is no
JSON document or its document is not read, and formatting fails in the same way. -/
theorem format_agrees_validate (codec : Json.Codec) (layout : Json.Layout) (text : String) :
    ((∃ t, (format layout text codec).outcome = .ok t) ↔ (validate text codec).outcome = .ok []) ∧
      (∀ e es, (validate text codec).outcome = .ok (e :: es) →
        (format layout text codec).outcome = .error (.invalid e) ∧
          (Failure.invalid e).message = e.message) ∧
      (∀ f, (validate text codec).outcome = .error f →
        (format layout text codec).outcome = .error f ∧
          ((codec.parse? text = none ∧ f = .notJson) ∨
            ∃ document e, codec.parse? text = some document ∧
              (Machine.ofDocument .standard document).outcome = .error e ∧ f = .invalid e)) := by
  refine ⟨?_, fun e es h => ⟨?_, rfl⟩, fun f h => ?_⟩
  · rw [validate_eq_ok]
    constructor
    · rintro ⟨t, ht⟩
      obtain ⟨m, hm, hproblems, -⟩ := format_eq_ok.mp ht
      exact ⟨m, hm, hproblems⟩
    · rintro ⟨m, hm, hproblems⟩
      exact ⟨_, format_eq_ok.mpr ⟨m, hm, hproblems, rfl⟩⟩
  · obtain ⟨m, hm, hproblems⟩ := validate_eq_ok.mp h
    rw [format_outcome, hm]
    show (m.toDocument.outcome.mapError Failure.invalid).map _ = _
    rw [Machine.toDocument_outcome_of_problems_eq_cons hproblems]
    rfl
  · have hf := validate_eq_error.mp h
    exact ⟨by rw [format_outcome, hf]; rfl, machineOf_eq_error.mp hf⟩

/-- A document with one state, of which it only says the type. -/
def oneState (type : String) : Json :=
  .object [("StartAt", .string "A"), ("States", .object [("A", .object [("Type", .string type)])])]

theorem parse?_oneState (type : String) (layout : Json.Layout) :
    Json.Codec.nearest.parse? ((oneState type).print layout) = some (oneState type) :=
  Json.parse?_print (v := oneState type) ((Json.distinctKeys_iff _).mp rfl)
    (show 3 ≤ Json.maxDepth by decide) layout

theorem format_agrees_validate_oneState :
    (∃ t, (format .pretty ((oneState "Succeed").print .compact)).outcome = .ok t) ∧
      (validate ((oneState "Wait").print .compact)).outcome =
        .ok [.configurationMissing "Next", .configurationMissing "Seconds"] ∧
      (format .pretty ((oneState "Wait").print .compact)).outcome =
        .error (.invalid (.configurationMissing "Next")) ∧
      (validate ((oneState "Map").print .compact)).outcome =
        .error (.invalid (.unknownStateType "Map")) ∧
      (format .pretty ((oneState "Map").print .compact)).outcome =
        .error (.invalid (.unknownStateType "Map")) ∧
      (validate "not json").outcome = .error .notJson ∧
      (format .pretty "not json").outcome = .error .notJson := by
  have hparse := fun type => parse?_oneState type .compact
  have hlisted : (validate ((oneState "Wait").print .compact)).outcome =
      .ok [.configurationMissing "Next", .configurationMissing "Seconds"] :=
    validate_eq_ok.mpr ⟨_, machineOf_eq_ok.mpr ⟨_, hparse "Wait", rfl⟩, rfl⟩
  have hunknown : (validate ((oneState "Map").print .compact)).outcome =
      .error (.invalid (.unknownStateType "Map")) :=
    validate_eq_error.mpr (machineOf_eq_error.mpr (Or.inr ⟨_, _, hparse "Map", rfl, rfl⟩))
  have hnotJson : (validate "not json").outcome = .error .notJson :=
    validate_eq_error.mpr (machineOf_eq_error.mpr (Or.inl ⟨rfl, rfl⟩))
  exact ⟨(format_agrees_validate .nearest .pretty _).1.mpr (validate_eq_ok.mpr
      ⟨_, machineOf_eq_ok.mpr ⟨_, hparse "Succeed", rfl⟩, rfl⟩),
    hlisted, ((format_agrees_validate .nearest .pretty _).2.1 _ _ hlisted).1,
    hunknown, ((format_agrees_validate .nearest .pretty _).2.2 _ hunknown).1,
    hnotJson, ((format_agrees_validate .nearest .pretty _).2.2 _ hnotJson).1⟩

/-! ### Formatting again -/

/-- What is formatted is the document of a machine, read from one that the text spells. -/
theorem exists_document_of_format {layout : Json.Layout} {text t : String}
    (h : (format layout text codec).outcome = .ok t) :
    ∃ document m, codec.parse? text = some document ∧
      (Machine.ofDocument .standard document).outcome = .ok m ∧ m.problems = [] ∧
        codec.print layout m.document = t := by
  obtain ⟨m, hm, hproblems, ht⟩ := format_eq_ok.mp h
  obtain ⟨document, hparse, hread⟩ := machineOf_eq_ok.mp hm
  exact ⟨document, m, hparse, hread, hproblems, ht⟩

/-- The document of a machine that a text holds is read from its own text, in either layout. -/
theorem parse?_document_of_parse? (hcodec : codec.ReadsBack) {text : String} {document : Json}
    {m : Machine} (hparse : codec.parse? text = some document)
    (hread : (Machine.ofDocument .standard document).outcome = .ok m) (hproblems : m.problems = [])
    (layout : Json.Layout) : codec.parse? (codec.print layout m.document) = some m.document := by
  have hfits : m.document.Fits Json.maxDepth :=
    Machine.fits_document ⟨hcodec.distinctKeys hparse, hcodec.depth hparse⟩ hread hproblems
  exact hcodec.parse?_print hfits.1 hfits.2 layout

/-- **Formatting twice is formatting once**, and the layout of the first time does not matter:
what has been formatted is formatted again, and gives what its text gives at once. What stands
in between is the text of the document that is written for the machine. Such a document is
never nested more deeply than the one that the machine was read from, so that a codec which
refuses deep nesting, but else reads back what it prints, always reads it again. -/
theorem format_format (hcodec : codec.ReadsBack) :
    (∀ (p q : Json.Layout) (text t : String), (format p text codec).outcome = .ok t →
      (∃ u, (format q text codec).outcome = .ok u ∧ (format q t codec).outcome = .ok u) ∧
        ∃ document m written, codec.parse? text = some document ∧
          (Machine.ofDocument .standard document).outcome = .ok m ∧
          m.toDocument.outcome = .ok written ∧ t = codec.print p written ∧
          codec.parse? t = some written ∧ written.depth ≤ document.depth) ∧
      ∀ (document written : Json) (m : Machine), document.HasDistinctKeys →
        (Machine.ofDocument .standard document).outcome = .ok m →
          m.toDocument.outcome = .ok written → written.depth ≤ document.depth := by
  refine ⟨fun p q text t h => ?_, fun _ _ _ => Machine.depth_le_of_toDocument⟩
  obtain ⟨document, m, hparse, hread, hproblems, rfl⟩ := exists_document_of_format h
  have hkeys := hcodec.distinctKeys hparse
  have hagain := parse?_document_of_parse? hcodec hparse hread hproblems p
  have hwritten : m.toDocument.outcome = .ok m.document :=
    Machine.toDocument_eq_ok.mpr ⟨hproblems, rfl⟩
  refine ⟨⟨codec.print q m.document, ?_, ?_⟩, document, m, m.document, hparse, hread, hwritten,
    rfl, hagain, Machine.depth_le_of_toDocument hkeys hread hwritten⟩
  · exact format_eq_ok.mpr ⟨m, machineOf_eq_ok.mpr ⟨_, hparse, hread⟩, hproblems, rfl⟩
  · refine format_eq_ok.mpr ⟨m, machineOf_eq_ok.mpr ⟨_, hagain, ?_⟩, hproblems, rfl⟩
    exact Machine.ofDocument_document hkeys hread hproblems

theorem format_format_untidy :
    Json.Codec.nearest.ReadsBack ∧
      (format .pretty (Canonical.untidy.print .compact)).outcome =
        .ok ((Canonical.machine Canonical.untidy).print .pretty) ∧
      (∃ u, (format .compact (Canonical.untidy.print .compact)).outcome = .ok u ∧
        (format .compact ((Canonical.machine Canonical.untidy).print .pretty)).outcome = .ok u) ∧
      Canonical.untidy.HasDistinctKeys ∧
      ∃ m : Machine, (Machine.ofDocument .standard Canonical.untidy).outcome = .ok m ∧
        ∃ written, m.toDocument.outcome = .ok written ∧
          written.depth ≤ Canonical.untidy.depth := by
  have hkeys : Canonical.untidy.HasDistinctKeys := (Json.distinctKeys_iff _).mp (by decide)
  have hparse : Json.Codec.nearest.parse? (Canonical.untidy.print .compact) =
      some Canonical.untidy :=
    Json.parse?_print hkeys (show 3 ≤ Json.maxDepth by decide) .compact
  have hread : (Machine.ofDocument .standard Canonical.untidy).outcome = .ok _ := rfl
  have hformat : (format .pretty (Canonical.untidy.print .compact)).outcome =
      .ok ((Canonical.machine Canonical.untidy).print .pretty) :=
    format_eq_ok.mpr ⟨_, machineOf_eq_ok.mpr ⟨_, hparse, hread⟩, rfl,
      congrArg (Json.print .pretty) (Canonical.document_eq_machine hread rfl)⟩
  have hwritten := Machine.toDocument_eq_canonical hread rfl
  obtain ⟨hagain, hdepth⟩ := format_format Json.Codec.nearest_readsBack
  exact ⟨Json.Codec.nearest_readsBack, hformat, (hagain .pretty .compact _ _ hformat).1, hkeys, _,
    hread, _, hwritten, hdepth _ _ _ hkeys hread hwritten⟩

end Command

end StatesLanguage
