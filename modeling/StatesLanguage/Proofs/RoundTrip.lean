import StatesLanguage.Proofs.Built
import StatesLanguage.Proofs.Equality
import StatesLanguage.Proofs.Writing

/-!
# Reading what has been written

A model without problems is written as a document, and reading that document gives an
equal model, unless an error handler somewhere in the model names an error that a document
cannot show: a custom one in the reserved namespace. Reading takes such a name for a
predefined error code, or fails.

The parts of a document are read back one by one, from error handlers and rules up to
states, whose branches are a matter of induction. What has to be known of a model for that
is that it is sound, and `Machine.Built.roundTrip` says what follows for
everything that is built.
-/

namespace StatesLanguage

open Json (Members)

/-! ### Transitions and policies -/

/-- Members that show the same transition as those written show the field itself. -/
theorem TransitionField.Fits.shown {mode : TransitionMode} {f : TransitionField} {ms : Members}
    (h : f.Fits mode) (hend : ms.lookup "End" = f.members.lookup "End")
    (hnext : ms.lookup "Next" = f.members.lookup "Next") : f.Shown mode ms := by
  refine ⟨h.mode_eq, ?_⟩
  obtain ⟨m, _ | target | _⟩ := f
  · rw [hend, hnext]
    cases m <;> simp [TransitionField.members]
  · have hmode : mode ≠ .locked := fun hlocked =>
      absurd (h.locked hlocked) (Option.some_ne_none _)
    obtain rfl : m = mode := h.mode_eq
    refine ⟨hmode, ?_, ?_⟩
    · rw [hend]
      cases m <;> simp [TransitionField.members]
    · rw [hnext]
      cases m with
      | locked => exact absurd rfl hmode
      | ordinary | withoutEnd => simp [TransitionField.members]
  · obtain rfl := h.terminal rfl
    obtain rfl : m = .ordinary := h.mode_eq
    exact ⟨rfl, hend⟩

theorem Retrier.ofJson_toJson (r : Retrier) : Retrier.ofJson r.toJson = .ok r := by
  refine Retrier.ofJson_eq_ok.mpr ⟨_, rfl, ?_, ?_, ?_, ?_⟩ <;> simp [List.lookup_append]

/-- An error handler is read back, if the document shows each of its names. -/
theorem Catcher.ofJson_toJson {c : Catcher} (hnext : c.next.Fits .ordinary)
    (hnames : ∀ n ∈ c.errors, n.clashes = false) : Catcher.ofJson c.toJson = .ok c := by
  refine Catcher.ofJson_eq_ok.mpr ⟨_, rfl, ?_, hnames, hnext.shown ?_ ?_, ?_⟩ <;>
    simp [List.lookup_append]

/-! ### Rules -/

theorem Rule.Placed.shown {r : Rule} {mode : TransitionMode} (h : r.Placed mode) :
    r.next.Shown mode r.documentMembers :=
  h.next.shown (lookup_transition (Or.inr rfl)) (lookup_transition (Or.inl rfl))

/-- **A rule without problems is read back**, in the place that it stands in: by
induction on the rule. -/
theorem Rule.ofJson_toJson {r : Rule} {mode : TransitionMode} (hplaced : r.Placed mode)
    (h : r.problems = []) : Rule.ofJson mode r.toJson = .ok r := by
  induction r generalizing mode with
  | logic op children next ih =>
    have hnext := hplaced.shown
    cases hplaced with
    | logic _ hinside =>
    obtain ⟨harity, -, hchildren⟩ := problems_logic_eq_nil.mp h
    have hoperand := lookup_operand op children next
    refine Rule.ofJson_eq_ok.mpr ⟨_, toJson_eq _, ?_,
      ⟨_, children.map Rule.toJson, hoperand, ?_, ?_⟩, hnext⟩
    · exact @Operator.find?_eq_some_of_only _ (.logic op) (Option.isSome_of_eq_some hoperand)
        fun other hne => lookup_keyword_of_ne hne
    · refine LogicOp.operands_operand ?_ fun v hv => ?_
      · rwa [List.length_map]
      · obtain ⟨r, -, rfl⟩ := List.mem_map.mp hv
        exact r.isObject_toJson
    · rw [List.forall₂_map_left_iff, List.forall₂_same]
      exact fun r hr => ih r hr (hinside r hr) (hchildren r hr)
  | compare c next =>
    obtain ⟨-, hliteral, -⟩ := problems_compare_eq_nil.mp h
    have hfound := lookup_literal c next
    refine Rule.ofJson_eq_ok.mpr
      ⟨_, toJson_eq _, ?_, lookup_variable c next, hfound, hplaced.shown⟩
    exact @Operator.find?_eq_some_of_only _ (.compare c.op)
      ((congrArg Option.isSome hfound).trans hliteral) fun other hne => lookup_keyword_of_ne hne

/-! ### Bodies -/

/-- The array of a list that is written only if it is not empty. -/
theorem getD_lookup_listMember {key : String} {items : List Json} {ms : Members}
    (h : ms.lookup key = (listMember key items).lookup key) :
    (ms.lookup key).getD (.array []) = .array items := by
  rw [h]
  cases items <;> simp [listMember]

theorem Task.shown_documentMembers {s : State} {b : Task} (hs : s.body = .task b)
    (hsound : s.body.Sound) (hnames : ∀ c ∈ b.catchers, ∀ n ∈ c.errors, n.clashes = false) :
    b.Shown s.documentMembers where
  resource := by simp [hs]
  timeout := by simp [hs]
  heartbeat := by simp [hs]
  paths := by constructor <;> simp [hs]
  resultPath := by simp [hs]
  result := by simp [hs]
  next := by
    rw [hs] at hsound
    refine (hsound.next _ rfl).shown ?_ ?_ <;> simp [hs]
  retriers := by
    refine ⟨b.retriers.map Retrier.toJson, getD_lookup_listMember (by simp [hs]), ?_⟩
    rw [List.forall₂_map_left_iff, List.forall₂_same]
    exact fun r _ => r.ofJson_toJson
  catchers := by
    rw [hs] at hsound
    refine ⟨b.catchers.map Catcher.toJson, getD_lookup_listMember (by simp [hs]), ?_⟩
    rw [List.forall₂_map_left_iff, List.forall₂_same]
    exact fun c hc => Catcher.ofJson_toJson (hsound.catchers c hc) (hnames c hc)

/-- **The body of a sound state is shown by the document of the state**, its branches
apart. -/
theorem Body.shown_documentMembers {s : State} (hsound : s.body.Sound)
    (hrules : ∀ r ∈ s.body.rules, r.problems = [])
    (hnames : ∀ c ∈ s.body.catchers, ∀ n ∈ c.errors, n.clashes = false) :
    s.body.Shown s.documentMembers := by
  cases hs : s.body with
  | pass b =>
    rw [hs] at hsound
    exact ⟨by constructor <;> simp [hs], by simp [hs], by simp [hs],
      (hsound.next _ rfl).shown (by simp [hs]) (by simp [hs])⟩
  | task b => exact Task.shown_documentMembers hs hsound (by simpa [hs, catchers] using hnames)
  | wait b =>
    rw [hs] at hsound
    exact ⟨by simp [hs], (hsound.next _ rfl).shown (by simp [hs]) (by simp [hs])⟩
  | succeed => trivial
  | fail b => exact ⟨by simp [hs], by simp [hs]⟩
  | choice b =>
    rw [hs] at hsound hrules
    refine ⟨⟨b.rules.map Rule.toJson, by simp [hs, Rule.listToJson_eq_map], ?_⟩, by simp [hs]⟩
    rw [List.forall₂_map_left_iff, List.forall₂_same]
    exact fun r hr => Rule.ofJson_toJson (hsound.rules r hr) (hrules r hr)
  | parallel b =>
    rw [hs] at hsound
    exact ⟨(hsound.next _ rfl).shown (by simp [hs]) (by simp [hs]),
      by constructor <;> simp [hs], by simp [hs]⟩

/-! ### States and collections -/

/-- The name of every error that some handlers respond to is shown by a document. -/
def NamesShown (cs : List Catcher) : Prop :=
  ∀ c ∈ cs, ∀ n ∈ c.errors, n.clashes = false

/-- A collection is read back from members that show what is written for it, given that
for its states. -/
theorem Collection.exists_shown_of_document (ms : Members) {c : Collection State}
    (hsound : c.Sound) (hproblems : c.problems = [])
    (hstart : ms.lookup "StartAt" = c.documentMembers.lookup "StartAt")
    (hstates : ms.lookup "States" = c.documentMembers.lookup "States")
    (hread : ∀ s ∈ c.states, ∃ t, (State.ofJson .standard s.name s.document).outcome = .ok t ∧
      t.equiv s = true) :
    ∃ d : Collection State, d.Shown .standard ms ∧ d.equiv c = true := by
  obtain ⟨ts, hts⟩ := exists_forall₂_iff.mpr hread
  have hreads : List.Forall₂ (State.Reads .standard)
      (c.states.map fun s => (s.name, s.document)) ts := by
    rw [List.forall₂_map_left_iff]
    exact hts.imp fun _ _ h => h.1
  have hnames : ts.map State.name = c.states.map State.name := by
    rw [State.names_of_reads hreads, List.map_map]
    rfl
  obtain ⟨name, -, hname⟩ := Collection.exists_start_of_problems_eq_nil hproblems
  refine ⟨⟨ts, (ts.map State.name).zipIdx, c.startAt, false⟩,
    ⟨⟨_, ?_, hreads⟩, rfl, ?_, ?_, rfl⟩, ?_⟩
  · rw [hstates, Collection.lookup_states hsound.indexed.distinct]
    rfl
  · rw [hnames]
    exact hsound.indexed.distinct
  · exact ⟨c.startAt, hstart.trans c.lookup_startAt, by rw [hname]; rfl⟩
  · exact Collection.equiv_iff.mpr ⟨hts.flip.imp fun _ _ h => h.2, rfl⟩

/-- **A sound state without problems is read back**, as an equal one, if the document
shows the names of all errors: by induction on its branches. -/
theorem State.exists_ofJson_document {s : State} (hsound : s.Sound) (hproblems : s.problems = [])
    (hnames : NamesShown s.catchers) :
    ∃ t, (State.ofJson .standard s.name s.document).outcome = .ok t ∧ t.equiv s = true := by
  induction s using State.branchInduction with
  | step s ih =>
  rw [State.catchers_eq] at hnames
  have hrules := Body.problems_of_mem_rules (State.ownProblems_eq_nil hproblems)
  have hbody := Body.shown_documentMembers hsound.body hrules
    fun c hc => hnames c (List.mem_append_left _ hc)
  have htype := (Registry.resolve_standard s.kind.name s.kind).mpr rfl
  have hbranch : ∀ c ∈ s.branches,
      ∃ d, Collection.Reads .standard (.object c.documentMembers) d ∧ d.equiv c = true := by
    intro c hc
    have hcproblems := State.problems_of_mem hproblems c hc
    obtain ⟨d, hd, hequiv⟩ := Collection.exists_shown_of_document c.documentMembers
      (hsound.branches c hc) hcproblems rfl rfl fun t ht =>
        ih c hc t ht ((hsound.branches c hc).inside t ht)
          (Collection.problems_of_mem hcproblems t ht) fun e he =>
            hnames e (List.mem_append_right _ (List.mem_flatMap.mpr ⟨c, hc,
              List.mem_flatMap.mpr ⟨t, ht, he⟩⟩))
    exact ⟨d, ⟨_, rfl, Collection.ofMembers_eq_ok.mpr hd⟩, hequiv⟩
  by_cases hpar : s.kind = .parallel
  · -- the branches that are read may chain otherwise, so they replace those of the state
    obtain ⟨name, comment, body⟩ := s
    obtain ⟨b, rfl⟩ := Body.exists_eq_parallel hpar
    obtain ⟨branches, hbranches⟩ := exists_forall₂_iff.mpr hbranch
    refine ⟨⟨name, comment, .parallel { b with branches }⟩,
      State.ofJson_eq_ok.mpr ⟨_, State.document_eq _, rfl, ⟨_, State.lookup_type _, htype⟩,
        State.lookup_comment _, ⟨hbody.next, hbody.paths, hbody.resultPath⟩, fun _ =>
          ⟨b.branches.map fun c => .object c.documentMembers, ?_, ?_⟩⟩,
      Parallel.equiv_of_branches (hbranches.flip.imp fun _ _ h => h.2)⟩
    · simp
    · rw [List.forall₂_map_left_iff]
      exact hbranches.imp fun _ _ h => h.1
  · exact ⟨s, State.ofJson_eq_ok.mpr ⟨_, s.document_eq, rfl, ⟨_, s.lookup_type, htype⟩,
      s.lookup_comment, hbody, fun h => absurd h hpar⟩,
      State.equiv_refl_of_kind hpar hsound.body.result⟩

/-! ### What is read shows its names -/

theorem Body.Shown.namesShown {ms : Members} {b : Body State} (h : b.Shown ms) :
    NamesShown b.catchers := by
  cases b with
  | task b =>
    intro c hc
    obtain ⟨items, -, hread⟩ := h.catchers
    obtain ⟨v, -, hv⟩ := forall₂_mem_right hread hc
    obtain ⟨_, -, hshown⟩ := Catcher.ofJson_eq_ok.mp hv
    exact hshown.readable
  | _ => exact nofun

/-- No custom name in the reserved namespace is ever read: by induction on the branches
of the state. -/
theorem State.namesShown_of_ofJson {r : Registry} {s : State} {name : String} {v : Json}
    (h : (State.ofJson r name v).outcome = .ok s) : NamesShown s.catchers := by
  induction s using State.branchInduction generalizing name v with
  | step s ih =>
  obtain ⟨ms, rfl, hshown⟩ := State.ofJson_eq_ok.mp h
  intro e he
  rw [State.catchers_eq] at he
  rcases List.mem_append.mp he with he | he
  · exact hshown.body.namesShown e he
  · obtain ⟨c, hc, he⟩ := List.mem_flatMap.mp he
    obtain ⟨t, ht, he⟩ := List.mem_flatMap.mp he
    obtain ⟨_, _, -, -, hcshown⟩ := hshown.exists_branch hc
    obtain ⟨_, _, _, -, -, hread⟩ := hcshown.exists_state ht
    exact ih c hc t ht hread e he

theorem Machine.namesShown_of_ofDocument {r : Registry} {document : Json} {m : Machine}
    (h : (Machine.ofDocument r document).outcome = .ok m) : NamesShown m.catchers := by
  obtain ⟨ms, rfl, hshown⟩ := Machine.ofDocument_eq_ok.mp h
  intro e he
  obtain ⟨s, hs, he⟩ := List.mem_flatMap.mp he
  obtain ⟨_, _, _, -, -, hread⟩ := hshown.states.exists_state hs
  exact State.namesShown_of_ofJson hread e he

/-! ### Machines -/

/-- A sound machine without problems is read back, as an equal one, if the document shows
the names of all errors. -/
theorem Machine.exists_ofDocument_document {m : Machine} (hsound : m.states.Sound)
    (hproblems : m.problems = []) (hnames : NamesShown m.catchers) :
    ∃ n, (Machine.ofDocument .standard m.document).outcome = .ok n ∧ n.equiv m = true := by
  obtain ⟨c, hc, hequiv⟩ := Collection.exists_shown_of_document m.documentMembers hsound
    hproblems m.lookup_startAt m.lookup_states fun s hs =>
      State.exists_ofJson_document (hsound.inside s hs)
        (Collection.problems_of_mem hproblems s hs) fun e he =>
          hnames e (List.mem_flatMap.mpr ⟨s, hs, he⟩)
  refine ⟨{ m with states := c }, Machine.ofDocument_eq_ok.mpr
    ⟨_, rfl, hc, m.lookup_comment, m.lookup_timeout, m.lookup_version⟩, ?_⟩
  simp [Machine.equiv, hequiv]

/-- **The round trip.** A machine that is built, by any edits or by reading, and has no
problems is written as a document; and what is read from that document is the machine
itself, exactly if no error handler anywhere in it names a custom error in the reserved
namespace. -/
theorem Machine.Built.roundTrip {m : Machine} (hm : m.Built)
    (hproblems : m.problems = []) :
    ∃ document, m.toDocument.outcome = .ok document ∧
      ((∃ n, (Machine.ofDocument .standard document).outcome = .ok n ∧ n.equiv m = true) ↔
        ∀ c ∈ m.catchers, ∀ name : String, .custom name ∈ c.errors →
          ErrorName.reserved.toList.isPrefixOf name.toList = false) := by
  refine ⟨m.document, Machine.toDocument_eq_ok.mpr ⟨hproblems, rfl⟩, ?_⟩
  constructor
  · -- what is read holds no such name, and equal machines hold the same ones
    rintro ⟨n, hn, hequiv⟩ c hc name hname
    rw [← Machine.catchers_eq_of_equiv hequiv] at hc
    exact Machine.namesShown_of_ofDocument hn c hc _ hname
  · intro h
    refine Machine.exists_ofDocument_document hm.sound hproblems fun c hc n hn => ?_
    cases n with
    | predefined code => rfl
    | custom name => exact h c hc name hn

theorem Machine.roundTrip_oneTask : oneTask.Built ∧ oneTask.problems = [] ∧
    ∃ document, oneTask.toDocument.outcome = .ok document ∧
      ∃ n, (Machine.ofDocument .standard document).outcome = .ok n ∧ n.equiv oneTask = true := by
  obtain ⟨document, hdocument, hiff⟩ := Machine.Built.roundTrip oneTask_built rfl
  refine ⟨oneTask_built, rfl, document, hdocument, hiff.mpr fun c hc name hname => ?_⟩
  obtain rfl := List.mem_singleton.mp hc
  obtain rfl := ErrorName.custom.inj (List.mem_singleton.mp hname)
  decide

end StatesLanguage
