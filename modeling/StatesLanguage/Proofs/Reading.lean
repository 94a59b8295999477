import StatesLanguage.Proofs.Bodies

/-!
# Reading states, collections and machines

The readers walk along the members of a document and log what they do. The lemmas here
say the same of what the keys find, and leave the log aside: which members a state, a
collection or a machine is read from, given what the values inside it are read as. All
theorems on documents start from these lemmas, and add an induction of their own.
-/

namespace StatesLanguage

open Json (Members)

/-! ### Collections -/

/-- Reads a collection: the states, then the start. -/
def Collection.ofMembers (r : Registry) (ms : Members) : Logged Error (Collection State) := do
  let c ← Collection.statesOfMembers r ms
  c.readStart ms

theorem Collection.listOfJson_cons (r : Registry) (ms : Members) (vs : List Json) :
    Collection.listOfJson r (.object ms :: vs) = do
      let c ← Collection.ofMembers r ms
      let cs ← Collection.listOfJson r vs
      return c :: cs := by
  rw [Collection.listOfJson, Collection.ofMembers, bind_assoc]

theorem Collection.readStart_eq_ok {ms : Members} {c d : Collection State} :
    c.readStart ms = .ok d ↔ ∃ start : Option String, ms.lookup "StartAt" = start.map .string ∧
      d = { c with startAt := start.or c.startAt } := by
  rw [Collection.readStart, bind_eq_ok]
  simp only [Json.lookupString_eq_ok]
  constructor
  · rintro ⟨_ | name, hstart, h⟩
    · exact ⟨none, hstart, (pure_eq_ok.mp h).symm⟩
    · exact ⟨some name, hstart, (pure_eq_ok.mp h).symm⟩
  · rintro ⟨_ | name, hstart, rfl⟩
    · exact ⟨none, hstart, rfl⟩
    · exact ⟨some name, hstart, rfl⟩

/-- A value shows a branch, given what its states show. -/
def Collection.Reads (r : Registry) (v : Json) (c : Collection State) : Prop :=
  ∃ ms, v = .object ms ∧ (Collection.ofMembers r ms).outcome = .ok c

theorem Collection.listOfJson_eq_ok {r : Registry} {vs : List Json}
    {cs : List (Collection State)} :
    (Collection.listOfJson r vs).outcome = .ok cs ↔
      List.Forall₂ (Collection.Reads r) vs cs := by
  induction vs generalizing cs with
  | nil =>
    rw [List.forall₂_nil_left_iff]
    exact pure_eq_ok.trans eq_comm
  | cons v vs ih =>
    rw [List.forall₂_cons_left_iff]
    cases v with
    | object ms =>
      rw [Collection.listOfJson_cons]
      simp only [Logged.outcome_bind, Logged.outcome_pure, bind_eq_ok, ih, Except.ok.injEq]
      constructor
      · rintro ⟨c, hc, ds, hds, rfl⟩
        exact ⟨c, ds, ⟨ms, rfl, hc⟩, hds, rfl⟩
      · rintro ⟨c, ds, ⟨_, ⟨rfl⟩, hc⟩, hds, rfl⟩
        exact ⟨c, hc, ds, hds, rfl⟩
    | _ =>
      constructor
      · intro h
        nomatch h
      · rintro ⟨_, _, ⟨_, h, _⟩, _⟩
        nomatch h

/-! ### Adding what is read -/

theorem Collection.add_eq_ok {s : State} {c d : Collection State} (h : c.autolink = false) :
    c.add s = .ok d ↔ s.name ∉ c.names ∧
      d = ⟨c.states ++ [s], c.index ++ [(s.name, c.states.length)],
        c.startAt.or (some s.name), false⟩ := by
  rw [Collection.add]
  by_cases hname : s.name ∈ c.names
  · simp [hname]
  · simp only [List.contains_iff_mem, hname, if_false, h, Bool.false_eq_true]
    constructor
    · intro hd
      exact ⟨not_false, (Except.ok.inj hd).symm⟩
    · rintro ⟨-, rfl⟩
      rfl

/-- A member shows a state under its name. -/
def State.Reads (r : Registry) (m : String × Json) (s : State) : Prop :=
  (State.ofJson r m.1 m.2).outcome = .ok s

/-- **Members are added one after another**: each of them shows a state, and no name
comes twice. -/
theorem Collection.addMembers_eq_ok {r : Registry} {ms : Members} {c d : Collection State}
    (hlink : c.autolink = false) (hnames : c.names.Nodup) :
    (Collection.addMembers r ms c).outcome = .ok d ↔ ∃ ss,
      List.Forall₂ (State.Reads r) ms ss ∧ (c.names ++ ss.map State.name).Nodup ∧
        d = ⟨c.states ++ ss, c.index ++ (ss.map State.name).zipIdx c.states.length,
          c.startAt.or (ss.head?.map State.name), false⟩ := by
  induction ms generalizing c with
  | nil =>
    obtain ⟨states, index, startAt, autolink⟩ := c
    obtain rfl : autolink = false := hlink
    simp only [List.forall₂_nil_left_iff, exists_eq_left, List.map_nil, List.append_nil,
      List.zipIdx_nil, List.head?_nil, Option.map_none, Option.or_none]
    exact ⟨fun h => ⟨hnames, (Except.ok.inj h).symm⟩, fun h => h.2 ▸ rfl⟩
  | cons m ms ih =>
    obtain ⟨name, v⟩ := m
    rw [Collection.addMembers]
    simp only [Logged.outcome_bind, Logged.outcome_liftM, bind_eq_ok,
      Collection.add_eq_ok hlink, List.forall₂_cons_left_iff]
    -- the names that are taken are different, so adding one asks only for a new one
    have hsnoc {a : String} : (c.names ++ [a]).Nodup ↔ a ∉ c.names := by
      rw [← List.concat_eq_append, List.nodup_concat, and_iff_left hnames]
    constructor
    · rintro ⟨s, hs, _, ⟨hnew, rfl⟩, h⟩
      obtain ⟨ss, hss, hdistinct, rfl⟩ :=
        (ih rfl (c.names_concat _ _ _ _ _ ▸ hsnoc.mpr hnew)).mp h
      refine ⟨s :: ss, ⟨s, ss, hs, hss, rfl⟩, ?_, ?_⟩
      · rwa [Collection.names_concat, List.append_assoc] at hdistinct
      · cases c.startAt <;> simp
    · rintro ⟨_, ⟨s, ss, hs, hss, rfl⟩, hdistinct, rfl⟩
      rw [List.map_cons, List.append_cons] at hdistinct
      refine ⟨s, hs, _, ⟨hsnoc.mp hdistinct.of_append_left, rfl⟩, ?_⟩
      refine (ih rfl ?_).mpr ⟨ss, hss, ?_, ?_⟩
      · rw [Collection.names_concat]
        exact hdistinct.of_append_left
      · rw [Collection.names_concat]
        exact hdistinct
      · cases c.startAt <;> simp

/-- The members show a collection, given what the states in it show. -/
structure Collection.Shown (r : Registry) (ms : Members) (c : Collection State) : Prop where
  /-- The states, which are read in the order of their names. -/
  states : ∃ members, (ms.lookup "States").getD (.object []) = .object members ∧
    List.Forall₂ (State.Reads r) members c.states
  /-- The positions are stored under the names. -/
  index : c.index = (c.states.map State.name).zipIdx
  /-- No name comes twice. -/
  distinct : (c.states.map State.name).Nodup
  /-- The start, which is the first state if nothing else is said. -/
  startAt : ∃ start : Option String, ms.lookup "StartAt" = start.map .string ∧
    c.startAt = start.or (c.states.head?.map State.name)
  /-- States that are added later are not chained. -/
  autolink : c.autolink = false

theorem Collection.statesOfMembers_eq_ok {r : Registry} {ms : Members} {c : Collection State} :
    (Collection.statesOfMembers r ms).outcome = .ok c ↔ ∃ members,
      (ms.lookup "States").getD (.object []) = .object members ∧
        (Collection.addMembers r members (.empty false)).outcome = .ok c := by
  rw [Collection.statesOfMembers_eq_lookup]
  rcases ms.lookup "States" with _ | v
  · constructor
    · intro h
      exact ⟨[], rfl, h⟩
    · rintro ⟨_, ⟨rfl⟩, h⟩
      exact h
  · cases v <;> simp [Collection.statesOfJson]

/-- **A collection is read from the members that show it.** -/
theorem Collection.ofMembers_eq_ok {r : Registry} {ms : Members} {c : Collection State} :
    (Collection.ofMembers r ms).outcome = .ok c ↔ c.Shown r ms := by
  rw [Collection.ofMembers]
  simp only [Logged.outcome_bind, Logged.outcome_liftM, bind_eq_ok,
    Collection.statesOfMembers_eq_ok, Collection.readStart_eq_ok,
    Collection.addMembers_eq_ok (c := .empty false) rfl List.nodup_nil]
  constructor
  · rintro ⟨_, ⟨members, hms, ss, hss, hdistinct, rfl⟩, start, hstart, rfl⟩
    exact ⟨⟨members, hms, hss⟩, rfl, hdistinct, ⟨start, hstart, rfl⟩, rfl⟩
  · rintro ⟨⟨members, hms, hss⟩, hindex, hdistinct, ⟨start, hstart, hs⟩, hlink⟩
    refine ⟨_, ⟨members, hms, c.states, hss, hdistinct, rfl⟩, start, hstart, ?_⟩
    obtain ⟨states, index, startAt, autolink⟩ := c
    obtain rfl : autolink = false := hlink
    obtain rfl : index = (states.map State.name).zipIdx := hindex
    exact congrArg (Collection.mk states _ · false) hs

/-! ### States -/

/-- The members show a state of a name, given what its branches show. -/
structure State.Shown (r : Registry) (name : String) (ms : Members) (s : State) : Prop where
  /-- The name does not stand among the members. -/
  name : s.name = name
  /-- The type, which the registry resolves. -/
  type : ∃ type, ms.lookup "Type" = some (.string type) ∧ r.resolve type = .ok s.kind
  /-- The description. -/
  comment : ms.lookup "Comment" = s.comment.map .string
  /-- The settings of the kind. -/
  body : s.body.Shown ms
  /-- The branches, which only the members of a parallel state show. -/
  branches : s.kind = .parallel → ∃ items,
    (ms.lookup "Branches").getD (.array []) = .array items ∧
      List.Forall₂ (Collection.Reads r) items s.branches

theorem Collection.branchesOfMembers_eq_ok {r : Registry} {ms : Members}
    {cs : List (Collection State)} :
    (Collection.branchesOfMembers r ms).outcome = .ok cs ↔ ∃ items,
      (ms.lookup "Branches").getD (.array []) = .array items ∧
        List.Forall₂ (Collection.Reads r) items cs := by
  rw [Collection.branchesOfMembers_eq_lookup]
  simp only [← Collection.listOfJson_eq_ok]
  rcases ms.lookup "Branches" with _ | v
  · constructor
    · intro h
      exact ⟨[], rfl, h⟩
    · rintro ⟨_, ⟨rfl⟩, h⟩
      exact h
  · cases v <;> simp [Collection.branchesOfJson]

theorem Body.exists_eq_parallel {σ : Type} {body : Body σ} (h : body.kind = .parallel) :
    ∃ b, body = .parallel b := by
  cases body with
  | parallel b => exact ⟨b, rfl⟩
  | _ => nomatch h

theorem State.ofJson_object_eq_ok {r : Registry} {name : String} {ms : Members} {s : State} :
    (State.ofJson r name (.object ms)).outcome = .ok s ↔ s.Shown r name ms := by
  rw [State.ofJson]
  simp only [Logged.outcome_bind, Logged.outcome_liftM, Logged.outcome_event, bind_eq_ok,
    StateKind.typeOfMembers_eq_ok]
  constructor
  · rintro ⟨type, htype, kind, hkind, -, -, h⟩
    -- only a parallel state reads branches, and it does so before its fields
    by_cases hpar : kind = .parallel
    · simp only [if_pos hpar, Logged.outcome_bind, Logged.outcome_liftM, Logged.outcome_pure,
        bind_eq_ok, Except.ok.injEq, exists_eq_left', Collection.branchesOfMembers_eq_ok,
        Json.lookupString_eq_ok, Parallel.readFields_eq_ok] at h
      obtain ⟨branches, hbranches, comment, hcomment, _, ⟨b, rfl, hb, rfl⟩, rfl⟩ := h
      exact ⟨rfl, ⟨type, htype, hkind.trans (congrArg _ hpar)⟩, hcomment, hb, fun _ => hbranches⟩
    · simp only [if_neg hpar, Logged.outcome_bind, Logged.outcome_liftM, Logged.outcome_pure,
        bind_eq_ok, Except.ok.injEq, Json.lookupString_eq_ok] at h
      obtain ⟨own, hown, comment, hcomment, body, hbody, rfl⟩ := h
      obtain ⟨rfl, hshown⟩ := (Body.readFrom_iff hpar).mp ⟨own, hown, hbody⟩
      exact ⟨rfl, ⟨type, htype, hkind⟩, hcomment, hshown, fun h => absurd h hpar⟩
  · rintro ⟨rfl, ⟨type, htype, hkind⟩, hcomment, hbody, hbranches⟩
    refine ⟨type, htype, s.kind, hkind, (), trivial, ?_⟩
    obtain ⟨name, comment, body⟩ := s
    by_cases hpar : (State.mk name comment body).kind = .parallel
    · simp only [if_pos hpar, Logged.outcome_bind, Logged.outcome_liftM, Logged.outcome_pure,
        bind_eq_ok, Except.ok.injEq, exists_eq_left', Collection.branchesOfMembers_eq_ok,
        Json.lookupString_eq_ok, Parallel.readFields_eq_ok]
      obtain ⟨b, rfl⟩ := Body.exists_eq_parallel hpar
      exact ⟨b.branches, hbranches rfl, comment, hcomment, _, ⟨b, rfl, hbody, rfl⟩, rfl⟩
    · simp only [if_neg hpar, Logged.outcome_bind, Logged.outcome_liftM, Logged.outcome_pure,
        bind_eq_ok, Except.ok.injEq, Json.lookupString_eq_ok]
      obtain ⟨own, hown, hread⟩ := (Body.readFrom_iff hpar).mpr ⟨rfl, hbody⟩
      exact ⟨own, hown, comment, hcomment, body, hread, rfl⟩

/-- **A state is read from the objects that show it.** -/
theorem State.ofJson_eq_ok {r : Registry} {name : String} {v : Json} {s : State} :
    (State.ofJson r name v).outcome = .ok s ↔ ∃ ms, v = .object ms ∧ s.Shown r name ms := by
  cases v with
  | object ms => simp [State.ofJson_object_eq_ok]
  | _ => simp [State.ofJson]

/-- Only parallel states have branches. -/
theorem State.branches_eq_nil {s : State} (h : s.kind ≠ .parallel) : s.branches = [] := by
  obtain ⟨name, comment, body⟩ := s
  cases body with
  | parallel b => exact absurd rfl h
  | _ => rfl

/-- A branch of a state is shown by an item of the array under `Branches`. -/
theorem State.Shown.exists_branch {r : Registry} {name : String} {ms : Members} {s : State}
    (h : s.Shown r name ms) {c : Collection State} (hc : c ∈ s.branches) : ∃ items members,
      (ms.lookup "Branches").getD (.array []) = .array items ∧ Json.object members ∈ items ∧
        c.Shown r members := by
  have hpar : s.kind = .parallel := by
    by_contra hne
    rw [State.branches_eq_nil hne] at hc
    nomatch hc
  obtain ⟨items, hitems, hreads⟩ := h.branches hpar
  obtain ⟨v, hv, members, rfl, hread⟩ := forall₂_mem_right hreads hc
  exact ⟨items, members, hitems, hv, Collection.ofMembers_eq_ok.mp hread⟩

/-- A state of a collection is read from a member of the object under `States`. -/
theorem Collection.Shown.exists_state {r : Registry} {ms : Members} {c : Collection State}
    (h : c.Shown r ms) {s : State} (hs : s ∈ c.states) : ∃ members name v,
      (ms.lookup "States").getD (.object []) = .object members ∧ (name, v) ∈ members ∧
        (State.ofJson r name v).outcome = .ok s := by
  obtain ⟨members, hmembers, hreads⟩ := h.states
  obtain ⟨⟨name, v⟩, hm, hread⟩ := forall₂_mem_right hreads hs
  exact ⟨members, name, v, hmembers, hm, hread⟩

theorem State.names_of_reads {r : Registry} {ms : Members} {ss : List State}
    (h : List.Forall₂ (State.Reads r) ms ss) : ss.map State.name = ms.map Prod.fst := by
  induction h with
  | nil => rfl
  | cons hs _ ih =>
    obtain ⟨_, _, hshown⟩ := State.ofJson_eq_ok.mp hs
    rw [List.map_cons, List.map_cons, hshown.name, ih]

/-! ### Machines -/

/-- The members show a machine, given what its collection shows. -/
structure Machine.Shown (r : Registry) (ms : Members) (m : Machine) : Prop where
  /-- The states and the start. -/
  states : m.states.Shown r ms
  /-- The description. -/
  comment : ms.lookup "Comment" = m.comment.map .string
  /-- How long the machine may run. -/
  timeout : ms.lookup "TimeoutSeconds" = m.timeout.map Seconds.toJson
  /-- The version of the language. -/
  version : ms.lookup "Version" = m.version.map .string

theorem Machine.readVersion_eq_ok {ms : Members} {version : Option String} :
    (Machine.readVersion ms).outcome = .ok version ↔
      ms.lookup "Version" = version.map .string := by
  rw [Machine.readVersion]
  simp only [Logged.outcome_bind, Logged.outcome_liftM, bind_eq_ok, Json.lookupString_eq_ok]
  constructor
  · rintro ⟨_ | text, hfound, h⟩
    · rw [hfound, Except.ok.inj h]
    · -- logging another version than that of the language does not change what is read
      have hversion : some text = version := by
        dsimp only at h
        split at h <;> exact Except.ok.inj h
      rw [hfound, ← hversion]
  · intro h
    refine ⟨version, h, ?_⟩
    cases version with
    | none => rfl
    | some text =>
      dsimp only
      split <;> rfl

/-- **A machine is read from the documents that show it.** -/
theorem Machine.ofDocument_eq_ok {r : Registry} {document : Json} {m : Machine} :
    (Machine.ofDocument r document).outcome = .ok m ↔
      ∃ ms, document = .object ms ∧ m.Shown r ms := by
  simp only [Machine.ofDocument, Logged.outcome_bind, Logged.outcome_liftM, bind_eq_ok,
    Json.asObject_eq_ok, Json.lookupString_eq_ok, Seconds.lookup_eq_ok,
    Machine.readVersion_eq_ok, Logged.outcome_pure, Except.ok.injEq]
  refine exists_congr fun ms => and_congr_right fun _ => ?_
  constructor
  · rintro ⟨c, hc, d, hd, comment, hcomment, timeout, ht, version, hv, rfl⟩
    refine ⟨Collection.ofMembers_eq_ok.mp ?_, hcomment, ht, hv⟩
    rw [Collection.ofMembers, Logged.outcome_bind, bind_eq_ok]
    exact ⟨c, hc, hd⟩
  · rintro ⟨hstates, hcomment, ht, hv⟩
    have hc := Collection.ofMembers_eq_ok.mpr hstates
    rw [Collection.ofMembers, Logged.outcome_bind, bind_eq_ok] at hc
    obtain ⟨c, hc, hd⟩ := hc
    exact ⟨c, hc, m.states, hd, m.comment, hcomment, m.timeout, ht, m.version, hv, rfl⟩

end StatesLanguage
