import Mathlib.Data.List.Induction
import StatesLanguage.Proofs.FirstProblem
import StatesLanguage.Proofs.Reading

/-!
# Both passes visit the states in preorder

Reading and writing a document are two walks that know nothing of each other, and each logs the
states that it comes to. This file compares the logs with the listing `Collection.preorder`, and
the listing with the model.

What a listing in preorder is can be said without a walk. A state in a collection has an address,
`Collection.inside?`: its position, or the address of another state followed by a branch of that
one and a position there. In the lexicographic order an address comes before those that go on
from it, and those under one position before those under a later one. So a listing is in preorder
and complete if its addresses increase and no other address leads to a state; that they increase
also means that none of them comes twice. `Collection.preorder_inOrder` says so of the preorder.

For the logs the one thing to know is that a computation which succeeds has the logs of its steps
in their order, as all steps have succeeded. The writer cannot fail below the outermost check, so
`State.log_toJson` needs that check only; the reader may fail anywhere, and `State.log_ofJson` is
about readings that do not.

`Machine.passes_agree` puts them side by side.
-/

namespace StatesLanguage

open Json (Members)

/-! ### Addresses -/

mutual

/-- The state at an address inside a state: a branch, a position in it, and so on. -/
def State.inside? : List Nat → State → Option State
  | [], s => some s
  | i :: address, s => s.branches[i]?.bind (Collection.inside? address)

/-- The state at an address inside a collection: a position, and then one inside the state. -/
def Collection.inside? : List Nat → Collection State → Option State
  | [], _ => none
  | i :: address, c => c.states[i]?.bind (State.inside? address)

end

/-- The states are those at the addresses that lead to one, listed in the order of their
addresses. -/
def ListedInOrder (at? : List Nat → Option State) (states : List State) : Prop :=
  ∃ addresses : List (List Nat), addresses.Pairwise (· < ·) ∧
    (∀ a, a ∈ addresses ↔ (at? a).isSome = true) ∧ addresses.map at? = states.map some

/-- An address inside one of several parts: the position of the part, and then one inside it. -/
def insideParts? {α : Type} (at? : List Nat → α → Option State) (parts : List α) :
    List Nat → Option State
  | [] => none
  | i :: address => parts[i]?.bind (at? address)

section Parts

variable {α : Type} {at? : List Nat → α → Option State} {parts : List α} {p : α}

theorem insideParts?_concat_length (a : List Nat) :
    insideParts? at? (parts ++ [p]) (parts.length :: a) = at? a p := by
  rw [insideParts?, List.getElem?_concat_length, Option.bind_some]

theorem insideParts?_concat_of_lt {i : Nat} (hi : i < parts.length) (a : List Nat) :
    insideParts? at? (parts ++ [p]) (i :: a) = insideParts? at? parts (i :: a) := by
  rw [insideParts?, insideParts?, List.getElem?_append_left hi]

/-- An address that leads somewhere begins with the position of a part. -/
theorem exists_of_insideParts?_isSome {a : List Nat}
    (h : (insideParts? at? parts a).isSome = true) :
    ∃ i rest, a = i :: rest ∧ i < parts.length := by
  obtain _ | ⟨i, rest⟩ := a
  · nomatch h
  refine ⟨i, rest, rfl, ?_⟩
  by_contra hi
  rw [insideParts?, List.getElem?_eq_none (Nat.le_of_not_lt hi)] at h
  nomatch h

/-- A part that is added is listed last: its addresses come behind those of the parts before. -/
theorem ListedInOrder.concat {states states' : List State}
    (h : ListedInOrder (insideParts? at? parts) states) (h' : ListedInOrder (at? · p) states') :
    ListedInOrder (insideParts? at? (parts ++ [p])) (states ++ states') := by
  obtain ⟨before, hsorted, hbefore, hstates⟩ := h
  obtain ⟨inside, hsorted', hinside, hstates'⟩ := h'
  have hcases (a : List Nat) (ha : a ∈ before) : ∃ i rest, a = i :: rest ∧ i < parts.length :=
    exists_of_insideParts?_isSome ((hbefore a).mp ha)
  refine ⟨before ++ inside.map (parts.length :: ·), ?_, fun a => ?_, ?_⟩
  · refine List.pairwise_append.mpr ⟨hsorted, ?_, fun a ha b hb => ?_⟩
    · refine List.pairwise_map.mpr (hsorted'.imp fun hlt => ?_)
      exact List.cons_lt_cons_iff.mpr (Or.inr ⟨rfl, hlt⟩)
    · obtain ⟨i, rest, rfl, hi⟩ := hcases a ha
      obtain ⟨b, -, rfl⟩ := List.mem_map.mp hb
      exact List.cons_lt_cons_iff.mpr (Or.inl hi)
  · rw [List.mem_append, List.mem_map, hbefore]
    constructor
    · rintro (ha | ⟨b, hb, rfl⟩)
      · obtain ⟨i, rest, rfl, hi⟩ := exists_of_insideParts?_isSome ha
        rwa [insideParts?_concat_of_lt hi]
      · rw [insideParts?_concat_length]
        exact (hinside b).mp hb
    · intro ha
      obtain ⟨i, rest, rfl, hi⟩ := exists_of_insideParts?_isSome ha
      rw [List.length_append, List.length_singleton] at hi
      rcases Nat.lt_succ_iff_lt_or_eq.mp hi with hi | rfl
      · exact Or.inl (by rwa [insideParts?_concat_of_lt hi] at ha)
      · rw [insideParts?_concat_length] at ha
        exact Or.inr ⟨rest, (hinside rest).mpr ha, rfl⟩
  · rw [List.map_append, List.map_append, ← hstates, ← hstates', List.map_map]
    refine congrArg₂ _ (List.map_congr_left fun a ha => ?_) (List.map_congr_left fun a _ => ?_)
    · obtain ⟨i, rest, rfl, hi⟩ := hcases a ha
      exact insideParts?_concat_of_lt hi rest
    · exact insideParts?_concat_length a

/-- **What is listed part by part is listed in order**: by induction on the parts from the
back. -/
theorem listedInOrder_flatMap {listing : α → List State}
    (h : ∀ p ∈ parts, ListedInOrder (at? · p) (listing p)) :
    ListedInOrder (insideParts? at? parts) (parts.flatMap listing) := by
  induction parts using List.reverseRecOn with
  | nil =>
    refine ⟨[], .nil, fun a => iff_of_false List.not_mem_nil ?_, rfl⟩
    intro ha
    obtain ⟨i, _, -, hi⟩ := exists_of_insideParts?_isSome ha
    exact absurd hi (Nat.not_lt_zero i)
  | append_singleton parts p ih =>
    rw [List.forall_mem_append, List.forall_mem_singleton] at h
    rw [List.flatMap_append, List.flatMap_singleton]
    exact (ih h.1).concat h.2

end Parts

theorem Collection.inside?_eq (c : Collection State) :
    (Collection.inside? · c) = insideParts? State.inside? c.states := by
  funext a
  cases a <;> rfl

/-- **A state and all inside it are listed in order**: by induction on the branches. -/
theorem State.preorder_inOrder (s : State) : ListedInOrder (State.inside? · s) s.preorder := by
  induction s using State.branchInduction with
  | step s ih =>
    have hbranches : ListedInOrder (insideParts? Collection.inside? s.branches)
        (s.branches.flatMap Collection.preorder) := by
      refine listedInOrder_flatMap fun c hc => ?_
      rw [Collection.inside?_eq]
      exact listedInOrder_flatMap (ih c hc)
    obtain ⟨addresses, hsorted, hall, hstates⟩ := hbranches
    have hempty : [] ∉ addresses := fun h => Bool.false_ne_true ((hall []).mp h)
    rw [State.preorder_eq]
    refine ⟨[] :: addresses, List.pairwise_cons.mpr ⟨fun a ha => ?_, hsorted⟩, fun a => ?_, ?_⟩
    · obtain _ | ⟨i, rest⟩ := a
      · exact absurd ha hempty
      · exact List.nil_lt_cons i rest
    · cases a with
      | nil => exact iff_of_true List.mem_cons_self rfl
      | cons i rest =>
        rw [List.mem_cons, or_iff_right (List.cons_ne_nil i rest), hall]
        rfl
    · rw [List.map_cons, List.map_cons, ← hstates]
      refine congrArg _ (List.map_congr_left fun a ha => ?_)
      obtain _ | ⟨i, rest⟩ := a
      · exact absurd ha hempty
      · rfl

theorem Collection.preorder_inOrder (c : Collection State) :
    ListedInOrder (Collection.inside? · c) c.preorder := by
  rw [Collection.inside?_eq]
  exact listedInOrder_flatMap fun s _ => s.preorder_inOrder

/-! ### Logs of computations that succeed -/

namespace Logged

variable {ε α β : Type}

/-- A computation that succeeds has gone through both its steps. -/
theorem exists_of_bind_eq_ok {x : Logged ε α} {f : α → Logged ε β} {b : β}
    (h : (x >>= f).outcome = .ok b) :
    ∃ a, x.outcome = .ok a ∧ (f a).outcome = .ok b ∧ (x >>= f).log = x.log ++ (f a).log := by
  have hsteps := h
  rw [outcome_bind, bind_eq_ok] at hsteps
  obtain ⟨a, ha, hb⟩ := hsteps
  exact ⟨a, ha, hb, by rw [bind_of_ok ha]⟩

@[simp] theorem log_map (f : α → β) (x : Logged ε α) : (f <$> x).log = x.log := by
  rw [map_eq_pure_bind]
  cases h : x.outcome with
  | ok a => rw [bind_of_ok h, log_pure, List.append_nil]
  | error e => rw [bind_of_error h]

/-- A walk over a list logs what its steps log, one after another. -/
theorem log_mapM {f : α → Logged ε β} {xs : List α} (h : ∀ x ∈ xs, ∃ b, (f x).outcome = .ok b) :
    (xs.mapM f).log = xs.flatMap fun x => (f x).log := by
  induction xs with
  | nil => rfl
  | cons x xs ih =>
    rw [List.forall_mem_cons] at h
    obtain ⟨⟨b, hb⟩, hxs⟩ := h
    rw [List.mapM_cons, bind_of_ok hb, List.flatMap_cons, ← ih hxs]
    simp only [bind_pure_comp, log_map]

end Logged

/-! ### What the writer logs -/

/-- That a state begins to be written. -/
def State.writeEvent (s : State) : Event :=
  .writing s.kind.name s.name

theorem Collection.log_members {c : Collection State} (h : c.problems = []) :
    c.members.log = c.states.flatMap fun s => s.toJson.log := by
  obtain ⟨⟨name, hname, hstart⟩, -⟩ := Collection.writes_of_problems_eq_nil h
  have hstates : ∀ s ∈ c.states, ∃ m, (Prod.mk s.name <$> s.toJson).outcome = .ok m := by
    intro s hs
    have hproblems := Collection.problems_of_mem h s hs
    rw [Logged.outcome_map, State.toJson_outcome_of_problems_eq_nil hproblems]
    exact ⟨_, rfl⟩
  rw [Collection.members, Logged.bind_of_ok hstart, hname, State.listMembers_eq_mapM]
  simp only [bind_pure_comp, Logged.log_map, Logged.log_mapM hstates]
  rfl

/-- A state that passes its check logs that it is written, and then its branches. -/
theorem State.log_toJson_of_branches {s : State} (h : s.problems = []) :
    s.toJson.log = s.writeEvent ::
      (s.branches.mapM fun c : Collection State => Json.object <$> c.members).log := by
  rw [← Collection.listToJson_eq_mapM]
  obtain ⟨name, comment, body⟩ := s
  rw [State.toJson, h]
  cases body with
  | parallel b =>
    rw [Logged.check, pure_bind, Logged.bind_of_ok (Logged.outcome_event _)]
    simp only [bind_pure_comp, map_pure, Logged.log_map]
    rfl
  | _ => rfl

/-- **A state without problems logs that it is written, and all inside it in preorder**: by
induction on the branches. -/
theorem State.log_toJson {s : State} (h : s.problems = []) :
    s.toJson.log = s.preorder.map State.writeEvent := by
  induction s using State.branchInduction with
  | step s ih =>
    have hbranch : ∀ c ∈ s.branches, (Json.object <$> c.members).log =
        c.preorder.map State.writeEvent := by
      intro c hc
      have hproblems := State.problems_of_mem h c hc
      rw [Logged.log_map, Collection.log_members hproblems, Collection.preorder, List.map_flatMap]
      refine List.flatMap_congr fun t ht => ?_
      exact ih c hc t ht (Collection.problems_of_mem hproblems t ht)
    have hwritten : ∀ c ∈ s.branches, ∃ v, (Json.object <$> c.members).outcome = .ok v := by
      intro c hc
      obtain ⟨-, hc⟩ := Collection.writes_of_problems_eq_nil (State.problems_of_mem h c hc)
      rw [Logged.outcome_map, hc]
      exact ⟨_, rfl⟩
    rw [State.log_toJson_of_branches h, Logged.log_mapM hwritten, List.flatMap_congr hbranch,
      State.preorder_eq, List.map_cons, List.map_flatMap]

/-- **Writing a machine without problems logs all its states in preorder**, and nothing else. -/
theorem Machine.log_toDocument {m : Machine} (h : m.problems = []) :
    m.toDocument.log = m.states.preorder.map State.writeEvent := by
  rw [Machine.toDocument, h, Logged.check, pure_bind]
  simp only [bind_pure_comp, Logged.log_map]
  rw [Collection.log_members h, Collection.preorder, List.map_flatMap]
  exact List.flatMap_congr fun s hs => State.log_toJson (Collection.problems_of_mem h s hs)

/-- A machine with problems is not begun to be written. -/
theorem Machine.log_toDocument_of_problems {m : Machine} (h : m.problems ≠ []) :
    m.toDocument.log = [] := by
  obtain ⟨e, rest, hproblems⟩ := List.exists_cons_of_ne_nil h
  rw [Machine.toDocument, hproblems]
  rfl

/-! ### What the reader logs -/

/-- That a state begins to be read, under the standard type of its kind. -/
def State.readEvent (s : State) : Event :=
  .reading s.kind.name s.name

/-- Wherever a state is read, the reading logs the same events. -/
def State.ReadLogs (r : Registry) (s : State) (events : List Event) : Prop :=
  ∀ name v, (State.ofJson r name v).outcome = .ok s → (State.ofJson r name v).log = events

section Reader

variable {r : Registry} {f : State → List Event} {ms : Members}

theorem Collection.log_addMembers {c d : Collection State} (hlink : c.autolink = false)
    (h : (Collection.addMembers r ms c).outcome = .ok d) :
    ∃ ss, d.states = c.states ++ ss ∧ ((∀ s ∈ ss, s.ReadLogs r (f s)) →
      (Collection.addMembers r ms c).log = ss.flatMap f) := by
  induction ms generalizing c with
  | nil =>
    obtain rfl := Except.ok.inj h
    exact ⟨[], (List.append_nil _).symm, fun _ => rfl⟩
  | cons m ms ih =>
    obtain ⟨name, v⟩ := m
    rw [Collection.addMembers] at h ⊢
    obtain ⟨s, hs, h, hlog⟩ := Logged.exists_of_bind_eq_ok h
    obtain ⟨c', hadd, h, hlog'⟩ := Logged.exists_of_bind_eq_ok h
    obtain ⟨-, rfl⟩ := (Collection.add_eq_ok hlink).mp hadd
    obtain ⟨ss, hd, hss⟩ := ih rfl h
    refine ⟨s :: ss, by rw [hd, List.append_assoc]; rfl, fun hlogs => ?_⟩
    rw [List.forall_mem_cons] at hlogs
    rw [hlog, hlog', hlogs.1 _ _ hs, hss hlogs.2, Logged.log_liftM, List.nil_append,
      List.flatMap_cons]

theorem Collection.log_statesOfMembers {c : Collection State}
    (h : (Collection.statesOfMembers r ms).outcome = .ok c)
    (hlogs : ∀ s ∈ c.states, s.ReadLogs r (f s)) :
    (Collection.statesOfMembers r ms).log = c.states.flatMap f := by
  rw [Collection.statesOfMembers_eq_lookup] at h ⊢
  generalize ms.lookup "States" = found at h ⊢
  obtain _ | v := found
  · obtain rfl := Except.ok.inj h
    rfl
  · cases v with
    | object members =>
      obtain ⟨ss, hc, hss⟩ := Collection.log_addMembers (c := .empty false) rfl h
      obtain rfl : c.states = ss := hc
      exact hss hlogs
    | _ => nomatch h

theorem Collection.log_ofMembers {c : Collection State}
    (h : (Collection.ofMembers r ms).outcome = .ok c)
    (hlogs : ∀ s ∈ c.states, s.ReadLogs r (f s)) :
    (Collection.ofMembers r ms).log = c.states.flatMap f := by
  rw [Collection.ofMembers] at h ⊢
  obtain ⟨d, hd, h, hlog⟩ := Logged.exists_of_bind_eq_ok h
  obtain ⟨start, -, rfl⟩ := Collection.readStart_eq_ok.mp h
  rw [hlog, Logged.log_liftM, List.append_nil, Collection.log_statesOfMembers hd hlogs]

theorem Collection.log_listOfJson {vs : List Json} {cs : List (Collection State)}
    (h : (Collection.listOfJson r vs).outcome = .ok cs)
    (hlogs : ∀ c ∈ cs, ∀ s ∈ c.states, s.ReadLogs r (f s)) :
    (Collection.listOfJson r vs).log = cs.flatMap fun c => c.states.flatMap f := by
  induction vs generalizing cs with
  | nil =>
    obtain rfl := Except.ok.inj h
    rfl
  | cons v vs ih =>
    cases v with
    | object ms =>
      rw [Collection.listOfJson_cons] at h ⊢
      obtain ⟨c, hc, h, hlog⟩ := Logged.exists_of_bind_eq_ok h
      obtain ⟨ds, hds, h, hlog'⟩ := Logged.exists_of_bind_eq_ok h
      obtain rfl := Except.ok.inj h
      rw [List.forall_mem_cons] at hlogs
      rw [hlog, hlog', Collection.log_ofMembers hc hlogs.1, ih hds hlogs.2, Logged.log_pure,
        List.append_nil, List.flatMap_cons]
    | _ => nomatch h

theorem Collection.log_branchesOfMembers {cs : List (Collection State)}
    (h : (Collection.branchesOfMembers r ms).outcome = .ok cs)
    (hlogs : ∀ c ∈ cs, ∀ s ∈ c.states, s.ReadLogs r (f s)) :
    (Collection.branchesOfMembers r ms).log = cs.flatMap fun c => c.states.flatMap f := by
  rw [Collection.branchesOfMembers_eq_lookup] at h ⊢
  generalize ms.lookup "Branches" = found at h ⊢
  obtain _ | v := found
  · obtain rfl := Except.ok.inj h
    rfl
  · cases v with
    | array items => exact Collection.log_listOfJson h hlogs
    | _ => nomatch h

end Reader

/-- A state that is read logs this, and then its branches, if its kind has some. -/
theorem State.log_ofJson_cases {name : String} {ms : Members} {s : State}
    (h : (State.ofJson .standard name (.object ms)).outcome = .ok s) :
    (s.branches = [] ∧ (State.ofJson .standard name (.object ms)).log = [s.readEvent]) ∨
      ((Collection.branchesOfMembers .standard ms).outcome = .ok s.branches ∧
        (State.ofJson .standard name (.object ms)).log =
          s.readEvent :: (Collection.branchesOfMembers .standard ms).log) := by
  have hshown := State.ofJson_object_eq_ok.mp h
  obtain ⟨type', htype', hkind'⟩ := hshown.type
  rw [State.ofJson] at h ⊢
  obtain ⟨type, htype, h, hlog₁⟩ := Logged.exists_of_bind_eq_ok h
  obtain ⟨kind, hkind, h, hlog₂⟩ := Logged.exists_of_bind_eq_ok h
  obtain ⟨_, -, h, hlog₃⟩ := Logged.exists_of_bind_eq_ok h
  rw [StateKind.typeOfMembers_eq_ok.mp htype] at htype'
  obtain rfl := Json.string.inj (Option.some.inj htype')
  obtain rfl : kind = s.kind := Except.ok.inj (hkind.symm.trans hkind')
  have hevent : s.readEvent = .reading type name := by
    rw [State.readEvent, hshown.name, ← (Registry.resolve_standard _ _).mp hkind']
  rw [hlog₁, hlog₂, hlog₃, hevent]
  by_cases hpar : s.kind = .parallel
  · simp only [if_pos hpar] at h ⊢
    obtain ⟨branches, hbranches, h, hlog₄⟩ := Logged.exists_of_bind_eq_ok h
    rw [pure_bind] at h hlog₄
    obtain ⟨comment, -, h, hlog₅⟩ := Logged.exists_of_bind_eq_ok h
    obtain ⟨body, hbody, h, hlog₆⟩ := Logged.exists_of_bind_eq_ok h
    -- the fields of the body leave its branches as they have been read
    obtain ⟨b, rfl, -, hb⟩ := Parallel.readFields_eq_ok.mp hbody
    obtain rfl := Except.ok.inj h
    refine Or.inr ⟨hbranches.trans (congrArg _ hb.symm), ?_⟩
    rw [hlog₄, hlog₅, hlog₆]
    simp
  · simp only [if_neg hpar] at h ⊢
    obtain ⟨own, -, h, hlog₄⟩ := Logged.exists_of_bind_eq_ok h
    obtain ⟨comment, -, h, hlog₅⟩ := Logged.exists_of_bind_eq_ok h
    obtain ⟨body, -, h, hlog₆⟩ := Logged.exists_of_bind_eq_ok h
    refine Or.inl ⟨State.branches_eq_nil hpar, ?_⟩
    rw [hlog₄, hlog₅, hlog₆]
    rfl

/-- **A state that is read logs this, and then all inside it in preorder**: by induction on the
branches of the state. -/
theorem State.log_ofJson (s : State) :
    s.ReadLogs .standard (s.preorder.map State.readEvent) := by
  induction s using State.branchInduction with
  | step s ih =>
    intro name v h
    obtain ⟨ms, rfl, -⟩ := State.ofJson_eq_ok.mp h
    rw [State.preorder_eq, List.map_cons, List.map_flatMap]
    rcases State.log_ofJson_cases h with ⟨hnil, hlog⟩ | ⟨hbranches, hlog⟩
    · rw [hlog, hnil, List.flatMap_nil]
    · rw [hlog, Collection.log_branchesOfMembers hbranches ih]
      refine congrArg _ (List.flatMap_congr fun c _ => ?_)
      rw [Collection.preorder, List.map_flatMap]

theorem Machine.log_readVersion (ms : Members) : ∀ e ∈ (Machine.readVersion ms).log,
    ∃ found, e = .otherVersion found languageVersion := by
  intro e he
  rw [Machine.readVersion] at he
  cases hversion : Json.lookupString "Version" ms with
  | error err =>
    rw [Logged.bind_of_error hversion] at he
    cases he
  | ok version =>
    rw [Logged.bind_of_ok hversion, Logged.log_liftM, List.nil_append] at he
    obtain _ | found := version
    · cases he
    · dsimp only at he
      split at he
      · exact ⟨found, List.mem_singleton.mp he⟩
      · cases he

/-- **Reading a machine logs all its states in preorder**, and then at most that it is of another
version of the language. -/
theorem Machine.log_ofDocument {document : Json} {m : Machine}
    (h : (Machine.ofDocument .standard document).outcome = .ok m) :
    ∃ versions : List Event, (∀ e ∈ versions, ∃ found, e = .otherVersion found languageVersion) ∧
      (Machine.ofDocument .standard document).log =
        m.states.preorder.map State.readEvent ++ versions := by
  rw [Machine.ofDocument] at h ⊢
  obtain ⟨ms, -, h, hlog₁⟩ := Logged.exists_of_bind_eq_ok h
  obtain ⟨d, hd, h, hlog₂⟩ := Logged.exists_of_bind_eq_ok h
  obtain ⟨c, hc, h, hlog₃⟩ := Logged.exists_of_bind_eq_ok h
  obtain ⟨comment, -, h, hlog₄⟩ := Logged.exists_of_bind_eq_ok h
  obtain ⟨timeout, -, h, hlog₅⟩ := Logged.exists_of_bind_eq_ok h
  obtain ⟨version, -, h, hlog₆⟩ := Logged.exists_of_bind_eq_ok h
  obtain rfl := Except.ok.inj h
  obtain ⟨start, -, rfl⟩ := Collection.readStart_eq_ok.mp hc
  refine ⟨(Machine.readVersion ms).log, Machine.log_readVersion ms, ?_⟩
  · rw [hlog₁, hlog₂, hlog₃, hlog₄, hlog₅, hlog₆,
      Collection.log_statesOfMembers hd fun s _ => s.log_ofJson, Collection.preorder,
      List.map_flatMap]
    simp

/-! ### Both passes -/

/-- The type and the name of a state that begins to be read. -/
def Event.read? : Event → Option (String × String)
  | .reading type name => some (type, name)
  | _ => none

/-- The kind and the name of a state that begins to be written. -/
def Event.written? : Event → Option (String × String)
  | .writing kind name => some (kind, name)
  | _ => none

/-- What both logs tell of a state. -/
def State.label (s : State) : String × String :=
  (s.kind.name, s.name)

theorem Machine.read_log {document : Json} {m : Machine}
    (h : (Machine.ofDocument .standard document).outcome = .ok m) :
    (Machine.ofDocument .standard document).log.filterMap Event.read? =
      m.states.preorder.map State.label := by
  obtain ⟨versions, hversions, hlog⟩ := Machine.log_ofDocument h
  have hnone : versions.filterMap Event.read? = [] := by
    refine List.filterMap_eq_nil_iff.mpr fun e he => ?_
    obtain ⟨found, rfl⟩ := hversions e he
    rfl
  rw [hlog, List.filterMap_append, hnone, List.append_nil, List.filterMap_map,
    ← List.filterMap_eq_map]
  rfl

theorem Machine.written_log {m : Machine} (h : m.problems = []) :
    m.toDocument.log.filterMap Event.written? = m.states.preorder.map State.label := by
  rw [Machine.log_toDocument h, List.filterMap_map, ← List.filterMap_eq_map]
  rfl

/-- **Both passes come to every state once, in preorder.** The states that reading a machine logs
are those of the listing in preorder, and so are those that writing it logs if it has no
problems. If it has some, no state is begun to be written, and there is no document. -/
theorem Machine.passes_agree {document : Json} {m : Machine}
    (h : (Machine.ofDocument .standard document).outcome = .ok m) :
    ListedInOrder (Collection.inside? · m.states) m.states.preorder ∧
      (Machine.ofDocument .standard document).log.filterMap Event.read? =
        m.states.preorder.map State.label ∧
      (m.problems = [] → (∃ written, m.toDocument.outcome = .ok written) ∧
        (Machine.ofDocument .standard document).log.filterMap Event.read? =
          m.toDocument.log.filterMap Event.written? ∧
        m.toDocument.log.filterMap Event.written? = m.states.preorder.map State.label) ∧
      (m.problems ≠ [] → m.toDocument.log = [] ∧ ∃ e, m.toDocument.outcome = .error e) := by
  refine ⟨m.states.preorder_inOrder, Machine.read_log h, fun hproblems => ⟨?_, ?_, ?_⟩,
    fun hproblems => ⟨Machine.log_toDocument_of_problems hproblems, ?_⟩⟩
  · exact ⟨_, Machine.toDocument_eq_ok.mpr ⟨hproblems, rfl⟩⟩
  · rw [Machine.read_log h, Machine.written_log hproblems]
  · exact Machine.written_log hproblems
  · obtain ⟨e, rest, hcons⟩ := List.exists_cons_of_ne_nil hproblems
    exact ⟨e, Machine.toDocument_outcome_of_problems_eq_cons hcons⟩

/-- A document with two branches of the same content, between two other states. -/
def Json.twins : Json :=
  .object [("States", .object [
    ("First", .object [("Type", .string "Pass"), ("Next", .string "Both")]),
    ("Both", .object [("Type", .string "Parallel"), ("Next", .string "Last"),
      ("Branches", .array [
        .object [("States", .object [("Done", .object [("Type", .string "Succeed")])])],
        .object [("States", .object [("Done", .object [("Type", .string "Succeed")])])]])]),
    ("Last", .object [("Type", .string "Succeed")])])]

/-- A document of a state that does not say where control goes. -/
def Json.openEnded : Json :=
  .object [("States", .object [("Idle", .object [("Type", .string "Pass")])])]

theorem Machine.passes_agree_twins : ∃ m n : Machine,
    (Machine.ofDocument .standard Json.twins).outcome = .ok m ∧ m.problems = [] ∧
      ListedInOrder (Collection.inside? · m.states) m.states.preorder ∧
      (Machine.ofDocument .standard Json.twins).log.filterMap Event.read? =
        m.toDocument.log.filterMap Event.written? ∧
      m.toDocument.log.filterMap Event.written? =
        [("Pass", "First"), ("Parallel", "Both"), ("Succeed", "Done"), ("Succeed", "Done"),
          ("Succeed", "Last")] ∧
      (Machine.ofDocument .standard Json.openEnded).outcome = .ok n ∧
      n.problems = [.configurationMissing "Next"] ∧ n.toDocument.log = [] := by
  have htwins : (Machine.ofDocument .standard Json.twins).outcome = .ok _ := rfl
  have hopen : (Machine.ofDocument .standard Json.openEnded).outcome = .ok _ := rfl
  obtain ⟨horder, -, hagree, -⟩ := Machine.passes_agree htwins
  obtain ⟨-, -, -, hstopped⟩ := Machine.passes_agree hopen
  obtain ⟨-, hboth, hwritten⟩ := hagree rfl
  refine ⟨_, _, htwins, rfl, horder, hboth, hwritten, hopen, rfl, (hstopped ?_).1⟩
  exact List.cons_ne_nil _ _

end StatesLanguage
