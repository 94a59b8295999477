import StatesLanguage.Proofs.Built
import StatesLanguage.Proofs.Rereading

/-!
# The order of keys in a document

A document may list the members of its objects in any order. What of this reaches the machine
that is read from it? The states are added in the order in which they are listed, and the first
one is the start unless `StartAt` names another. Nothing else depends on an order of members.

`Machine.exists_shuffled` says so: from a document in another order a shuffled copy of the
machine is read (`Machine.Shuffled`), which keeps the order of the states if the documents list
them in the same order, and the start if it is given. Both conditions are about the
collections in the documents that are read at all: the one at the top, and those that stand in
the branches of parallel states. `Reached` relates the collections at the same place of two
documents, and `SameOrder` and `GivesStarts` are the two conditions on them.

`Machine.keyOrder` is the outcome. Two documents in different orders are accepted or refused
together, and the machines have the same problems and the same document up to order, if every
start is given; they are equal if the states are listed in the same order.
-/

namespace StatesLanguage

open Json (Members)

/-! ### Places in two documents -/

/-- Two collections hold these states under the same name. -/
def StatesAt (ms ns xs ys : Members) : Prop :=
  ∃ name states states', (ms.lookup "States").getD (.object []) = .object states ∧
    (ns.lookup "States").getD (.object []) = .object states' ∧
      (name, .object xs) ∈ states ∧ (name, .object ys) ∈ states'

/-- Two parallel states have these branches at the same position. -/
def BranchesAt (r : Registry) (xs ys ms ns : Members) : Prop :=
  (∃ type, xs.lookup "Type" = some (.string type) ∧ r.resolve type = .ok .parallel) ∧
    ∃ (vs ws : List Json) (i : Nat), (xs.lookup "Branches").getD (.array []) = .array vs ∧
      (ys.lookup "Branches").getD (.array []) = .array ws ∧
        vs[i]? = some (.object ms) ∧ ws[i]? = some (.object ns)

/-- The members of two collections that stand at the same place of two documents. -/
inductive Reached (r : Registry) (D E : Json) : Members → Members → Prop
  /-- At the top. -/
  | top {ms ns : Members} (hD : D = .object ms) (hE : E = .object ns) : Reached r D E ms ns
  /-- In a branch of a state. -/
  | branch {ms ns xs ys ms' ns' : Members} (h : Reached r D E ms ns)
    (hstate : StatesAt ms ns xs ys) (hbranch : BranchesAt r xs ys ms' ns') :
    Reached r D E ms' ns'

/-- Both documents list the names of states in the same order, wherever states are read. -/
def SameOrder (r : Registry) (D E : Json) : Prop :=
  ∀ ms ns xs ys, Reached r D E ms ns → (ms.lookup "States").getD (.object []) = .object xs →
    (ns.lookup "States").getD (.object []) = .object ys → xs.map Prod.fst = ys.map Prod.fst

/-- The document gives the start of every collection that is read. -/
def GivesStarts (r : Registry) (D : Json) : Prop :=
  ∀ ms ns, Reached r D D ms ns → (ms.lookup "StartAt").isSome = true

/-- A place of two documents is a place of the first one. -/
theorem Reached.left {r : Registry} {D E : Json} {ms ns : Members} (h : Reached r D E ms ns) :
    Reached r D D ms ms := by
  induction h with
  | top hD _ => exact .top hD hD
  | branch _ hstate hbranch ih =>
    obtain ⟨name, states, _, hstates, -, hx, -⟩ := hstate
    obtain ⟨htype, vs, _, i, hvs, -, hi, -⟩ := hbranch
    exact .branch ih ⟨name, states, states, hstates, hstates, hx, hx⟩
      ⟨htype, vs, vs, i, hvs, hvs, hi, hi⟩

/-! ### States and collections -/

section Reading

variable {r : Registry} {D E : Json} {given sorted : Prop}

/-- From every value in another order a shuffled copy of the state is read, as long as its
branches stand at places of the two documents. -/
def State.Rereads (r : Registry) (D E : Json) (given sorted : Prop) (s : State) : Prop :=
  ∀ name v w, v.HasDistinctKeys → v.Reorders w →
    (∀ xs ys ms ns, v = .object xs → w = .object ys → BranchesAt r xs ys ms ns →
      Reached r D E ms ns) →
    (State.ofJson r name v).outcome = .ok s →
      ∃ t, (State.ofJson r name w).outcome = .ok t ∧ s.Shuffled given sorted t

variable (hgiven : given → GivesStarts r D) (hsorted : sorted → SameOrder r D E)

include hgiven hsorted

/-- From a collection in another order a shuffled copy is read, given that for the states. -/
theorem Collection.exists_shuffled {ms ns : Members} (hreached : Reached r D E ms ns)
    (hms : (Json.object ms).HasDistinctKeys) (h : (Json.object ms).Reorders (.object ns))
    {c : Collection State} (hc : c.Shown r ms)
    (hstates : ∀ s ∈ c.states, s.Rereads r D E given sorted) :
    ∃ d : Collection State, d.Shown r ns ∧ c.Shuffled given sorted d := by
  have hlike := h.lookAlike hms
  obtain ⟨xs, hxs, hreads⟩ := hc.states
  obtain ⟨ys, hys, hreorders⟩ := hlike.object hxs
  have hxsdistinct := hms.getD hxs (.object List.nodup_nil nofun)
  have hysdistinct := hreorders.hasDistinctKeys hxsdistinct
  obtain ⟨start, hstart, hcstart⟩ := hc.startAt
  cases hreorders with
  | @object _ _ zs perm members =>
  -- the states in the order of the second document
  obtain ⟨ss, hss, hperm⟩ := List.perm_comp_forall₂ perm.symm hreads
  have hstep : ∃ ts, List.Forall₂ (State.Reads r) ys ts ∧
      List.Forall₂ (State.Shuffled given sorted) ss ts := by
    refine exists_forall₂_of_zip hss members fun m n hmem s hs hread hmn => ?_
    obtain ⟨hm, hn⟩ := List.of_mem_zip hmem
    have hmxs := perm.mem_iff.mpr hm
    obtain ⟨name, v⟩ := m
    cases hmn with
    | @intro _ _ w hvw =>
      refine hstates s (hperm.mem_iff.mp hs) name v w (hxsdistinct.members _ hmxs) hvw ?_ hread
      rintro xs' ys' ms' ns' rfl rfl hbranch
      exact .branch hreached ⟨name, xs, ys, hxs, hys, hmxs, hn⟩ hbranch
  obtain ⟨ts, hts, hshuffled⟩ := hstep
  have hnames : ss.map State.name = ts.map State.name :=
    map_eq_map_of_forall₂ hshuffled fun _ _ _ hst => hst.name_eq
  have hd : Collection.Shown r ns
      ⟨ts, (ts.map State.name).zipIdx, start.or (ts.head?.map State.name), false⟩ := by
    refine ⟨⟨ys, hys, hts⟩, rfl, ?_, ⟨start, hlike.eq_map (fun _ => rfl) hstart, rfl⟩, rfl⟩
    rw [State.names_of_reads hts]
    exact hysdistinct.nodup
  -- `ss` is a permutation of the states, with the same names in the same order
  have horder : sorted → ss = c.states := by
    intro hs
    refine eq_of_perm_of_map_eq hperm ?_ hc.distinct
    rw [hnames, State.names_of_reads hts, State.names_of_reads hreads]
    exact (hsorted hs ms ns xs ys hreached hxs hys).symm
  refine ⟨_, hd, .intro hperm.symm horder hshuffled (fun hcase => ?_) hc.indexed hd.indexed⟩
  -- the start is given, or else the first state, which is the same one in sorted copies
  rcases hcase with hg | hs
  · have hsome := hgiven hg ms ms hreached.left
    rw [hstart, Option.isSome_map] at hsome
    obtain ⟨name, rfl⟩ := Option.isSome_iff_exists.mp hsome
    exact hcstart
  · rw [hcstart, ← horder hs, ← List.head?_map, ← List.head?_map, hnames]

/-- From the branches of a parallel state in another order shuffled copies are read, given that
for the states in them. -/
theorem Collection.exists_forall₂_shuffled {xs ys : Members}
    (hplace : ∀ ms ns, BranchesAt r xs ys ms ns → Reached r D E ms ns)
    (htype : ∃ type, xs.lookup "Type" = some (.string type) ∧ r.resolve type = .ok .parallel)
    (hxs : (Json.object xs).HasDistinctKeys) (hlike : xs.LookAlike ys)
    {cs : List (Collection State)}
    (hcs : ∃ items, (xs.lookup "Branches").getD (.array []) = .array items ∧
      List.Forall₂ (Collection.Reads r) items cs)
    (hstates : ∀ c ∈ cs, ∀ s ∈ c.states, s.Rereads r D E given sorted) :
    ∃ ds, (∃ items, (ys.lookup "Branches").getD (.array []) = .array items ∧
      List.Forall₂ (Collection.Reads r) items ds) ∧
        List.Forall₂ (Collection.Shuffled given sorted) cs ds := by
  obtain ⟨vs, hvs, hreads⟩ := hcs
  obtain ⟨ws, hws, hitems⟩ := hlike.array hvs
  have hdistinct := (hxs.getD hvs (.array nofun)).items
  have hstep : ∃ ds, List.Forall₂ (Collection.Reads r) ws ds ∧
      List.Forall₂ (Collection.Shuffled given sorted) cs ds := by
    refine exists_forall₂_of_zip hreads hitems fun x z hmem c hc hread hxz => ?_
    obtain ⟨ms, rfl, hread⟩ := hread
    have hms := hdistinct _ (List.of_mem_zip hmem).1
    obtain ⟨ns, rfl, -⟩ := hxz.exists_object hms
    obtain ⟨i, hi⟩ := List.mem_iff_getElem?.mp hmem
    obtain ⟨hi, hi'⟩ := List.getElem?_zip_eq_some.mp hi
    have hreached := hplace ms ns ⟨htype, vs, ws, i, hvs, hws, hi, hi'⟩
    obtain ⟨d, hd, hcd⟩ := Collection.exists_shuffled hgiven hsorted hreached hms hxz
      (Collection.ofMembers_eq_ok.mp hread) (hstates c hc)
    exact ⟨d, ⟨ns, rfl, Collection.ofMembers_eq_ok.mpr hd⟩, hcd⟩
  obtain ⟨ds, hds, hshuffled⟩ := hstep
  exact ⟨ds, ⟨ws, hws, hds⟩, hshuffled⟩

/-- **From a state in another order a shuffled copy is read**: by induction on its branches. -/
theorem State.rereads (s : State) : s.Rereads r D E given sorted := by
  induction s using State.branchInduction with
  | step s ih =>
    intro name v w hv h hplace hs
    obtain ⟨xs, rfl, hshown⟩ := State.ofJson_eq_ok.mp hs
    obtain ⟨ys, rfl, hlike⟩ := h.exists_object hv
    obtain ⟨type, htype, hkind⟩ := hshown.type
    -- only a parallel state reads `Branches`; any other has no branches to reread
    have hbranches : ∃ ds, (s.kind = .parallel → ∃ items,
        (ys.lookup "Branches").getD (.array []) = .array items ∧
          List.Forall₂ (Collection.Reads r) items ds) ∧
        List.Forall₂ (Collection.Shuffled given sorted) s.branches ds ∧
        (s.kind ≠ .parallel → ds = []) := by
      by_cases hparallel : s.kind = .parallel
      · obtain ⟨ds, hds, hshuffled⟩ := Collection.exists_forall₂_shuffled hgiven hsorted
          (fun ms ns => hplace xs ys ms ns rfl rfl) ⟨type, htype, hparallel ▸ hkind⟩ hv hlike
          (hshown.branches hparallel) ih
        exact ⟨ds, fun _ => hds, hshuffled, fun hne => absurd hparallel hne⟩
      · have hnil : s.branches = [] := State.branches_eq_nil hparallel
        rw [hnil]
        exact ⟨[], fun h => absurd h hparallel, .nil, fun _ => rfl⟩
    obtain ⟨ds, hds, hshuffled, hnil⟩ := hbranches
    obtain ⟨body, hbody, halike, rfl⟩ := hshown.body.exists_of_lookAlike hv hlike hnil
    have hkind_eq : s.kind = body.kind := halike.kind_eq
    rw [hkind_eq] at hkind hds
    have htype' : ys.lookup "Type" = some (.string type) :=
      hlike.eq_of_isScalar (fun v hv => Option.some.inj hv ▸ rfl) htype
    exact ⟨⟨name, s.comment, body⟩, State.ofJson_eq_ok.mpr ⟨ys, rfl, rfl, ⟨type, htype', hkind⟩,
      hlike.eq_map (fun _ => rfl) hshown.comment, hbody, hds⟩,
      .intro hshown.name rfl halike hshuffled⟩

end Reading

/-! ### Machines -/

/-- **From a document in another order a shuffled copy of the machine is read.** -/
theorem Machine.exists_shuffled {r : Registry} {D E : Json} {given sorted : Prop}
    (hgiven : given → GivesStarts r D) (hsorted : sorted → SameOrder r D E)
    (hD : D.HasDistinctKeys) (h : D.Reorders E) {m : Machine}
    (hm : (Machine.ofDocument r D).outcome = .ok m) :
    ∃ n, (Machine.ofDocument r E).outcome = .ok n ∧ m.Shuffled given sorted n := by
  obtain ⟨ms, rfl, hshown⟩ := Machine.ofDocument_eq_ok.mp hm
  obtain ⟨ns, rfl, hlike⟩ := h.exists_object hD
  obtain ⟨states, hstates, hshuffled⟩ := Collection.exists_shuffled hgiven hsorted
    (.top rfl rfl) hD h hshown.states fun s _ => s.rereads hgiven hsorted
  refine ⟨{ m with states }, Machine.ofDocument_eq_ok.mpr ⟨ns, rfl, hstates, ?_, ?_, ?_⟩,
    hshuffled, rfl, rfl, rfl⟩
  · exact hlike.eq_map (fun _ => rfl) hshown.comment
  · exact hlike.eq_map (fun _ => rfl) hshown.timeout
  · exact hlike.eq_map (fun _ => rfl) hshown.version

/-! ### Both orders -/

/-- **The collections of a document are found again in another order**: by induction on their
place. -/
theorem Reached.exists_of_reorders {r : Registry} {D E : Json} (hD : D.HasDistinctKeys)
    (h : D.Reorders E) {ms ns : Members} (hreached : Reached r D D ms ns) :
    ∃ ms', Reached r E E ms' ms' ∧ (Json.object ms).HasDistinctKeys ∧
      (Json.object ms).Reorders (.object ms') := by
  induction hreached with
  | top hms _ =>
    subst hms
    obtain ⟨ns, rfl, -⟩ := h.exists_object hD
    exact ⟨ns, .top rfl rfl, hD, h⟩
  | branch _ hstate hbranch ih =>
    obtain ⟨ns, hreached, hms, hreorders⟩ := ih
    obtain ⟨name, states, _, hstates, -, hx, -⟩ := hstate
    obtain ⟨⟨type, htype, hkind⟩, vs, _, i, hvs, -, hi, -⟩ := hbranch
    -- down to the state, and from there to the branch
    obtain ⟨states', hstates', hmembers⟩ := (hreorders.lookAlike hms).object hstates
    have hdistinct := (hms.getD hstates (.object List.nodup_nil nofun)).members _ hx
    obtain ⟨y, hy, hxy⟩ := hmembers.exists_member hx
    obtain ⟨ys, rfl, hlike⟩ := hxy.exists_object hdistinct
    have htype' : ys.lookup "Type" = some (.string type) :=
      hlike.eq_of_isScalar (fun v hv => Option.some.inj hv ▸ rfl) htype
    obtain ⟨ws, hws, hitems⟩ := hlike.array hvs
    have hinside := (hdistinct.getD hvs (.array nofun)).items _ (List.mem_of_getElem? hi)
    obtain ⟨z, hz, hreorders'⟩ := exists_getElem?_of_forall₂ hitems hi
    obtain ⟨ns', rfl, -⟩ := hreorders'.exists_object hinside
    exact ⟨ns', .branch hreached ⟨name, states', states', hstates', hstates', hy, hy⟩
      ⟨⟨type, htype', hkind⟩, ws, ws, i, hws, hws, hz, hz⟩, hinside, hreorders'⟩

/-- Where one document gives all starts, so does the other. -/
theorem GivesStarts.of_reorders {r : Registry} {D E : Json} (hD : D.HasDistinctKeys)
    (h : D.Reorders E) (hgiven : GivesStarts r D) : GivesStarts r E := by
  intro ns _ hreached
  obtain ⟨ms, hreached', hns, hreorders⟩ :=
    hreached.exists_of_reorders (h.hasDistinctKeys hD) h.symm
  rw [← (hreorders.lookAlike hns).isSome_eq]
  exact hgiven ms ms hreached'

/-- **The order of keys does not matter.** Documents in different orders are accepted or refused
together. If they list the states in the same order, the machines are equal. If all starts are
given, the machines have the same problems and are written as the same document, both up to
order, or not at all. -/
theorem Machine.keyOrder (r : Registry) (D E : Json) (hD : D.HasDistinctKeys)
    (h : D.Reorders E) :
    ((∃ m, (Machine.ofDocument r D).outcome = .ok m) ↔
      ∃ n, (Machine.ofDocument r E).outcome = .ok n) ∧
    ∀ m n, (Machine.ofDocument r D).outcome = .ok m → (Machine.ofDocument r E).outcome = .ok n →
      (SameOrder r D E → m.equiv n = true) ∧
      (GivesStarts r D → GivesStarts r E ∧ m.problems.Perm n.problems ∧
        ((∃ v, m.toDocument.outcome = .ok v) ↔ ∃ w, n.toDocument.outcome = .ok w) ∧
        ∀ v w, m.toDocument.outcome = .ok v → n.toDocument.outcome = .ok w → v.Reorders w) := by
  have hE := h.hasDistinctKeys hD
  refine ⟨⟨?_, ?_⟩, fun m n hm hn => ⟨fun horder => ?_, fun hstarts => ?_⟩⟩
  · -- neither condition is needed for the reading itself
    rintro ⟨m, hm⟩
    obtain ⟨n, hn, -⟩ := Machine.exists_shuffled False.elim False.elim hD h hm
    exact ⟨n, hn⟩
  · rintro ⟨n, hn⟩
    obtain ⟨m, hm, -⟩ := Machine.exists_shuffled False.elim False.elim hE h.symm hn
    exact ⟨m, hm⟩
  · obtain ⟨n', hn', hshuffled⟩ :=
      Machine.exists_shuffled False.elim (fun _ : True => horder) hD h hm
    obtain rfl := Except.ok.inj (hn.symm.trans hn')
    exact hshuffled.equiv trivial (Machine.Built.read hD hm).sound
  · obtain ⟨n', hn', hshuffled⟩ :=
      Machine.exists_shuffled (fun _ : True => hstarts) False.elim hD h hm
    obtain rfl := Except.ok.inj (hn.symm.trans hn')
    have hproblems := hshuffled.problems_perm trivial
    refine ⟨hstarts.of_reorders hD h, hproblems, ?_, fun v w hv hw => ?_⟩
    · -- a machine is written exactly if it has no problems
      simp only [Machine.toDocument_eq_ok, exists_and_left, exists_eq, and_true]
      rw [← List.perm_nil, ← List.perm_nil]
      exact ⟨hproblems.symm.trans, hproblems.trans⟩
    · rw [(Machine.toDocument_eq_ok.mp hv).2, (Machine.toDocument_eq_ok.mp hw).2]
      exact hshuffled.document trivial

/-! ### A document in three orders -/

namespace KeyOrder

/-- A document with a start. -/
def original : Json :=
  .object [("StartAt", .string "Idle"), ("States", .object [
    ("Idle", .object [("Type", .string "Pass"), ("Next", .string "Done"),
      ("Result", .object [("a", .null), ("b", .bool true)])]),
    ("Done", .object [("Type", .string "Succeed")])])]

/-- Its states, with their members in another order. -/
def states : Members :=
  [("Idle", .object [("Next", .string "Done"), ("Type", .string "Pass"),
      ("Result", .object [("b", .bool true), ("a", .null)])]),
    ("Done", .object [("Type", .string "Succeed")])]

/-- A document with the start behind the states. -/
def reordered (states : Members) : Json :=
  .object [("States", .object states), ("StartAt", .string "Idle")]

theorem original_reorders {ss : Members} (h : ss.Perm states) :
    original.Reorders (reordered ss) := by
  have hresult : (Json.object [("b", .bool true), ("a", .null)]).Reorders
      (.object [("a", .null), ("b", .bool true)]) :=
    .object (.swap _ _ []) (.cons (.intro .null) (.cons (.intro (.bool true)) .nil))
  have hidle : (Json.object [("Next", .string "Done"), ("Type", .string "Pass"),
        ("Result", .object [("b", .bool true), ("a", .null)])]).Reorders
      (.object [("Type", .string "Pass"), ("Next", .string "Done"),
        ("Result", .object [("a", .null), ("b", .bool true)])]) :=
    .object (.swap _ _ _) (.cons (.intro (.string "Pass")) (.cons (.intro (.string "Done"))
      (.cons (.intro hresult) .nil)))
  -- it is the first of two objects whose members may be permuted, so begin with the other one
  have hback : (reordered ss).Reorders original :=
    .object (.swap _ _ []) (.cons (.intro (.string "Idle"))
      (.cons (.intro (.object h (.cons (.intro hidle) (.cons (.intro (.refl _)) .nil)))) .nil))
  exact hback.symm

/-- None of the states is parallel. -/
theorem reached_original {E : Json} {ms ns : Members} (h : Reached .standard original E ms ns) :
    original = .object ms ∧ E = .object ns := by
  induction h with
  | top hD hE => exact ⟨hD, hE⟩
  | branch _ hstate hbranch ih =>
    exfalso
    obtain rfl := Json.object.inj ih.1
    obtain ⟨name, states, _, hstates, -, hx, -⟩ := hstate
    obtain rfl := Json.object.inj hstates
    obtain ⟨⟨type, htype, hkind⟩, -⟩ := hbranch
    obtain rfl := (Registry.resolve_standard type .parallel).mp hkind
    simp only [List.mem_cons, Prod.mk.injEq, Json.object.injEq, List.not_mem_nil, or_false] at hx
    rcases hx with ⟨-, rfl⟩ | ⟨-, rfl⟩ <;> simp [StateKind.name] at htype

end KeyOrder

theorem Machine.keyOrder_reordered : ∃ m n k : Machine,
    (Machine.ofDocument .standard KeyOrder.original).outcome = .ok m ∧
      (Machine.ofDocument .standard (KeyOrder.reordered KeyOrder.states)).outcome = .ok n ∧
      (Machine.ofDocument .standard (KeyOrder.reordered KeyOrder.states.reverse)).outcome = .ok k ∧
      m.equiv n = true ∧ m.problems.Perm k.problems ∧
      ∃ v w, m.toDocument.outcome = .ok v ∧ k.toDocument.outcome = .ok w ∧ v.Reorders w := by
  have hm : (Machine.ofDocument .standard KeyOrder.original).outcome = .ok _ := rfl
  have hn : (Machine.ofDocument .standard (KeyOrder.reordered KeyOrder.states)).outcome =
    .ok _ := rfl
  have hk : (Machine.ofDocument .standard (KeyOrder.reordered KeyOrder.states.reverse)).outcome =
    .ok _ := rfl
  have horder : SameOrder .standard KeyOrder.original (KeyOrder.reordered KeyOrder.states) := by
    intro ms ns xs ys h hxs hys
    obtain ⟨hms, hns⟩ := KeyOrder.reached_original h
    obtain rfl := Json.object.inj hms
    obtain rfl := Json.object.inj hns
    obtain rfl := Json.object.inj hxs
    obtain rfl := Json.object.inj hys
    rfl
  have hstarts : GivesStarts .standard KeyOrder.original := by
    intro ms ns h
    obtain rfl := Json.object.inj (KeyOrder.reached_original h).1
    rfl
  obtain ⟨-, hsorted⟩ := keyOrder .standard KeyOrder.original (KeyOrder.reordered KeyOrder.states)
    (by decide) (KeyOrder.original_reorders (.refl _))
  obtain ⟨-, hgiven⟩ := keyOrder .standard KeyOrder.original
    (KeyOrder.reordered KeyOrder.states.reverse) (by decide)
    (KeyOrder.original_reorders (List.reverse_perm _))
  obtain ⟨-, hproblems, hencodes, hreorders⟩ := (hgiven _ _ hm hk).2 hstarts
  obtain ⟨w, hw⟩ := hencodes.mp ⟨_, rfl⟩
  exact ⟨_, _, _, hm, hn, hk, (hsorted _ _ hm hn).1 horder, hproblems, _, w, rfl, hw,
    hreorders _ w rfl hw⟩

end StatesLanguage
