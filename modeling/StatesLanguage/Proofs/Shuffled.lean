import StatesLanguage.Proofs.Equality
import StatesLanguage.Proofs.Reordering
import StatesLanguage.Proofs.Sound
import StatesLanguage.Proofs.Writing

/-!
# Models up to the order of states

`State.Shuffled` and `Collection.Shuffled` relate two models that come about if the same states
are added in different orders, at any depth: the states of one collection are those of the
other in some order, and a fixed result may have its members in another order, too.

Two things depend on the order in which states are added: the order itself, and the start,
unless it is set afterwards. So the relation has two parameters, propositions under which a
shuffled copy keeps one or both. Where all collections are `sorted`, it keeps the order and the
start, and equals the original (`State.Shuffled.equiv`). Where the start of every collection is
`given`, it keeps the start: then the same problems are reported, in another order
(`State.Shuffled.problems_perm`), and the documents are equal up to the order of members
(`State.Shuffled.document`). All three are inductions on the branches of a state.
-/

namespace StatesLanguage

open Json (Members MemberReorders)

/-! ### Bodies -/

/-- Two bodies agree but for their branches, and for the order of members in their results. -/
inductive Body.Alike {σ : Type} : Body σ → Body σ → Prop
  /-- Pass states. -/
  | pass {b : Pass} {result : Option Json} (h : Option.Rel Json.Reorders b.result result) :
    Alike (.pass b) (.pass { b with result })
  /-- Task states. -/
  | task {b : Task} {result : Option Json} (h : Option.Rel Json.Reorders b.result result) :
    Alike (.task b) (.task { b with result })
  /-- Wait states. -/
  | wait (b : Wait) : Alike (.wait b) (.wait b)
  /-- Succeed states. -/
  | succeed : Alike .succeed .succeed
  /-- Fail states. -/
  | fail (b : Fail) : Alike (.fail b) (.fail b)
  /-- Choice states. -/
  | choice (b : Choice) : Alike (.choice b) (.choice b)
  /-- Parallel states. -/
  | parallel {b : Parallel σ} {branches : List (Collection σ)} :
    Alike (.parallel b) (.parallel { b with branches })

namespace Body.Alike

variable {b c : Body State}

theorem kind_eq (h : b.Alike c) : b.kind = c.kind := by
  cases h <;> rfl

/-- No problem is about a result, and of the branches only their absence is one. -/
theorem ownProblems_eq (h : b.Alike c) (hbranches : b.branches.isEmpty = c.branches.isEmpty) :
    b.ownProblems = c.ownProblems := by
  cases h with
  | @parallel b branches =>
    have hempty : b.branches.isEmpty = branches.isEmpty := hbranches
    simp only [Body.ownProblems, hempty]
    rfl
  | _ => rfl

theorem ownMembers_eq (h : b.Alike c) : b.ownMembers = c.ownMembers := by
  cases h <;> rfl

theorem forall₂_optionalMember {key : String} {x y : Option Json}
    (h : Option.Rel Json.Reorders x y) :
    List.Forall₂ MemberReorders (optionalMember key id x) (optionalMember key id y) := by
  cases h with
  | some hvw => exact .cons (.intro hvw) .nil
  | none => exact .nil

/-- The fields are written member by member alike. -/
theorem fieldMembers (h : b.Alike c) :
    List.Forall₂ MemberReorders b.fieldMembers c.fieldMembers := by
  cases h with
  | pass hresult =>
    rw [Body.fieldMembers_pass, Body.fieldMembers_pass]
    exact List.rel_append (List.rel_append (Json.forall₂_memberReorders_refl _)
      (forall₂_optionalMember hresult)) (Json.forall₂_memberReorders_refl _)
  | task hresult =>
    rw [Body.fieldMembers_task, Body.fieldMembers_task]
    simp only [List.append_assoc]
    exact List.rel_append (Json.forall₂_memberReorders_refl _) (List.rel_append
      (Json.forall₂_memberReorders_refl _) (List.rel_append (forall₂_optionalMember hresult)
        (Json.forall₂_memberReorders_refl _)))
  | _ => exact Json.forall₂_memberReorders_refl _

/-- So are the branches, given that for each of them. -/
theorem branchMembers (h : b.Alike c)
    (hbranches : List.Forall₂ (fun x y : Collection State =>
      List.Forall₂ MemberReorders x.documentMembers y.documentMembers) b.branches c.branches) :
    List.Forall₂ MemberReorders b.branchMembers c.branchMembers := by
  cases h with
  | parallel =>
    refine .cons (.intro (.array ?_)) .nil
    rw [List.forall₂_map_left_iff, List.forall₂_map_right_iff]
    exact hbranches.imp fun x _ hxy => .object (.refl x.documentMembers) hxy
  | _ => exact .nil

end Body.Alike

/-! ### States and collections -/

mutual

/-- One state is a shuffled copy of the other. -/
inductive State.Shuffled (given sorted : Prop) : State → State → Prop
  /-- Name, comment and body agree, and the branches are shuffled copies one by one. -/
  | intro {s t : State} (name : s.name = t.name) (comment : s.comment = t.comment)
    (body : s.body.Alike t.body)
    (branches : List.Forall₂ (Collection.Shuffled given sorted) s.branches t.branches) :
    State.Shuffled given sorted s t

/-- One collection is a shuffled copy of the other. -/
inductive Collection.Shuffled (given sorted : Prop) : Collection State → Collection State → Prop
  /-- The states are brought in another order, and are then shuffled copies one by one. -/
  | intro {c d : Collection State} {ss : List State} (perm : c.states.Perm ss)
    (order : sorted → ss = c.states)
    (states : List.Forall₂ (State.Shuffled given sorted) ss d.states)
    (startAt : given ∨ sorted → c.startAt = d.startAt) (left : c.Indexed) (right : d.Indexed) :
    Collection.Shuffled given sorted c d

end

variable {given sorted : Prop}

theorem State.Shuffled.name_eq {s t : State} (h : s.Shuffled given sorted t) :
    s.name = t.name := by
  obtain ⟨name, _, _, _⟩ := h
  exact name

/-- The names are the same, in some order. -/
theorem Collection.Shuffled.names_perm {c d : Collection State}
    (h : c.Shuffled given sorted d) : c.names.Perm d.names := by
  cases h with
  | @intro c d ss perm _ states _ left right =>
    have hnames : ss.map State.name = d.states.map State.name :=
      map_eq_map_of_forall₂ states fun _ _ _ hst => hst.name_eq
    refine left.names.trans (.trans ?_ right.names.symm)
    rw [← hnames]
    exact perm.map State.name

/-! ### The same problems -/

theorem perm_flatMap_of_forall₂ {α β γ : Type} {R : α → β → Prop} {f : α → List γ}
    {g : β → List γ} {xs : List α} {ys : List β} (h : List.Forall₂ R xs ys)
    (hfg : ∀ x ∈ xs, ∀ y, R x y → (f x).Perm (g y)) : (xs.flatMap f).Perm (ys.flatMap g) := by
  induction h with
  | nil => exact .nil
  | cons hxy _ ih =>
    rw [List.forall_mem_cons] at hfg
    rw [List.flatMap_cons, List.flatMap_cons]
    exact (hfg.1 _ hxy).append (ih hfg.2)

theorem Collection.Shuffled.startProblems_eq {c d : Collection State} (hgiven : given)
    (h : c.Shuffled given sorted d) : c.startProblems = d.startProblems := by
  have hcontains (name : String) : c.names.contains name = d.names.contains name := by
    rw [Bool.eq_iff_iff, List.contains_iff_mem, List.contains_iff_mem]
    exact h.names_perm.mem_iff
  cases h with
  | intro perm _ states startAt _ _ =>
    have hempty : c.states.isEmpty = d.states.isEmpty := by
      rw [Bool.eq_iff_iff, List.isEmpty_iff_length_eq_zero, List.isEmpty_iff_length_eq_zero,
        perm.length_eq, states.length_eq]
    simp only [Collection.startProblems, hempty, startAt (Or.inl hgiven), hcontains]

/-- Shuffled collections have the same problems, given that for the states in them. -/
theorem Collection.Shuffled.problems_perm {c d : Collection State} (hgiven : given)
    (h : c.Shuffled given sorted d)
    (hstates : ∀ s ∈ c.states, ∀ t, s.Shuffled given sorted t → s.problems.Perm t.problems) :
    c.problems.Perm d.problems := by
  rw [Collection.problems, Collection.problems, h.startProblems_eq hgiven,
    State.listProblems_eq_flatMap, State.listProblems_eq_flatMap]
  refine List.Perm.append_right _ ?_
  cases h with
  | intro perm _ states _ _ _ =>
    refine (perm.flatMap_right _).trans (perm_flatMap_of_forall₂ states fun s hs t hst => ?_)
    exact hstates s (perm.mem_iff.mpr hs) t hst

/-- **A shuffled copy has the same problems**, in some order: by induction on the branches. -/
theorem State.Shuffled.problems_perm {s t : State} (hgiven : given)
    (h : s.Shuffled given sorted t) : s.problems.Perm t.problems := by
  induction s using State.branchInduction generalizing t with
  | step s ih =>
    cases h with
    | intro _ _ body branches =>
      have hempty : s.body.branches.isEmpty = t.body.branches.isEmpty := by
        rw [Bool.eq_iff_iff, List.isEmpty_iff_length_eq_zero, List.isEmpty_iff_length_eq_zero]
        exact iff_of_eq (congrArg (· = 0) branches.length_eq)
      rw [State.problems_eq, State.problems_eq, body.ownProblems_eq hempty]
      refine List.Perm.append_left _ (perm_flatMap_of_forall₂ branches fun c hc d hcd => ?_)
      exact hcd.problems_perm hgiven fun u hu w huw => ih c hc u hu huw

/-! ### The same document -/

theorem Collection.Shuffled.documentMembers {c d : Collection State} (hgiven : given)
    (h : c.Shuffled given sorted d)
    (hstates : ∀ s ∈ c.states, ∀ t, s.Shuffled given sorted t → s.document.Reorders t.document) :
    List.Forall₂ MemberReorders c.documentMembers d.documentMembers := by
  cases h with
  | @intro c d ss perm _ states startAt left right =>
    -- names are distinct, so that the document has a member for each state, in their order
    rw [Collection.documentMembers, Collection.documentMembers, startAt (Or.inl hgiven),
      Collection.collect_documents left.distinct,
      Collection.collect_documents right.distinct]
    refine List.rel_append (Json.forall₂_memberReorders_refl _) (.cons (.intro ?_) .nil)
    refine .object (perm.map _) ?_
    rw [List.forall₂_map_left_iff, List.forall₂_map_right_iff]
    refine forall₂_imp_of_mem states fun s hs t _ hst => ?_
    rw [hst.name_eq]
    exact .intro (hstates s (perm.mem_iff.mpr hs) t hst)

/-- **A shuffled copy is written as the same document**, up to the order of members: by
induction on the branches. -/
theorem State.Shuffled.document {s t : State} (hgiven : given)
    (h : s.Shuffled given sorted t) : s.document.Reorders t.document := by
  induction s using State.branchInduction generalizing t with
  | step s ih =>
    cases h with
    | intro _ comment body branches =>
      have hmembers := body.branchMembers (forall₂_imp_of_mem branches fun c hc d _ hcd =>
        hcd.documentMembers hgiven fun u hu w huw => ih c hc u hu huw)
      rw [State.document_eq, State.document_eq, State.documentMembers, State.documentMembers,
        State.kind, State.kind, body.kind_eq, comment, body.ownMembers_eq]
      refine .object (.refl _) ?_
      exact List.rel_append (List.rel_append (Json.forall₂_memberReorders_refl _) hmembers)
        body.fieldMembers

/-! ### Equality -/

theorem Body.resultEquiv_of_rel {x y : Option Json} (h : Option.Rel Json.Reorders x y)
    (hx : ∀ v, x = some v → v.HasDistinctKeys) : Body.resultEquiv x y = true := by
  cases h with
  | some hvw => exact hvw.equiv (hx _ rfl)
  | none => rfl

/-- States are equal if their bodies agree up to the order of members and to equal branches. -/
theorem State.equiv_of_alike {s t : State} (hname : s.name = t.name)
    (hcomment : s.comment = t.comment) (hbody : s.body.Alike t.body)
    (hresult : ∀ v, s.body.result? = some v → v.HasDistinctKeys)
    (hbranches : List.Forall₂ (fun c d => c.equiv d = true) s.branches t.branches) :
    s.equiv t = true := by
  obtain ⟨name, comment, body⟩ := s
  obtain ⟨name', comment', body'⟩ := t
  obtain rfl : name = name' := hname
  obtain rfl : comment = comment' := hcomment
  cases hbody with
  | pass h =>
    have hresult := Body.resultEquiv_of_rel h hresult
    simp [State.equiv, hresult]
  | task h =>
    have hresult := Body.resultEquiv_of_rel h hresult
    simp [State.equiv, hresult]
  | wait b | succeed | fail b => simp [State.equiv]
  | choice b => simp [State.equiv, Rule.listEquiv_refl fun r _ => r.equiv_refl]
  | parallel =>
    -- the only kind with branches: the others do not look at them
    have hbranches := Collection.listEquiv_iff.mpr hbranches
    simp only [State.branches, Body.branches] at hbranches
    simp [State.equiv, hbranches]

/-- Sorted copies of collections are equal, given that for the states in them. -/
theorem Collection.Shuffled.equiv {c d : Collection State} (hsorted : sorted)
    (h : c.Shuffled given sorted d)
    (hstates : ∀ s ∈ c.states, ∀ t, s.Shuffled given sorted t → s.equiv t = true) :
    c.equiv d = true := by
  cases h with
  | intro _ order states startAt _ _ =>
    -- states are compared by position, so this is where the order counts
    obtain rfl := order hsorted
    refine Collection.equiv_iff.mpr ⟨?_, startAt (Or.inr hsorted)⟩
    exact forall₂_imp_of_mem states fun s hs t _ hst => hstates s hs t hst

/-- **A sorted copy equals the original**: by induction on the branches. -/
theorem State.Shuffled.equiv {s t : State} (hsorted : sorted) (hs : s.Sound)
    (h : s.Shuffled given sorted t) : s.equiv t = true := by
  induction s using State.branchInduction generalizing t with
  | step s ih =>
    cases h with
    | intro name comment body branches =>
      refine State.equiv_of_alike name comment body hs.body.result ?_
      refine forall₂_imp_of_mem branches fun c hc d _ hcd => ?_
      exact hcd.equiv hsorted fun u hu w huw =>
        ih c hc u hu ((hs.branches c hc).inside u hu) huw

/-! ### Machines -/

/-- One machine is a shuffled copy of the other. -/
structure Machine.Shuffled (given sorted : Prop) (m n : Machine) : Prop where
  /-- The states and the start. -/
  states : m.states.Shuffled given sorted n.states
  /-- The description. -/
  comment : m.comment = n.comment
  /-- How long the machine may run. -/
  timeout : m.timeout = n.timeout
  /-- The version of the language. -/
  version : m.version = n.version

namespace Machine.Shuffled

variable {m n : Machine} (h : m.Shuffled given sorted n)

include h

theorem equiv (hsorted : sorted) (hm : m.states.Sound) : m.equiv n = true := by
  have hstates := h.states.equiv hsorted fun s hs t hst => hst.equiv hsorted (hm.inside s hs)
  rw [Machine.equiv, hstates, h.comment, h.timeout, h.version]
  simp

theorem problems_perm (hgiven : given) : m.problems.Perm n.problems :=
  h.states.problems_perm hgiven fun _ _ _ hst => hst.problems_perm hgiven

theorem document (hgiven : given) : m.document.Reorders n.document := by
  have hmembers := h.states.documentMembers hgiven fun _ _ _ hst => hst.document hgiven
  rw [Machine.document, Machine.document, Machine.documentMembers, Machine.documentMembers,
    h.comment, h.timeout, h.version]
  simp only [List.append_assoc]
  exact .object (.refl _)
    (List.rel_append hmembers (Json.forall₂_memberReorders_refl _))

end Machine.Shuffled

end StatesLanguage
