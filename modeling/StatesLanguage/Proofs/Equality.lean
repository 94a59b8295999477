import StatesLanguage.Proofs.Members
import StatesLanguage.Proofs.Preorder
import StatesLanguage.Proofs.Success

/-!
# Equality of models

Two models are equal if they are made of the same parts in the same order, up to the
equality of the JSON values in them. Equality walks over both models at once; here the
walks over lists become statements on the items, and equality of states one on their
branches.

A model equals itself, unless a JSON value in it holds a key twice.
-/

namespace StatesLanguage

/-! ### Rules -/

theorem Comparison.equiv_refl (c : Comparison) : c.equiv c = true := by
  rw [Comparison.equiv, beq_self_eq_true, beq_self_eq_true]
  rcases h : c.literal with _ | v
  · rfl
  · -- a literal that is accepted is no object, and so equals itself
    have hscalar := Operand.isScalar_of_accepts (c.accepted v h)
    exact (Json.HasDistinctKeys.of_isScalar hscalar).equiv_refl

theorem Rule.listEquiv_refl {rs : List Rule} (h : ∀ r ∈ rs, r.equiv r = true) :
    Rule.listEquiv rs rs = true := by
  induction rs with
  | nil => rfl
  | cons r rs ih =>
    rw [List.forall_mem_cons] at h
    rw [Rule.listEquiv, h.1, ih h.2]
    rfl

theorem Rule.equiv_refl (r : Rule) : r.equiv r = true := by
  induction r with
  | logic op children next ih =>
    rw [Rule.equiv, Rule.listEquiv_refl ih, beq_self_eq_true, beq_self_eq_true]
    rfl
  | compare c next =>
    rw [Rule.equiv, c.equiv_refl, beq_self_eq_true]
    rfl

/-! ### Walks over states and collections -/

theorem State.listEquiv_iff {ss ts : List State} :
    State.listEquiv ss ts = true ↔ List.Forall₂ (fun s t => s.equiv t = true) ss ts := by
  induction ss generalizing ts with
  | nil => cases ts <;> simp [State.listEquiv]
  | cons s ss ih => cases ts <;> simp [State.listEquiv, ih]

theorem Collection.listEquiv_iff {cs ds : List (Collection State)} :
    Collection.listEquiv cs ds = true ↔
      List.Forall₂ (fun c d => c.equiv d = true) cs ds := by
  induction cs generalizing ds with
  | nil => cases ds <;> simp [Collection.listEquiv]
  | cons c cs ih => cases ds <;> simp [Collection.listEquiv, Collection.equiv, ih]

theorem Collection.equiv_iff {c d : Collection State} : c.equiv d = true ↔
    List.Forall₂ (fun s t => s.equiv t = true) c.states d.states ∧ c.startAt = d.startAt := by
  rw [Collection.equiv, Bool.and_eq_true, State.listEquiv_iff, beq_iff_eq]

/-! ### States -/

/-- A state equals one that differs from it in its branches only, if these are equal. -/
theorem Parallel.equiv_of_branches {name : String} {comment : Option String}
    {b : Parallel State} {branches : List (Collection State)}
    (h : List.Forall₂ (fun c d => c.equiv d = true) branches b.branches) :
    State.equiv ⟨name, comment, .parallel { b with branches }⟩ ⟨name, comment, .parallel b⟩ =
      true := by
  rw [← Collection.listEquiv_iff] at h
  simp [State.equiv, h]

theorem Body.resultEquiv_refl {r : Option Json} (h : ∀ v, r = some v → v.HasDistinctKeys) :
    Body.resultEquiv r r = true := by
  cases r with
  | none => rfl
  | some v => exact (h v rfl).equiv_refl

/-- A state without branches equals itself. -/
theorem State.equiv_refl_of_kind {s : State} (h : s.kind ≠ .parallel)
    (hresult : ∀ v, s.body.result? = some v → v.HasDistinctKeys) : s.equiv s = true := by
  obtain ⟨name, comment, body⟩ := s
  cases body with
  | pass b =>
    have := Body.resultEquiv_refl hresult
    simpa [State.equiv, Body.result?] using this
  | task b =>
    have := Body.resultEquiv_refl hresult
    simpa [State.equiv, Body.result?] using this
  | wait b | succeed | fail b => simp [State.equiv]
  | choice b => simp [State.equiv, Rule.listEquiv_refl fun r _ => r.equiv_refl]
  | parallel b => exact absurd rfl h

/-- Equal states handle errors alike themselves, and their branches are equal. -/
theorem State.parts_of_equiv {s t : State} (h : s.equiv t = true) :
    s.body.catchers = t.body.catchers ∧
      List.Forall₂ (fun c d => c.equiv d = true) s.branches t.branches := by
  obtain ⟨name, comment, body⟩ := s
  obtain ⟨name', comment', body'⟩ := t
  rw [← Collection.listEquiv_iff]
  cases body <;> cases body' <;>
    simp_all [State.equiv, Body.catchers, State.branches, Body.branches, Collection.listEquiv]

theorem flatMap_eq_of_forall₂ {α β : Type} {R : α → α → Prop} {f : α → List β} {xs ys : List α}
    (h : List.Forall₂ R xs ys) (hf : ∀ x ∈ xs, ∀ y, R x y → f x = f y) :
    xs.flatMap f = ys.flatMap f := by
  induction h with
  | nil => rfl
  | cons hxy _ ih =>
    rw [List.forall_mem_cons] at hf
    rw [List.flatMap_cons, List.flatMap_cons, hf.1 _ hxy, ih hf.2]

/-- **Equal states handle errors alike**, at all depths: by induction on their branches. -/
theorem State.catchers_eq_of_equiv {s t : State} (h : s.equiv t = true) :
    s.catchers = t.catchers := by
  induction s using State.branchInduction generalizing t with
  | step s ih =>
  obtain ⟨hbody, hbranches⟩ := State.parts_of_equiv h
  rw [State.catchers_eq, State.catchers_eq, hbody]
  congr 1
  exact flatMap_eq_of_forall₂ hbranches fun c hc d hcd =>
    flatMap_eq_of_forall₂ (Collection.equiv_iff.mp hcd).1 fun u hu w huw => ih c hc u hu huw

theorem Machine.catchers_eq_of_equiv {m n : Machine} (h : m.equiv n = true) :
    m.catchers = n.catchers := by
  rw [Machine.equiv, Bool.and_eq_true, Bool.and_eq_true, Bool.and_eq_true] at h
  exact flatMap_eq_of_forall₂ (Collection.equiv_iff.mp h.1.1.1).1 fun _ _ _ hst =>
    State.catchers_eq_of_equiv hst

end StatesLanguage
