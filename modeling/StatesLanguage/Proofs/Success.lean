import Mathlib.Data.List.Forall2
import StatesLanguage.EditAt

/-!
# When computations succeed

A reader or an edit is a chain of steps, and it succeeds exactly if all of them do.
The lemmas here say so for each way of chaining steps, so that the success of a
function can be read off its definition: a success of the whole is taken apart into
the values of the steps, and put together from them. Where it fails, it does so with the
first step that fails.

Walks over lists are stated with `List.Forall₂`, which relates the items of two
lists one by one.
-/

namespace StatesLanguage

variable {ε α β : Type}

/-! ### Chains of steps -/

theorem bind_eq_ok {x : Except ε α} {f : α → Except ε β} {b : β} :
    (x >>= f) = .ok b ↔ ∃ a, x = .ok a ∧ f a = .ok b := by
  cases x with
  | ok a => exact ⟨fun h => ⟨a, rfl, h⟩, fun ⟨_, h, h'⟩ => Except.ok.inj h ▸ h'⟩
  | error e =>
    constructor
    · rintro ⟨⟩
    · rintro ⟨_, ⟨⟩, _⟩

theorem map_eq_ok {x : Except ε α} {f : α → β} {b : β} :
    x.map f = .ok b ↔ ∃ a, x = .ok a ∧ f a = b := by
  cases x with
  | ok a =>
    constructor
    · intro h
      exact ⟨a, rfl, Except.ok.inj h⟩
    · rintro ⟨_, ⟨⟩, rfl⟩
      rfl
  | error e =>
    constructor
    · rintro ⟨⟩
    · rintro ⟨_, ⟨⟩, _⟩

theorem pure_eq_ok {a b : α} : (pure a : Except ε α) = .ok b ↔ a = b :=
  ⟨Except.ok.inj, congrArg _⟩

/-- A check succeeds if it holds, with a value that carries the proof. -/
theorem dite_eq_ok {c : Prop} [Decidable c] {f : c → α} {e : ε} {a : α} :
    (if h : c then Except.ok (f h) else .error e) = .ok a ↔ ∃ h : c, f h = a := by
  by_cases h : c
  · rw [dif_pos h, Except.ok.injEq, exists_prop_of_true h]
  · rw [dif_neg h]
    exact iff_of_false nofun fun ⟨hc, _⟩ => h hc

theorem bind_eq_error {x : Except ε α} {f : α → Except ε β} {e : ε} :
    (x >>= f) = .error e ↔ x = .error e ∨ ∃ a, x = .ok a ∧ f a = .error e := by
  cases x with
  | ok a =>
    constructor
    · intro h
      exact Or.inr ⟨a, rfl, h⟩
    · rintro (h | ⟨_, h, hf⟩)
      · nomatch h
      · exact Except.ok.inj h ▸ hf
  | error e' =>
    constructor
    · intro h
      exact Or.inl (congrArg _ (Except.error.inj h))
    · rintro (h | ⟨_, h, _⟩)
      · exact congrArg _ (Except.error.inj h)
      · nomatch h

theorem map_eq_error {x : Except ε α} {f : α → β} {e : ε} :
    x.map f = .error e ↔ x = .error e := by
  cases x <;> simp [Except.map]

/-! ### Walks over lists -/

/-- **A walk over a list succeeds if every step does**, with the values of the
steps. -/
theorem mapM_eq_ok {f : α → Except ε β} {xs : List α} {ys : List β} :
    xs.mapM f = .ok ys ↔ List.Forall₂ (fun x y => f x = .ok y) xs ys := by
  induction xs generalizing ys with
  | nil => rw [List.mapM_nil, pure_eq_ok, List.forall₂_nil_left_iff, eq_comm]
  | cons x xs ih =>
    rw [List.mapM_cons, bind_eq_ok, List.forall₂_cons_left_iff]
    constructor
    · rintro ⟨y, hy, h⟩
      obtain ⟨rest, hrest, h⟩ := bind_eq_ok.mp h
      exact ⟨y, rest, hy, ih.mp hrest, (pure_eq_ok.mp h).symm⟩
    · rintro ⟨y, rest, hy, hrest, rfl⟩
      exact ⟨y, hy, bind_eq_ok.mpr ⟨rest, ih.mpr hrest, rfl⟩⟩

/-- **A walk over a list fails with the first step that fails.** -/
theorem mapM_eq_error {f : α → Except ε β} {xs : List α} {e : ε} :
    xs.mapM f = .error e ↔ ∃ before x after, xs = before ++ x :: after ∧
      (∀ y ∈ before, ∃ b, f y = .ok b) ∧ f x = .error e := by
  induction xs with
  | nil =>
    refine iff_of_false (fun h => nomatch h) ?_
    rintro ⟨before, x, after, h, -⟩
    exact absurd h.symm (List.append_ne_nil_of_right_ne_nil _ (List.cons_ne_nil _ _))
  | cons x xs ih =>
    rw [List.mapM_cons, bind_eq_error]
    constructor
    · rintro (hx | ⟨b, hb, h⟩)
      · exact ⟨[], x, xs, rfl, fun _ hy => absurd hy List.not_mem_nil, hx⟩
      · rcases bind_eq_error.mp h with h | ⟨_, -, h⟩
        · obtain ⟨before, y, after, rfl, hbefore, hy⟩ := ih.mp h
          exact ⟨x :: before, y, after, rfl, List.forall_mem_cons.mpr ⟨⟨b, hb⟩, hbefore⟩, hy⟩
        · nomatch h
    · rintro ⟨_ | ⟨z, before⟩, y, after, h, hbefore, hy⟩
      · obtain ⟨rfl, -⟩ := List.cons.inj h
        exact Or.inl hy
      · obtain ⟨rfl, rfl⟩ := List.cons.inj h
        obtain ⟨⟨b, hb⟩, hbefore⟩ := List.forall_mem_cons.mp hbefore
        refine Or.inr ⟨b, hb, bind_eq_error.mpr (Or.inl ?_)⟩
        exact ih.mpr ⟨before, y, after, rfl, hbefore, hy⟩

/-- Some walk succeeds if every item can be stepped over. -/
theorem exists_forall₂_iff {R : α → β → Prop} {xs : List α} :
    (∃ ys, List.Forall₂ R xs ys) ↔ ∀ x ∈ xs, ∃ y, R x y := by
  induction xs with
  | nil => exact iff_of_true ⟨[], .nil⟩ fun _ h => nomatch h
  | cons x xs ih =>
    rw [List.forall_mem_cons, ← ih]
    constructor
    · rintro ⟨_, _ | ⟨hy, hys⟩⟩
      exact ⟨⟨_, hy⟩, ⟨_, hys⟩⟩
    · rintro ⟨⟨y, hy⟩, ys, hys⟩
      exact ⟨y :: ys, .cons hy hys⟩

/-- What a relation says of each pair of items with the second one in the list. -/
theorem forall₂_mem_right {R : α → β → Prop} {xs : List α} {ys : List β}
    (h : List.Forall₂ R xs ys) {y : β} (hy : y ∈ ys) : ∃ x ∈ xs, R x y := by
  induction h with
  | nil => nomatch hy
  | cons hR _ ih =>
    rcases List.mem_cons.mp hy with rfl | hy
    · exact ⟨_, List.mem_cons_self, hR⟩
    · obtain ⟨x, hx, hxy⟩ := ih hy
      exact ⟨x, List.mem_cons_of_mem _ hx, hxy⟩

/-- What a relation says of each pair of items with the first one in the list. -/
theorem forall₂_mem_left {R : α → β → Prop} {xs : List α} {ys : List β}
    (h : List.Forall₂ R xs ys) {x : α} (hx : x ∈ xs) : ∃ y ∈ ys, R x y :=
  forall₂_mem_right h.flip hx

/-- Where every item comes from one of the second list, and says so itself, the first
list is the image of the second. -/
theorem forall₂_eq_map_iff {f : β → α} {good : β → Prop} {xs : List α} {ys : List β} :
    List.Forall₂ (fun x y => x = f y ∧ good y) xs ys ↔ xs = ys.map f ∧ ∀ y ∈ ys, good y := by
  constructor
  · intro h
    induction h with
    | nil => exact ⟨rfl, fun _ h => nomatch h⟩
    | cons hxy _ ih =>
      obtain ⟨rfl, hgood⟩ := hxy
      exact ⟨by rw [ih.1, List.map_cons], List.forall_mem_cons.mpr ⟨hgood, ih.2⟩⟩
  · rintro ⟨rfl, hgood⟩
    induction ys with
    | nil => exact .nil
    | cons y ys ih =>
      rw [List.forall_mem_cons] at hgood
      exact .cons ⟨rfl, hgood.1⟩ (ih hgood.2)

/-- Lists whose items have the same image one by one have the same image. -/
theorem map_eq_map_of_forall₂ {γ : Type} {R : α → β → Prop} {f : α → γ} {g : β → γ}
    {xs : List α} {ys : List β} (h : List.Forall₂ R xs ys)
    (hfg : ∀ y ∈ ys, ∀ x, R x y → f x = g y) : xs.map f = ys.map g := by
  induction h with
  | nil => rfl
  | cons hxy _ ih =>
    rw [List.forall_mem_cons] at hfg
    rw [List.map_cons, List.map_cons, hfg.1 _ hxy, ih hfg.2]

/-! ### Edits of one item -/

/-- What holds of every item holds still, if it holds of the one that is appended. -/
theorem forall_mem_snoc {P : α → Prop} {xs : List α} {x : α} (hxs : ∀ y ∈ xs, P y) (hx : P x) :
    ∀ y ∈ xs ++ [x], P y :=
  List.forall_mem_append.mpr ⟨hxs, List.forall_mem_singleton.mpr hx⟩

theorem editAt_eq_ok {f : α → Except Error α} {i : Nat} {xs ys : List α}
    (h : editAt f i xs = .ok ys) :
    ys = xs ∨ ∃ before x y after, xs = before ++ x :: after ∧ f x = .ok y ∧
      ys = before ++ y :: after := by
  induction xs generalizing i ys with
  | nil =>
    rw [editAt] at h
    exact Or.inl (Except.ok.inj h).symm
  | cons x xs ih =>
    cases i with
    | zero =>
      obtain ⟨y, hy, rfl⟩ := map_eq_ok.mp h
      exact Or.inr ⟨[], x, y, xs, rfl, hy, rfl⟩
    | succ i =>
      obtain ⟨zs, hzs, rfl⟩ := map_eq_ok.mp h
      rcases ih hzs with rfl | ⟨before, z, w, after, rfl, hw, rfl⟩
      · exact Or.inl rfl
      · exact Or.inr ⟨x :: before, z, w, after, rfl, hw, rfl⟩

/-- An edit of an item fails as the edit does, or puts the new item in its place. -/
theorem editAt_of_getElem? (f : α → Except Error α) {i : Nat} {xs : List α} {x : α}
    (hx : xs[i]? = some x) : editAt f i xs = (f x).map fun y => xs.set i y := by
  induction xs generalizing i with
  | nil => nomatch hx
  | cons z xs ih =>
    cases i with
    | zero =>
      obtain rfl := Option.some.inj hx
      rfl
    | succ i =>
      rw [editAt, ih hx]
      cases f x <;> rfl

theorem editLast_eq_ok {f : α → Except Error α} {xs ys : List α} (h : editLast f xs = .ok ys) :
    ys = xs ∨ ∃ before x y, xs = before ++ [x] ∧ f x = .ok y ∧ ys = before ++ [y] := by
  induction xs generalizing ys with
  | nil => exact Or.inl (Except.ok.inj h).symm
  | cons x xs ih =>
    cases xs with
    | nil =>
      obtain ⟨y, hy, rfl⟩ := map_eq_ok.mp h
      exact Or.inr ⟨[], x, y, rfl, hy, rfl⟩
    | cons z zs =>
      obtain ⟨ws, hws, rfl⟩ := map_eq_ok.mp h
      rcases ih hws with rfl | ⟨before, u, w, hz, hw, rfl⟩
      · exact Or.inl rfl
      · exact Or.inr ⟨x :: before, u, w, by rw [hz]; rfl, hw, rfl⟩

end StatesLanguage
