import Mathlib.Data.List.Perm.Basic
import StatesLanguage.Proofs.Members
import StatesLanguage.Proofs.Success

/-!
# Values up to the order of members

An object lists its members in an order, which a reader may or may not look at.
`Json.Reorders` relates two values that differ in these orders only, at any depth, and are
otherwise the same, numbers included.

As long as no key comes twice, the order is invisible to whoever asks for the value under a
key: both values give the same answer, up to the order of members again. This is what
`Json.Members.LookAlike` says of two lists of members, and the rest of the file draws from it
what a reader gets to see. Truth values, numbers and strings are equal (`LookAlike.eq_map`), arrays
are alike item by item (`LookAlike.array`), and objects have the same members in some order
(`LookAlike.object`).
-/

namespace StatesLanguage

open Json (Members)

/-! ### Lists related item by item -/

/-- **A step for each item of three lists.** The first list is related to both others, and each
step gives an item of a fourth one, which is related to the second and the third. -/
theorem exists_forall₂_of_zip {α β γ δ : Type} {A : α → β → Prop} {B : α → γ → Prop}
    {C : γ → δ → Prop} {D : β → δ → Prop} {xs : List α} {ys : List β} {zs : List γ}
    (hxy : List.Forall₂ A xs ys) (hxz : List.Forall₂ B xs zs)
    (step : ∀ x z, (x, z) ∈ xs.zip zs → ∀ y ∈ ys, A x y → B x z → ∃ w, C z w ∧ D y w) :
    ∃ ws, List.Forall₂ C zs ws ∧ List.Forall₂ D ys ws := by
  induction hxy generalizing zs with
  | nil =>
    obtain rfl := List.forall₂_nil_left_iff.mp hxz
    exact ⟨[], .nil, .nil⟩
  | @cons x y xs ys hxy _ ih =>
    obtain ⟨z, zs, hz, hrest, rfl⟩ := List.forall₂_cons_left_iff.mp hxz
    obtain ⟨w, hzw, hyw⟩ := step x z List.mem_cons_self y List.mem_cons_self hxy hz
    obtain ⟨ws, hzs, hys⟩ := ih hrest fun x z hmem y hy =>
      step x z (List.mem_cons_of_mem _ hmem) y (List.mem_cons_of_mem _ hy)
    exact ⟨w :: ws, .cons hzw hzs, .cons hyw hys⟩

/-- A reading that does not tell two values apart reads the same from two lists of them. -/
theorem forall₂_of_zip {α β γ : Type} {A : α → β → Prop} {B : α → γ → Prop} {C : γ → β → Prop}
    {xs : List α} {ys : List β} {zs : List γ} (hxy : List.Forall₂ A xs ys)
    (hxz : List.Forall₂ B xs zs) (step : ∀ x ∈ xs, ∀ y ∈ ys, ∀ z, A x y → B x z → C z y) :
    List.Forall₂ C zs ys := by
  obtain ⟨ws, hzs, hys⟩ := exists_forall₂_of_zip hxy hxz fun x z hmem y hy hA hB =>
    ⟨y, step x (List.of_mem_zip hmem).1 y hy z hA hB, rfl⟩
  rw [List.forall₂_eq_eq_eq] at hys
  exact hys ▸ hzs

/-- What holds of the items of two lists, given a relation of the lists. -/
theorem forall₂_imp_of_mem {α β : Type} {R S : α → β → Prop} {xs : List α} {ys : List β}
    (h : List.Forall₂ R xs ys) (himp : ∀ x ∈ xs, ∀ y ∈ ys, R x y → S x y) :
    List.Forall₂ S xs ys := by
  induction h with
  | nil => exact .nil
  | cons hxy _ ih =>
    refine .cons (himp _ List.mem_cons_self _ List.mem_cons_self hxy) (ih fun x hx y hy => ?_)
    exact himp x (List.mem_cons_of_mem _ hx) y (List.mem_cons_of_mem _ hy)

theorem exists_getElem?_of_forall₂ {α β : Type} {R : α → β → Prop} {xs : List α} {ys : List β}
    (h : List.Forall₂ R xs ys) {i : Nat} {x : α} (hx : xs[i]? = some x) :
    ∃ y, ys[i]? = some y ∧ R x y := by
  induction h generalizing i with
  | nil => nomatch hx
  | cons hxy _ ih =>
    cases i with
    | zero =>
      obtain rfl := Option.some.inj hx
      exact ⟨_, rfl, hxy⟩
    | succ i => exact ih hx

/-- A list is its own permutation only, if something tells its items apart and comes in the same
order in both. -/
theorem eq_of_perm_of_map_eq {α β : Type} {f : α → β} {xs ys : List α} (h : xs.Perm ys)
    (hmap : xs.map f = ys.map f) (hys : (ys.map f).Nodup) : xs = ys := by
  -- items at one position look the same, and no two items of the list do
  have heq : List.Forall₂ (fun x y => f x = f y) xs ys := by
    rw [← List.forall₂_eq_eq_eq, List.forall₂_map_left_iff, List.forall₂_map_right_iff] at hmap
    exact hmap
  rw [← List.forall₂_eq_eq_eq]
  refine forall₂_imp_of_mem heq fun x hx y hy hxy => ?_
  exact List.inj_on_of_nodup_map hys (h.mem_iff.mp hx) hy hxy

/-! ### Reordering -/

mutual

/-- Two values are equal up to the order of members, at any depth. -/
inductive Json.Reorders : Json → Json → Prop
  /-- Null. -/
  | null : Json.Reorders .null .null
  /-- A truth value. -/
  | bool (b : Bool) : Json.Reorders (.bool b) (.bool b)
  /-- A number. -/
  | number (n : Json.Number) : Json.Reorders (.number n) (.number n)
  /-- A string. -/
  | string (s : String) : Json.Reorders (.string s) (.string s)
  /-- Arrays, item by item. -/
  | array {vs ws : List Json} (items : List.Forall₂ Json.Reorders vs ws) :
    Json.Reorders (.array vs) (.array ws)
  /-- Objects, member by member, once those of the first are in the order of the second. -/
  | object {xs ys zs : Members} (perm : xs.Perm zs)
    (members : List.Forall₂ Json.MemberReorders zs ys) : Json.Reorders (.object xs) (.object ys)

/-- Two members have the same key, and equal values up to the order of members. -/
inductive Json.MemberReorders : String × Json → String × Json → Prop
  /-- The key and the values. -/
  | intro {key : String} {v w : Json} (value : Json.Reorders v w) :
    Json.MemberReorders (key, v) (key, w)

end

namespace Json

theorem MemberReorders.key_eq {m n : String × Json} (h : MemberReorders m n) : m.1 = n.1 := by
  cases h with
  | intro _ => rfl

theorem MemberReorders.value {m n : String × Json} (h : MemberReorders m n) :
    m.2.Reorders n.2 := by
  cases h with
  | intro value => exact value

theorem map_fst_of_memberReorders {zs ys : Members} (h : List.Forall₂ MemberReorders zs ys) :
    zs.map Prod.fst = ys.map Prod.fst := by
  induction h with
  | nil => rfl
  | cons hm _ ih => rw [List.map_cons, List.map_cons, hm.key_eq, ih]

theorem forall₂_memberReorders_of_forall {ms : Members} (h : ∀ m ∈ ms, m.2.Reorders m.2) :
    List.Forall₂ MemberReorders ms ms :=
  List.forall₂_same.mpr fun m hm => .intro (h m hm)

/-- What is neither an array nor an object has no other order. -/
theorem Reorders.eq_of_isScalar {v w : Json} (h : v.Reorders w) (hv : v.isScalar = true) :
    w = v := by
  cases h with
  | array _ | object _ _ => nomatch hv
  | _ => rfl

/-- Every value is equal to itself: by induction on its size. -/
theorem Reorders.refl (v : Json) : v.Reorders v := by
  induction v using Json.sizeInduction with
  | step v ih =>
    cases v with
    | null => exact .null
    | bool b => exact .bool b
    | number n => exact .number n
    | string s => exact .string s
    | array items =>
      exact .array (List.forall₂_same.mpr fun v hv => ih v (sizeOf_lt_of_mem_items hv))
    | object ms =>
      refine .object (.refl ms) (forall₂_memberReorders_of_forall fun m hm => ?_)
      exact ih m.2 (sizeOf_lt_of_mem_members hm)

theorem forall₂_memberReorders_refl (ms : Members) : List.Forall₂ MemberReorders ms ms :=
  forall₂_memberReorders_of_forall fun m _ => .refl m.2

/-- The order may be changed back: by induction on the size of the first value. -/
theorem Reorders.symm {v w : Json} (h : v.Reorders w) : w.Reorders v := by
  induction v using Json.sizeInduction generalizing w with
  | step v ih =>
    cases h with
    | null => exact .null
    | bool b => exact .bool b
    | number n => exact .number n
    | string s => exact .string s
    | array items =>
      refine .array (forall₂_imp_of_mem items.flip fun w _ v hv hvw => ?_)
      exact ih v (sizeOf_lt_of_mem_items hv) hvw
    | @object xs ys zs perm members =>
      -- the permutation moves to the other side of the relation of the members
      obtain ⟨us, hus, hperm⟩ := List.perm_comp_forall₂ perm members
      refine .object hperm.symm (forall₂_imp_of_mem hus.flip fun u _ m hm hmu => ?_)
      obtain ⟨key, v⟩ := m
      cases hmu with
      | intro value => exact .intro (ih v (sizeOf_lt_of_mem_members hm) value)

theorem Reorders.hasDistinctKeys {v w : Json} (h : v.Reorders w) (hv : v.HasDistinctKeys) :
    w.HasDistinctKeys := by
  induction hv generalizing w with
  | null | bool b | number n | string s =>
    rw [h.eq_of_isScalar rfl]
    exact .of_isScalar rfl
  | array _ ih =>
    cases h with
    | array items =>
      refine .array fun w hw => ?_
      obtain ⟨v, hv, hvw⟩ := forall₂_mem_right items hw
      exact ih v hv hvw
  | object distinct _ ih =>
    cases h with
    | object perm members =>
      refine .object ?_ fun n hn => ?_
      · rw [← map_fst_of_memberReorders members]
        exact (perm.map Prod.fst).nodup distinct
      · obtain ⟨m, hm, hmn⟩ := forall₂_mem_right members hn
        exact ih m (perm.mem_iff.mpr hm) hmn.value

/-! ### What keys find -/

/-- No key can tell the one list of members from the other, up to the order of members. -/
def Members.LookAlike (ms ns : Members) : Prop :=
  ∀ key, Option.Rel Json.Reorders (ms.lookup key) (ns.lookup key)

theorem lookup_of_perm {xs zs : Members} (h : xs.Perm zs) (hxs : (xs.map Prod.fst).Nodup)
    (key : String) : zs.lookup key = xs.lookup key := by
  -- with distinct keys, to be found is to be a member, and members are permuted only
  have hzs : (zs.map Prod.fst).Nodup := (h.map Prod.fst).nodup hxs
  refine Option.ext fun v => ?_
  constructor
  · exact fun hv => lookup_of_mem hxs (h.mem_iff.mpr (mem_of_lookup hv))
  · exact fun hv => lookup_of_mem hzs (h.mem_iff.mp (mem_of_lookup hv))

theorem lookAlike_of_forall₂ {zs ys : Members} (h : List.Forall₂ MemberReorders zs ys) :
    zs.LookAlike ys := by
  intro key
  induction h with
  | nil => exact .none
  | @cons m n _ _ hm _ ih =>
    obtain ⟨k, v⟩ := m
    cases hm with
    | intro value =>
      rw [List.lookup_cons, List.lookup_cons]
      cases key == k with
      | true => exact .some value
      | false => exact ih

/-- **Keys do not see the order of members.** -/
theorem Reorders.lookAlike {ms ns : Members} (h : (Json.object ms).Reorders (.object ns))
    (hms : (Json.object ms).HasDistinctKeys) : ms.LookAlike ns := by
  intro key
  cases h with
  | object perm members =>
    rw [← lookup_of_perm perm hms.nodup key]
    exact lookAlike_of_forall₂ members key

theorem Reorders.exists_object {ms : Members} {w : Json} (h : (Json.object ms).Reorders w)
    (hms : (Json.object ms).HasDistinctKeys) : ∃ ns, w = .object ns ∧ ms.LookAlike ns := by
  cases h with
  | object perm members => exact ⟨_, rfl, Reorders.lookAlike (.object perm members) hms⟩

/-- A member is found again under its key. -/
theorem Reorders.exists_member {ms ns : Members} (h : (Json.object ms).Reorders (.object ns))
    {key : String} {v : Json} (hv : (key, v) ∈ ms) : ∃ w, (key, w) ∈ ns ∧ v.Reorders w := by
  cases h with
  | object perm members =>
    obtain ⟨n, hn, hmn⟩ := forall₂_mem_left members (perm.mem_iff.mp hv)
    cases hmn with
    | intro value => exact ⟨_, hn, value⟩

namespace Members.LookAlike

variable {ms ns : Members} {key : String}

theorem symm (h : ms.LookAlike ns) : ns.LookAlike ms := by
  intro key
  have hkey := h key
  generalize ms.lookup key = x, ns.lookup key = y at hkey ⊢
  cases hkey with
  | some hvw => exact .some hvw.symm
  | none => exact .none

theorem isSome_eq (h : ms.LookAlike ns) (key : String) :
    (ns.lookup key).isSome = (ms.lookup key).isSome := by
  have hkey := h key
  generalize ms.lookup key = x, ns.lookup key = y at hkey ⊢
  cases hkey with
  | some _ => rfl
  | none => rfl

/-- What is found, or else a value that stands for its absence. -/
theorem getD (h : ms.LookAlike ns) (key : String) (d : Json) :
    ((ms.lookup key).getD d).Reorders ((ns.lookup key).getD d) := by
  have hkey := h key
  generalize ms.lookup key = x, ns.lookup key = y at hkey ⊢
  cases hkey with
  | some hvw => exact hvw
  | none => exact .refl d

theorem exists_of_eq_some (h : ms.LookAlike ns) {v : Json} (hms : ms.lookup key = some v) :
    ∃ w, ns.lookup key = some w ∧ v.Reorders w := by
  have hkey := h key
  rw [hms] at hkey
  generalize ns.lookup key = y at hkey ⊢
  cases hkey with
  | some hvw => exact ⟨_, rfl, hvw⟩

/-- What is neither an array nor an object is found again. -/
theorem eq_of_isScalar (h : ms.LookAlike ns) {x : Option Json}
    (hx : ∀ v, x = some v → v.isScalar = true) (hms : ms.lookup key = x) :
    ns.lookup key = x := by
  have hkey := h key
  rw [hms] at hkey
  generalize ns.lookup key = y at hkey ⊢
  cases hkey with
  | none => rfl
  | some hvw => rw [hvw.eq_of_isScalar (hx _ rfl)]

theorem eq_map {α : Type} {f : α → Json} (h : ms.LookAlike ns)
    (hf : ∀ a, (f a).isScalar = true) {x : Option α} (hms : ms.lookup key = x.map f) :
    ns.lookup key = x.map f := by
  refine h.eq_of_isScalar (fun v hv => ?_) hms
  obtain ⟨a, -, rfl⟩ := Option.map_eq_some_iff.mp hv
  exact hf a

/-- What is not found is not found among the other members either. -/
theorem ne_of_isScalar (h : ms.LookAlike ns) {v : Json} (hv : v.isScalar = true)
    (hms : ms.lookup key ≠ some v) : ns.lookup key ≠ some v := by
  intro hns
  refine hms (h.symm.eq_of_isScalar (fun w hw => ?_) hns)
  rw [← Option.some.inj hw]
  exact hv

/-- An array is found again, up to the order of members in its items. -/
theorem array (h : ms.LookAlike ns) {vs : List Json}
    (hms : (ms.lookup key).getD (.array []) = .array vs) :
    ∃ ws, (ns.lookup key).getD (.array []) = .array ws ∧ List.Forall₂ Reorders vs ws := by
  have hkey := h.getD key (.array [])
  rw [hms] at hkey
  generalize (ns.lookup key).getD (.array []) = w at hkey ⊢
  cases hkey with
  | array items => exact ⟨_, rfl, items⟩

/-- An object is found again, up to the order of members. -/
theorem object (h : ms.LookAlike ns) {xs : Members}
    (hms : (ms.lookup key).getD (.object []) = .object xs) :
    ∃ ys, (ns.lookup key).getD (.object []) = .object ys ∧
      (Json.object xs).Reorders (.object ys) := by
  have hkey := h.getD key (.object [])
  rw [hms] at hkey
  generalize (ns.lookup key).getD (.object []) = w at hkey ⊢
  cases hkey with
  | object perm members => exact ⟨_, rfl, .object perm members⟩

/-- An array of strings is found again. -/
theorem strings (h : ms.LookAlike ns) {α : Type} {f : α → String} {as : List α}
    (hms : (ms.lookup key).getD (.array []) = .array (as.map fun a => .string (f a))) :
    (ns.lookup key).getD (.array []) = .array (as.map fun a => .string (f a)) := by
  obtain ⟨ws, hws, hitems⟩ := h.array hms
  rw [hws]
  congr 1
  rw [List.forall₂_map_left_iff] at hitems
  -- a string reorders to itself only
  have heq : List.Forall₂ (fun w a => w = Json.string (f a) ∧ True) ws as :=
    (hitems.imp fun a w hw => And.intro (hw.eq_of_isScalar rfl) trivial).flip
  exact (forall₂_eq_map_iff.mp heq).1

end Members.LookAlike

/-! ### Equality -/

/-- **Equality of values does not see the order of members.** -/
theorem Reorders.equiv {v w : Json} (h : v.Reorders w) (hv : v.HasDistinctKeys) :
    v.equiv w = true := by
  induction hv generalizing w with
  | null | bool b | number n | string s =>
    rw [h.eq_of_isScalar rfl]
    exact (HasDistinctKeys.of_isScalar rfl).equiv_refl
  | @array vs _ ih =>
    cases h with
    | array items =>
      exact Json.itemsEquiv_of_forall₂ (forall₂_imp_of_mem items fun v hv _ _ => ih v hv)
  | @object ms distinct inside ih =>
    cases h with
    | @object xs ys zs perm members =>
      have hlike := Reorders.lookAlike (.object perm members) (.object distinct inside)
      have hlength : (ms.length == ys.length) = true := by
        rw [perm.length_eq, members.length_eq, beq_self_eq_true]
      -- members are compared by key, not by position
      rw [Json.equiv, hlength, Bool.true_and]
      refine Json.membersEquiv_of_forall fun m hm => ?_
      have hkey := hlike m.1
      rw [lookup_of_mem distinct hm] at hkey
      generalize ys.lookup m.1 = y at hkey ⊢
      cases hkey with
      | some hvw => exact ⟨_, rfl, ih m hm hvw⟩

end Json

end StatesLanguage
