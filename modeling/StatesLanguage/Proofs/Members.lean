import Mathlib.Data.List.Nodup
import StatesLanguage.Document.Writer

/-!
# Members of objects

Objects are lists of members, and a key is looked up from the front. This file holds
what the theorems on documents need to know about such lists: which member a key
finds in a list put together from parts, which values are smaller than the object
that holds them, and when the order of writing is the order of the result.

An object read from a text never holds a key twice. `Json.HasDistinctKeys` says so
for a value and everything inside it; equality of values is reflexive on these.
-/

namespace StatesLanguage

open Json (Members)

/-! ### Looking up -/

theorem mem_of_lookup {α : Type} {key : String} {v : α} {ms : List (String × α)}
    (h : ms.lookup key = some v) : (key, v) ∈ ms := by
  obtain ⟨before, after, rfl, -⟩ := List.lookup_eq_some_iff.mp h
  exact List.mem_append_right _ List.mem_cons_self

/-- A member is found under its key, unless the key stands further in front. -/
theorem lookup_of_mem {α : Type} {key : String} {v : α} {ms : List (String × α)}
    (distinct : (ms.map Prod.fst).Nodup) (h : (key, v) ∈ ms) : ms.lookup key = some v := by
  obtain ⟨before, after, rfl⟩ := List.append_of_mem h
  refine List.lookup_eq_some_iff.mpr ⟨before, after, rfl, fun m hm => ?_⟩
  rw [List.map_append, List.nodup_append] at distinct
  have hne := distinct.2.2 m.1 (List.mem_map_of_mem hm) key (by simp)
  exact bne_iff_ne.mpr (Ne.symm hne)

@[simp] theorem lookup_optionalMember {α : Type} (key k : String) (toJson : α → Json)
    (a : Option α) :
    (optionalMember key toJson a).lookup k = if k = key then a.map toJson else none := by
  cases a with
  | none => exact (ite_self _).symm
  | some a =>
    rw [optionalMember, List.lookup_cons]
    by_cases h : k = key
    · rw [if_pos h, beq_iff_eq.mpr h]
      rfl
    · rw [if_neg h, beq_eq_false_iff_ne.mpr h]
      rfl

theorem mem_optionalMember {α : Type} {key : String} {toJson : α → Json} {x : Option α}
    {m : String × Json} :
    m ∈ optionalMember key toJson x ↔ ∃ a, x = some a ∧ m = (key, toJson a) := by
  cases x with
  | none => exact iff_of_false nofun nofun
  | some a =>
    rw [optionalMember, List.mem_singleton]
    exact ⟨fun h => ⟨a, rfl, h⟩, fun ⟨b, hb, h⟩ => Option.some.inj hb ▸ h⟩

/-- What a key finds among members whose values have been changed, each by its key. -/
theorem lookup_map_member (g : String → Json → Json) (ms : Members) (key : String) :
    (ms.map fun m => (m.1, g m.1 m.2)).lookup key = (ms.lookup key).map (g key) := by
  induction ms with
  | nil => rfl
  | cons m ms ih =>
    obtain ⟨k, v⟩ := m
    rw [List.map_cons, List.lookup_cons, List.lookup_cons]
    by_cases h : key = k
    · rw [h, beq_self_eq_true]
      rfl
    · rw [beq_eq_false_iff_ne.mpr h]
      exact ih

/-- A key finds its value changed, if only values under it have been. -/
theorem lookup_map_at (g : Json → Json) (ms : Members) (key : String) :
    (ms.map fun m => (m.1, if m.1 = key then g m.2 else m.2)).lookup key =
      (ms.lookup key).map g := by
  rw [lookup_map_member fun k v => if k = key then g v else v]
  simp only [if_pos]

/-- Other keys find what they found before. -/
theorem lookup_map_at_of_ne {g : Json → Json} {ms : Members} {key k : String} (h : k ≠ key) :
    (ms.map fun m => (m.1, if m.1 = key then g m.2 else m.2)).lookup k = ms.lookup k := by
  rw [lookup_map_member fun k v => if k = key then g v else v]
  simp only [if_neg h, Option.map_id']

/-! ### Scalars -/

/-- A value with neither items nor members. -/
def Json.isScalar : Json → Bool
  | .array _ => false
  | .object _ => false
  | _ => true

/-- A literal that a comparator accepts is neither an array nor an object. -/
theorem Operand.isScalar_of_accepts {op : Operand} {v : Json} (h : op.accepts v = true) :
    v.isScalar = true := by
  cases v with
  | array items | object ms => cases op <;> nomatch h
  | _ => rfl

/-! ### Sizes -/

theorem sizeOf_lt_of_lookup {key : String} {v : Json} {ms : Members}
    (h : ms.lookup key = some v) : sizeOf v < sizeOf (Json.object ms) := by
  have := List.sizeOf_lt_of_mem (mem_of_lookup h)
  simp only [Prod.mk.sizeOf_spec, Json.object.sizeOf_spec] at this ⊢
  omega

theorem sizeOf_lt_of_mem_items {v : Json} {items : List Json} (h : v ∈ items) :
    sizeOf v < sizeOf (Json.array items) := by
  have := List.sizeOf_lt_of_mem h
  simp only [Json.array.sizeOf_spec]
  omega

theorem sizeOf_lt_of_mem_members {m : String × Json} {ms : Members} (h : m ∈ ms) :
    sizeOf m.2 < sizeOf (Json.object ms) := by
  have := List.sizeOf_lt_of_mem h
  obtain ⟨key, v⟩ := m
  simp only [Prod.mk.sizeOf_spec, Json.object.sizeOf_spec] at this ⊢
  omega

/-- **Induction on the size of a value.** A reader goes down two levels at once, from
an object to the items of an array under one of its keys, so the step from the parts
of a value to the value is not enough. -/
theorem Json.sizeInduction {P : Json → Prop} (step : ∀ v, (∀ w, sizeOf w < sizeOf v → P w) → P v)
    (v : Json) : P v :=
  WellFounded.induction (measure sizeOf).wf v step

/-! ### Distinct keys -/

/-- No object in a value, nor the value itself, holds a key twice. -/
inductive Json.HasDistinctKeys : Json → Prop
  /-- Null. -/
  | null : HasDistinctKeys .null
  /-- A truth value. -/
  | bool (b : Bool) : HasDistinctKeys (.bool b)
  /-- A number. -/
  | number (n : Json.Number) : HasDistinctKeys (.number n)
  /-- A string. -/
  | string (s : String) : HasDistinctKeys (.string s)
  /-- An array of such values. -/
  | array {items : List Json} (inside : ∀ v ∈ items, HasDistinctKeys v) :
    HasDistinctKeys (.array items)
  /-- An object of such values. -/
  | object {ms : Members} (distinct : (ms.map Prod.fst).Nodup)
    (inside : ∀ m ∈ ms, HasDistinctKeys m.2) : HasDistinctKeys (.object ms)

namespace Json.HasDistinctKeys

theorem of_isScalar {v : Json} (h : v.isScalar = true) : v.HasDistinctKeys := by
  cases v with
  | null => exact .null
  | bool b => exact .bool b
  | number n => exact .number n
  | string s => exact .string s
  | array items | object ms => nomatch h

theorem items {items : List Json} (h : (Json.array items).HasDistinctKeys) :
    ∀ v ∈ items, v.HasDistinctKeys := by
  cases h with
  | array inside => exact inside

theorem members {ms : Members} (h : (Json.object ms).HasDistinctKeys) :
    ∀ m ∈ ms, m.2.HasDistinctKeys := by
  cases h with
  | object _ inside => exact inside

theorem nodup {ms : Members} (h : (Json.object ms).HasDistinctKeys) :
    (ms.map Prod.fst).Nodup := by
  cases h with
  | object distinct _ => exact distinct

theorem lookup {ms : Members} (h : (Json.object ms).HasDistinctKeys) {key : String} {v : Json}
    (hv : ms.lookup key = some v) : v.HasDistinctKeys :=
  h.members (key, v) (mem_of_lookup hv)

/-- The same of a key that may be absent. -/
theorem getD {ms : Members} (h : (Json.object ms).HasDistinctKeys) {key : String} {d v : Json}
    (hv : (ms.lookup key).getD d = v) (hd : d.HasDistinctKeys) : v.HasDistinctKeys := by
  rcases Option.getD_eq_iff.mp hv with hv | ⟨-, rfl⟩
  · exact h.lookup hv
  · exact hd

end Json.HasDistinctKeys

mutual

/-- Whether no object in a value holds a key twice. -/
def Json.distinctKeys : Json → Bool
  | .array items => Json.itemsDistinctKeys items
  | .object ms => decide (ms.map Prod.fst).Nodup && Json.membersDistinctKeys ms
  | _ => true

/-- The same for all items of an array. -/
def Json.itemsDistinctKeys : List Json → Bool
  | [] => true
  | v :: vs => Json.distinctKeys v && Json.itemsDistinctKeys vs

/-- The same for all members of an object. -/
def Json.membersDistinctKeys : Members → Bool
  | [] => true
  | (_, v) :: ms => Json.distinctKeys v && Json.membersDistinctKeys ms

end

theorem Json.itemsDistinctKeys_eq_all (items : List Json) :
    Json.itemsDistinctKeys items = items.all Json.distinctKeys := by
  induction items with
  | nil => rfl
  | cons v vs ih => rw [Json.itemsDistinctKeys, ih, List.all_cons]

theorem Json.membersDistinctKeys_eq_all (ms : Members) :
    Json.membersDistinctKeys ms = ms.all fun m => Json.distinctKeys m.2 := by
  induction ms with
  | nil => rfl
  | cons m ms ih =>
    obtain ⟨key, v⟩ := m
    rw [Json.membersDistinctKeys, ih, List.all_cons]

theorem Json.distinctKeys_iff (v : Json) : v.distinctKeys = true ↔ v.HasDistinctKeys := by
  induction v using Json.sizeInduction with
  | step v ih =>
    cases v with
    | null => exact iff_of_true rfl .null
    | bool b => exact iff_of_true rfl (.bool b)
    | number n => exact iff_of_true rfl (.number n)
    | string s => exact iff_of_true rfl (.string s)
    | array items =>
      rw [Json.distinctKeys, Json.itemsDistinctKeys_eq_all, List.all_eq_true]
      have hitems : (∀ v ∈ items, v.distinctKeys = true) ↔ ∀ v ∈ items, v.HasDistinctKeys :=
        forall₂_congr fun v hv => ih v (sizeOf_lt_of_mem_items hv)
      exact hitems.trans ⟨.array, fun h => h.items⟩
    | object ms =>
      rw [Json.distinctKeys, Json.membersDistinctKeys_eq_all, Bool.and_eq_true, decide_eq_true_iff,
        List.all_eq_true]
      have hms : (∀ m ∈ ms, m.2.distinctKeys = true) ↔ ∀ m ∈ ms, m.2.HasDistinctKeys :=
        forall₂_congr fun m hm => ih m.2 (sizeOf_lt_of_mem_members hm)
      rw [hms]
      exact ⟨fun ⟨hdistinct, hinside⟩ => .object hdistinct hinside, fun h => ⟨h.nodup, h.members⟩⟩

instance (v : Json) : Decidable v.HasDistinctKeys :=
  decidable_of_iff _ v.distinctKeys_iff
/-! ### Equality is reflexive -/

theorem Binary64.equiv_refl (x : Binary64) : x.equiv x = true := by
  simp [Binary64.equiv]

theorem Json.Number.equiv_refl (n : Json.Number) : n.equiv n = true := by
  cases n with
  | int i => exact beq_self_eq_true _
  | float x => exact x.equiv_refl

theorem Json.itemsEquiv_of_forall₂ {vs ws : List Json}
    (h : List.Forall₂ (fun v w => v.equiv w = true) vs ws) : Json.itemsEquiv vs ws = true := by
  induction h with
  | nil => rfl
  | cons hvw _ ih =>
    rw [Json.itemsEquiv, hvw, ih]
    rfl

theorem Json.membersEquiv_of_forall {xs ys : Members}
    (h : ∀ m ∈ xs, ∃ v, ys.lookup m.1 = some v ∧ m.2.equiv v = true) :
    Json.membersEquiv xs ys = true := by
  induction xs with
  | nil => rfl
  | cons m xs ih =>
    obtain ⟨key, x⟩ := m
    rw [List.forall_mem_cons] at h
    obtain ⟨⟨v, hv, hx⟩, h⟩ := h
    rw [Json.membersEquiv, hv, ih h, Bool.and_true]
    exact hx

/-- **A value without a key twice equals itself.** With a key twice, the second
member would be compared with the first. -/
theorem Json.HasDistinctKeys.equiv_refl {v : Json} (h : v.HasDistinctKeys) :
    v.equiv v = true := by
  induction h with
  | null => rfl
  | bool b => exact beq_self_eq_true b
  | number n => exact n.equiv_refl
  | string s => exact beq_self_eq_true s
  | array _ ih => exact Json.itemsEquiv_of_forall₂ (List.forall₂_same.mpr ih)
  | @object ms distinct _ ih =>
    rw [Json.equiv, beq_self_eq_true, Bool.true_and]
    exact Json.membersEquiv_of_forall fun m hm => ⟨m.2, lookup_of_mem distinct hm, ih m hm⟩

/-! ### The order of writing -/

theorem Json.put_of_not_mem {key : String} {v : Json} {ms : Members}
    (h : key ∉ ms.map Prod.fst) : Json.put key v ms = ms ++ [(key, v)] := by
  induction ms with
  | nil => rfl
  | cons m ms ih =>
    obtain ⟨k, w⟩ := m
    rw [List.map_cons, List.mem_cons, not_or] at h
    rw [Json.put, if_neg (Ne.symm h.1), ih h.2]
    rfl

theorem Json.foldl_put_of_nodup {acc ms : Members}
    (h : ((acc ++ ms).map Prod.fst).Nodup) :
    ms.foldl (fun acc (key, v) => Json.put key v acc) acc = acc ++ ms := by
  induction ms generalizing acc with
  | nil => exact (List.append_nil acc).symm
  | cons m ms ih =>
    obtain ⟨key, v⟩ := m
    have hnew : key ∉ acc.map Prod.fst := by
      intro hmem
      rw [List.map_append, List.nodup_append] at h
      exact h.2.2 key hmem key (by simp) rfl
    have hput : Json.put key v acc = acc ++ [(key, v)] := Json.put_of_not_mem hnew
    rw [List.foldl_cons]
    change List.foldl _ (Json.put key v acc) ms = _
    rw [hput, ih (by simpa using h), List.append_assoc]
    rfl

/-- **Members with distinct keys are written as they are.** -/
theorem Json.collect_eq_self {ms : Members} (h : (ms.map Prod.fst).Nodup) :
    Json.collect ms = ms :=
  @Json.foldl_put_of_nodup [] ms h

end StatesLanguage
