import StatesLanguage.Proofs.Canonical
import StatesLanguage.Proofs.Parsing

/-!
# A canonical form fits where its document did

The parser has only so many brackets to open, and refuses a text that needs more. So that
what is written for a document can be read again, it must not be nested more deeply than the
document was.

`Json.Fits` says of a value that it can stand where a number of brackets may still be opened,
and holds no key twice. A canonical form is put together from members of the document and of
canonical forms inside it, under keys in a fixed order, so it fits wherever the document does:
`Canonical.keepsFit_machine`. A start that the document left open is a string and needs no bracket.
-/

namespace StatesLanguage

open Json (Members)

/-! ### Fitting -/

namespace Json

/-- A value that can stand where a number of brackets may still be opened: no key stands twice
in it, and its brackets are not nested more deeply than that. -/
def Fits (n : Nat) (v : Json) : Prop :=
  v.HasDistinctKeys ∧ v.depth ≤ n

/-- Members whose values fit. -/
def Members.Fit (n : Nat) (ms : Members) : Prop :=
  ∀ m ∈ ms, m.2.Fits n

theorem Fits.of_isScalar {n : Nat} {v : Json} (h : v.isScalar = true) : v.Fits n :=
  ⟨.of_isScalar h, depth_of_isScalar h ▸ Nat.zero_le n⟩

theorem fits_array_iff {n : Nat} {items : List Json} :
    (array items).Fits n ↔ ∃ k, n = k + 1 ∧ ∀ v ∈ items, v.Fits k := by
  constructor
  · rintro ⟨hkeys, hdepth⟩
    cases n with
    | zero => nomatch hdepth
    | succ k => exact ⟨k, rfl, fun v hv => ⟨hkeys.items v hv, depth_array_le.mp hdepth v hv⟩⟩
  · rintro ⟨k, rfl, h⟩
    exact ⟨.array fun v hv => (h v hv).1, depth_array_le.mpr fun v hv => (h v hv).2⟩

theorem fits_object_iff {n : Nat} {ms : Members} :
    (object ms).Fits n ↔ ∃ k, n = k + 1 ∧ (ms.map Prod.fst).Nodup ∧ Members.Fit k ms := by
  constructor
  · rintro ⟨hkeys, hdepth⟩
    cases n with
    | zero => nomatch hdepth
    | succ k =>
      exact ⟨k, rfl, hkeys.nodup, fun m hm => ⟨hkeys.members m hm, depth_object_le.mp hdepth m hm⟩⟩
  · rintro ⟨k, rfl, hkeys, h⟩
    exact ⟨.object hkeys fun m hm => (h m hm).1, depth_object_le.mpr fun m hm => (h m hm).2⟩

namespace Members.Fit

variable {n : Nat} {ms ns : Members}

theorem append (hms : ms.Fit n) (hns : ns.Fit n) : Members.Fit n (ms ++ ns) :=
  List.forall_mem_append.mpr ⟨hms, hns⟩

theorem lookup (h : ms.Fit n) {key : String} {v : Json} (hv : ms.lookup key = some v) :
    v.Fits n :=
  h (key, v) (mem_of_lookup hv)

/-- Values that fit in another form still do when they are put into it. -/
theorem map {f : Json → Json} (h : ∀ m ∈ ms, (f m.2).Fits n) :
    Members.Fit n (ms.map fun m => (m.1, f m.2)) :=
  List.forall_mem_map.mpr h

end Members.Fit

/-- Members whose values fit, under some keys of a list, in its order. -/
structure Members.FitUnder (n : Nat) (keys : List String) (ms : Members) : Prop where
  /-- The values fit. -/
  fit : ms.Fit n
  /-- The keys are some of the list. -/
  keys : (ms.map Prod.fst).Sublist keys

namespace Members.FitUnder

variable {n : Nat} {ks ls : List String} {ms ns : Members}

theorem nil : Members.FitUnder n ks [] :=
  ⟨nofun, List.nil_sublist ks⟩

theorem single {key : String} {v : Json} (h : v.Fits n) : Members.FitUnder n [key] [(key, v)] :=
  ⟨List.forall_mem_singleton.mpr h, .refl [key]⟩

theorem append (hms : ms.FitUnder n ks) (hns : ns.FitUnder n ls) :
    Members.FitUnder n (ks ++ ls) (ms ++ ns) :=
  ⟨hms.fit.append hns.fit, List.map_append ▸ hms.keys.append hns.keys⟩

/-- An object fits around its members, if the keys of the list are different. -/
theorem object (h : ms.FitUnder n ks) (hkeys : ks.Nodup) : (Json.object ms).Fits (n + 1) :=
  fits_object_iff.mpr ⟨n, rfl, h.keys.nodup hkeys, h.fit⟩

end Members.FitUnder

end Json

open Json.Members (FitUnder)

namespace Canonical

/-! ### Fields -/

section Fields

variable {n : Nat} {ms : Members}

theorem keep_fitUnder (h : ms.Fit n) (key : String) : FitUnder n [key] (keep key ms) := by
  rw [keep]
  cases hv : ms.lookup key with
  | none => exact .nil
  | some v => exact .single (h.lookup hv)

theorem keepItems_fitUnder (h : ms.Fit n) (key : String) {item : Json → Json}
    (hitem : ∀ k v, v.Fits k → (item v).Fits k) : FitUnder n [key] (keepItems key item ms) := by
  rw [keepItems]
  split
  · next items hitems =>
    obtain ⟨k, rfl, hfit⟩ := Json.fits_array_iff.mp (h.lookup hitems)
    cases items with
    | nil => exact .nil
    | cons v vs =>
      refine .single (Json.fits_array_iff.mpr ⟨k, rfl, ?_⟩)
      exact List.forall_mem_map.mpr fun w hw => hitem k w (hfit w hw)
  · exact .nil

theorem next_fitUnder (h : ms.Fit n) : FitUnder n ["Next", "End"] (next ms) := by
  rw [next]
  split
  · exact @FitUnder.append n ["Next"] ["End"] [] _ .nil (.single (.of_isScalar rfl))
  · exact List.append_nil (keep "Next" ms) ▸
      (keep_fitUnder h "Next").append (@FitUnder.nil n ["End"])

theorem start_fitUnder (h : ms.Fit n) : FitUnder n ["StartAt"] (start ms) := by
  rw [start]
  split
  · next v _ hv => exact .single (h.lookup hv)
  · exact .single (.of_isScalar rfl)
  · exact .nil

end Fields

/-- What brings values into another form without asking for more brackets. -/
def KeepsFit (f : Json → Json) : Prop :=
  ∀ n v, v.Fits n → (f v).Fits n

theorem keepsFit_retrier : KeepsFit retrier := by
  intro n v h
  cases v with
  | object ms =>
    obtain ⟨k, rfl, -, hms⟩ := Json.fits_object_iff.mp h
    have hkeep := keep_fitUnder hms
    exact ((((hkeep _).append (hkeep _)).append (hkeep _)).append (hkeep _)).object (by decide)
  | _ => exact h

theorem keepsFit_catcher : KeepsFit catcher := by
  intro n v h
  cases v with
  | object ms =>
    obtain ⟨k, rfl, -, hms⟩ := Json.fits_object_iff.mp h
    have hkeep := keep_fitUnder hms
    exact (((hkeep _).append (next_fitUnder hms)).append (hkeep _)).object (by decide)
  | _ => exact h

/-! ### Rules -/

/-- By induction on the rule, of which only the operand is put into another form. -/
theorem keepsFit_rule : KeepsFit rule := by
  intro n v
  induction v generalizing n with
  | array items ih =>
    intro h
    obtain ⟨k, rfl, hitems⟩ := Json.fits_array_iff.mp h
    rw [rule, ruleItems_eq_map]
    exact Json.fits_array_iff.mpr
      ⟨k, rfl, List.forall_mem_map.mpr fun v hv => ih v hv k (hitems v hv)⟩
  | object ms ih =>
    intro h
    obtain ⟨k, rfl, hkeys, hms⟩ := Json.fits_object_iff.mp h
    have hinside : Members.Fit k (ruleValues ms) :=
      ruleValues_eq_map ms ▸ .map fun m hm => ih m hm k (hms m hm)
    have hkeep := keep_fitUnder hms
    rw [rule, ruleMembers]
    split
    · next op _ =>
      exact ((keep_fitUnder hinside _).append (next_fitUnder hms)).object (by cases op <;> decide)
    · next op _ =>
      obtain ⟨hnext, hend, hvariable⟩ : op.keyword ≠ "Next" ∧ op.keyword ≠ "End" ∧
        op.keyword ≠ "Variable" := (Operator.compare op).keyword_ne
      exact (((hkeep _).append (hkeep _)).append (next_fitUnder hms)).object
        (by simp [hnext, hend, hvariable.symm])
    · exact Json.fits_object_iff.mpr ⟨k, rfl, hkeys, hms⟩
  | _ => exact id

/-! ### States -/

section States

variable {n : Nat} {ms bs : Members}

/-- The settings of a kind, given branches in canonical form that fit. -/
theorem exists_settings_fitUnder (hms : ms.Fit n) (hbs : bs.Fit n) (kind : StateKind) :
    ∃ keys, (["Type"] ++ ["Comment"] ++ keys).Nodup ∧ FitUnder n keys (settings ms bs kind) := by
  have hkeep := keep_fitUnder hms
  have hnext := next_fitUnder hms
  cases kind with
  | pass =>
    exact ⟨_, by decide, ((((hkeep _).append (hkeep _)).append (hkeep _)).append (hkeep _)).append
      hnext⟩
  | task =>
    have hretriers := keepItems_fitUnder hms "Retry" keepsFit_retrier
    have hcatchers := keepItems_fitUnder hms "Catch" keepsFit_catcher
    exact ⟨_, by decide, (((((((((hkeep _).append (hkeep _)).append (hkeep _)).append
      (hkeep _)).append (hkeep _)).append (hkeep _)).append (hkeep _)).append hnext).append
      hretriers).append hcatchers⟩
  | wait => exact ⟨_, by decide, (hkeep _).append hnext⟩
  | succeed => exact ⟨[], by decide, .nil⟩
  | fail => exact ⟨_, by decide, (hkeep _).append (hkeep _)⟩
  | choice =>
    have hrules : Members.Fit n (ruleValues ms) :=
      ruleValues_eq_map ms ▸ .map fun m hm => keepsFit_rule n m.2 (hms m hm)
    exact ⟨_, by decide, (keep_fitUnder hrules _).append (hkeep _)⟩
  | parallel =>
    exact ⟨_, by decide, ((((keep_fitUnder hbs _).append hnext).append (hkeep _)).append
      (hkeep _)).append (hkeep _)⟩

theorem fits_stateMembers (hkeys : (ms.map Prod.fst).Nodup) (hms : ms.Fit n) (hbs : bs.Fit n) :
    (Json.object (stateMembers ms bs)).Fits (n + 1) := by
  rw [stateMembers]
  split
  · next kind _ =>
    obtain ⟨keys, hnodup, hsettings⟩ := exists_settings_fitUnder hms hbs kind
    exact (((keep_fitUnder hms _).append (keep_fitUnder hms _)).append hsettings).object hnodup
  · exact Json.fits_object_iff.mpr ⟨n, rfl, hkeys, hms⟩

/-- A collection, given states in canonical form that fit. -/
theorem collection_fitUnder (hms : ms.Fit n)
    (hstates : ∀ m ∈ ms, (states m.2).Fits n) :
    FitUnder n (["StartAt"] ++ ["States"]) (start ms ++ keep "States" (statesValues ms)) :=
  (start_fitUnder hms).append
    (keep_fitUnder (statesValues_eq_map ms ▸ Members.Fit.map hstates) "States")

end States

/-- **States, branches and what holds them keep fitting in canonical form**: by induction on
the value, whichever of them it is taken for. -/
theorem keepsFit_states :
    KeepsFit state ∧ KeepsFit states ∧ KeepsFit branch ∧ KeepsFit branches := by
  have hall (v : Json) : ∀ n, v.Fits n →
      (state v).Fits n ∧ (states v).Fits n ∧ (branch v).Fits n ∧ (branches v).Fits n := by
    induction v with
    | array items ih =>
      intro n h
      obtain ⟨k, rfl, hitems⟩ := Json.fits_array_iff.mp h
      refine ⟨h, h, h, ?_⟩
      rw [branches, branchItems_eq_map]
      exact Json.fits_array_iff.mpr
        ⟨k, rfl, List.forall_mem_map.mpr fun v hv => (ih v hv k (hitems v hv)).2.2.1⟩
    | object ms ih =>
      intro n h
      obtain ⟨k, rfl, hkeys, hms⟩ := Json.fits_object_iff.mp h
      have hinside := fun m hm => ih m hm k (hms m hm)
      refine ⟨?_, ?_, ?_, h⟩
      · rw [state]
        exact fits_stateMembers hkeys hms
          (branchValues_eq_map ms ▸ .map fun m hm => (hinside m hm).2.2.2)
      · rw [states, stateValues_eq_map]
        refine Json.fits_object_iff.mpr ⟨k, rfl, ?_, .map fun m hm => (hinside m hm).1⟩
        rwa [List.map_map]
      · rw [branch]
        exact (collection_fitUnder hms fun m hm => (hinside m hm).2.1).object (by decide)
    | _ => exact fun n h => ⟨h, h, h, h⟩
  exact ⟨fun n v h => (hall v n h).1, fun n v h => (hall v n h).2.1,
    fun n v h => (hall v n h).2.2.1, fun n v h => (hall v n h).2.2.2⟩

/-- **The canonical form of a document fits where the document does.** -/
theorem keepsFit_machine : KeepsFit machine := by
  intro n v h
  cases v with
  | object ms =>
    obtain ⟨k, rfl, -, hms⟩ := Json.fits_object_iff.mp h
    have hkeep := keep_fitUnder hms
    exact ((((collection_fitUnder hms fun m hm => keepsFit_states.2.1 k m.2 (hms m hm)).append
      (hkeep _)).append (hkeep _)).append (hkeep _)).object (by decide)
  | _ => exact h

end Canonical

/-- **What is written for a document is not nested more deeply than the document**, and holds
no key twice. -/
theorem Machine.fits_document {document : Json} {m : Machine} {n : Nat} (hfits : document.Fits n)
    (h : (Machine.ofDocument .standard document).outcome = .ok m) (hproblems : m.problems = []) :
    m.document.Fits n :=
  Canonical.document_eq_machine h hproblems ▸ Canonical.keepsFit_machine n document hfits

theorem Machine.depth_le_of_toDocument {document written : Json} {m : Machine}
    (hkeys : document.HasDistinctKeys)
    (hread : (Machine.ofDocument .standard document).outcome = .ok m)
    (hwritten : m.toDocument.outcome = .ok written) : written.depth ≤ document.depth := by
  obtain ⟨hproblems, rfl⟩ := Machine.toDocument_eq_ok.mp hwritten
  exact (Machine.fits_document ⟨hkeys, Nat.le_refl _⟩ hread hproblems).2

end StatesLanguage
