import StatesLanguage.Proofs.Items

/-!
# Error names and their texts

The text of an error name is all there is to it. Two things have to fit together for this: the
table of the predefined error codes, and the test for the reserved namespace in which they lie.
Each text is read in one way only, `ErrorName.ofString_eq_ok`, as every code of the table lies in
the namespace and no other name in it is read. What is left of the namespace are the texts that
are no names, `ErrorName.ofString_eq_error`.

A catcher reads its names one after another, and the first text that is no name ends the
reading, `Catcher.ofNames_eq_error`. The main result, `ErrorName.text_faithful`, puts names and
lists of names together.
-/

namespace StatesLanguage

/-! ### Predefined names -/

namespace ErrorCode

/-- The names that are predefined. -/
def names : List String :=
  ["States.Timeout", "States.ALL", "States.TaskFailed", "States.Permissions",
    "States.ResultPathMatchFailure", "States.BranchFailed", "States.NoChoiceMatched"]

theorem mem_names {s : String} : s ∈ names ↔ ∃ code : ErrorCode, s = code.text := by
  constructor
  · intro h
    have htexts : s ∈ all.map text := h
    obtain ⟨code, -, hcode⟩ := List.mem_map.mp htexts
    exact ⟨code, hcode.symm⟩
  · rintro ⟨code, rfl⟩
    cases code <;> decide

theorem ofString_eq_error {s : String} {e : Error} :
    ofString s = .error e ↔ s ∉ names ∧ e = .unsupportedErrorCode s := by
  rw [mem_names]
  constructor
  · intro h
    constructor
    · rintro ⟨code, hcode⟩
      cases h.symm.trans ((ofString_eq_ok s code).mpr hcode)
    · rw [ofString] at h
      split at h
      · cases h
      · exact (Except.error.inj h).symm
  · rintro ⟨hnone, rfl⟩
    rw [ofString]
    split
    · next code hcode =>
      have htext := List.find?_some hcode
      exact absurd ⟨code, (beq_iff_eq.mp htext).symm⟩ hnone
    · rfl

end ErrorCode

/-! ### Names and texts -/

namespace ErrorName

/-- A text lies in the namespace of the predefined error codes. -/
def IsReserved (s : String) : Prop :=
  ∃ rest, s = "States." ++ rest

theorem isPrefixOf_iff {s : String} :
    reserved.toList.isPrefixOf s.toList = true ↔ IsReserved s := by
  rw [List.isPrefixOf_iff_prefix]
  constructor
  · rintro ⟨rest, hrest⟩
    refine ⟨String.ofList rest, String.toList_inj.mp ?_⟩
    rw [← hrest, String.toList_append, @String.toList_ofList rest, reserved]
  · rintro ⟨rest, rfl⟩
    exact ⟨rest.toList, String.toList_append.symm⟩

theorem isReserved_of_mem_names {s : String} (h : s ∈ ErrorCode.names) : IsReserved s := by
  obtain ⟨code, rfl⟩ := ErrorCode.mem_names.mp h
  exact isPrefixOf_iff.mp (isPrefixOf_text code)

theorem clashes_eq_false_iff {n : ErrorName} :
    n.clashes = false ↔ ∀ name, n = .custom name → ¬ IsReserved name := by
  cases n with
  | predefined code =>
    refine iff_of_true rfl ?_
    rintro name ⟨⟩
  | custom name =>
    rw [clashes, Bool.eq_false_iff, Ne, isPrefixOf_iff]
    constructor
    · rintro h _ ⟨rfl⟩
      exact h
    · intro h
      exact h name rfl

/-- **What is no name is reserved, but not predefined.** -/
theorem ofString_eq_error {s : String} {e : Error} :
    ofString s = .error e ↔
      (IsReserved s ∧ s ∉ ErrorCode.names) ∧ e = .unsupportedErrorCode s := by
  rw [ofString]
  split
  · next h =>
    rw [map_eq_error, ErrorCode.ofString_eq_error, and_iff_right (isPrefixOf_iff.mp h)]
  · next h =>
    constructor
    · rintro ⟨⟩
    · rintro ⟨⟨hreserved, -⟩, -⟩
      exact absurd (isPrefixOf_iff.mpr hreserved) h

/-- A name is read as predefined exactly if it is one of the table. -/
theorem isPredefined_iff {s : String} {n : ErrorName} (h : ofString s = .ok n) :
    n.isPredefined = true ↔ s ∈ ErrorCode.names := by
  obtain ⟨rfl, hclashes⟩ := (ofString_eq_ok s n).mp h
  cases n with
  | predefined code => exact iff_of_true rfl (ErrorCode.mem_names.mpr ⟨code, rfl⟩)
  | custom name =>
    refine iff_of_false Bool.false_ne_true fun hmem => ?_
    exact clashes_eq_false_iff.mp hclashes name rfl (isReserved_of_mem_names hmem)

/-- **Different texts are read differently**, as names and as errors. -/
theorem ofString_injective : Function.Injective ofString := by
  intro s t hst
  cases ht : ofString t with
  | ok n =>
    obtain ⟨rfl, -⟩ := (ofString_eq_ok t n).mp ht
    exact ((ofString_eq_ok s n).mp (hst.trans ht)).1
  | error e =>
    obtain ⟨-, hs⟩ := ofString_eq_error.mp (hst.trans ht)
    obtain ⟨-, ht⟩ := ofString_eq_error.mp ht
    exact Error.unsupportedErrorCode.inj (hs.symm.trans ht)

end ErrorName

/-! ### Lists of names -/

namespace Catcher

theorem ofNames_eq_ok {names : List String} {c : Catcher} :
    ofNames names = .ok c ↔ ∃ errors, names.mapM ErrorName.ofString = .ok errors ∧
      c = ⟨errors, .unset .ordinary, .unset⟩ := by
  rw [ofNames, bind_eq_ok]
  refine exists_congr fun errors => and_congr_right fun _ => ?_
  exact pure_eq_ok.trans eq_comm

theorem ofNames_eq_error {names : List String} {e : Error} :
    ofNames names = .error e ↔ ∃ before name after, names = before ++ name :: after ∧
      (∀ t ∈ before, ∃ n, ErrorName.ofString t = .ok n) ∧ ErrorName.ofString name = .error e := by
  rw [← mapM_eq_error, ofNames, bind_eq_error]
  refine or_iff_left ?_
  rintro ⟨_, -, ⟨⟩⟩

theorem exists_ofNames_iff {names : List String} :
    (∃ c, ofNames names = .ok c) ↔ ∀ s ∈ names, ∃ n, ErrorName.ofString s = .ok n := by
  rw [← exists_forall₂_iff]
  simp only [ofNames_eq_ok, mapM_eq_ok]
  constructor
  · rintro ⟨c, errors, h, -⟩
    exact ⟨errors, h⟩
  · rintro ⟨errors, h⟩
    exact ⟨_, errors, h, rfl⟩

theorem texts_of_ofNames {names : List String} {c : Catcher} (h : ofNames names = .ok c) :
    c.errors.map ErrorName.text = names := by
  obtain ⟨errors, herrors, rfl⟩ := ofNames_eq_ok.mp h
  obtain ⟨hnames, -⟩ := (mapM_eq_ok_of_text ErrorName.ofString_eq_ok).mp herrors
  exact hnames.symm

end Catcher

/-- **Error names and their texts stand for each other.** A text is no name exactly if it is
reserved but not predefined, and else it is the text of the name that it reads as, which is
predefined exactly if the text is in the table. Lists of texts make up catchers in the same way,
and every name that has been read, or is predefined, is read again from its text. -/
theorem ErrorName.text_faithful :
    (∀ s e, ofString s = .error e ↔
      (IsReserved s ∧ s ∉ ErrorCode.names) ∧ e = .unsupportedErrorCode s) ∧
      (∀ s n, ofString s = .ok n → n.text = s ∧
        (n.isPredefined = true ↔ s ∈ ErrorCode.names) ∧
          ∀ name, n = .custom name → ¬ IsReserved name) ∧
      Function.Injective ofString ∧
      (∀ names, (∃ c, Catcher.ofNames names = .ok c) ↔ ∀ s ∈ names, ∃ n, ofString s = .ok n) ∧
      (∀ names c, Catcher.ofNames names = .ok c → c.errors.map text = names) ∧
      (∀ names e, Catcher.ofNames names = .error e ↔ ∃ before s after,
        names = before ++ s :: after ∧ (∀ t ∈ before, ∃ n, ofString t = .ok n) ∧
          ofString s = .error e) ∧
      (∀ n, ((∃ s, ofString s = .ok n) ∨ ∃ code, n = .predefined code) →
        ofString n.text = .ok n) ∧
      ∀ code : ErrorCode, ErrorCode.ofString code.text = .ok code := by
  refine ⟨fun s e => ofString_eq_error, ?_, ofString_injective,
    fun names => Catcher.exists_ofNames_iff, fun names c => Catcher.texts_of_ofNames,
    fun names e => Catcher.ofNames_eq_error, ?_,
    fun code => (ErrorCode.ofString_eq_ok _ code).mpr rfl⟩
  · intro s n h
    obtain ⟨hs, hclashes⟩ := (ofString_eq_ok s n).mp h
    exact ⟨hs.symm, isPredefined_iff h, clashes_eq_false_iff.mp hclashes⟩
  · intro n h
    refine (ofString_eq_ok _ n).mpr ⟨rfl, ?_⟩
    rcases h with ⟨s, h⟩ | ⟨code, rfl⟩
    · exact ((ofString_eq_ok s n).mp h).2
    · rfl

theorem ErrorName.text_faithful_reserved :
    ofString "States.Odd" = .error (.unsupportedErrorCode "States.Odd") ∧
      ofString "Odd" = .ok (.custom "Odd") ∧ ¬ IsReserved "Odd" ∧
      (∃ c, Catcher.ofNames ["Odd", "States.ALL"] = .ok c ∧
        c.errors.map text = ["Odd", "States.ALL"]) ∧
      Catcher.ofNames ["Odd", "States.Odd", "States.Even"] =
        .error (.unsupportedErrorCode "States.Odd") ∧
      ofString (predefined .wildcard).text = .ok (.predefined .wildcard) := by
  obtain ⟨herror, hok, -, hlist, htexts, hfirst, hback, -⟩ := text_faithful
  have hodd : ofString "States.Odd" = .error (.unsupportedErrorCode "States.Odd") :=
    (herror _ _).mpr ⟨⟨⟨"Odd", by decide⟩, by decide⟩, rfl⟩
  have hcustom : ofString "Odd" = .ok (.custom "Odd") := rfl
  obtain ⟨c, hc⟩ := (hlist ["Odd", "States.ALL"]).mpr <| by
    rintro s hs
    rcases List.mem_pair.mp hs with rfl | rfl
    · exact ⟨_, hcustom⟩
    · exact ⟨.predefined .wildcard, hback (.predefined .wildcard) (Or.inr ⟨_, rfl⟩)⟩
  refine ⟨hodd, hcustom, (hok _ _ hcustom).2.2 "Odd" rfl, ⟨c, hc, htexts _ c hc⟩, ?_,
    hback _ (Or.inr ⟨_, rfl⟩)⟩
  exact (hfirst _ _).mpr ⟨["Odd"], _, _, rfl,
    List.forall_mem_singleton.mpr ⟨_, hcustom⟩, hodd⟩

end StatesLanguage
