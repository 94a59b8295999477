import StatesLanguage.Proofs.Keys

/-!
# Reading policies, handlers and comparisons

The items of the arrays in a document. A retrier is read exactly from the members that
show it, key by key; a catcher as well, but that a custom name in the reserved
namespace is never read: `ErrorName.clashes` tells such a name, which the writer
cannot keep apart from a predefined one. A comparison is read back from its variable
and its literal.
-/

namespace StatesLanguage

open Json (Members)

/-! ### Names of errors -/

theorem ErrorCode.ofString_eq_ok (s : String) (code : ErrorCode) :
    ErrorCode.ofString s = .ok code ↔ s = code.text := by
  constructor
  · intro h
    rw [ErrorCode.ofString] at h
    split at h
    · next found hfound =>
      obtain rfl := Except.ok.inj h
      have htext := List.find?_some hfound
      exact (beq_iff_eq.mp htext).symm
    · nomatch h
  · rintro rfl
    cases code <;> simp [ErrorCode.ofString, ErrorCode.all, ErrorCode.text]

namespace ErrorName

/-- Whether a custom name stands in the reserved namespace, where every name is read
as a predefined error code, or not at all. -/
def clashes : ErrorName → Bool
  | .predefined _ => false
  | .custom name => reserved.toList.isPrefixOf name.toList

theorem isPrefixOf_text (code : ErrorCode) :
    reserved.toList.isPrefixOf code.text.toList = true := by
  cases code <;> decide

/-- **A name is read from its own text**, unless it is a custom one in the reserved
namespace. -/
theorem ofString_eq_ok (s : String) (n : ErrorName) :
    ofString s = .ok n ↔ s = n.text ∧ n.clashes = false := by
  rw [ofString]
  by_cases hs : reserved.toList.isPrefixOf s.toList = true
  · -- in the reserved namespace only predefined names are read
    rw [if_pos hs, map_eq_ok]
    cases n with
    | predefined code =>
      constructor
      · rintro ⟨c, hc, h⟩
        obtain rfl := ErrorName.predefined.inj h
        exact ⟨(ErrorCode.ofString_eq_ok s c).mp hc, rfl⟩
      · rintro ⟨h, -⟩
        exact ⟨code, (ErrorCode.ofString_eq_ok s code).mpr h, rfl⟩
    | custom name =>
      constructor
      · rintro ⟨_, _, h⟩
        nomatch h
      · rintro ⟨rfl, h⟩
        exact absurd hs (by rw [show reserved.toList.isPrefixOf _ = false from h]; simp)
  · -- outside it every name is a custom one
    rw [if_neg hs]
    cases n with
    | predefined code =>
      constructor
      · intro h
        nomatch Except.ok.inj h
      · rintro ⟨rfl, -⟩
        exact absurd (isPrefixOf_text code) hs
    | custom name =>
      constructor
      · intro h
        obtain rfl := ErrorName.custom.inj (Except.ok.inj h)
        exact ⟨rfl, Bool.eq_false_iff.mpr hs⟩
      · rintro ⟨rfl, -⟩
        rfl

end ErrorName

/-- A walk over texts each of which is read only from what stands for it. -/
theorem mapM_eq_ok_of_text {α : Type} {read : String → Except Error α} {text : α → String}
    {good : α → Prop} (hread : ∀ s a, read s = .ok a ↔ s = text a ∧ good a) {ss : List String}
    {as : List α} : ss.mapM read = .ok as ↔ ss = as.map text ∧ ∀ a ∈ as, good a := by
  simp only [mapM_eq_ok, hread]
  exact forall₂_eq_map_iff

/-! ### Retry policies -/

/-- The members show a retry policy. -/
structure Retrier.Shown (ms : Members) (r : Retrier) : Prop where
  /-- The names of its errors. -/
  errors : (ms.lookup "ErrorEquals").getD (.array []) =
    .array (r.errors.map fun code => .string code.text)
  /-- The interval. -/
  interval : ms.lookup "IntervalSeconds" = r.interval.map Seconds.toJson
  /-- The backoff rate. -/
  backoff : ms.lookup "BackoffRate" = r.backoff.map fun b => .number b.number
  /-- The number of attempts. -/
  attempts : ms.lookup "MaxAttempts" = r.attempts.map .ofUInt32

theorem Json.asObject_eq_ok {what : String} {v : Json} {ms : Members} :
    v.asObject what = .ok ms ↔ v = .object ms := by
  cases v <;> simp [Json.asObject, Json.malformed]

/-- **A retry policy is read from the objects that show it.** -/
theorem Retrier.ofJson_eq_ok {v : Json} {r : Retrier} :
    Retrier.ofJson v = .ok r ↔ ∃ ms, v = .object ms ∧ r.Shown ms := by
  simp only [Retrier.ofJson, bind_eq_ok, Json.asObject_eq_ok, Json.lookupStrings_eq_ok,
    Seconds.lookup_eq_ok, BackoffRate.lookup_eq_ok, Json.lookupCount_eq_ok, pure_eq_ok]
  refine exists_congr fun ms => and_congr_right fun _ => ?_
  have hcodes {ss : List String} {codes : List ErrorCode} :
      ss.mapM ErrorCode.ofString = .ok codes ↔ ss = codes.map ErrorCode.text ∧ ∀ c ∈ codes, True :=
    mapM_eq_ok_of_text fun s a => by rw [ErrorCode.ofString_eq_ok, and_true]
  constructor
  · rintro ⟨ss, hss, codes, hc, interval, hi, backoff, hb, attempts, ha, rfl⟩
    obtain ⟨rfl, -⟩ := hcodes.mp hc
    exact ⟨by rw [hss, List.map_map]; rfl, hi, hb, ha⟩
  · rintro ⟨he, hi, hb, ha⟩
    exact ⟨r.errors.map ErrorCode.text, by rw [he, List.map_map]; rfl, r.errors,
      hcodes.mpr ⟨rfl, fun _ _ => trivial⟩, r.interval, hi, r.backoff, hb, r.attempts, ha, rfl⟩

/-! ### Error handlers -/

/-- The members show an error handler. -/
structure Catcher.Shown (ms : Members) (c : Catcher) : Prop where
  /-- The names of its errors. -/
  errors : (ms.lookup "ErrorEquals").getD (.array []) =
    .array (c.errors.map fun name => .string name.text)
  /-- Each of the names is read as it is. -/
  readable : ∀ name ∈ c.errors, name.clashes = false
  /-- The transition. -/
  next : c.next.Shown .ordinary ms
  /-- The placement of the error output. -/
  resultPath : ms.lookup "ResultPath" = c.resultPath.toJson?

/-- **An error handler is read from the objects that show it.** -/
theorem Catcher.ofJson_eq_ok {v : Json} {c : Catcher} :
    Catcher.ofJson v = .ok c ↔ ∃ ms, v = .object ms ∧ c.Shown ms := by
  simp only [Catcher.ofJson, bind_eq_ok, Json.asObject_eq_ok, Json.lookupStrings_eq_ok,
    mapM_eq_ok_of_text ErrorName.ofString_eq_ok, TransitionField.ofMembers_eq_ok,
    ResultPath.ofMembers_eq_ok, pure_eq_ok]
  refine exists_congr fun ms => and_congr_right fun _ => ?_
  constructor
  · rintro ⟨ss, hss, errors, ⟨rfl, hgood⟩, next, hnext, resultPath, hr, rfl⟩
    exact ⟨by rw [hss, List.map_map]; rfl, hgood, hnext, hr⟩
  · rintro ⟨he, hgood, hnext, hr⟩
    exact ⟨c.errors.map ErrorName.text, by rw [he, List.map_map]; rfl, c.errors, ⟨rfl, hgood⟩,
      c.next, hnext, c.resultPath, hr, rfl⟩

/-! ### Arrays of them -/

theorem Retrier.listOfMembers_eq_ok {ms : Members} {rs : List Retrier} :
    Retrier.listOfMembers ms = .ok rs ↔ ∃ items,
      (ms.lookup "Retry").getD (.array []) = .array items ∧
        List.Forall₂ (fun v r => Retrier.ofJson v = .ok r) items rs := by
  simp only [Retrier.listOfMembers, bind_eq_ok, Json.lookupArray_eq_ok, mapM_eq_ok]

theorem Catcher.listOfMembers_eq_ok {ms : Members} {cs : List Catcher} :
    Catcher.listOfMembers ms = .ok cs ↔ ∃ items,
      (ms.lookup "Catch").getD (.array []) = .array items ∧
        List.Forall₂ (fun v c => Catcher.ofJson v = .ok c) items cs := by
  simp only [Catcher.listOfMembers, bind_eq_ok, Json.lookupArray_eq_ok, mapM_eq_ok]

/-! ### Comparisons -/

theorem Comparison.setLiteral_eq_ok {v : Json} {c d : Comparison} :
    c.setLiteral v = .ok d ↔ d.op = c.op ∧ d.input = c.input ∧ d.literal = some v := by
  rw [Comparison.setLiteral, dite_eq_ok]
  constructor
  · rintro ⟨_, rfl⟩
    exact ⟨rfl, rfl, rfl⟩
  · obtain ⟨op, input, literal, accepted⟩ := d
    rintro ⟨rfl, rfl, rfl⟩
    exact ⟨accepted v rfl, rfl⟩

/-- **A comparison is read from its variable and its literal.** -/
theorem Comparison.ofMembers_eq_ok {op : Comparator} {ms : Members} {c : Comparison} :
    Comparison.ofMembers op ms = .ok c ↔ c.op = op ∧
      ms.lookup "Variable" = c.input.map Path.toJson ∧ ms.lookup op.keyword = c.literal := by
  simp only [Comparison.ofMembers, bind_eq_ok, Path.lookup_eq_ok]
  obtain ⟨op', input', literal, accepted⟩ := c
  rcases ms.lookup op.keyword with _ | v
  · constructor
    · rintro ⟨input, hi, h⟩
      obtain ⟨rfl, rfl, rfl⟩ := Comparison.mk.inj (pure_eq_ok.mp h)
      exact ⟨rfl, hi, rfl⟩
    · rintro ⟨rfl, hi, rfl⟩
      exact ⟨input', hi, rfl⟩
  · simp only [Comparison.setLiteral_eq_ok]
    constructor
    · rintro ⟨input, hi, rfl, rfl, h⟩
      exact ⟨rfl, hi, h.symm⟩
    · rintro ⟨rfl, hi, h⟩
      exact ⟨input', hi, rfl, rfl, h.symm⟩

end StatesLanguage
