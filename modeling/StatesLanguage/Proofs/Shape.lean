import StatesLanguage.Proofs.Items

/-!
# Shapes of values and of members

What a document says about the value under a key: a string, a path expression, a
positive number of seconds and so on, each as a predicate on JSON values that does not
mention the model. A key may be allowed, where an absent one is as good, or required.

Each shape comes with the values of the model that are written in it. So a key that is
allowed in a shape is one that shows some setting, present or not, which is what a
reader asks for.
-/

namespace StatesLanguage

open Json (Members)

/-! ### Shapes of values -/

namespace Json

/-- A string. -/
def IsString (v : Json) : Prop :=
  ∃ s, v = .string s

/-- The text of a path expression. -/
def IsPathText (v : Json) : Prop :=
  ∃ s, v = .string s ∧ isPath s = true

/-- An integer in the range of the unsigned 32-bit words. -/
def IsCount (v : Json) : Prop :=
  ∃ i : Integer, v = .number (.int i) ∧ 0 ≤ i.value ∧ i.value < 0x100000000

/-- A positive integer in the range of the unsigned 32-bit words. -/
def IsPositiveCount (v : Json) : Prop :=
  ∃ i : Integer, v = .number (.int i) ∧ 1 ≤ i.value ∧ i.value < 0x100000000

/-- A number that is at least one. -/
def IsRate (v : Json) : Prop :=
  ∃ n : Number, v = .number n ∧ n.atLeastOne = true

/-- The name of a predefined error code. -/
def IsErrorCode (v : Json) : Prop :=
  ∃ code : ErrorCode, v = .string code.text

/-- The name of an error: in the reserved namespace, that of a predefined one. -/
def IsErrorName (v : Json) : Prop :=
  ∃ s, v = .string s ∧
    (ErrorName.reserved.toList.isPrefixOf s.toList = true → ∃ code : ErrorCode, s = code.text)

/-- An array of values of a shape. -/
def IsArrayOf (P : Json → Prop) (v : Json) : Prop :=
  ∃ items, v = .array items ∧ ∀ w ∈ items, P w

/-- An array. -/
def IsArray (v : Json) : Prop :=
  ∃ items, v = .array items

/-- An object. -/
def IsObject (v : Json) : Prop :=
  ∃ ms, v = .object ms

/-- An object in which no key stands twice, as is every one that a text spells. -/
def IsDictionary (v : Json) : Prop :=
  ∃ ms, v = .object ms ∧ (ms.map Prod.fst).Nodup

end Json

/-! ### What the model writes in them -/

theorem Path.isPathText_iff {v : Json} : v.IsPathText ↔ ∃ p : Path, v = p.toJson := by
  constructor
  · rintro ⟨s, rfl, hs⟩
    exact ⟨⟨s, hs⟩, rfl⟩
  · rintro ⟨p, rfl⟩
    exact ⟨p.text, rfl, p.valid⟩

theorem Json.isCount_iff {v : Json} : v.IsCount ↔ ∃ n : UInt32, v = .ofUInt32 n := by
  constructor
  · rintro ⟨i, rfl, hlow, hhigh⟩
    refine ⟨.ofNat i.value.toNat, Json.number_eq_ofUInt32.mpr ?_⟩
    rw [Number.toUInt32?, if_pos ⟨hlow, by omega⟩]
  · rintro ⟨n, rfl⟩
    have hn := n.toNat_lt
    exact ⟨_, rfl, Int.natCast_nonneg _, by change (n.toNat : Int) < 0x100000000; omega⟩

theorem Seconds.isPositiveCount_iff {v : Json} :
    v.IsPositiveCount ↔ ∃ s : Seconds, v = s.toJson := by
  constructor
  · rintro ⟨i, rfl, hlow, hhigh⟩
    obtain ⟨n, hn⟩ := Json.isCount_iff.mp ⟨i, rfl, by omega, hhigh⟩
    have hvalue : i.value = (n.toNat : Int) := by
      rw [Json.ofUInt32, Json.number.injEq, Json.Number.ofUInt32, Json.Number.int.injEq] at hn
      rw [hn]
    refine ⟨⟨n, ?_⟩, hn⟩
    rw [UInt32.lt_iff_toNat_lt, UInt32.toNat_zero]
    omega
  · rintro ⟨⟨n, hpos⟩, rfl⟩
    have hn := n.toNat_lt
    rw [UInt32.lt_iff_toNat_lt, UInt32.toNat_zero] at hpos
    refine ⟨_, rfl, ?_, ?_⟩
    · change (1 : Int) ≤ (n.toNat : Int)
      omega
    · change (n.toNat : Int) < 0x100000000
      omega

theorem BackoffRate.isRate_iff {v : Json} : v.IsRate ↔ ∃ b : BackoffRate, v = .number b.number := by
  constructor
  · rintro ⟨n, rfl, hn⟩
    exact ⟨⟨n, hn⟩, rfl⟩
  · rintro ⟨b, rfl⟩
    exact ⟨b.number, rfl, b.bound⟩

theorem ErrorName.isErrorName_iff {v : Json} :
    v.IsErrorName ↔ ∃ n : ErrorName, v = .string n.text ∧ n.clashes = false := by
  constructor
  · rintro ⟨s, rfl, hs⟩
    by_cases hres : reserved.toList.isPrefixOf s.toList = true
    · obtain ⟨code, rfl⟩ := hs hres
      exact ⟨.predefined code, rfl, rfl⟩
    · exact ⟨.custom s, rfl, Bool.eq_false_iff.mpr hres⟩
  · rintro ⟨n, rfl, hn⟩
    refine ⟨n.text, rfl, fun hres => ?_⟩
    cases n with
    | predefined code => exact ⟨code, rfl⟩
    | custom name => exact absurd hres (Bool.eq_false_iff.mp hn)

/-! ### Keys -/

/-- The value under a key has a shape, if there is one. -/
def Allows (key : String) (P : Json → Prop) (ms : Members) : Prop :=
  ∀ v, ms.lookup key = some v → P v

/-- There is a value under a key, and it has a shape. -/
def Requires (key : String) (P : Json → Prop) (ms : Members) : Prop :=
  ∃ v, ms.lookup key = some v ∧ P v

/-- **A key that is allowed shows some setting, set or not.** -/
theorem allows_iff {α : Type} {P : Json → Prop} {toJson : α → Json}
    (hP : ∀ v, P v ↔ ∃ a, v = toJson a) {key : String} {ms : Members} :
    Allows key P ms ↔ ∃ a : Option α, ms.lookup key = a.map toJson := by
  rw [Allows]
  rcases ms.lookup key with _ | v
  · exact iff_of_true (fun v h => absurd h.symm (Option.some_ne_none v)) ⟨none, rfl⟩
  · constructor
    · intro h
      obtain ⟨a, rfl⟩ := (hP v).mp (h v rfl)
      exact ⟨some a, rfl⟩
    · rintro ⟨_ | a, h⟩ w hw
      · exact absurd h (Option.some_ne_none v)
      · rw [h] at hw
        exact (hP w).mpr ⟨a, (Option.some.inj hw).symm⟩

theorem allowsString_iff {key : String} {ms : Members} :
    Allows key Json.IsString ms ↔ ∃ s : Option String, ms.lookup key = s.map .string :=
  allows_iff fun _ => Iff.rfl

theorem Allows.of_none {key : String} {P : Json → Prop} {ms : Members}
    (h : ms.lookup key = none) : Allows key P ms :=
  fun v hv => absurd (hv.symm.trans h) (Option.some_ne_none v)

theorem Allows.of_some {key : String} {P : Json → Prop} {ms : Members} {v : Json}
    (h : ms.lookup key = some v) (hv : P v) : Allows key P ms :=
  fun _ hw => Option.some.inj (h.symm.trans hw) ▸ hv

/-! ### The flow of data -/

/-- What may stand under `ResultPath`. -/
def Json.IsResultPath (v : Json) : Prop :=
  v = .null ∨ v.IsPathText

/-- What may stand under the keys of the flow of data. -/
structure IsDataFlow (ms : Members) : Prop where
  /-- The part of the input that is used. -/
  input : Allows "InputPath" Json.IsPathText ms
  /-- The part of the output that is passed on. -/
  output : Allows "OutputPath" Json.IsPathText ms
  /-- The placement of the result. -/
  resultPath : Allows "ResultPath" Json.IsResultPath ms

theorem ResultPath.allows_iff {ms : Members} : Allows "ResultPath" Json.IsResultPath ms ↔
    ∃ r : ResultPath, ms.lookup "ResultPath" = r.toJson? := by
  constructor
  · intro h
    rcases hv : ms.lookup "ResultPath" with _ | v
    · exact ⟨.unset, rfl⟩
    · rcases h v hv with rfl | hpath
      · exact ⟨.discarded, rfl⟩
      · obtain ⟨p, rfl⟩ := Path.isPathText_iff.mp hpath
        exact ⟨.placed p, rfl⟩
  · rintro ⟨_ | _ | p, h⟩
    · exact .of_none h
    · exact .of_some h (Or.inl rfl)
    · exact .of_some h (Or.inr (Path.isPathText_iff.mpr ⟨p, rfl⟩))

theorem isDataFlow_iff {ms : Members} : IsDataFlow ms ↔
    (∃ p : DataPaths, p.Shown ms) ∧ ∃ r : ResultPath, ms.lookup "ResultPath" = r.toJson? := by
  have hpath (key : String) : Allows key Json.IsPathText ms ↔
      ∃ p : Option Path, ms.lookup key = p.map Path.toJson :=
    allows_iff fun _ => Path.isPathText_iff
  constructor
  · rintro ⟨hin, hout, hres⟩
    obtain ⟨input, hin⟩ := (hpath _).mp hin
    obtain ⟨output, hout⟩ := (hpath _).mp hout
    exact ⟨⟨⟨input, output⟩, hin, hout⟩, ResultPath.allows_iff.mp hres⟩
  · rintro ⟨⟨p, hin, hout⟩, hres⟩
    exact ⟨(hpath _).mpr ⟨p.input, hin⟩, (hpath _).mpr ⟨p.output, hout⟩,
      ResultPath.allows_iff.mpr hres⟩

end StatesLanguage
