import StatesLanguage.Document.Reader
import StatesLanguage.Proofs.Members
import StatesLanguage.Proofs.Success

/-!
# What a key reads as

Most settings stand under a key of their own, and for these a reader and the writer
agree in the strongest sense: a value is read exactly if the key finds what would be
written for it. `Seconds.lookup_eq_ok` and its like say so in one line each, and with
them both directions between documents and models become statements on what keys
find.

Three readers are more lenient than the writer. An absent array reads as an empty
one; the transition of a state is found under either of two keys, of which `End`
only counts if it is true; and a name of an error is read as predefined wherever it
could be. For these a predicate tells which members show a value.
-/

namespace StatesLanguage

open Json (Members)

/-! ### Strings, counts, numbers, arrays -/

namespace Json

theorem lookupString_eq_ok {key : String} {ms : Members} {s : Option String} :
    lookupString key ms = .ok s ↔ ms.lookup key = s.map .string := by
  rw [lookupString]
  rcases h : ms.lookup key with _ | v
  · cases s <;> simp
  · cases v <;> cases s <;> simp [malformed]

/-- The numbers that are read as words are those that words are written as. -/
theorem Number.toUInt32?_eq_some {n : Number} {count : UInt32} :
    n.toUInt32? = some count ↔ n = .ofUInt32 count := by
  constructor
  · intro h
    cases n with
    | float x => nomatch h
    | int i =>
      obtain ⟨value, lower, upper⟩ := i
      rw [Number.toUInt32?] at h
      split at h
      · next hrange =>
        obtain rfl := Option.some.inj h
        -- no bits are lost in the word, nor the sign in the natural number
        have hvalue : ((UInt32.ofNat value.toNat).toNat : Int) = value := by
          rw [UInt32.toNat_ofNat_of_lt' (by simp only [UInt32.size] at hrange ⊢; omega)]
          exact Int.toNat_of_nonneg hrange.1
        simp only [Number.ofUInt32, hvalue]
      · nomatch h
  · rintro rfl
    have hlt := count.toNat_lt
    have hrange : 0 ≤ (count.toNat : Int) ∧ (count.toNat : Int) < 0x100000000 := by omega
    rw [Number.ofUInt32, Number.toUInt32?, if_pos hrange, Int.toNat_natCast, UInt32.ofNat_toNat]

theorem number_eq_ofUInt32 {n : Number} {count : UInt32} :
    Json.number n = .ofUInt32 count ↔ n.toUInt32? = some count := by
  rw [Number.toUInt32?_eq_some]
  exact ⟨Json.number.inj, congrArg _⟩

theorem lookupCount_eq_ok {key : String} {ms : Members} {count : Option UInt32} :
    lookupCount key ms = .ok count ↔ ms.lookup key = count.map .ofUInt32 := by
  rw [lookupCount]
  rcases h : ms.lookup key with _ | v
  · cases count <;> simp
  · cases v with
    | number n =>
      rcases hn : n.toUInt32? with _ | c <;> cases count <;>
        simp [hn, malformed, number_eq_ofUInt32]
    | _ => cases count <;> simp [malformed, Json.ofUInt32]

theorem lookupNumber_eq_ok {key : String} {ms : Members} {n : Option Number} :
    lookupNumber key ms = .ok n ↔ ms.lookup key = n.map .number := by
  rw [lookupNumber]
  rcases h : ms.lookup key with _ | v
  · cases n <;> simp
  · cases v <;> cases n <;> simp [malformed]

/-- An absent array reads as an empty one. -/
theorem lookupArray_eq_ok {key : String} {ms : Members} {items : List Json} :
    lookupArray key ms = .ok items ↔ (ms.lookup key).getD (.array []) = .array items := by
  rw [lookupArray]
  rcases h : ms.lookup key with _ | v
  · simp
  · cases v <;> simp [malformed]

theorem asStrings_eq_ok {key : String} {items : List Json} {ss : List String} :
    asStrings key items = .ok ss ↔ items = ss.map .string := by
  induction items generalizing ss with
  | nil => cases ss <;> simp [asStrings]
  | cons v vs ih =>
    cases v with
    | string s =>
      rw [asStrings, map_eq_ok]
      constructor
      · rintro ⟨rest, hrest, rfl⟩
        rw [ih.mp hrest, List.map_cons]
      · intro h
        cases ss with
        | nil => nomatch h
        | cons s' ss' =>
          obtain ⟨hs, hss⟩ := List.cons.inj h
          exact ⟨ss', ih.mpr hss, by rw [Json.string.inj hs]⟩
    | _ => cases ss <;> simp [asStrings, malformed]

theorem lookupStrings_eq_ok {key : String} {ms : Members} {ss : List String} :
    lookupStrings key ms = .ok ss ↔
      (ms.lookup key).getD (.array []) = .array (ss.map .string) := by
  rw [lookupStrings, bind_eq_ok]
  constructor
  · rintro ⟨items, hitems, h⟩
    rw [lookupArray_eq_ok.mp hitems, asStrings_eq_ok.mp h]
  · intro h
    exact ⟨_, lookupArray_eq_ok.mpr h, asStrings_eq_ok.mpr rfl⟩

end Json

/-! ### Paths, seconds, rates -/

/-- **A checked reading.** Where the values that pass a check are told apart by what
they are read from, the key finds what is behind the value. -/
theorem checked_eq_ok {α ρ : Type} {check : ρ → Except Error α} {source : α → ρ}
    (hcheck : ∀ r a, check r = .ok a ↔ r = source a) {x : Except Error (Option ρ)}
    {f : Option ρ → Except Error (Option α)} (hnone : f none = .ok none)
    (hsome : ∀ r, f (some r) = (check r).map some) {a : Option α} :
    (x >>= f) = .ok a ↔ x = .ok (a.map source) := by
  rw [bind_eq_ok]
  constructor
  · rintro ⟨_ | r, rfl, h⟩
    · rw [hnone] at h
      rw [← Except.ok.inj h]
      rfl
    · rw [hsome] at h
      obtain ⟨b, hb, rfl⟩ := map_eq_ok.mp h
      rw [(hcheck r b).mp hb]
      rfl
  · rintro rfl
    refine ⟨_, rfl, ?_⟩
    cases a with
    | none => exact hnone
    | some b => exact (hsome _).trans (map_eq_ok.mpr ⟨b, (hcheck _ b).mpr rfl, rfl⟩)

theorem Path.ofString_eq_ok (text : String) (p : Path) :
    Path.ofString text = .ok p ↔ text = p.text := by
  rw [Path.ofString, dite_eq_ok]
  constructor
  · rintro ⟨_, rfl⟩
    rfl
  · rintro rfl
    exact ⟨p.valid, rfl⟩

theorem Path.lookup_eq_ok {key : String} {ms : Members} {p : Option Path} :
    Path.lookup key ms = .ok p ↔ ms.lookup key = p.map Path.toJson := by
  rw [Path.lookup, checked_eq_ok Path.ofString_eq_ok rfl fun _ => rfl, Json.lookupString_eq_ok,
    Option.map_map]
  rfl

theorem Seconds.ofCount_eq_ok (key : String) (n : UInt32) (s : Seconds) :
    Seconds.ofCount key n = .ok s ↔ n = s.count := by
  rw [Seconds.ofCount, dite_eq_ok]
  constructor
  · rintro ⟨_, rfl⟩
    rfl
  · rintro rfl
    exact ⟨s.positive, rfl⟩

theorem Seconds.lookup_eq_ok {key : String} {ms : Members} {s : Option Seconds} :
    Seconds.lookup key ms = .ok s ↔ ms.lookup key = s.map Seconds.toJson := by
  rw [Seconds.lookup, checked_eq_ok (Seconds.ofCount_eq_ok key) rfl fun _ => rfl,
    Json.lookupCount_eq_ok, Option.map_map]
  rfl

theorem BackoffRate.ofNumber_eq_ok (n : Json.Number) (b : BackoffRate) :
    BackoffRate.ofNumber n = .ok b ↔ n = b.number := by
  rw [BackoffRate.ofNumber, dite_eq_ok]
  constructor
  · rintro ⟨_, rfl⟩
    rfl
  · rintro rfl
    exact ⟨b.bound, rfl⟩

theorem BackoffRate.lookup_eq_ok {key : String} {ms : Members} {b : Option BackoffRate} :
    BackoffRate.lookup key ms = .ok b ↔ ms.lookup key = b.map fun b => .number b.number := by
  rw [BackoffRate.lookup, checked_eq_ok BackoffRate.ofNumber_eq_ok rfl fun _ => rfl,
    Json.lookupNumber_eq_ok, Option.map_map]
  rfl

/-! ### The flow of data -/

/-- The members show projections of input and output. -/
structure DataPaths.Shown (ms : Members) (p : DataPaths) : Prop where
  /-- The part of the input that is used. -/
  input : ms.lookup "InputPath" = p.input.map Path.toJson
  /-- The part of the output that is passed on. -/
  output : ms.lookup "OutputPath" = p.output.map Path.toJson

theorem DataPaths.ofMembers_eq_ok {ms : Members} {p : DataPaths} :
    DataPaths.ofMembers ms = .ok p ↔ p.Shown ms := by
  rw [DataPaths.ofMembers, bind_eq_ok]
  constructor
  · rintro ⟨input, hin, h⟩
    obtain ⟨output, hout, h⟩ := bind_eq_ok.mp h
    rw [← pure_eq_ok.mp h]
    exact ⟨Path.lookup_eq_ok.mp hin, Path.lookup_eq_ok.mp hout⟩
  · rintro ⟨hin, hout⟩
    exact ⟨p.input, Path.lookup_eq_ok.mpr hin,
      bind_eq_ok.mpr ⟨p.output, Path.lookup_eq_ok.mpr hout, rfl⟩⟩

/-- What stands under `ResultPath` in a document. -/
def ResultPath.toJson? : ResultPath → Option Json
  | .unset => none
  | .discarded => some .null
  | .placed path => some path.toJson

theorem ResultPath.ofMembers_eq_ok {ms : Members} {r : ResultPath} :
    ResultPath.ofMembers ms = .ok r ↔ ms.lookup "ResultPath" = r.toJson? := by
  rw [ResultPath.ofMembers]
  rcases h : ms.lookup "ResultPath" with _ | v
  · cases r <;> simp [ResultPath.toJson?]
  · cases v with
    | null => cases r <;> simp [ResultPath.toJson?, Path.toJson]
    | string text =>
      simp only [ResultPath.place, map_eq_ok, Path.ofString_eq_ok]
      cases r <;> simp [ResultPath.toJson?, Path.toJson]
    | _ => cases r <;> simp [ResultPath.toJson?, Path.toJson, Json.malformed]

/-! ### Transitions -/

/-- A transition field of a mode holds no transition that the mode forbids. -/
structure TransitionField.Fits (mode : TransitionMode) (f : TransitionField) : Prop where
  /-- The mode is that of the place. -/
  mode_eq : f.mode = mode
  /-- Only an ordinary place takes the end. -/
  terminal : f.transition = some .terminal → mode = .ordinary
  /-- A locked place takes nothing. -/
  locked : mode = .locked → f.transition = none

/-- The members show a transition field of a mode: the end under a true `End`, a target
under `Next` beside no such `End`, and nothing under neither. -/
def TransitionField.Shown (mode : TransitionMode) (ms : Members) (f : TransitionField) : Prop :=
  f.mode = mode ∧
    match f.transition with
    | some .terminal => mode = .ordinary ∧ ms.lookup "End" = some (.bool true)
    | some (.next target) =>
      mode ≠ .locked ∧ ms.lookup "End" ≠ some (.bool true) ∧
        ms.lookup "Next" = some (.string target)
    | none => ms.lookup "End" ≠ some (.bool true) ∧ ms.lookup "Next" = none

theorem TransitionField.setTerminal_unset_eq_ok {mode : TransitionMode} {f : TransitionField} :
    (unset mode).setTerminal = .ok f ↔ mode = .ordinary ∧ f = ⟨.ordinary, some .terminal⟩ := by
  cases mode <;> simp [unset, setTerminal, eq_comm]

theorem TransitionField.setTarget_unset_eq_ok {mode : TransitionMode} {target : String}
    {f : TransitionField} :
    (unset mode).setTarget target = .ok f ↔ mode ≠ .locked ∧ f = ⟨mode, some (.next target)⟩ := by
  cases mode <;> simp [unset, setTarget, eq_comm]

theorem TransitionField.ofMembers_of_end {mode : TransitionMode} {ms : Members}
    (h : ms.lookup "End" = some (.bool true)) :
    ofMembers mode ms = (unset mode).setTerminal := by
  rw [ofMembers, h]

theorem TransitionField.ofMembers_of_not_end {mode : TransitionMode} {ms : Members}
    (h : ms.lookup "End" ≠ some (.bool true)) :
    ofMembers mode ms = do
      match ← Json.lookupString "Next" ms with
      | some target => (unset mode).setTarget target
      | none => return unset mode := by
  rw [ofMembers]
  split
  · next he => exact absurd he h
  · rfl

/-- **A transition is read from the members that show it.** -/
theorem TransitionField.ofMembers_eq_ok {mode : TransitionMode} {ms : Members}
    {f : TransitionField} : ofMembers mode ms = .ok f ↔ f.Shown mode ms := by
  obtain ⟨m, t⟩ := f
  -- a true `End` hides whatever stands under `Next`, so it comes first
  rcases Classical.em (ms.lookup "End" = some (.bool true)) with h | h
  · rw [ofMembers_of_end h, setTerminal_unset_eq_ok]
    rcases t with _ | _ | _ <;> cases mode <;> simp [Shown, h]
  · rw [ofMembers_of_not_end h, bind_eq_ok]
    constructor
    · rintro ⟨_ | target, hnext, hf⟩
      · obtain ⟨rfl, rfl⟩ := TransitionField.mk.inj (pure_eq_ok.mp hf)
        exact ⟨rfl, h, Json.lookupString_eq_ok.mp hnext⟩
      · obtain ⟨hmode, hf⟩ := setTarget_unset_eq_ok.mp hf
        obtain ⟨rfl, rfl⟩ := TransitionField.mk.inj hf
        exact ⟨rfl, hmode, h, Json.lookupString_eq_ok.mp hnext⟩
    · rintro ⟨rfl, hshown⟩
      rcases t with _ | target | _
      · exact ⟨none, Json.lookupString_eq_ok.mpr hshown.2, rfl⟩
      · obtain ⟨hmode, -, hnext⟩ := hshown
        exact ⟨some target, Json.lookupString_eq_ok.mpr hnext,
          setTarget_unset_eq_ok.mpr ⟨hmode, rfl⟩⟩
      · exact absurd hshown.2 h

end StatesLanguage
