import StatesLanguage.Json.Printer
import StatesLanguage.Json.Token
import StatesLanguage.Proofs.Shortest

/-!
# The texts of numbers are read back

An integer is written as its digits after a sign. A double is written as its shortest
decimal, in one of four forms: whole, with a point among the digits, with a point in front of
them, or with a power of ten. All of them spell decimals of the same value, if not with the
same digits, and rounding only depends on the value. So `Json.number?_chars` is a matter of
cutting a word at its point and its letter, the rounding being done in
`Binary64.ofDecimal?_of_covers`.
-/

namespace StatesLanguage

namespace Json

/-! ### Digits -/

theorem ofDigits_eq (ds : List Char) : ofDigits ds = Nat.ofDigitChars 10 ds 0 := rfl

theorem ofDigits_digitChars (n : Nat) : ofDigits (digitChars n) = n :=
  Nat.ofDigitChars_ten_toDigits

/-- Zeros behind digits are powers of ten. -/
theorem ofDigits_append_zeros (ds : List Char) (k : Nat) :
    ofDigits (ds ++ List.replicate k '0') = ofDigits ds * 10 ^ k := by
  rw [ofDigits_eq, Nat.ofDigitChars_append, Nat.ofDigitChars_replicate_zero, Nat.mul_comm]
  rfl

/-- Zeros in front of digits are nothing. -/
theorem ofDigits_zeros_append (ds : List Char) (k : Nat) :
    ofDigits (List.replicate k '0' ++ ds) = ofDigits ds := by
  rw [ofDigits_eq, Nat.ofDigitChars_append, Nat.ofDigitChars_replicate_zero, Nat.mul_zero]
  rfl

theorem isDigit_digitChars {n : Nat} : ∀ c ∈ digitChars n, c.isDigit = true :=
  fun _ => Nat.isDigit_of_mem_toDigits (by decide) (by decide)

theorem digitChars_ne_nil (n : Nat) : digitChars n ≠ [] :=
  Nat.toDigits_ne_nil

/-- The digits of a positive number do not begin with zero. -/
theorem head?_digitChars {n : Nat} (hn : n ≠ 0) : (digitChars n).head? ≠ some '0' := by
  have hdigit : ∀ n < 10, n ≠ 0 → [Nat.digitChar n].head? ≠ some '0' := by decide
  induction n using Nat.strongRecOn with
  | ind n ih =>
    rw [digitChars]
    rcases Nat.lt_or_ge n 10 with hlt | hge
    · rw [Nat.toDigits_of_lt_base hlt]
      exact hdigit n hlt hn
    · rw [Nat.toDigits_of_base_le (by decide) hge,
        List.head?_append_of_ne_nil _ Nat.toDigits_ne_nil]
      exact ih (n / 10) (by omega) (by omega)

/-- Digits as the integral part of a number: there are some, and no leading zero. -/
structure IsWhole (ds : List Char) : Prop where
  /-- All of them are digits. -/
  digits : ∀ c ∈ ds, c.isDigit = true
  /-- There are some. -/
  nonempty : ds ≠ []
  /-- Only a single one may be a zero in front. -/
  leading : ds.head? = some '0' → ds.length ≤ 1

theorem isWhole_zero : IsWhole ['0'] :=
  ⟨List.all_eq_true.mp rfl, List.cons_ne_nil _ _, fun _ => le_rfl⟩

theorem IsWhole.of_head? {ds : List Char} (digits : ∀ c ∈ ds, c.isDigit = true)
    (nonempty : ds ≠ []) (head : ds.head? ≠ some '0') : IsWhole ds :=
  ⟨digits, nonempty, fun h => absurd h head⟩

theorem isWhole_digitChars (n : Nat) : IsWhole (digitChars n) := by
  by_cases hn : n = 0
  · rw [hn]
    exact isWhole_zero
  · exact .of_head? isDigit_digitChars (digitChars_ne_nil n) (head?_digitChars hn)

/-! ### The parts of a word -/

/-- The number that a word spells behind its sign. -/
def magnitude? (negative : Bool) (magnitude : List Char) : Option Number :=
  let whole := magnitude.takeWhile Char.isDigit
  if whole = [] ∨ (whole.head? = some '0' ∧ 1 < whole.length) then none
  else
    match magnitude.dropWhile Char.isDigit with
    | [] => wholeNumber? negative whole
    | c :: cs =>
      if c = '.' then
        let decimals := cs.takeWhile Char.isDigit
        if decimals = [] then none
        else do
          let power ← powerOfTen? (cs.dropWhile Char.isDigit)
          let x ← Binary64.ofDecimal? negative (ofDigits (whole ++ decimals))
            (power - decimals.length)
          return .float x
      else do
        let power ← powerOfTen? (c :: cs)
        let x ← Binary64.ofDecimal? negative (ofDigits whole) power
        return .float x

/-- The sign in front of a number. -/
def signChars (negative : Bool) : List Char :=
  if negative then ['-'] else []

theorem number?_signChars (negative : Bool) {ds : List Char} (h : ds.head? ≠ some '-') :
    number? (signChars negative ++ ds) = magnitude? negative ds := by
  cases negative with
  | true => rfl
  | false =>
    have hhead : (ds.head? == some '-') = false := beq_eq_false_iff_ne.mpr h
    show number? ds = _
    rw [number?, hhead]
    rfl

/-- Digits are cut from what does not begin with one. -/
theorem cut_digits {ds rest : List Char} (hds : ∀ c ∈ ds, c.isDigit = true)
    (hrest : ∀ c ∈ rest.head?, c.isDigit = false) :
    (ds ++ rest).takeWhile Char.isDigit = ds ∧ (ds ++ rest).dropWhile Char.isDigit = rest := by
  rw [List.takeWhile_append_of_pos hds, List.dropWhile_append_of_pos hds]
  cases rest with
  | nil => exact ⟨List.append_nil ds, rfl⟩
  | cons c cs =>
    have hc := hrest c rfl
    rw [List.takeWhile_cons_of_neg (by rw [hc]; decide), List.append_nil,
      List.dropWhile_cons_of_neg (by rw [hc]; decide)]
    exact ⟨rfl, rfl⟩

section Cutting

variable {negative : Bool} {ds : List Char}

/-- The first step of reading a magnitude finds its integral part. -/
theorem IsWhole.not_refused (h : IsWhole ds) :
    ¬(ds = [] ∨ (ds.head? = some '0' ∧ 1 < ds.length)) := by
  rintro (hnil | ⟨hzero, hlength⟩)
  · exact h.nonempty hnil
  · exact absurd (h.leading hzero) (by omega)

theorem magnitude?_whole (h : IsWhole ds) : magnitude? negative ds = wholeNumber? negative ds := by
  obtain ⟨htake, hdrop⟩ := @cut_digits ds [] h.digits nofun
  rw [List.append_nil] at htake hdrop
  rw [magnitude?, htake, hdrop]
  exact if_neg h.not_refused

/-- Digits around a point, and maybe a power of ten behind them. -/
theorem magnitude?_point (h : IsWhole ds) {decimals power : List Char} {p : Int}
    (hdecimals : ∀ c ∈ decimals, c.isDigit = true) (hne : decimals ≠ [])
    (hpower : ∀ c ∈ power.head?, c.isDigit = false) (hp : powerOfTen? power = some p) :
    magnitude? negative (ds ++ '.' :: (decimals ++ power)) =
      (Binary64.ofDecimal? negative (ofDigits (ds ++ decimals)) (p - decimals.length)).map
        .float := by
  obtain ⟨htake, hdrop⟩ := @cut_digits ds ('.' :: (decimals ++ power)) h.digits
    fun c hc => Option.some.inj hc ▸ rfl
  obtain ⟨htaked, hdropd⟩ := cut_digits hdecimals hpower
  rw [magnitude?, htake, hdrop]
  refine (if_neg h.not_refused).trans ?_
  simp only [htaked, hdropd, hp, if_neg hne, if_true]
  exact Option.map_eq_bind.symm

/-- Digits around a point. -/
theorem magnitude?_decimals (h : IsWhole ds) {decimals : List Char}
    (hdecimals : ∀ c ∈ decimals, c.isDigit = true) (hne : decimals ≠ []) :
    magnitude? negative (ds ++ '.' :: decimals) =
      (Binary64.ofDecimal? negative (ofDigits (ds ++ decimals)) (-decimals.length)).map
        .float := by
  have := @magnitude?_point negative ds h decimals [] 0 hdecimals hne nofun rfl
  rwa [List.append_nil, Int.zero_sub] at this

/-- Digits, and a power of ten behind them. -/
theorem magnitude?_letter (h : IsWhole ds) {cs : List Char} {p : Int}
    (hp : powerOfTen? ('e' :: cs) = some p) : magnitude? negative (ds ++ 'e' :: cs) =
      (Binary64.ofDecimal? negative (ofDigits ds) p).map .float := by
  obtain ⟨htake, hdrop⟩ := @cut_digits ds ('e' :: cs) h.digits fun c hc => Option.some.inj hc ▸ rfl
  rw [magnitude?, htake, hdrop]
  refine (if_neg h.not_refused).trans ?_
  simp only [hp]
  rw [if_neg (by decide)]
  exact Option.map_eq_bind.symm

/-- A signed power of ten is read back. -/
theorem powerOfTen?_signed (order : Int) :
    powerOfTen? ('e' :: (if order < 0 then '-' else '+') :: digitChars order.natAbs) =
      some order := by
  have hdigits : digitChars order.natAbs ≠ [] ∧ (digitChars order.natAbs).all Char.isDigit = true :=
    ⟨digitChars_ne_nil _, List.all_eq_true.mpr isDigit_digitChars⟩
  rw [powerOfTen?, if_pos (Or.inl rfl)]
  by_cases h : order < 0
  · simp [h, hdigits, ofDigits_digitChars, abs_of_neg h]
  · simp [h, hdigits, ofDigits_digitChars, abs_of_nonneg (not_lt.mp h)]

end Cutting

/-! ### Doubles -/

/-- A text spells a decimal: whatever digits and power of ten are read in it, they have the
value of the decimal. -/
def Spells (text : List Char) (d : Decimal) : Prop :=
  ∀ negative, ∃ (n : Nat) (e : Int),
    magnitude? negative text = (Binary64.ofDecimal? negative n e).map .float ∧
      (n * 10 ^ e : ℚ) = d.digits * 10 ^ d.exponent

section Forms

variable {n : Nat}

theorem isDigit_zeros (k : Nat) : ∀ c ∈ List.replicate k '0', c.isDigit = true := by
  intro c hc
  rw [List.eq_of_mem_replicate hc]
  rfl

/-- Zeros behind the digits, and the point behind them. -/
theorem spells_zeros_behind (hn : n ≠ 0) (k : Nat) :
    Spells (digitChars n ++ List.replicate k '0' ++ ['.', '0']) ⟨n, k⟩ := by
  have hwhole : IsWhole (digitChars n ++ List.replicate k '0') := by
    refine .of_head? (List.forall_mem_append.mpr ⟨isDigit_digitChars, isDigit_zeros k⟩)
      (by simp [digitChars_ne_nil]) ?_
    rw [List.head?_append_of_ne_nil _ (digitChars_ne_nil n)]
    exact head?_digitChars hn
  refine fun negative =>
    ⟨_, _, magnitude?_decimals hwhole (isDigit_zeros 1) (List.cons_ne_nil _ _), ?_⟩
  rw [List.append_assoc, ← List.replicate_succ', ofDigits_append_zeros, ofDigits_digitChars]
  push_cast
  rw [pow_succ, zpow_natCast]
  norm_num
  ring

/-- The point among the digits. -/
theorem spells_point_among (hn : n ≠ 0) {k : Nat} (hk : 0 < k) (hlt : k < (digitChars n).length) :
    Spells ((digitChars n).take ((digitChars n).length - k) ++
      '.' :: (digitChars n).drop ((digitChars n).length - k)) ⟨n, -k⟩ := by
  have hwhole : IsWhole ((digitChars n).take ((digitChars n).length - k)) := by
    refine .of_head? (fun c hc => isDigit_digitChars c (List.mem_of_mem_take hc)) ?_ ?_
    · simp [digitChars_ne_nil]
      omega
    · rw [List.head?_take, if_neg (by omega)]
      exact head?_digitChars hn
  refine fun negative => ⟨_, _, magnitude?_decimals hwhole
    (fun c hc => isDigit_digitChars c (List.mem_of_mem_drop hc)) (by simp; omega), ?_⟩
  rw [List.take_append_drop, ofDigits_digitChars, List.length_drop]
  congr 3
  omega

/-- Zeros in front of the digits, and the point in front of them. -/
theorem spells_zeros_in_front {k : Nat} (hle : (digitChars n).length ≤ k) :
    Spells ('0' :: '.' :: List.replicate (k - (digitChars n).length) '0' ++ digitChars n)
      ⟨n, -k⟩ := by
  rw [List.cons_append, List.cons_append]
  refine fun negative => ⟨_, _, magnitude?_decimals isWhole_zero
    (List.forall_mem_append.mpr ⟨isDigit_zeros _, isDigit_digitChars⟩)
    (by simp [digitChars_ne_nil]), ?_⟩
  rw [← List.replicate_one, ofDigits_zeros_append, ofDigits_zeros_append, ofDigits_digitChars,
    List.length_append, List.length_replicate]
  congr 3
  omega

theorem spells_positionalChars (hn : n ≠ 0) (exponent : Int) :
    Spells (positionalChars (digitChars n) exponent) ⟨n, exponent⟩ := by
  rw [positionalChars]
  split
  · next h =>
    obtain ⟨k, rfl⟩ := Int.eq_ofNat_of_zero_le h
    exact spells_zeros_behind hn k
  · next h =>
    obtain ⟨k, rfl⟩ : ∃ k : Nat, exponent = -k := ⟨(-exponent).toNat, by omega⟩
    rw [Int.neg_neg, Int.toNat_natCast]
    split
    · next hlt => exact spells_point_among hn (by omega) hlt
    · next hlt => exact spells_zeros_in_front (by omega)

/-- One digit, maybe a point and the others, and the power of ten. -/
theorem spells_scientificChars (n : Nat) (exponent : Int) :
    Spells (scientificChars (digitChars n) (exponent + (digitChars n).length - 1))
      ⟨n, exponent⟩ := by
  have hpower := powerOfTen?_signed (exponent + (digitChars n).length - 1)
  have hlength := List.length_pos_iff.mpr (digitChars_ne_nil n)
  intro negative
  rw [scientificChars]
  split
  · next hle =>
    rw [List.append_nil, List.take_of_length_le hle]
    refine ⟨_, _, magnitude?_letter (isWhole_digitChars n) hpower, ?_⟩
    rw [ofDigits_digitChars]
    congr 2
    show exponent + _ - 1 = exponent
    omega
  · next hgt =>
    have hwhole : IsWhole ((digitChars n).take 1) :=
      ⟨fun c hc => isDigit_digitChars c (List.mem_of_mem_take hc),
        by simp [digitChars_ne_nil], fun _ => by simp⟩
    rw [List.append_assoc]
    refine ⟨_, _, magnitude?_point hwhole
      (fun c hc => isDigit_digitChars c (List.mem_of_mem_drop hc))
      (by rw [Ne, List.drop_eq_nil_iff]; omega) (fun c hc => Option.some.inj hc ▸ rfl) hpower, ?_⟩
    rw [List.take_append_drop, ofDigits_digitChars, List.length_drop]
    congr 2
    show exponent + _ - 1 - _ = exponent
    omega

theorem spells_decimalChars {d : Decimal} (hd : d.digits ≠ 0) : Spells (decimalChars d) d := by
  rw [decimalChars]
  split
  · exact spells_positionalChars hd d.exponent
  · exact spells_scientificChars d.digits d.exponent

end Forms

/-! ### Numbers -/

/-- A magnitude that is read is read behind its sign. -/
theorem number?_of_magnitude? {negative : Bool} {ds : List Char} {n : Number}
    (h : magnitude? negative ds = some n) : number? (signChars negative ++ ds) = some n := by
  rw [number?_signChars, h]
  rintro hhead
  obtain ⟨cs, rfl⟩ := List.head?_eq_some_iff.mp hhead
  nomatch h

theorem decimalChars_zero : decimalChars ⟨0, 0⟩ = ['0', '.', '0'] := by
  decide

/-- **A double is read back from its text.** -/
theorem number?_floatChars (x : Binary64) : number? (floatChars x) = some (.float x) := by
  refine @number?_of_magnitude? x.negative _ _ ?_
  obtain ⟨negative, word, finite⟩ := x
  by_cases hx : word = 0
  · subst hx
    rw [Binary64.shortest, if_pos rfl, decimalChars_zero]
    rfl
  · have hcovers := @Binary64.shortest_covers ⟨negative, word, finite⟩ hx
    have hdigits : (Binary64.shortest ⟨negative, word, finite⟩).digits ≠ 0 := by
      intro hzero
      rw [hzero] at hcovers
      simpa using hcovers.pos hx
    obtain ⟨n, e, hread, hvalue⟩ := spells_decimalChars hdigits negative
    rw [hread, Binary64.ofDecimal?_of_covers hx (hvalue ▸ hcovers)]
    rfl

/-- **An integer is read back from its text.** -/
theorem number?_intChars (i : Integer) : number? (intChars i.value) = some (.int i) := by
  obtain ⟨i, lower, upper⟩ := i
  have hsigned : intChars i = signChars (decide (i < 0)) ++ digitChars i.natAbs := by
    rw [intChars, signChars]
    by_cases h : i < 0 <;> simp [h]
  have hvalue : (if decide (i < 0) = true then -(i.natAbs : Int) else i.natAbs) = i := by
    by_cases h : i < 0
    · rw [if_pos (decide_eq_true h)]
      omega
    · rw [if_neg (by simp [h])]
      omega
  have hzero : ¬(decide (i < 0) && i.natAbs == 0) = true := by
    rw [Bool.and_eq_true, decide_eq_true_iff, beq_iff_eq]
    omega
  rw [hsigned]
  refine number?_of_magnitude? ?_
  rw [magnitude?_whole (isWhole_digitChars _), wholeNumber?]
  simp only [ofDigits_digitChars, hvalue]
  rw [if_neg hzero, dif_pos ⟨lower, upper⟩]

/-- **A number is read back from its text.** -/
theorem number?_chars (n : Number) : number? n.chars = some n := by
  cases n with
  | int i => exact number?_intChars i
  | float x => exact number?_floatChars x

/-! ### Words -/

/-- Characters that may all stand in a word. -/
def IsWord (cs : List Char) : Prop :=
  ∀ c ∈ cs, isWordChar c = true

theorem IsWord.append {cs ds : List Char} (hcs : IsWord cs) (hds : IsWord ds) : IsWord (cs ++ ds) :=
  List.forall_mem_append.mpr ⟨hcs, hds⟩

theorem IsWord.cons {c : Char} {cs : List Char} (hc : isWordChar c = true) (hcs : IsWord cs) :
    IsWord (c :: cs) :=
  List.forall_mem_cons.mpr ⟨hc, hcs⟩

theorem isWord_of_digits {ds : List Char} (h : ∀ c ∈ ds, c.isDigit = true) : IsWord ds := by
  intro c hc
  simp [isWordChar, Char.isAlphanum, h c hc]

theorem isWord_digitChars (n : Nat) : IsWord (digitChars n) :=
  isWord_of_digits isDigit_digitChars

theorem isWord_zeros (k : Nat) : IsWord (List.replicate k '0') :=
  isWord_of_digits (isDigit_zeros k)

theorem isWord_positionalChars {ds : List Char} (h : IsWord ds) (exponent : Int) :
    IsWord (positionalChars ds exponent) := by
  rw [positionalChars]
  split
  · exact (h.append (isWord_zeros _)).append (List.all_eq_true.mp rfl)
  · split
    · exact .append (fun c hc => h c (List.mem_of_mem_take hc))
        (.cons rfl fun c hc => h c (List.mem_of_mem_drop hc))
    · exact .cons rfl (.cons rfl ((isWord_zeros _).append h))

theorem isWord_scientificChars {ds : List Char} (h : IsWord ds) (order : Int) :
    IsWord (scientificChars ds order) := by
  rw [scientificChars]
  refine .append (.append (fun c hc => h c (List.mem_of_mem_take hc)) ?_)
    (.cons rfl (.cons (by split <;> rfl) (isWord_digitChars _)))
  split
  · exact nofun
  · exact .cons rfl fun c hc => h c (List.mem_of_mem_drop hc)

/-- The text of a number is a word. -/
theorem Number.isWord_chars (n : Number) : IsWord n.chars := by
  cases n with
  | int i =>
    rw [chars, intChars]
    split
    · exact .cons rfl (isWord_digitChars _)
    · exact isWord_digitChars _
  | float x =>
    refine .append (by split <;> exact List.all_eq_true.mp rfl) ?_
    rw [decimalChars]
    split
    · exact isWord_positionalChars (isWord_digitChars _) _
    · exact isWord_scientificChars (isWord_digitChars _) _

/-- **The word of a number is its token**, and none of the three names. -/
theorem wordToken?_chars (n : Number) : wordToken? n.chars = some (.scalar (.number n)) := by
  have hread := number?_chars n
  have hname {word : List Char} (h : number? word = none) : n.chars ≠ word := by
    rintro rfl
    rw [h] at hread
    nomatch hread
  rw [wordToken?, if_neg (hname rfl), if_neg (hname rfl), if_neg (hname rfl), hread]
  rfl

end Json

end StatesLanguage
