import StatesLanguage.Json.Parser
import StatesLanguage.Proofs.Members

/-!
# What the parser builds

Equality of values and the order of their members are only simple for values in which no
object holds a key twice, and only a value that is not nested too deeply can be read again.
Every value that a text spells is one of them: `Json.hasDistinctKeys_of_parse?` and
`Json.depth_of_parse?`.

The parser takes one token at a time, and keeps the brackets that are still open. So what is
true of all that it builds can be proved of a value at a time, knowing how many brackets are
open around it (`Json.Inherited`), and holds from the first token to the last.
-/

namespace StatesLanguage

namespace Json

/-! ### Depth -/

mutual

/-- How deeply the brackets in a value are nested. -/
def depth : Json → Nat
  | .array items => itemsDepth items + 1
  | .object ms => membersDepth ms + 1
  | _ => 0

/-- The depth of the deepest item. -/
def itemsDepth : List Json → Nat
  | [] => 0
  | v :: vs => max (depth v) (itemsDepth vs)

/-- The depth of the deepest member. -/
def membersDepth : Members → Nat
  | [] => 0
  | (_, v) :: ms => max (depth v) (membersDepth ms)

end

theorem itemsDepth_le {items : List Json} {n : Nat} :
    itemsDepth items ≤ n ↔ ∀ v ∈ items, v.depth ≤ n := by
  induction items with
  | nil => exact iff_of_true (Nat.zero_le n) nofun
  | cons v vs ih => rw [itemsDepth, Nat.max_le, ih, List.forall_mem_cons]

theorem membersDepth_le {ms : Members} {n : Nat} :
    membersDepth ms ≤ n ↔ ∀ m ∈ ms, m.2.depth ≤ n := by
  induction ms with
  | nil => exact iff_of_true (Nat.zero_le n) nofun
  | cons m ms ih =>
    obtain ⟨key, v⟩ := m
    rw [membersDepth, Nat.max_le, ih, List.forall_mem_cons]

theorem depth_array_le {items : List Json} {n : Nat} :
    (array items).depth ≤ n + 1 ↔ ∀ v ∈ items, v.depth ≤ n := by
  rw [depth, Nat.add_le_add_iff_right, itemsDepth_le]

theorem depth_object_le {ms : Members} {n : Nat} :
    (object ms).depth ≤ n + 1 ↔ ∀ m ∈ ms, m.2.depth ≤ n := by
  rw [depth, Nat.add_le_add_iff_right, membersDepth_le]

theorem depth_of_isScalar {v : Json} (h : v.isScalar = true) : v.depth = 0 := by
  cases v with
  | array items | object ms => nomatch h
  | _ => rfl

/-! ### Writing a member -/

theorem mem_put {key : String} {v : Json} {ms : Members} {m : String × Json}
    (h : m ∈ put key v ms) : m = (key, v) ∨ m ∈ ms := by
  induction ms with
  | nil => exact Or.inl (List.mem_singleton.mp h)
  | cons n ms ih =>
    obtain ⟨k, w⟩ := n
    rw [put] at h
    split at h
    · next hk =>
      rcases List.mem_cons.mp h with rfl | h
      · exact Or.inl (by rw [hk])
      · exact Or.inr (List.mem_cons_of_mem _ h)
    · rcases List.mem_cons.mp h with rfl | h
      · exact Or.inr List.mem_cons_self
      · exact (ih h).imp_right (List.mem_cons_of_mem _)

theorem nodup_put {key : String} {v : Json} {ms : Members} (h : (ms.map Prod.fst).Nodup) :
    ((put key v ms).map Prod.fst).Nodup := by
  induction ms with
  | nil => exact List.nodup_singleton key
  | cons n ms ih =>
    obtain ⟨k, w⟩ := n
    rw [put]
    split
    · exact h
    · next hk =>
      rw [List.map_cons, List.nodup_cons] at h ⊢
      refine ⟨fun hmem => ?_, ih h.2⟩
      -- the key in front is neither the one that is written nor one of those behind it
      obtain ⟨m, hm, hfst⟩ := List.mem_map.mp hmem
      rcases mem_put hm with rfl | hm
      · exact hk hfst.symm
      · exact h.1 (List.mem_map.mpr ⟨m, hm, hfst⟩)

/-! ### Tokens -/

/-- A token that brings no object along. -/
def Token.IsPlain : Token → Prop
  | .scalar v => v.isScalar = true
  | _ => True

theorem isPlain_of_wordToken? {word : List Char} {t : Token} (h : wordToken? word = some t) :
    t.IsPlain := by
  rw [wordToken?] at h
  split at h
  · obtain rfl := Option.some.inj h
    rfl
  · split at h
    · obtain rfl := Option.some.inj h
      rfl
    · split at h
      · obtain rfl := Option.some.inj h
        rfl
      · obtain ⟨n, -, rfl⟩ := Option.map_eq_some_iff.mp h
        rfl

theorem isPlain_of_stringToken? {quoted : List Char} {t : Token}
    (h : stringToken? quoted = some t) : t.IsPlain := by
  obtain ⟨pieces, -, h⟩ := Option.bind_eq_some_iff.mp h
  obtain ⟨cs, -, h⟩ := Option.bind_eq_some_iff.mp h
  obtain rfl := Option.some.inj h
  trivial

theorem isPlain_of_punctuation? {c : Char} {t : Token} (h : punctuation? c = some t) :
    t.IsPlain := by
  rw [punctuation?] at h
  repeat' split at h
  all_goals first
    | (obtain rfl := Option.some.inj h; trivial)
    | nomatch h

theorem isPlain_of_beginToken? {c : Char} {ts : List Token} {scan : Scan}
    (h : beginToken? c = some (ts, scan)) : ∀ t ∈ ts, t.IsPlain := by
  rw [beginToken?] at h
  repeat' split at h
  · obtain ⟨rfl, rfl⟩ := Prod.mk.inj (Option.some.inj h)
    exact nofun
  · obtain ⟨rfl, rfl⟩ := Prod.mk.inj (Option.some.inj h)
    exact nofun
  · obtain ⟨rfl, rfl⟩ := Prod.mk.inj (Option.some.inj h)
    exact nofun
  · obtain ⟨t, ht, h⟩ := Option.bind_eq_some_iff.mp h
    obtain ⟨rfl, rfl⟩ := Prod.mk.inj (Option.some.inj h)
    exact List.forall_mem_singleton.mpr (isPlain_of_punctuation? ht)

theorem Scan.isPlain_of_step? {scan next : Scan} {c : Char} {ts : List Token}
    (h : scan.step? c = some (ts, next)) : ∀ t ∈ ts, t.IsPlain := by
  cases scan with
  | between => exact isPlain_of_beginToken? h
  | word w =>
    rw [step?] at h
    split at h
    · obtain ⟨rfl, rfl⟩ := Prod.mk.inj (Option.some.inj h)
      exact nofun
    · obtain ⟨t, ht, h⟩ := Option.bind_eq_some_iff.mp h
      obtain ⟨⟨us, scan⟩, hus, h⟩ := Option.bind_eq_some_iff.mp h
      obtain ⟨rfl, rfl⟩ := Prod.mk.inj (Option.some.inj h)
      exact List.forall_mem_cons.mpr ⟨isPlain_of_wordToken? ht, isPlain_of_beginToken? hus⟩
  | quoted q =>
    rw [step?] at h
    split at h
    · obtain ⟨t, ht, h⟩ := Option.bind_eq_some_iff.mp h
      obtain ⟨rfl, rfl⟩ := Prod.mk.inj (Option.some.inj h)
      exact List.forall_mem_singleton.mpr (isPlain_of_stringToken? ht)
    · split at h
      · obtain ⟨rfl, rfl⟩ := Prod.mk.inj (Option.some.inj h)
        exact nofun
      · obtain ⟨rfl, rfl⟩ := Prod.mk.inj (Option.some.inj h)
        exact nofun
  | escape q =>
    obtain ⟨rfl, rfl⟩ := Prod.mk.inj (Option.some.inj h)
    exact nofun

theorem Scan.isPlain_of_finish? {scan : Scan} {ts : List Token} (h : scan.finish? = some ts) :
    ∀ t ∈ ts, t.IsPlain := by
  cases scan with
  | between =>
    obtain rfl := Option.some.inj h
    exact nofun
  | word w =>
    obtain ⟨t, ht, h⟩ := Option.bind_eq_some_iff.mp h
    obtain rfl := Option.some.inj h
    exact List.forall_mem_singleton.mpr (isPlain_of_wordToken? ht)
  | quoted q | escape q => nomatch h

/-- The only values among the tokens of a text are those of words: by induction on the
text. -/
theorem isPlain_of_tokensFrom? {scan : Scan} {text : List Char} {ts : List Token}
    (h : tokensFrom? scan text = some ts) : ∀ t ∈ ts, t.IsPlain := by
  induction text generalizing scan ts with
  | nil => exact Scan.isPlain_of_finish? h
  | cons c text ih =>
    obtain ⟨⟨us, next⟩, hus, h⟩ := Option.bind_eq_some_iff.mp h
    obtain ⟨vs, hvs, h⟩ := Option.bind_eq_some_iff.mp h
    obtain rfl := Option.some.inj h
    exact List.forall_mem_append.mpr ⟨Scan.isPlain_of_step? hus, ih hvs⟩

/-! ### Brackets -/

/-- A property of values, by the number of brackets around them, that a value has if all that
is inside it does. Brackets are only opened up to `maxDepth`, and hold no key twice. -/
structure Inherited (P : Nat → Json → Prop) : Prop where
  /-- Values without brackets have it. -/
  scalar : ∀ {n : Nat} {v : Json}, n ≤ maxDepth → v.isScalar = true → P n v
  /-- An array has it if its items have it. -/
  array : ∀ {n : Nat} {items : List Json}, n < maxDepth → (∀ v ∈ items, P (n + 1) v) →
    P n (.array items)
  /-- An object has it if its values have it. -/
  object : ∀ {n : Nat} {ms : Members}, n < maxDepth → (ms.map Prod.fst).Nodup →
    (∀ m ∈ ms, P (n + 1) m.2) → P n (.object ms)

variable {P : Nat → Json → Prop}

/-- What has been read behind a bracket has a property. -/
def Bracket.Holds (Q : Json → Prop) : Bracket → Prop
  | .array items => ∀ v ∈ items, Q v
  | .object ms _ => (ms.map Prod.fst).Nodup ∧ ∀ m ∈ ms, Q m.2

/-- What has been read behind open brackets has a property, for the number of brackets that
are open where it stands. -/
def StackHolds (P : Nat → Json → Prop) : List Bracket → Prop
  | [] => True
  | b :: stack => stack.length < maxDepth ∧ b.Holds (P (stack.length + 1)) ∧ StackHolds P stack

theorem StackHolds.length_le {stack : List Bracket} (h : StackHolds P stack) :
    stack.length ≤ maxDepth := by
  cases stack with
  | nil => exact Nat.zero_le _
  | cons b stack => exact h.1

namespace Progress

/-- What has been read so far has a property. -/
def Holds (P : Nat → Json → Prop) : Progress → Prop
  | .inside _ stack => StackHolds P stack
  | .done v => P 0 v

variable {stack : List Bracket}

theorem holds_complete {v : Json} (hv : P stack.length v) (h : StackHolds P stack) :
    (complete v stack).Holds P := by
  cases stack with
  | nil => exact hv
  | cons b stack =>
    obtain ⟨hlength, hb, hstack⟩ := h
    cases b with
    | array items => exact ⟨hlength, List.forall_mem_cons.mpr ⟨hv, hb⟩, hstack⟩
    | object ms key =>
      refine ⟨hlength, ⟨nodup_put hb.1, fun m hm => ?_⟩, hstack⟩
      rcases mem_put hm with rfl | hm
      · exact hv
      · exact hb.2 m hm

theorem holds_of_openBracket? {place : Place} {b : Bracket} {p : Progress}
    (hb : b.Holds (P (stack.length + 1))) (h : StackHolds P stack)
    (hp : openBracket? place b stack = some p) : p.Holds P := by
  rw [openBracket?] at hp
  split at hp
  · next hlength =>
    obtain rfl := Option.some.inj hp
    exact ⟨hlength, hb, h⟩
  · nomatch hp

theorem holds_of_value? (hP : Inherited P) {t : Token} {p : Progress} (ht : t.IsPlain)
    (h : StackHolds P stack) (hp : value? stack t = some p) : p.Holds P := by
  cases t with
  | scalar v =>
    obtain rfl := Option.some.inj hp
    exact holds_complete (hP.scalar h.length_le ht) h
  | string s =>
    obtain rfl := Option.some.inj hp
    exact holds_complete (hP.scalar h.length_le rfl) h
  | openArray => exact holds_of_openBracket? (b := .array []) nofun h hp
  | openObject => exact holds_of_openBracket? (b := .object [] "") ⟨List.nodup_nil, nofun⟩ h hp
  | closeArray | closeObject | comma | colon => nomatch hp

theorem holds_of_key? {t : Token} {p : Progress} (h : StackHolds P stack)
    (hp : key? stack t = some p) : p.Holds P := by
  rw [key?.eq_def] at hp
  split at hp
  · obtain rfl := Option.some.inj hp
    exact h
  · nomatch hp

theorem holds_of_close? (hP : Inherited P) {t : Token} {p : Progress} (h : StackHolds P stack)
    (hp : close? stack t = some p) : p.Holds P := by
  rw [close?.eq_def] at hp
  split at hp
  · next items stack =>
    obtain rfl := Option.some.inj hp
    obtain ⟨hlength, hitems, hstack⟩ := h
    exact holds_complete (hP.array hlength fun v hv => hitems v (List.mem_reverse.mp hv)) hstack
  · next ms key stack =>
    obtain rfl := Option.some.inj hp
    obtain ⟨hlength, hms, hstack⟩ := h
    exact holds_complete (hP.object hlength hms.1 hms.2) hstack
  · nomatch hp

theorem holds_of_comma? (hP : Inherited P) {t : Token} {p : Progress} (h : StackHolds P stack)
    (hp : comma? stack t = some p) : p.Holds P := by
  rw [comma?.eq_def] at hp
  split at hp
  · obtain rfl := Option.some.inj hp
    exact h
  · obtain rfl := Option.some.inj hp
    exact h
  · exact holds_of_close? hP h hp

/-- **No token breaks an inherited property.** -/
theorem Holds.step (hP : Inherited P) {p q : Progress} {t : Token} (h : p.Holds P)
    (ht : t.IsPlain) (hq : p.step? t = some q) : q.Holds P := by
  cases p with
  | done v => nomatch hq
  | inside place stack =>
    cases place with
    | value => exact holds_of_value? hP ht h hq
    | key => exact holds_of_key? h hq
    | comma => exact holds_of_comma? hP h hq
    | firstItem =>
      rcases Option.or_eq_some_iff.mp hq with hq | ⟨-, hq⟩
      · exact holds_of_close? hP h hq
      · exact holds_of_value? hP ht h hq
    | firstKey =>
      rcases Option.or_eq_some_iff.mp hq with hq | ⟨-, hq⟩
      · exact holds_of_close? hP h hq
      · exact holds_of_key? h hq
    | colon =>
      cases t with
      | colon =>
        obtain rfl := Option.some.inj hq
        exact h
      | _ => nomatch hq

theorem Holds.foldlM (hP : Inherited P) {ts : List Token} {p q : Progress} (h : p.Holds P)
    (hts : ∀ t ∈ ts, t.IsPlain) (hq : ts.foldlM step? p = some q) : q.Holds P := by
  induction ts generalizing p with
  | nil =>
    obtain rfl := Option.some.inj hq
    exact h
  | cons t ts ih =>
    obtain ⟨ht, hts⟩ := List.forall_mem_cons.mp hts
    obtain ⟨r, hr, hq⟩ := Option.bind_eq_some_iff.mp hq
    exact ih (h.step hP ht hr) hts hq

end Progress

/-! ### Texts -/

/-- **What a text spells has every inherited property.** -/
theorem Inherited.of_parse? (hP : Inherited P) {text : String} {v : Json}
    (h : parse? text = some v) : P 0 v := by
  obtain ⟨ts, hts, h⟩ := Option.bind_eq_some_iff.mp h
  obtain ⟨p, hp, h⟩ := Option.bind_eq_some_iff.mp h
  have hholds : p.Holds P :=
    Progress.Holds.foldlM hP (p := .inside .value []) trivial (isPlain_of_tokensFrom? hts) hp
  cases p with
  | done w =>
    obtain rfl := Option.some.inj h
    exact hholds
  | inside place stack => nomatch h

/-- **What a text spells holds no key twice.** -/
theorem hasDistinctKeys_of_parse? {text : String} {v : Json} (h : parse? text = some v) :
    v.HasDistinctKeys :=
  Inherited.of_parse? (P := fun _ v => v.HasDistinctKeys)
    ⟨fun _ hv => .of_isScalar hv, fun _ hitems => .array hitems,
      fun _ hkeys hms => .object hkeys hms⟩ h

/-- **What a text spells is not nested too deeply.** -/
theorem depth_of_parse? {text : String} {v : Json} (h : parse? text = some v) :
    v.depth ≤ maxDepth := by
  have hP : Inherited fun n v => v.depth ≤ maxDepth - n := by
    refine ⟨fun _ hv => depth_of_isScalar hv ▸ Nat.zero_le _,
      fun {n _} hlt hitems => ?_, fun {n _} hlt _ hms => ?_⟩ <;>
      rw [show maxDepth - n = (maxDepth - (n + 1)) + 1 by omega]
    · exact depth_array_le.mpr hitems
    · exact depth_object_le.mpr hms
  exact hP.of_parse? h

end Json

end StatesLanguage
