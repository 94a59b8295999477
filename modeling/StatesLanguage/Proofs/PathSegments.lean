import Mathlib.Data.List.Basic
import StatesLanguage.Path

/-!
# The segments of a path

A path expression is the root selector with at least one segment behind it. This file says so
without the pass that recognises paths: `Path.IsSegment` lists the shapes of a segment, and
`Path.Splits` cuts a text into segments.

The one thing to know about the pass is what a position stands for: the texts that may follow
on it. These are the rest of the segment in which it lies, `Path.Position.Rest`, and then whole
segments, so that what follows is cut like the path itself, `Path.Position.Cuts`. Reading a
character leads to the position that stands for what may follow then, and whether the character
goes on with a segment or begins one depends on the position and the character alone:
`Path.Position.cuts_cons_of_begins` and `Path.Position.cuts_cons_of_not_begins` are the two
cases. One induction on the text shows from them that the pass accepts what can be cut, and
another one that there is only one way to cut it.

Both come together in `Path.splits_uniquely`, with what they say about paths that are made
longer or shorter.
-/

namespace StatesLanguage

namespace Path

/-! ### Segments -/

/-- What may stand in brackets. -/
inductive IsSelector : List Char → Prop where
  /-- An index: decimal digits, of any script. -/
  | index {digits : List Char} (nonempty : digits ≠ [])
    (digit : ∀ c ∈ digits, Text.isDecimalDigit c = true) : IsSelector digits
  /-- The wildcard. -/
  | wildcard : IsSelector ['*']
  /-- A name in quotes, which holds anything but its own quote. -/
  | quoted {quote : Char} {name : List Char} (isQuote : quote = '\'' ∨ quote = '"')
    (unquoted : quote ∉ name) : IsSelector (quote :: (name ++ [quote]))

/-- A character of a name behind a dot. -/
def IsPlain (c : Char) : Prop :=
  c ≠ '.' ∧ c ≠ '[' ∧ c ≠ ']' ∧ Text.isWhiteSpace c = false

instance (c : Char) : Decidable (IsPlain c) :=
  inferInstanceAs (Decidable (_ ∧ _ ∧ _ ∧ _))

/-- A segment of a path expression. -/
inductive IsSegment : List Char → Prop where
  /-- A name behind a dot. -/
  | dotted {name : List Char} (nonempty : name ≠ []) (plain : ∀ c ∈ name, IsPlain c) :
    IsSegment ('.' :: name)
  /-- A selector in brackets. -/
  | bracketed {content : List Char} (selector : IsSelector content) :
    IsSegment ('[' :: (content ++ [']']))

/-- A text is the root selector and segments behind it, of which there is at least one. -/
structure Splits (text : String) (segments : List String) : Prop where
  /-- There is a segment. -/
  nonempty : segments ≠ []
  /-- Every part is a segment. -/
  segment : ∀ s ∈ segments, IsSegment s.toList
  /-- The parts make up the text. -/
  text_eq : text = "$" ++ String.join segments

theorem isNameChar_iff {c : Char} : isNameChar c = true ↔ IsPlain c := by
  simp [isNameChar, IsPlain, and_assoc]

/-- Whether a character begins a segment. -/
def BeginsSegment (c : Char) : Prop :=
  c = '.' ∨ c = '['

theorem IsSegment.exists_cons {s : List Char} (h : IsSegment s) :
    ∃ c w, s = c :: w ∧ BeginsSegment c := by
  cases h with
  | dotted _ _ => exact ⟨_, _, rfl, Or.inl rfl⟩
  | bracketed _ => exact ⟨_, _, rfl, Or.inr rfl⟩

theorem BeginsSegment.not_isPlain {c : Char} (h : BeginsSegment c) : ¬ IsPlain c := by
  rintro ⟨hdot, hbracket, -⟩
  exact h.elim hdot hbracket

/-! ### What may follow on a position -/

namespace Position

/-- Characters of a class, and what closes them. -/
def Closes (P : Char → Prop) (close w : List Char) : Prop :=
  ∃ run, (∀ c ∈ run, P c) ∧ w = run ++ close

/-- What may follow on a position in the segment in which it lies. -/
def Rest : Position → List Char → Prop
  | .start, w => ∃ s, IsSegment s ∧ w = '$' :: s
  | .root, w => IsSegment w
  | .dot, w => w ≠ [] ∧ ∀ c ∈ w, IsPlain c
  | .name, w => ∀ c ∈ w, IsPlain c
  | .bracket, w => ∃ content, IsSelector content ∧ w = content ++ [']']
  | .index, w => Closes (fun c => Text.isDecimalDigit c = true) [']'] w
  | .singleQuoted, w => Closes (· ≠ '\'') ['\'', ']'] w
  | .doubleQuoted, w => Closes (· ≠ '"') ['"', ']'] w
  | .content, w => w = [']']
  | .segment, w => w = []
  | .nowhere, _ => False

/-- A path may end where nothing is missing of the segment. -/
theorem rest_nil {p : Position} : p.Rest [] ↔ p.isEnd = true := by
  cases p with
  | root =>
    refine iff_of_false (fun h => ?_) Bool.false_ne_true
    obtain ⟨_, _, h, -⟩ := h.exists_cons
    nomatch h
  | _ => simp [Rest, Closes, isEnd]

theorem isSegment_cons {c : Char} {w : List Char} : IsSegment (c :: w) ↔ (begin c).Rest w := by
  rw [begin]
  split
  · next hc =>
    subst hc
    constructor
    · rintro (⟨hne, hplain⟩ | -)
      exact ⟨hne, hplain⟩
    · rintro ⟨hne, hplain⟩
      exact .dotted hne hplain
  · next hdot =>
    split
    · next hc =>
      subst hc
      constructor
      · rintro (- | hselector)
        exact ⟨_, hselector, rfl⟩
      · rintro ⟨content, hselector, rfl⟩
        exact .bracketed hselector
    · next hbracket =>
      refine iff_of_false (fun h => ?_) id
      obtain ⟨_, _, heq, h⟩ := h.exists_cons
      obtain ⟨rfl, rfl⟩ := List.cons.inj heq
      exact h.elim hdot hbracket

theorem closes_cons {P : Char → Prop} {d c : Char} {tail w : List Char} (hd : ¬ P d) :
    Closes P (d :: tail) (c :: w) ↔ if c = d then w = tail else P c ∧ Closes P (d :: tail) w := by
  split
  · next hc =>
    subst hc
    constructor
    · rintro ⟨_ | ⟨_, run⟩, hrun, h⟩
      · exact (List.cons.inj h).2
      · obtain ⟨rfl, -⟩ := List.cons.inj h
        exact absurd (hrun _ List.mem_cons_self) hd
    · rintro rfl
      exact ⟨[], fun _ h => absurd h List.not_mem_nil, rfl⟩
  · next hc =>
    constructor
    · rintro ⟨_ | ⟨_, run⟩, hrun, h⟩
      · exact absurd (List.cons.inj h).1 hc
      · obtain ⟨rfl, rfl⟩ := List.cons.inj h
        rw [List.forall_mem_cons] at hrun
        exact ⟨hrun.1, run, hrun.2, rfl⟩
    · rintro ⟨hP, run, hrun, rfl⟩
      exact ⟨c :: run, List.forall_mem_cons.mpr ⟨hP, hrun⟩, rfl⟩

theorem closes_quote_iff {quote : Char} {w : List Char} :
    Closes (· ≠ quote) [quote, ']'] w ↔
      ∃ name, quote ∉ name ∧ quote :: w = quote :: (name ++ [quote]) ++ [']'] := by
  constructor
  · rintro ⟨name, hname, rfl⟩
    exact ⟨name, fun hmem => hname _ hmem rfl, by simp⟩
  · rintro ⟨name, hname, h⟩
    obtain ⟨-, rfl⟩ := List.cons.inj h
    exact ⟨name, fun d hd => ne_of_mem_of_not_mem hd hname, by simp⟩

/-- What stands in brackets is told by its first character. -/
theorem bracket_cons {c : Char} {w : List Char} :
    Rest .bracket (c :: w) ↔ (step .bracket c).Rest w := by
  have hdigit : ∀ c, Text.isDecimalDigit c = true → c ≠ '*' ∧ c ≠ '\'' ∧ c ≠ '"' := by
    rintro c hc
    refine ⟨?_, ?_, ?_⟩ <;> rintro rfl <;> revert hc <;> decide
  constructor
  · rintro ⟨content, hcontent, h⟩
    cases hcontent with
    | index hne hdigits =>
      obtain _ | ⟨_, digits⟩ := content
      · exact absurd rfl hne
      obtain ⟨rfl, rfl⟩ := List.cons.inj h
      rw [List.forall_mem_cons] at hdigits
      obtain ⟨hstar, hsingle, hdouble⟩ := hdigit c hdigits.1
      rw [step, if_neg hstar, if_neg hsingle, if_neg hdouble, if_pos hdigits.1]
      exact ⟨digits, hdigits.2, rfl⟩
    | wildcard =>
      obtain ⟨rfl, rfl⟩ := List.cons.inj h
      rfl
    | @quoted quote name hquote hname =>
      obtain rfl := (List.cons.inj h).1
      have hcloses := closes_quote_iff.mpr ⟨name, hname, h⟩
      rcases hquote with rfl | rfl
      · exact hcloses
      · exact hcloses
  · intro h
    rw [step] at h
    split at h
    · next hc =>
      subst hc
      exact ⟨['*'], .wildcard, congrArg _ h⟩
    split at h
    · next hc =>
      subst hc
      obtain ⟨name, hname, heq⟩ := closes_quote_iff.mp h
      exact ⟨_, .quoted (Or.inl rfl) hname, heq⟩
    split at h
    · next hc =>
      subst hc
      obtain ⟨name, hname, heq⟩ := closes_quote_iff.mp h
      exact ⟨_, .quoted (Or.inr rfl) hname, heq⟩
    split at h
    · next hc =>
      obtain ⟨digits, hdigits, rfl⟩ := h
      exact ⟨c :: digits, .index (List.cons_ne_nil _ _) (List.forall_mem_cons.mpr ⟨hc, hdigits⟩),
        rfl⟩
    · exact h.elim

/-- **A character that does not begin another segment goes on with the one at hand.** -/
theorem rest_cons {p : Position} {c : Char} {w : List Char}
    (h : p.isEnd = true → ¬ BeginsSegment c) : p.Rest (c :: w) ↔ (p.step c).Rest w := by
  cases p with
  | start =>
    rw [step]
    split
    · next hc =>
      subst hc
      simp [Rest]
    · next hc =>
      refine iff_of_false ?_ id
      rintro ⟨s, -, h⟩
      exact hc (List.cons.inj h).1
  | root => exact isSegment_cons
  | dot =>
    rw [step]
    split
    · next hc => simp [Rest, isNameChar_iff.mp hc]
    · next hc => simp [Rest, mt isNameChar_iff.mpr hc]
  | name =>
    rw [step]
    split
    · next hc => simp [Rest, isNameChar_iff.mp hc]
    · next hc =>
      have hbegins := not_or.mp (h rfl)
      rw [begin, if_neg hbegins.1, if_neg hbegins.2]
      simp [Rest, mt isNameChar_iff.mpr hc]
  | bracket => exact bracket_cons
  | index =>
    rw [Rest, closes_cons (by decide), step]
    split
    · rfl
    split
    · next hc => exact and_iff_right hc
    · next hc => exact iff_of_false (fun h => hc h.1) id
  | singleQuoted =>
    rw [Rest, closes_cons (not_not_intro rfl), step]
    split
    · rfl
    · next hc => exact and_iff_right hc
  | doubleQuoted =>
    rw [Rest, closes_cons (not_not_intro rfl), step]
    split
    · rfl
    · next hc => exact and_iff_right hc
  | content =>
    rw [step]
    split
    · next hc => simp [Rest, hc]
    · next hc => simp [Rest, hc]
  | segment =>
    have hbegins := not_or.mp (h rfl)
    rw [step, begin, if_neg hbegins.1, if_neg hbegins.2]
    simp [Rest]
  | nowhere => rfl

/-! ### Cutting what follows -/

/-- What may follow on a position: the rest of its segment, and whole segments. -/
structure Cuts (p : Position) (text rest : List Char) (segments : List String) : Prop where
  /-- The first part ends the segment. -/
  ends : p.Rest rest
  /-- Every other part is a segment. -/
  segment : ∀ s ∈ segments, IsSegment s.toList
  /-- The parts make up the text. -/
  text_eq : text = rest ++ segments.flatMap String.toList

variable {p : Position} {c : Char} {text rest : List Char} {segments : List String}

theorem step_of_begins (hend : p.isEnd = true) (hc : BeginsSegment c) : p.step c = begin c := by
  cases p with
  | name => rw [step, if_neg (mt isNameChar_iff.mp hc.not_isPlain)]
  | segment => rfl
  | _ => nomatch hend

theorem isPlain_of_rest (hend : p.isEnd = true) (h : p.Rest rest) : ∀ c ∈ rest, IsPlain c := by
  cases p with
  | name => exact h
  | segment =>
    obtain rfl : rest = [] := h
    exact fun _ hc => absurd hc List.not_mem_nil
  | _ => nomatch hend

/-- Where a path may end, a character that begins a segment leaves nothing to the one before. -/
theorem cuts_cons_of_begins (hend : p.isEnd = true) (hc : BeginsSegment c) :
    p.Cuts (c :: text) rest segments ↔
      rest = [] ∧ ∃ s ss, segments = String.ofList (c :: s) :: ss ∧ (p.step c).Cuts text s ss := by
  rw [step_of_begins hend hc]
  constructor
  · rintro ⟨hrest, hsegments, heq⟩
    obtain _ | ⟨d, rest⟩ := rest
    · refine ⟨rfl, ?_⟩
      obtain _ | ⟨s, ss⟩ := segments
      · nomatch heq
      rw [List.forall_mem_cons] at hsegments
      obtain ⟨d, w, hs, -⟩ := hsegments.1.exists_cons
      rw [List.nil_append, List.flatMap_cons, hs] at heq
      obtain ⟨rfl, rfl⟩ := List.cons.inj heq
      refine ⟨w, ss, by rw [← hs, String.ofList_toList], ?_, hsegments.2, rfl⟩
      exact isSegment_cons.mp (hs ▸ hsegments.1)
    · obtain ⟨rfl, -⟩ := List.cons.inj heq
      exact absurd (isPlain_of_rest hend hrest c List.mem_cons_self) hc.not_isPlain
  · rintro ⟨rfl, s, ss, rfl, hrest, hsegments, rfl⟩
    refine ⟨rest_nil.mpr hend, List.forall_mem_cons.mpr ⟨?_, hsegments⟩, ?_⟩
    · rw [String.toList_ofList]
      exact isSegment_cons.mpr hrest
    · rw [List.nil_append, List.flatMap_cons, String.toList_ofList, List.cons_append]

/-- Any other character goes on with the segment at hand. -/
theorem cuts_cons_of_not_begins (h : p.isEnd = true → ¬ BeginsSegment c) :
    p.Cuts (c :: text) rest segments ↔
      ∃ w, rest = c :: w ∧ (p.step c).Cuts text w segments := by
  constructor
  · rintro ⟨hrest, hsegments, heq⟩
    obtain _ | ⟨d, rest⟩ := rest
    · -- then the segment was complete, and the character would begin another one
      obtain _ | ⟨s, ss⟩ := segments
      · nomatch heq
      obtain ⟨d, w, hs, hd⟩ := (hsegments s List.mem_cons_self).exists_cons
      rw [List.nil_append, List.flatMap_cons, hs] at heq
      obtain ⟨rfl, -⟩ := List.cons.inj heq
      exact absurd hd (h (rest_nil.mp hrest))
    · obtain ⟨rfl, rfl⟩ := List.cons.inj heq
      exact ⟨rest, rfl, (rest_cons h).mp hrest, hsegments, rfl⟩
  · rintro ⟨w, rfl, hrest, hsegments, rfl⟩
    exact ⟨(rest_cons h).mpr hrest, hsegments, rfl⟩

/-- **The pass accepts what can be cut**: by induction on the text. -/
theorem isEnd_foldl_iff :
    (text.foldl step p).isEnd = true ↔ ∃ rest segments, p.Cuts text rest segments := by
  induction text generalizing p with
  | nil =>
    rw [List.foldl_nil, ← rest_nil]
    constructor
    · intro h
      exact ⟨[], [], h, fun _ hs => absurd hs List.not_mem_nil, rfl⟩
    · rintro ⟨rest, segments, hrest, -, heq⟩
      obtain ⟨rfl, -⟩ := List.append_eq_nil_iff.mp heq.symm
      exact hrest
  | cons c text ih =>
    rw [List.foldl_cons, ih]
    by_cases h : p.isEnd = true ∧ BeginsSegment c
    · simp only [cuts_cons_of_begins h.1 h.2]
      constructor
      · rintro ⟨s, ss, hcuts⟩
        exact ⟨[], _, rfl, s, ss, rfl, hcuts⟩
      · rintro ⟨_, _, -, s, ss, -, hcuts⟩
        exact ⟨s, ss, hcuts⟩
    · simp only [cuts_cons_of_not_begins (not_and.mp h)]
      constructor
      · rintro ⟨w, segments, hcuts⟩
        exact ⟨c :: w, segments, w, rfl, hcuts⟩
      · rintro ⟨_, segments, w, -, hcuts⟩
        exact ⟨w, segments, hcuts⟩

/-- **There is only one way to cut**: by induction on the text, as each character tells whether
it begins a segment. -/
theorem Cuts.unique (h : p.Cuts text rest segments) {rest' : List Char} {segments' : List String}
    (h' : p.Cuts text rest' segments') : rest = rest' ∧ segments = segments' := by
  induction text generalizing p rest rest' segments segments' with
  | nil =>
    -- no segment is empty
    have hempty {rest : List Char} {segments : List String} (h : p.Cuts [] rest segments) :
        rest = [] ∧ segments = [] := by
      obtain ⟨-, hsegments, heq⟩ := h
      obtain ⟨rfl, hnil⟩ := List.append_eq_nil_iff.mp heq.symm
      refine ⟨rfl, List.eq_nil_iff_forall_not_mem.mpr fun s hs => ?_⟩
      obtain ⟨c, w, hs', -⟩ := (hsegments s hs).exists_cons
      have hnone := List.flatMap_eq_nil_iff.mp hnil s hs
      rw [hs'] at hnone
      nomatch hnone
    obtain ⟨rfl, rfl⟩ := hempty h
    obtain ⟨rfl, rfl⟩ := hempty h'
    exact ⟨rfl, rfl⟩
  | cons c text ih =>
    by_cases hc : p.isEnd = true ∧ BeginsSegment c
    · obtain ⟨rfl, s, ss, rfl, hcuts⟩ := (cuts_cons_of_begins hc.1 hc.2).mp h
      obtain ⟨rfl, t, ts, rfl, hcuts'⟩ := (cuts_cons_of_begins hc.1 hc.2).mp h'
      obtain ⟨rfl, rfl⟩ := ih hcuts hcuts'
      exact ⟨rfl, rfl⟩
    · obtain ⟨w, rfl, hcuts⟩ := (cuts_cons_of_not_begins (not_and.mp hc)).mp h
      obtain ⟨w', rfl, hcuts'⟩ := (cuts_cons_of_not_begins (not_and.mp hc)).mp h'
      obtain ⟨rfl, rfl⟩ := ih hcuts hcuts'
      exact ⟨rfl, rfl⟩

theorem eq_of_step_eq_segment (h : p.step c = .segment) : c = ']' := by
  cases p <;> grind [step, begin]

theorem isPlain_of_step_eq_name (h : p.step c = .name) : IsPlain c := by
  rw [← isNameChar_iff]
  cases p <;> grind [step, begin]

/-- Where a path may end, what its last character is tells whether a name may go on. -/
theorem exists_cuts_step_iff (hend : (p.step c).isEnd = true) :
    (∃ rest segments, (p.step c).Cuts text rest segments) ↔
      ∃ (name : List Char) (segments : List String), (∀ d ∈ name, IsPlain d) ∧
        (name ≠ [] → c ≠ ']') ∧ (∀ s ∈ segments, IsSegment s.toList) ∧
          text = name ++ segments.flatMap String.toList := by
  cases hp : p.step c with
  | name =>
    obtain ⟨-, -, hc, -⟩ := isPlain_of_step_eq_name hp
    constructor
    · rintro ⟨name, ss, hname, hss, heq⟩
      exact ⟨name, ss, hname, fun _ => hc, hss, heq⟩
    · rintro ⟨name, ss, hname, -, hss, heq⟩
      exact ⟨name, ss, hname, hss, heq⟩
  | segment =>
    have hc := eq_of_step_eq_segment hp
    constructor
    · rintro ⟨_, ss, rfl, hss, heq⟩
      exact ⟨[], ss, fun _ hd => absurd hd List.not_mem_nil, fun hne => absurd rfl hne, hss, heq⟩
    · rintro ⟨name, ss, -, hlast, hss, heq⟩
      obtain rfl : name = [] := by
        by_contra hne
        exact hlast hne hc
      exact ⟨[], ss, rfl, hss, heq⟩
  | _ =>
    rw [hp] at hend
    nomatch hend

end Position

/-! ### Paths and their segments -/

variable {text more : String} {segments : List String}

theorem splits_iff : Splits text segments ↔
    ∃ s ss, segments = s :: ss ∧ Position.start.Cuts text.toList ('$' :: s.toList) ss := by
  constructor
  · rintro ⟨hne, hsegments, rfl⟩
    obtain ⟨s, ss, rfl⟩ := List.exists_cons_of_ne_nil hne
    rw [List.forall_mem_cons] at hsegments
    refine ⟨s, ss, rfl, ⟨_, hsegments.1, rfl⟩, hsegments.2, ?_⟩
    simp [String.toList_append, String.toList_join]
  · rintro ⟨s, ss, rfl, ⟨_, hs, heq⟩, hss, htext⟩
    obtain ⟨-, rfl⟩ := List.cons.inj heq
    refine ⟨List.cons_ne_nil _ _, List.forall_mem_cons.mpr ⟨hs, hss⟩, String.toList_inj.mp ?_⟩
    simp [htext, String.toList_append, String.toList_join]

theorem isPath_iff_splits : isPath text = true ↔ ∃ segments, Splits text segments := by
  simp only [isPath, Position.isEnd_foldl_iff, splits_iff]
  constructor
  · rintro ⟨_, ss, ⟨s, hs, rfl⟩, hss, heq⟩
    refine ⟨_, String.ofList s, ss, rfl, ?_⟩
    rw [String.toList_ofList]
    exact ⟨⟨s, hs, rfl⟩, hss, heq⟩
  · rintro ⟨_, s, ss, -, hcuts⟩
    exact ⟨_, ss, hcuts⟩

theorem Splits.unique (h : Splits text segments) {segments' : List String}
    (h' : Splits text segments') : segments = segments' := by
  obtain ⟨s, ss, rfl, hcuts⟩ := splits_iff.mp h
  obtain ⟨t, ts, rfl, hcuts'⟩ := splits_iff.mp h'
  obtain ⟨hhead, rfl⟩ := hcuts.unique hcuts'
  rw [String.toList_inj.mp (List.cons.inj hhead).2]

theorem Splits.append (h : Splits text segments) {segments' : List String}
    (h' : Splits ("$" ++ more) segments') : Splits (text ++ more) (segments ++ segments') := by
  obtain ⟨hne, hsegments, rfl⟩ := h
  obtain ⟨-, hsegments', heq⟩ := h'
  obtain rfl : more = String.join segments' := (String.append_right_inj _).mp heq
  refine ⟨List.append_ne_nil_of_left_ne_nil hne _, ?_, ?_⟩
  · exact List.forall_mem_append.mpr ⟨hsegments, hsegments'⟩
  · rw [String.join_append, String.append_assoc]

theorem Splits.dropLast {s : String} (h : Splits text (segments ++ [s])) (hne : segments ≠ []) :
    Splits ("$" ++ String.join segments) segments ∧ text = "$" ++ String.join segments ++ s := by
  obtain ⟨-, hsegments, rfl⟩ := h
  refine ⟨⟨hne, (List.forall_mem_append.mp hsegments).1, rfl⟩, ?_⟩
  rw [String.join_append, String.append_assoc, String.join_cons, String.join_nil,
    String.append_empty]

/-- A name in quotes is a segment whatever it holds, its own quote apart. -/
theorem isPath_quoted {quote : Char} (isQuote : quote = '\'' ∨ quote = '"') {name : String}
    (unquoted : quote ∉ name.toList) :
    isPath ("$[" ++ String.singleton quote ++ name ++ String.singleton quote ++ "]") = true := by
  refine isPath_iff_splits.mpr
    ⟨[String.ofList ('[' :: (quote :: (name.toList ++ [quote]) ++ [']']))],
      List.cons_ne_nil _ _, ?_, ?_⟩
  · rw [List.forall_mem_singleton, String.toList_ofList]
    exact .bracketed (.quoted isQuote unquoted)
  · rw [← String.toList_inj]
    simp

/-- A text goes on with a path: with the name that the path ends with, if it ends with one, and
then with further segments. -/
def GoesOn (text more : String) : Prop :=
  ∃ (name : List Char) (segments : List String), (∀ c ∈ name, IsPlain c) ∧
    (name ≠ [] → text.toList.getLast? ≠ some ']') ∧ (∀ s ∈ segments, IsSegment s.toList) ∧
      more = String.ofList name ++ String.join segments

/-- **Nothing follows on a path but what goes on with it.** -/
theorem isPath_append_iff (h : isPath text = true) :
    isPath (text ++ more) = true ↔ GoesOn text more := by
  rw [isPath] at h
  rw [isPath, String.toList_append, List.foldl_append, Position.isEnd_foldl_iff, GoesOn]
  obtain hnil | ⟨before, c, htext⟩ := List.eq_nil_or_concat' text.toList
  · rw [hnil] at h
    nomatch h
  rw [htext, List.foldl_append, List.foldl_cons, List.foldl_nil] at h ⊢
  rw [Position.exists_cuts_step_iff h, List.getLast?_concat]
  simp only [← String.toList_inj, String.toList_append, String.toList_ofList, String.toList_join,
    ne_eq, Option.some.injEq]

/-- **Path expressions are the texts that are split into segments, each in one way.** Of two
segments or more the last one can be left out, segments can be put behind a path, a name in
quotes may hold all but its quote, and nothing else follows on the last segment. -/
theorem splits_uniquely (text : String) :
    (isPath text = true ↔ ∃ segments, Splits text segments) ∧
      (∀ ss ts, Splits text ss → Splits text ts → ss = ts) ∧
      (∀ ss s, Splits text (ss ++ [s]) → ss ≠ [] →
        ∃ shorter, text = shorter ++ s ∧ isPath shorter = true) ∧
      (∀ more, isPath text = true → isPath ("$" ++ more) = true → isPath (text ++ more) = true) ∧
      (∀ quote (name : String), quote = '\'' ∨ quote = '"' → quote ∉ name.toList →
        isPath ("$[" ++ String.singleton quote ++ name ++ String.singleton quote ++ "]") = true) ∧
      (∀ more, isPath text = true → (isPath (text ++ more) = true ↔ GoesOn text more)) := by
  refine ⟨isPath_iff_splits, fun ss ts h h' => h.unique h', ?_, ?_,
    fun quote name isQuote => isPath_quoted isQuote, fun more => isPath_append_iff⟩
  · intro ss s h hne
    obtain ⟨hshorter, heq⟩ := h.dropLast hne
    exact ⟨_, heq, isPath_iff_splits.mpr ⟨ss, hshorter⟩⟩
  · intro more h hmore
    obtain ⟨ss, hss⟩ := isPath_iff_splits.mp h
    obtain ⟨ts, hts⟩ := isPath_iff_splits.mp hmore
    exact isPath_iff_splits.mpr ⟨ss ++ ts, hss.append hts⟩

theorem splits_uniquely_quotedName :
    Splits "$.items['a b.[c]\n']" ([".items"] ++ ["['a b.[c]\n']"]) ∧
      (∀ segments, Splits "$.items['a b.[c]\n']" segments →
        segments = [".items", "['a b.[c]\n']"]) ∧
      (∃ shorter, "$.items['a b.[c]\n']" = shorter ++ "['a b.[c]\n']" ∧ isPath shorter = true) ∧
      isPath ("$.items['a b.[c]\n']" ++ "[0]") = true ∧
      isPath "$['a b.[c]\n']" = true ∧
      GoesOn "$.items['a b.[c]\n']" "[0]" := by
  obtain ⟨hpath, hunique, hshorter, hmore, hquoted, hfollow⟩ :=
    splits_uniquely "$.items['a b.[c]\n']"
  have hsplits : Splits "$.items['a b.[c]\n']" ([".items"] ++ ["['a b.[c]\n']"]) := by
    refine ⟨by simp, ?_, by decide⟩
    rw [List.forall_mem_append, List.forall_mem_singleton, List.forall_mem_singleton]
    constructor
    · have hall : "items".toList.all isNameChar = true := by decide
      exact .dotted (by decide) fun c hc => isNameChar_iff.mp (List.all_eq_true.mp hall c hc)
    · exact .bracketed (@IsSelector.quoted '\'' "a b.[c]\n".toList (Or.inl rfl) (by decide))
  have htext := hpath.mpr ⟨_, hsplits⟩
  have hlonger := hmore "[0]" htext (by decide)
  exact ⟨hsplits, fun _ h => hunique _ _ h hsplits, hshorter _ _ hsplits (by decide), hlonger,
    hquoted '\'' "a b.[c]\n" (Or.inl rfl) (by decide), (hfollow "[0]" htext).mp hlonger⟩

end Path

end StatesLanguage
