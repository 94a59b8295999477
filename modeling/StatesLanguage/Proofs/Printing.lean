import StatesLanguage.Proofs.NumberText
import StatesLanguage.Proofs.Parsing
import StatesLanguage.Proofs.QuotedText

/-!
# Values are read back from their texts

A text of a value says the tokens of the value, `Json.spell`, with blanks between them or
without. So reading it back takes two steps that know nothing of each other: the pass over
the text finds these tokens in either layout (`Json.tokensFrom?_chars`), and the parser
makes the value of them (`Json.Progress.reads_of_hasDistinctKeys`), as long as it does not run
out of brackets.

The one thing to watch is where a word ends. Only what stands behind it can tell, and behind
a value stands a blank, a bracket, a comma or nothing at all: `Json.IsBoundary`.

`Json.parse?_print` puts both steps together.
-/

namespace StatesLanguage

namespace Json

/-! ### The tokens of a value -/

mutual

/-- The tokens of a value. -/
def spell : Json → List Token
  | .array items => .openArray :: spellItems items ++ [.closeArray]
  | .object ms => .openObject :: spellMembers ms ++ [.closeObject]
  | .string s => [.string s]
  | v => [.scalar v]

/-- The tokens of items, a comma after each but the last. -/
def spellItems : List Json → List Token
  | [] => []
  | x :: xs => spell x ++ (if xs.isEmpty then [] else [.comma]) ++ spellItems xs

/-- The tokens of members, a comma after each but the last. -/
def spellMembers : Members → List Token
  | [] => []
  | (k, v) :: ms =>
    .string k :: .colon :: spell v ++ (if ms.isEmpty then [] else [.comma]) ++ spellMembers ms

end

/-! ### Boundaries -/

/-- No word goes on in a text. -/
def IsBoundary (cs : List Char) : Prop :=
  ∀ c ∈ cs.head?, isWordChar c = false

theorem isBoundary_nil : IsBoundary [] :=
  nofun

theorem isBoundary_cons {c : Char} (h : isWordChar c = false) (cs : List Char) :
    IsBoundary (c :: cs) := by
  intro d hd
  obtain rfl := Option.some.inj hd
  exact h

theorem isBoundary_lineBreak (layout : Layout) (level : Nat) {cs : List Char}
    (h : IsBoundary cs) : IsBoundary (layout.lineBreak level ++ cs) := by
  cases layout with
  | compact => exact h
  | pretty => exact isBoundary_cons rfl _

/-- Blanks are passed over. -/
theorem tokensFrom?_blanks {bs : List Char} (h : ∀ b ∈ bs, isBlank b = true) (cs : List Char) :
    tokensFrom? .between (bs ++ cs) = tokensFrom? .between cs := by
  induction bs with
  | nil => rfl
  | cons b bs ih =>
    obtain ⟨hb, hbs⟩ := List.forall_mem_cons.mp h
    have hstep : Scan.step? .between b = some ([], .between) := if_pos hb
    rw [List.cons_append, tokensFrom?_skip hstep, ih hbs]

theorem tokensFrom?_lineBreak (layout : Layout) (level : Nat) (cs : List Char) :
    tokensFrom? .between (layout.lineBreak level ++ cs) = tokensFrom? .between cs := by
  refine tokensFrom?_blanks (fun b hb => ?_) cs
  cases layout with
  | compact => nomatch hb
  | pretty =>
    rcases List.mem_cons.mp hb with rfl | hb
    · rfl
    · rw [List.eq_of_mem_replicate hb]
      rfl

/-- A punctuation mark is a token. -/
theorem tokensFrom?_punctuation {c : Char} {t : Token}
    (h : beginToken? c = some ([t], .between)) (cs : List Char) :
    tokensFrom? .between (c :: cs) = (tokensFrom? .between cs).map (t :: ·) :=
  @tokensFrom?_emit .between .between c t h cs

/-! ### Words -/

theorem beginToken?_of_isWordChar {c : Char} (hc : isWordChar c = true) :
    beginToken? c = some ([], .word [c]) := by
  have hblank : ¬isBlank c = true := by
    intro h
    simp only [isBlank, Bool.or_eq_true, decide_eq_true_iff] at h
    rcases h with ((rfl | rfl) | rfl) | rfl <;> nomatch hc
  have hquote : c ≠ '"' := by
    rintro rfl
    nomatch hc
  rw [beginToken?, if_neg hblank, if_neg hquote, if_pos hc]

theorem tokensFrom?_inWord {v : List Char} (hv : IsWord v) (w cs : List Char) :
    tokensFrom? (.word w) (v ++ cs) = tokensFrom? (.word (v.reverse ++ w)) cs := by
  induction v generalizing w with
  | nil => rfl
  | cons c v ih =>
    obtain ⟨hc, hv⟩ := List.forall_mem_cons.mp hv
    have hstep : (Scan.word w).step? c = some ([], .word (c :: w)) := if_pos hc
    rw [List.cons_append, tokensFrom?_skip hstep, ih hv, List.reverse_cons, List.append_assoc]
    rfl

/-- At a boundary a word is a token, and what stands there is read as if between two tokens. -/
theorem tokensFrom?_endOfWord {w cs : List Char} {t : Token} (ht : wordToken? w.reverse = some t)
    (hcs : IsBoundary cs) :
    tokensFrom? (.word w) cs = (tokensFrom? .between cs).map (t :: ·) := by
  cases cs with
  | nil =>
    show (wordToken? w.reverse).bind _ = _
    rw [ht]
    rfl
  | cons c cs =>
    have hc := hcs c rfl
    have hstep : (Scan.word w).step? c =
        (beginToken? c).map (Prod.map (t :: ·) id) := by
      rw [Scan.step?, if_neg (by rw [hc]; decide), ht, Option.map_eq_bind]
      rfl
    rw [tokensFrom?_cons, tokensFrom?_cons, hstep]
    show _ = Option.map _ ((beginToken? c).bind _)
    rcases beginToken? c with _ | ⟨ts, next⟩
    · rfl
    · show Option.map _ _ = Option.map _ (Option.map _ _)
      rw [Option.map_map]
      rfl

/-- **A word that ends at a boundary is one token.** -/
theorem tokensFrom?_word {w : List Char} {t : Token} (hw : IsWord w)
    (ht : wordToken? w = some t) {cs : List Char} (hcs : IsBoundary cs) :
    tokensFrom? .between (w ++ cs) = (tokensFrom? .between cs).map (t :: ·) := by
  cases w with
  | nil => nomatch ht
  | cons c v =>
    obtain ⟨hc, hv⟩ := List.forall_mem_cons.mp hw
    have hbegin : Scan.step? .between c = some ([], .word [c]) := beginToken?_of_isWordChar hc
    rw [List.cons_append, tokensFrom?_skip hbegin, tokensFrom?_inWord hv]
    exact tokensFrom?_endOfWord (by simpa using ht) hcs

/-! ### Texts -/

/-- What separates an item from the next one, unless it is the last. -/
theorem tokensFrom?_comma (last : Bool) (cs : List Char) :
    tokensFrom? .between ((if last then [] else [',']) ++ cs) =
      (tokensFrom? .between cs).map ((if last then [] else [.comma]) ++ ·) := by
  cases last with
  | true => exact Option.map_id'.symm
  | false => exact tokensFrom?_punctuation rfl cs

theorem isBoundary_comma {last : Bool} {cs : List Char} (h : last = true → IsBoundary cs) :
    IsBoundary ((if last then [] else [',']) ++ cs) := by
  cases last with
  | true => exact h rfl
  | false => exact isBoundary_cons rfl cs

theorem tokensFrom?_colon (layout : Layout) (cs : List Char) :
    tokensFrom? .between (layout.colon ++ cs) = (tokensFrom? .between cs).map (.colon :: ·) := by
  cases layout with
  | compact => exact tokensFrom?_punctuation rfl cs
  | pretty =>
    refine (tokensFrom?_punctuation rfl _).trans ?_
    rw [← @tokensFrom?_blanks [' '] (List.all_eq_true.mp rfl) cs]
    rfl

/-- The tokens of a value are found in its text, whatever stands behind it. -/
def Scans (layout : Layout) (v : Json) : Prop :=
  ∀ (level : Nat) (cs : List Char), IsBoundary cs →
    tokensFrom? .between (chars layout level v ++ cs) =
      (tokensFrom? .between cs).map (spell v ++ ·)

section Items

variable {layout : Layout} (level : Nat) {cs : List Char}

/-- By induction on the items, each of which ends at a comma or where the last one does. -/
theorem tokensFrom?_itemsChars {items : List Json} (h : ∀ v ∈ items, Scans layout v)
    (hcs : IsBoundary cs) : tokensFrom? .between (itemsChars layout level items ++ cs) =
      (tokensFrom? .between cs).map (spellItems items ++ ·) := by
  induction items with
  | nil => exact Option.map_id'.symm
  | cons x xs ih =>
    obtain ⟨hx, hxs⟩ := List.forall_mem_cons.mp h
    have hboundary : IsBoundary ((if xs.isEmpty then [] else [',']) ++
        (itemsChars layout level xs ++ cs)) := by
      refine isBoundary_comma fun hlast => ?_
      rw [List.isEmpty_iff.mp hlast]
      exact hcs
    rw [itemsChars, spellItems]
    simp only [List.append_assoc]
    rw [tokensFrom?_lineBreak, hx _ _ hboundary, tokensFrom?_comma, ih hxs, Option.map_map,
      Option.map_map]
    rfl

/-- The same for members. -/
theorem tokensFrom?_membersChars {ms : Members} (h : ∀ m ∈ ms, Scans layout m.2)
    (hcs : IsBoundary cs) : tokensFrom? .between (membersChars layout level ms ++ cs) =
      (tokensFrom? .between cs).map (spellMembers ms ++ ·) := by
  induction ms with
  | nil => exact Option.map_id'.symm
  | cons m ms ih =>
    obtain ⟨k, v⟩ := m
    obtain ⟨hv, hms⟩ := List.forall_mem_cons.mp h
    have hboundary : IsBoundary ((if ms.isEmpty then [] else [',']) ++
        (membersChars layout level ms ++ cs)) := by
      refine isBoundary_comma fun hlast => ?_
      rw [List.isEmpty_iff.mp hlast]
      exact hcs
    rw [membersChars, spellMembers]
    simp only [List.append_assoc]
    rw [tokensFrom?_lineBreak, tokensFrom?_stringChars, tokensFrom?_colon, hv _ _ hboundary,
      tokensFrom?_comma, ih hms]
    simp only [Option.map_map]
    rfl

end Items

/-- What stands between two brackets ends at the closing one, or at the line break in front of
it. -/
theorem tokensFrom?_bracketed {layout : Layout} (level : Nat) {opening closing : Char}
    {t u : Token} (ht : beginToken? opening = some ([t], .between))
    (hu : beginToken? closing = some ([u], .between)) {inside : List Char} {ts : List Token}
    (h : ∀ cs, IsBoundary cs →
      tokensFrom? .between (inside ++ cs) = (tokensFrom? .between cs).map (ts ++ ·))
    (cs : List Char) :
    tokensFrom? .between (opening :: inside ++ layout.lineBreak level ++ [closing] ++ cs) =
      (tokensFrom? .between cs).map (t :: ts ++ [u] ++ ·) := by
  have hclosing : isWordChar closing = false := by
    by_contra hword
    rw [beginToken?_of_isWordChar (by simpa using hword)] at hu
    nomatch hu
  simp only [List.cons_append, List.append_assoc, List.nil_append]
  rw [tokensFrom?_punctuation ht, h _ (isBoundary_lineBreak _ _ (isBoundary_cons hclosing _)),
    tokensFrom?_lineBreak, tokensFrom?_punctuation hu, Option.map_map, Option.map_map]
  rfl

/-- **The pass over the text of a value finds its tokens**, in either layout: by induction on
the value. -/
theorem tokensFrom?_chars (layout : Layout) (v : Json) : Scans layout v := by
  induction v with
  | null =>
    intro level cs hcs
    exact @tokensFrom?_word ['n', 'u', 'l', 'l'] _ (List.all_eq_true.mp rfl) rfl _ hcs
  | bool b =>
    intro level cs hcs
    cases b with
    | true => exact @tokensFrom?_word ['t', 'r', 'u', 'e'] _ (List.all_eq_true.mp rfl) rfl _ hcs
    | false =>
      exact @tokensFrom?_word ['f', 'a', 'l', 's', 'e'] _ (List.all_eq_true.mp rfl) rfl _ hcs
  | number n => exact fun level cs hcs => tokensFrom?_word n.isWord_chars (wordToken?_chars n) hcs
  | string s => exact fun level cs _ => tokensFrom?_stringChars s cs
  | array items ih =>
    intro level cs _
    cases items with
    | nil =>
      exact @tokensFrom?_bracketed .compact 0 '[' ']' _ _ rfl rfl [] []
        (fun _ _ => Option.map_id'.symm) cs
    | cons x xs =>
      exact tokensFrom?_bracketed level rfl rfl
        (fun _ hcs => tokensFrom?_itemsChars (level + 1) ih hcs) cs
  | object ms ih =>
    intro level cs _
    cases ms with
    | nil =>
      exact @tokensFrom?_bracketed .compact 0 '{' '}' _ _ rfl rfl [] []
        (fun _ _ => Option.map_id'.symm) cs
    | cons m ms =>
      exact tokensFrom?_bracketed level rfl rfl
        (fun _ hcs => tokensFrom?_membersChars (level + 1) ih hcs) cs

/-! ### Parsing the tokens -/

namespace Progress

theorem foldlM_cons {p q : Progress} {t : Token} (h : p.step? t = some q) (ts : List Token) :
    (t :: ts).foldlM step? p = ts.foldlM step? q := by
  rw [List.foldlM_cons, h]
  rfl

variable {stack : List Bracket}

/-- Where an item is due, it may also be the first one. -/
theorem foldlM_firstItem (v : Json) (ts : List Token) :
    (spell v ++ ts).foldlM step? (.inside .firstItem stack) =
      (spell v ++ ts).foldlM step? (.inside .value stack) := by
  have hstep (t : Token) (h : close? stack t = none) (us : List Token) :
      (t :: us).foldlM step? (.inside .firstItem stack) =
        (t :: us).foldlM step? (.inside .value stack) := by
    have hstep : (inside .firstItem stack).step? t = (inside .value stack).step? t := by
      show (close? stack t).or (value? stack t) = _
      rw [h]
      rfl
    rw [List.foldlM_cons, List.foldlM_cons, hstep]
  cases v <;> refine hstep _ ?_ _ <;> rcases stack with _ | ⟨_ | _, stack⟩ <;> rfl

/-- The parser makes a value of its tokens where one is due, and goes on behind it. -/
def Reads (v : Json) : Prop :=
  ∀ stack : List Bracket, stack.length + v.depth ≤ maxDepth → ∀ ts,
    (spell v ++ ts).foldlM step? (.inside .value stack) = ts.foldlM step? (complete v stack)

/-- Items are read one behind another. -/
theorem foldlM_items {items : List Json} (h : ∀ v ∈ items, Reads v)
    (hdepth : ∀ v ∈ items, stack.length + 1 + v.depth ≤ maxDepth) (hne : items ≠ [])
    (acc : List Json) (ts : List Token) :
    (spellItems items ++ .closeArray :: ts).foldlM step?
        (.inside .value (.array acc :: stack)) =
      ts.foldlM step? (complete (.array (acc.reverse ++ items)) stack) := by
  induction items generalizing acc with
  | nil => exact absurd rfl hne
  | cons x xs ih =>
    obtain ⟨hx, hxs⟩ := List.forall_mem_cons.mp h
    obtain ⟨hdx, hdxs⟩ := List.forall_mem_cons.mp hdepth
    rw [spellItems, List.append_assoc, List.append_assoc, hx (.array acc :: stack) hdx]
    cases xs with
    | nil =>
      rw [← List.reverse_cons]
      exact foldlM_cons rfl ts
    | cons y ys =>
      have := ih hxs hdxs (List.cons_ne_nil y ys) (x :: acc)
      rw [List.reverse_cons, List.append_assoc] at this
      exact (foldlM_cons rfl _).trans this

/-- Members are read one behind another, and as their keys are distinct, none replaces another
one. -/
theorem foldlM_members {ms : Members} (h : ∀ m ∈ ms, Reads m.2)
    (hdepth : ∀ m ∈ ms, stack.length + 1 + m.2.depth ≤ maxDepth) (hne : ms ≠ [])
    (acc : Members) (hkeys : ((acc ++ ms).map Prod.fst).Nodup) (key : String) (ts : List Token) :
    (spellMembers ms ++ .closeObject :: ts).foldlM step?
        (.inside .key (.object acc key :: stack)) =
      ts.foldlM step? (complete (.object (acc ++ ms)) stack) := by
  induction ms generalizing acc key with
  | nil => exact absurd rfl hne
  | cons m ms ih =>
    obtain ⟨k, v⟩ := m
    obtain ⟨hv, hms⟩ := List.forall_mem_cons.mp h
    obtain ⟨hdv, hdms⟩ := List.forall_mem_cons.mp hdepth
    have hput : put k v acc = acc ++ [(k, v)] := by
      refine put_of_not_mem fun hmem => ?_
      rw [List.map_append, List.nodup_append] at hkeys
      exact hkeys.2.2 k hmem k List.mem_cons_self rfl
    rw [spellMembers]
    simp only [List.append_assoc, List.cons_append]
    rw [foldlM_cons rfl, foldlM_cons rfl, hv (.object acc k :: stack) hdv, complete, hput]
    cases ms with
    | nil => exact foldlM_cons rfl ts
    | cons n ns =>
      rw [List.append_cons] at hkeys
      rw [List.append_cons acc (k, v) (n :: ns)]
      exact (foldlM_cons rfl _).trans (ih hms hdms (List.cons_ne_nil n ns) _ hkeys k)

theorem reads_array {items : List Json} (h : ∀ v ∈ items, Reads v) : Reads (.array items) := by
  intro stack hdepth ts
  rw [depth] at hdepth
  have hopen : (inside .value stack).step? .openArray =
      some (.inside .firstItem (.array [] :: stack)) := if_pos (by omega)
  rw [spell, List.cons_append, List.cons_append, List.append_assoc, foldlM_cons hopen]
  cases items with
  | nil => exact foldlM_cons rfl ts
  | cons x xs =>
    rw [spellItems, List.append_assoc, List.append_assoc, foldlM_firstItem, ← List.append_assoc,
      ← List.append_assoc, ← spellItems]
    refine foldlM_items h (fun v hv => ?_) (List.cons_ne_nil x xs) [] ts
    have := itemsDepth_le.mp le_rfl v hv
    omega

theorem reads_object {ms : Members} (hkeys : (ms.map Prod.fst).Nodup)
    (h : ∀ m ∈ ms, Reads m.2) : Reads (.object ms) := by
  intro stack hdepth ts
  rw [depth] at hdepth
  have hopen : (inside .value stack).step? .openObject =
      some (.inside .firstKey (.object [] "" :: stack)) := if_pos (by omega)
  rw [spell, List.cons_append, List.cons_append, List.append_assoc, foldlM_cons hopen]
  cases ms with
  | nil => exact foldlM_cons rfl ts
  | cons m ms =>
    refine foldlM_members h (fun m hm => ?_) (List.cons_ne_nil m ms) [] hkeys "" ts
    have := membersDepth_le.mp le_rfl m hm
    omega

/-- **The parser makes a value of its tokens**: by induction on the value. -/
theorem reads_of_hasDistinctKeys {v : Json} (h : v.HasDistinctKeys) : Reads v := by
  induction h with
  | null | bool b | number n | string s => exact fun _ _ ts => foldlM_cons rfl ts
  | array _ ih => exact reads_array ih
  | object distinct _ ih => exact reads_object distinct ih

end Progress

/-- **A value is read back from its text**, in either layout, unless it holds a key twice or is
nested too deeply. -/
theorem parse?_print {v : Json} (hkeys : v.HasDistinctKeys) (hdepth : v.depth ≤ maxDepth)
    (layout : Layout) : parse? (v.print layout) = some v := by
  have htokens : tokens? (v.print layout).toList = some (spell v) := by
    have := tokensFrom?_chars layout v 0 [] isBoundary_nil
    rw [List.append_nil] at this
    rw [print, String.toList_ofList, tokens?, this]
    exact congrArg some (List.append_nil _)
  have hvalue := Progress.reads_of_hasDistinctKeys hkeys [] (by simpa using hdepth) []
  rw [List.append_nil] at hvalue
  rw [parse?, htokens]
  show (List.foldlM Progress.step? (.inside .value []) (spell v)).bind Progress.value = _
  rw [hvalue]
  rfl

end Json

end StatesLanguage
