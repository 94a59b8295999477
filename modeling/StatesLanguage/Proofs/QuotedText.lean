import StatesLanguage.Json.Printer
import StatesLanguage.Json.Token

/-!
# Quoted texts are read back

A string is written between quotes, character by character. Each one is read back as one
piece of the quoted text, namely as itself but for the control characters that have no letter
and are written by their number. Such a number is below the space, so it is never half of a
surrogate pair and stands for its character alone. `Json.stringToken?_escaped` says that the
pieces make up the string again.

Of the pass over the text one needs to know that it does not leave the quotes inside an
escaped character, `Json.tokensFrom?_escaped`.
-/

namespace StatesLanguage

namespace Json

/-! ### Escapes -/

/-- A control character that is written by its number. -/
def IsNumbered (c : Char) : Prop :=
  c < ' ' ∧ c ≠ '\x08' ∧ c ≠ '\x0c' ∧ c ≠ '\n' ∧ c ≠ '\r' ∧ c ≠ '\t'

instance (c : Char) : Decidable (IsNumbered c) :=
  inferInstanceAs (Decidable (_ ∧ _))

/-- The piece that a character is read back as. -/
def pieceOf (c : Char) : Piece :=
  if IsNumbered c then .unit c.toNat else .char c

/-- The ways in which a character is written: by a letter, by its number or as itself. -/
theorem escaped_cases (c : Char) :
    (∃ letter, escaped c = ['\\', letter] ∧ letter ≠ 'u' ∧ escapedChar? letter = some c ∧
      ¬IsNumbered c) ∨
    (IsNumbered c ∧ escaped c =
      ['\\', 'u', '0', '0', (c.toNat / 16).digitChar, (c.toNat % 16).digitChar]) ∨
    (escaped c = [c] ∧ c ≠ '"' ∧ c ≠ '\\' ∧ ¬c < ' ') := by
  by_cases hletter : c = '"' ∨ c = '\\' ∨ c = '\x08' ∨ c = '\x0c' ∨ c = '\n' ∨ c = '\r' ∨ c = '\t'
  · left
    rcases hletter with rfl | rfl | rfl | rfl | rfl | rfl | rfl
    · exact ⟨'"', rfl, by decide, rfl, by decide⟩
    · exact ⟨'\\', rfl, by decide, rfl, by decide⟩
    · exact ⟨'b', rfl, by decide, rfl, by decide⟩
    · exact ⟨'f', rfl, by decide, rfl, by decide⟩
    · exact ⟨'n', rfl, by decide, rfl, by decide⟩
    · exact ⟨'r', rfl, by decide, rfl, by decide⟩
    · exact ⟨'t', rfl, by decide, rfl, by decide⟩
  · right
    simp only [not_or] at hletter
    obtain ⟨hquote, hbackslash, hb, hf, hn, hr, ht⟩ := hletter
    rw [escaped, if_neg hquote, if_neg hbackslash, if_neg hb, if_neg hf, if_neg hn, if_neg hr,
      if_neg ht]
    by_cases hcontrol : c < ' '
    · have hlt : c.toNat < 32 := hcontrol
      left
      rw [if_pos hcontrol, Text.hexDigits, Text.hexDigits, Nat.toDigits_of_lt_base (by omega),
        Nat.toDigits_of_lt_base (by omega)]
      exact ⟨⟨hcontrol, hb, hf, hn, hr, ht⟩, rfl⟩
    · exact Or.inr ⟨if_neg hcontrol, hquote, hbackslash, hcontrol⟩

/-- The digits of a number below the space. -/
theorem ofHexDigits?_control : ∀ n < 32,
    Text.ofHexDigits? ['0', '0', (n / 16).digitChar, (n % 16).digitChar] = some n := by
  decide

/-! ### Pieces -/

/-- **A character is read back as its piece**, whatever is written behind it. -/
theorem pieces?_escaped (c : Char) (cs : List Char) :
    pieces? (escaped c ++ cs) = (pieces? cs).map (pieceOf c :: ·) := by
  rcases escaped_cases c with ⟨letter, h, hne, hc, hnum⟩ | ⟨hnum, h⟩ | ⟨h, -, hne, hcontrol⟩
  · rw [h, pieceOf, if_neg hnum, Option.map_eq_bind, List.cons_append, List.cons_append,
      pieces?.eq_def]
    dsimp only
    rw [if_neg (by decide), if_pos rfl, if_neg hne, hc]
    rfl
  · rw [h, pieceOf, if_pos hnum, Option.map_eq_bind]
    simp only [List.cons_append, List.nil_append]
    rw [pieces?, if_neg (by decide), if_pos rfl, if_pos rfl]
    simp only [ofHexDigits?_control c.toNat hnum.1]
    rfl
  · rw [h, pieceOf, if_neg fun h => hcontrol h.1]
    cases cs with
    | nil => simp [pieces?, hcontrol, hne]
    | cons d cs =>
      rw [Option.map_eq_bind, List.cons_append, List.nil_append, pieces?.eq_def]
      dsimp only
      rw [if_neg hcontrol, if_neg hne]
      rfl

/-- **A piece makes up its character**, as long as it is no half of a surrogate pair. -/
theorem joinPieces?_pieceOf (c : Char) (ps : List Piece) :
    joinPieces? (pieceOf c :: ps) = (joinPieces? ps).map (c :: ·) := by
  rw [pieceOf, Option.map_eq_bind]
  split
  · next hnum =>
    have hlt : c.toNat < 32 := hnum.1
    have hhigh : isHighSurrogate c.toNat = false := by simp [isHighSurrogate]; omega
    have hlow : isLowSurrogate c.toNat = false := by simp [isLowSurrogate]; omega
    cases ps with
    | nil =>
      show (if isHighSurrogate c.toNat || isLowSurrogate c.toNat then none
        else some [Char.ofNat c.toNat]) = some [c]
      rw [hhigh, hlow, if_neg (by decide), Char.ofNat_toNat]
    | cons p ps =>
      rw [joinPieces?.eq_def]
      simp only [hhigh, hlow, Bool.false_eq_true, if_false, Char.ofNat_toNat]
      rfl
  · cases ps with
    | nil => rfl
    | cons p ps => rfl

/-- **A string is read back from what is written between its quotes.** -/
theorem stringToken?_escaped (s : String) :
    stringToken? (s.toList.flatMap escaped) = some (.string s) := by
  have hpieces (cs : List Char) : pieces? (cs.flatMap escaped) = some (cs.map pieceOf) := by
    induction cs with
    | nil => rfl
    | cons c cs ih => rw [List.flatMap_cons, pieces?_escaped, ih]; rfl
  have hjoin (cs : List Char) : joinPieces? (cs.map pieceOf) = some cs := by
    induction cs with
    | nil => rfl
    | cons c cs ih => rw [List.map_cons, joinPieces?_pieceOf, ih]; rfl
  rw [stringToken?, hpieces]
  simp [hjoin]

/-! ### The pass over a text -/

theorem tokensFrom?_cons (scan : Scan) (c : Char) (cs : List Char) :
    tokensFrom? scan (c :: cs) =
      (scan.step? c).bind fun (ts, next) => (tokensFrom? next cs).map (ts ++ ·) := by
  rw [tokensFrom?]
  rcases scan.step? c with _ | ⟨ts, next⟩
  · rfl
  · exact Option.map_eq_bind.symm

/-- A character that finishes no token. -/
theorem tokensFrom?_skip {scan next : Scan} {c : Char} (h : scan.step? c = some ([], next))
    (cs : List Char) : tokensFrom? scan (c :: cs) = tokensFrom? next cs := by
  rw [tokensFrom?_cons, h]
  exact Option.map_id'

/-- A character that finishes one token. -/
theorem tokensFrom?_emit {scan next : Scan} {c : Char} {t : Token}
    (h : scan.step? c = some ([t], next)) (cs : List Char) :
    tokensFrom? scan (c :: cs) = (tokensFrom? next cs).map (t :: ·) := by
  rw [tokensFrom?_cons, h]
  rfl

/-- Inside quotes the pass goes over what is neither a quote nor a backslash. -/
theorem tokensFrom?_plain {c : Char} (hquote : c ≠ '"') (hbackslash : c ≠ '\\') (q cs : List Char) :
    tokensFrom? (.quoted q) (c :: cs) = tokensFrom? (.quoted (c :: q)) cs :=
  tokensFrom?_skip (by rw [Scan.step?, if_neg hquote, if_neg hbackslash]) cs

theorem tokensFrom?_backslash (c : Char) (q cs : List Char) :
    tokensFrom? (.quoted q) ('\\' :: c :: cs) = tokensFrom? (.quoted (c :: '\\' :: q)) cs :=
  (tokensFrom?_skip rfl _).trans (tokensFrom?_skip rfl _)

/-- **An escaped character does not end the quoted text.** -/
theorem tokensFrom?_escaped (c : Char) (q cs : List Char) :
    tokensFrom? (.quoted q) (escaped c ++ cs) =
      tokensFrom? (.quoted ((escaped c).reverse ++ q)) cs := by
  rcases escaped_cases c with ⟨letter, h, -⟩ | ⟨hnum, h⟩ | ⟨h, hquote, hbackslash, -⟩
  · rw [h]
    exact tokensFrom?_backslash letter q cs
  · have hlt : c.toNat < 32 := hnum.1
    have hdigit : ∀ n < 16, n.digitChar ≠ '"' ∧ n.digitChar ≠ '\\' := by decide
    obtain ⟨hquote, hbackslash⟩ := hdigit (c.toNat / 16) (by omega)
    obtain ⟨hquote', hbackslash'⟩ := hdigit (c.toNat % 16) (by omega)
    rw [h]
    simp only [List.cons_append, List.nil_append, List.reverse_cons, List.reverse_nil]
    rw [tokensFrom?_backslash, tokensFrom?_plain (by decide) (by decide),
      tokensFrom?_plain (by decide) (by decide), tokensFrom?_plain hquote hbackslash,
      tokensFrom?_plain hquote' hbackslash']
  · rw [h]
    exact tokensFrom?_plain hquote hbackslash q cs

theorem tokensFrom?_flatMap_escaped (cs q rest : List Char) :
    tokensFrom? (.quoted q) (cs.flatMap escaped ++ rest) =
      tokensFrom? (.quoted ((cs.flatMap escaped).reverse ++ q)) rest := by
  induction cs generalizing q with
  | nil => rfl
  | cons c cs ih =>
    rw [List.flatMap_cons, List.append_assoc, tokensFrom?_escaped, ih, List.reverse_append,
      List.append_assoc]

/-- **A quoted string is one token.** -/
theorem tokensFrom?_stringChars (s : String) (rest : List Char) :
    tokensFrom? .between (stringChars s ++ rest) =
      (tokensFrom? .between rest).map (.string s :: ·) := by
  have hend : Scan.step? (.quoted (s.toList.flatMap escaped).reverse) '"' =
      some ([.string s], .between) := by
    rw [Scan.step?, if_pos rfl, List.reverse_reverse, stringToken?_escaped]
    rfl
  rw [stringChars, List.cons_append, List.cons_append, List.append_assoc,
    @tokensFrom?_skip .between (.quoted []) _ rfl, tokensFrom?_flatMap_escaped, List.append_nil]
  exact tokensFrom?_emit hend rest

end Json

end StatesLanguage
