import Scriptlet.Proofs.Source.Positions

/-!
# Texts scanned line by line

A line feed between two texts is not only a break for the scanner (`Piece.keptLaid_append`), it also
starts a new line: behind it the columns are those of the second text by itself, and the lines are
all the same number further down (`Position.behind_lineFeed`).  So the tokens of two texts with a
line feed between them are the tokens of the first one and those of the second one further down
(`tokenize_lines`), as long as the first text has no errors.

The first text may end in a comment, in blanks that run on over the line feed, or in a character
that could go on; all that is looked at are the pieces that are kept, with the text before each of
them.
-/

namespace Scriptlet

/-! ## Further down -/

/-- The same column, a number of lines further down. -/
def Position.down (n : Nat) (p : Position) : Position := ⟨p.line + n, p.column⟩

def Located.down (n : Nat) (t : Located) : Located := ⟨t.token, t.position.down n⟩

def LexicalError.down (n : Nat) : LexicalError → LexicalError
  | .unexpectedCharacter c p => .unexpectedCharacter c (p.down n)
  | .unterminatedText p => .unterminatedText (p.down n)

theorem Position.behind_lineFeed (a b : List Char) :
    behind (a ++ '\n' :: b) = (behind b).down (a.count '\n' + 1) := by
  have hcount : (a ++ '\n' :: b).count '\n' = b.count '\n' + (a.count '\n' + 1) := by
    rw [List.count_append, List.count_cons_self]
    omega
  have hline : (a ++ '\n' :: b).reverse.takeWhile (· ≠ '\n') =
      b.reverse.takeWhile (· ≠ '\n') := by
    rw [List.reverse_append, List.reverse_cons, List.append_assoc, List.singleton_append]
    exact Piece.takeWhile_append_of_head (by rintro _ ⟨⟩; decide) b.reverse
  rw [behind, hcount, hline, behind, down, Nat.add_right_comm]

namespace Piece

theorem token?_down (p : Piece) (position : Position) (n : Nat) :
    p.token? (position.down n) = (p.token? position).map (Located.down n) := by
  cases hkind : p.kind <;> simp [token?, hkind, Located.down]

theorem error?_down (p : Piece) (position : Position) (n : Nat) :
    p.error? (position.down n) = (p.error? position).map (LexicalError.down n) := by
  cases hkind : p.kind <;> simp [error?, hkind, LexicalError.down]

/-! ## What is made of the pieces -/

theorem laid_behind (a b : List Char) (ps : List Piece) :
    laid (a ++ b) ps = (laid b ps).map fun q => (q.1, a ++ q.2) := by
  induction ps generalizing b with
  | nil => rfl
  | cons p ps ih => rw [laid, List.append_assoc, ih, laid, List.map_cons]

theorem keptLaid_behind (before cs : List Char) :
    keptLaid before cs = (keptLaid [] cs).map fun q => (q.1, before ++ q.2) := by
  have hlaid := laid_behind before [] (pieces cs)
  rw [List.append_nil] at hlaid
  rw [keptLaid, hlaid, List.filter_map, keptLaid]
  rfl

section

variable {β : Type} (make : Piece → Position → Option β)

/-- What is made of the kept pieces of a text behind another one. -/
def made (before cs : List Char) : List β :=
  (keptLaid before cs).filterMap fun q => make q.1 (Position.behind q.2)

theorem made_append {a : List Char} (h : ∀ p ∈ kept a, p.kind ≠ .unterminated) (b : List Char) :
    made make [] (a ++ '\n' :: b) = made make [] a ++ made make (a ++ ['\n']) b := by
  rw [made, keptLaid_append h, List.filterMap_append, List.nil_append]
  rfl

/-- Behind a line feed all is made as by itself, further down. -/
theorem made_lineFeed {down : β → β} {a : List Char}
    (hdown : ∀ p position,
      make p (position.down (a.count '\n' + 1)) = (make p position).map down) (b : List Char) :
    made make (a ++ ['\n']) b = (made make [] b).map down := by
  have hmake : ∀ q : Piece × List Char,
      make q.1 (Position.behind (a ++ ['\n'] ++ q.2)) =
        (make q.1 (Position.behind q.2)).map down := by
    intro q
    rw [List.append_assoc, List.singleton_append, Position.behind_lineFeed, hdown]
  simp only [made, keptLaid_behind (a ++ ['\n']), List.filterMap_map, Function.comp_def, hmake,
    List.map_filterMap]

/-- Nothing is made of blanks and comments. -/
theorem filterMap_laid_eq_made (hskip : ∀ p position, p.kind = .skipped → make p position = none)
    (cs : List Char) :
    (laid [] (pieces cs)).filterMap (fun q => make q.1 (Position.behind q.2)) =
      made make [] cs := by
  rw [made, keptLaid, List.filterMap_filter]
  congr 1
  funext q
  by_cases hq : q.1.kind = .skipped
  · simp [hq, hskip q.1 _ hq]
  · simp [hq]

end

end Piece

open Piece

theorem tokenize_tokens_made (source : List Char) :
    (tokenize source).tokens =
      made Piece.token? [] source ++ [⟨.endOfInput, Position.behind source⟩] := by
  rw [tokenize_tokens_laid, filterMap_laid_eq_made]
  intro p position hp
  simp [token?, hp]

theorem tokenize_errors_made (source : List Char) :
    (tokenize source).errors = made Piece.error? [] source := by
  rw [tokenize_errors_laid, filterMap_laid_eq_made]
  intro p position hp
  simp [error?, hp]

/-! ## Lines -/

/-- **Texts are scanned line by line.**  If a text has no errors, then with a line feed and any
other text behind it, its own tokens stay as they are, and the tokens, the end of input and the
errors of the other text follow as they are by themselves, at the same columns and further down by
the lines of the first text. -/
theorem tokenize_lines {a : List Char} (h : (tokenize a).errors = []) (b : List Char) :
    (tokenize (a ++ '\n' :: b)).tokens =
        (tokenize a).tokens.dropLast ++
          (tokenize b).tokens.map (Located.down (a.count '\n' + 1)) ∧
      (tokenize (a ++ '\n' :: b)).errors =
        (tokenize b).errors.map (LexicalError.down (a.count '\n' + 1)) := by
  have hclosed := (tokenize_errors_eq_nil_iff.mp h).ne_unterminated
  constructor
  · rw [tokenize_tokens_made, made_append Piece.token? hclosed,
      made_lineFeed Piece.token? (fun p position => p.token?_down position _),
      Position.behind_lineFeed, tokenize_tokens_made a, tokenize_tokens_made b,
      List.dropLast_concat, List.map_append, List.append_assoc]
    rfl
  · rw [tokenize_errors_made, made_append Piece.error? hclosed,
      made_lineFeed Piece.error? (fun p position => p.error?_down position _),
      ← tokenize_errors_made a, h, List.nil_append, tokenize_errors_made b]

/-- A text over two lines, and a slash and a comment that run up to the end. -/
def textAndComment : List Char := "x = 'é\n' / 12 //".toList

theorem tokenize_lines_textAndComment :
    let after := "/ = 3.\n@ 'open".toList
    let joined := tokenize (textAndComment ++ '\n' :: after)
    (tokenize textAndComment).errors = [] ∧
      joined.tokens =
        (tokenize textAndComment).tokens.dropLast ++ (tokenize after).tokens.map (Located.down 2) ∧
      joined.errors = (tokenize after).errors.map (LexicalError.down 2) ∧
      joined.errors = [.unexpectedCharacter '@' ⟨4, 1⟩, .unterminatedText ⟨4, 3⟩] := by
  intro after joined
  have hclean : (tokenize textAndComment).errors = [] := by decide +kernel
  obtain ⟨htokens, herrors⟩ := tokenize_lines hclean after
  exact ⟨hclean, htokens, herrors, by decide +kernel⟩

end Scriptlet
