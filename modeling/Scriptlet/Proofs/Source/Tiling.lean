import Scriptlet.Proofs.Source.Joining
import Scriptlet.Proofs.Source.Scanning

/-!
# The pieces of a text tile it by the rules

`Tiles source ps`: the pieces `ps` laid end to end are the text, and each of them is the one that
the rules ask for where it starts.  The scanner finds such a tiling (`Piece.pieces_tiles`), and
`tokenize` returns its tokens and its errors in order, with the end of input behind the tokens
(`tokenize_tiles`).

An open quote is not always cut at the first backslash before a line feed: a backslash that is taken
along by the one before it does not count (`open_quote_passes_escaped_backslash`).
-/

namespace Scriptlet

/-- The pieces cover the text from left to right, each as the rules ask. -/
inductive Tiles : List Char → List Piece → Prop
  | nil : Tiles [] []
  | cons {p : Piece} {rest : List Char} {ps : List Piece} (scans : Scans (p.text ++ rest) p)
      (tiles : Tiles rest ps) : Tiles (p.text ++ rest) (p :: ps)

theorem Tiles.flatMap_text {source : List Char} {ps : List Piece} (h : Tiles source ps) :
    ps.flatMap Piece.text = source := by
  induction h with
  | nil => rfl
  | cons _ _ ih => rw [List.flatMap_cons, ih]

namespace Piece

/-- **The scanner tiles the text by the rules.** -/
theorem pieces_tiles (source : List Char) : Tiles source (pieces source) := by
  fun_induction pieces source with
  | case1 => exact .nil
  | case2 c cs ih =>
    have hscans := first_scans c cs
    have htext := first_text_append_drop c cs
    rw [← htext] at hscans
    have := Tiles.cons hscans ih
    rwa [htext] at this

theorem map_fst_locate (table : LineTable) (offset : Nat) (ps : List Piece) :
    (locate table offset ps).map Prod.fst = ps := by
  induction ps generalizing offset with
  | nil => rfl
  | cons p ps ih => rw [locate, List.map_cons, ih]

end Piece

/-- **The tokens of a text.**  The text is tiled by non-empty pieces, each the longest match that
the rules allow where it starts, or an error where none matches.  The tokens are those of the pieces
and one end of input behind them, the errors are those of the pieces. -/
theorem tokenize_tiles (source : List Char) :
    ∃ located : List (Piece × Position),
      Tiles source (located.map Prod.fst) ∧
      (located.map Prod.fst).flatMap Piece.text = source ∧
      (∀ p ∈ located.map Prod.fst, p.text ≠ []) ∧
      (∃ words : List Located, words = located.filterMap (fun p => p.1.token? p.2) ∧
        (∀ l ∈ words, l.token ≠ .endOfInput) ∧
        ∃ position, (tokenize source).tokens = words ++ [⟨.endOfInput, position⟩]) ∧
      (tokenize source).errors = located.filterMap (fun p => p.1.error? p.2) := by
  refine ⟨Piece.locate (LineTable.ofText source) 0 (Piece.pieces source), ?_⟩
  have htiles := Piece.pieces_tiles source
  have hmap := Piece.map_fst_locate (LineTable.ofText source) 0 (Piece.pieces source)
  rw [hmap]
  refine ⟨htiles, htiles.flatMap_text, fun p _ => List.cons_ne_nil _ _, ⟨_, rfl, ?_, _, rfl⟩, rfl⟩
  intro l hl hend
  have hmem := List.mem_map_of_mem (f := Located.token) hl
  rw [Piece.filterMap_token?_locate, Piece.filterMap_word?_pieces, hend] at hmem
  exact Piece.endOfInput_notMem_words source hmem

/-- An open quote may reach over a backslash and a line feed: here the backslash before the line
feed is taken along by the one before it. -/
theorem open_quote_passes_escaped_backslash :
    ¬ ∀ (source : List Char) (before : List Piece) (p : Piece) (after : List Piece),
      Piece.pieces source = before ++ p :: after → p.kind = .unterminated →
      ∀ front rest : List Char,
        (p :: after).flatMap Piece.text = front ++ '\\' :: '\n' :: rest →
        p.text.length ≤ (front ++ ['\\']).length := by
  intro h
  have hpieces : Piece.pieces ['\x22', '\\', '\\', '\n', 'x'] =
      [⟨.unterminated, '\x22', ['\\', '\\', '\n', 'x']⟩] := by
    rw [Piece.pieces]
    show _ :: Piece.pieces [] = _
    rw [Piece.pieces]
    rfl
  exact absurd (h _ [] _ [] hpieces rfl ['\x22', '\\'] ['x'] rfl) (by decide)

end Scriptlet
