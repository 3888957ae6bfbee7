import Scriptlet.Proofs.Source.Spelling

/-!
# Lexemes and what stands between them

The lexemes of a source are the texts of its tokens.  Cut off behind its lexeme, a token is scanned
again from the lexeme alone (`first_lexeme`), so each lexeme spells its token wherever it stands in
front of a break.  A **gap** starts with a blank and goes on with blanks and with comments that end
in a line feed.  It breaks what stands before it, and it leaves nothing behind (`kinds_gap`).

So the lexemes may be written again with any gaps between them, before them and after them
(`Relaid`): the new text spells the same tokens (`Relaid.spells`).
-/

namespace Scriptlet

open Computability

/-! ## Texts of lexemes -/

namespace Piece

/-- The text of a token. -/
def lexeme? (p : Piece) : Option (List Char) :=
  match p.kind with
  | .token _ => some p.text
  | _ => none

/-- The texts of the tokens, in order. -/
def lexemes (source : List Char) : List (List Char) := (pieces source).filterMap lexeme?

/-! ### A lexeme by itself -/

theorem fraction_fraction (cs : List Char) : fraction (fraction cs) = fraction cs := by
  rcases fraction_eq_nil_or cs with h | ⟨e, es, h, he, hes⟩
  · rw [h]
    rfl
  · have hrun : (e :: es).takeWhile Char.isDigit = e :: es :=
      List.takeWhile_eq_self_iff.mpr fun d hd =>
        isDigit_iff.mpr (List.forall_mem_cons.mpr ⟨he, hes⟩ d hd)
    rw [h, fraction, hrun]
    rfl

theorem numberPiece_lexeme (c : Char) (cs : List Char) :
    numberPiece c (numberPiece c cs).tail = numberPiece c cs := by
  have hpoint : ∀ d ∈ (fraction (cs.dropWhile Char.isDigit)).head?, ¬ d.isDigit := by
    intro d hd
    rcases fraction_eq_nil_or (cs.dropWhile Char.isDigit) with h | ⟨e, es, h, _, _⟩
    · simp [h] at hd
    · rw [h] at hd
      cases hd
      decide
  have htake : (cs.takeWhile Char.isDigit).takeWhile Char.isDigit = cs.takeWhile Char.isDigit :=
    List.takeWhile_eq_self_iff.mpr forall_mem_takeWhile
  have hdrop : (cs.takeWhile Char.isDigit).dropWhile Char.isDigit = [] :=
    List.dropWhile_eq_nil_iff.mpr forall_mem_takeWhile
  simp only [numberPiece, takeWhile_append_of_head hpoint, dropWhile_append_of_head hpoint, htake,
    hdrop, List.nil_append, fraction_fraction]

theorem quotedPiece_lexeme {q : Char} {cs : List Char} (hq : IsQuote q) {t : Token}
    (h : (quotedPiece q cs).kind = .token t) :
    quotedPiece q (quotedPiece q cs).tail = quotedPiece q cs := by
  have hbackslash : q ≠ '\\' := by
    rcases hq with rfl | rfl <;> decide
  have hclosed : (readQuoted q cs).closed := by
    by_contra hopen
    simp [quotedPiece, hopen] at h
  have htail : (quotedPiece q cs).tail = (readQuoted q cs).body ++ [q] := if_pos hclosed
  obtain ⟨hclosed', hbody⟩ :=
    readQuoted_complete hbackslash (readQuoted_sound hclosed) (List.prefix_refl _)
  simp only [htail]
  simp only [quotedPiece, Quoted.covered, hclosed, hclosed', hbody, if_true]

theorem symbolPiece_lexeme {c : Char} {cs : List Char} {t : Token}
    (h : (symbolPiece c cs).kind = .token t) :
    symbolPiece c (symbolPiece c cs).tail = symbolPiece c cs := by
  fun_cases symbolPiece c cs with
  | case1 s hs => simp [symbolPiece, List.take_take, hs]
  | case2 s hs hnone => simp [symbolPiece, hs]
  | case3 hone htwo => simp [symbolPiece, hone, htwo] at h

/-- **A token is scanned again from its lexeme alone.** -/
theorem first_lexeme {c : Char} {cs : List Char} {t : Token} (h : (first c cs).kind = .token t) :
    first c (first c cs).tail = first c cs := by
  fun_cases first c cs with
  | case1 hb => simp [first, hb] at h
  | case2 hb hl =>
    have hrun : (cs.takeWhile isNameChar).takeWhile isNameChar = cs.takeWhile isNameChar :=
      List.takeWhile_eq_self_iff.mpr forall_mem_takeWhile
    rw [first, if_neg hb, if_pos hl, hrun]
  | case3 hb hl hd => rw [first, if_neg hb, if_neg hl, if_pos hd, numberPiece_lexeme]
  | case4 hb hl hd hq =>
    rw [first, if_neg hb, if_neg hl, if_neg hd, if_pos hq] at h
    rw [first, if_neg hb, if_neg hl, if_neg hd, if_pos hq, quotedPiece_lexeme (isQuote_iff.mp hq) h]
  | case5 hb hl hd hq hcomment =>
    obtain ⟨rfl, hhead⟩ := hcomment
    simp [first_comment_eq hhead] at h
  | case6 hb hl hd hq hcomment =>
    rw [first, if_neg hb, if_neg hl, if_neg hd, if_neg hq, if_neg hcomment] at h
    -- The lexeme starts like the text it was cut from, so it is no comment either.
    have hcut : ¬ (c = '/' ∧ (symbolPiece c cs).tail.head? = some '/') := by
      rintro ⟨hc, hhead⟩
      obtain ⟨rest, hrest⟩ := symbolPiece_tail_isPrefix c cs
      refine hcomment ⟨hc, ?_⟩
      rw [← hrest, List.head?_append, hhead]
      rfl
    rw [first, if_neg hb, if_neg hl, if_neg hd, if_neg hq, if_neg hcut, symbolPiece_lexeme h]

theorem spells_lexeme {c : Char} {cs : List Char} {t : Token}
    (h : (first c cs).kind = .token t) : Spells (first c cs).text [t] := by
  have hpiece : first c cs = ⟨.token t, c, (first c cs).tail⟩ := by
    have hhead := first_head c cs
    cases hp : first c cs
    simp only [hp] at h hhead
    rw [h, hhead]
  rw [text, first_head]
  exact spells_of_first ((first_lexeme h).trans hpiece)

/-- Each lexeme spells its token. -/
theorem lexemes_spell (source : List Char) :
    List.Forall₂ (fun lexeme t => Spells lexeme [t]) (lexemes source) (words source) := by
  rw [← filterMap_word?_pieces, lexemes]
  fun_induction pieces source with
  | case1 => exact .nil
  | case2 c cs ih =>
    rw [List.filterMap_cons, List.filterMap_cons]
    cases hkind : (first c cs).kind with
    | token t =>
      simp only [lexeme?, word?, hkind]
      exact .cons (spells_lexeme hkind) ih
    | skipped | unexpected | unterminated =>
      simp only [lexeme?, word?, hkind]
      exact ih

end Piece

/-! ## Gaps -/

/-- A blank, and then blanks and comments, each with the line feed that ends it. -/
def gap : Language Char := oneOf IsBlank * (oneOf IsBlank + Rule.comment.language * {['\n']})∗

namespace Piece

/-- A comment leaves nothing behind, up to and with its line feed. -/
theorem kinds_comment {comment : List Char} (h : comment ∈ Rule.comment.language)
    (cs : List Char) : kinds (comment ++ '\n' :: cs) = kinds cs := by
  obtain ⟨body, hbody, rfl⟩ := mem_singleton_mul.mp h
  have hrun : ('/' :: (body ++ '\n' :: cs)).takeWhile (· != '\n') = '/' :: body := by
    rw [List.takeWhile_cons_of_pos (by decide), takeWhile_append_of_head (by simp)]
    rw [List.takeWhile_eq_self_iff.mpr fun d hd => by simpa using mem_oneOf_kstar.mp hbody d hd]
  have hfirst : first '/' ('/' :: (body ++ '\n' :: cs)) = ⟨.skipped, '/', '/' :: body⟩ := by
    rw [first_comment_eq rfl, hrun]
  have hdrop : ('/' :: (body ++ '\n' :: cs)).drop ('/' :: body).length = '\n' :: cs :=
    List.drop_left
  show kinds ('/' :: '/' :: (body ++ '\n' :: cs)) = kinds cs
  rw [kinds, kept_cons, hfirst, hdrop, kept_cons_blank rfl]
  rfl

/-- **A gap leaves nothing behind.** -/
theorem kinds_gap {g : List Char} (h : g ∈ gap) (cs : List Char) : kinds (g ++ cs) = kinds cs := by
  obtain ⟨_, ⟨c, hc, rfl⟩, rest, hrest, rfl⟩ := Language.mem_mul.mp h
  obtain ⟨parts, rfl, hparts⟩ := Language.mem_kstar.mp hrest
  rw [List.append_assoc, List.singleton_append, kinds_cons_blank (isBlank_iff.mpr hc)]
  clear h hrest
  induction parts with
  | nil => rfl
  | cons part parts ih =>
    obtain ⟨hpart, hmore⟩ := List.forall_mem_cons.mp hparts
    rw [List.flatten_cons, List.append_assoc]
    rcases (Language.mem_add _ _ _).mp hpart with ⟨d, hd, rfl⟩ | hline
    · rw [List.singleton_append, kinds_cons_blank (isBlank_iff.mpr hd), ih hmore]
    · obtain ⟨comment, hcomment, _, rfl, rfl⟩ := Language.mem_mul.mp hline
      rw [List.append_assoc, List.singleton_append, kinds_comment hcomment, ih hmore]

/-- Nothing goes on behind a gap. -/
theorem breaks_gap {g : List Char} (h : g ∈ gap) (cs : List Char) : Breaks (g ++ cs) := by
  obtain ⟨_, ⟨c, hc, rfl⟩, rest, _, rfl⟩ := Language.mem_mul.mp h
  rcases hc with rfl | rfl | rfl | rfl | rfl <;> exact breaks_cons (by decide) _

theorem space_mem_gap : [' '] ∈ gap := by
  refine Language.mem_mul.mpr ⟨[' '], ⟨' ', ?_, rfl⟩, [], Language.nil_mem_kstar _, rfl⟩
  exact isBlank_iff.mp (by decide)

/-- Two texts with a gap between them. -/
theorem Spells.append_gap {a b g : List Char} {ts us : List Token} (ha : Spells a ts)
    (hg : g ∈ gap) (hb : Spells b us) : Spells (a ++ (g ++ b)) (ts ++ us) := by
  intro rest hrest
  rw [List.append_assoc, List.append_assoc, ha _ (breaks_gap hg _), kinds_gap hg, hb rest hrest,
    List.map_append, List.append_assoc]

end Piece

/-! ## Lexemes written again -/

/-- The words in order, with a gap between any two of them. -/
inductive Spaced : List (List Char) → List Char → Prop where
  | nil : Spaced [] []
  | single (word : List Char) : Spaced [word] word
  | cons (word : List Char) {next g text : List Char} {rest : List (List Char)} :
      g ∈ gap → Spaced (next :: rest) text →
      Spaced (word :: next :: rest) (word ++ (g ++ text))

/-- The text has the lexemes of the source, with gaps between them, and it may start and end with a
gap. -/
def Relaid (source text : List Char) : Prop :=
  ∃ lead inner trail : List Char, lead ∈ 1 + gap ∧ Spaced (Piece.lexemes source) inner ∧
    trail ∈ 1 + gap ∧ text = lead ++ (inner ++ trail)

open Piece

theorem Spaced.spells {ws : List (List Char)} {ts : List Token} {text : List Char}
    (h : Spaced ws text) (hws : List.Forall₂ (fun w t => Spells w [t]) ws ts) :
    Spells text ts := by
  induction h generalizing ts with
  | nil =>
    cases hws
    exact spells_nil
  | single word =>
    obtain _ | ⟨hw, hrest⟩ := hws
    cases hrest
    exact hw
  | cons word hg _ ih =>
    obtain _ | ⟨hw, hrest⟩ := hws
    exact hw.append_gap hg (ih hrest)

/-- **Lexemes written again spell the same tokens.** -/
theorem Relaid.spells {source text : List Char} (h : Relaid source text) :
    Spells text (words source) := by
  obtain ⟨lead, inner, trail, hlead, hinner, htrail, rfl⟩ := h
  have hspells := hinner.spells (lexemes_spell source)
  intro rest hrest
  have hfront : ∀ cs, kinds (lead ++ cs) = kinds cs := by
    intro cs
    rcases (Language.mem_add _ _ _).mp hlead with hnil | hgap
    · rw [(Language.mem_one _).mp hnil, List.nil_append]
    · exact kinds_gap hgap cs
  have hback : Breaks (trail ++ rest) ∧ kinds (trail ++ rest) = kinds rest := by
    rcases (Language.mem_add _ _ _).mp htrail with hnil | hgap
    · rw [(Language.mem_one _).mp hnil, List.nil_append]
      exact ⟨hrest, rfl⟩
    · exact ⟨breaks_gap hgap rest, kinds_gap hgap rest⟩
  rw [List.append_assoc, hfront, List.append_assoc, hspells _ hback.1, hback.2]

end Scriptlet
