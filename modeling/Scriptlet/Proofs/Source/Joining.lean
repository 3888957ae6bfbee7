import Scriptlet.Source.Lexed

/-!
# Texts laid end to end

Where a text goes on with a character that continues no token (`Breaks`), the pieces before it stay
as they are: a name, a number, a symbol or a quoted text does not look further than one character
behind it (`first_append`).  So a line feed separates two texts: what is kept of them is kept, in
order and in its place (`keptLaid_append`), unless the first one leaves a quote open.

`kept` are the pieces that are no blanks or comments; tokens and errors are made of them alone
(`tokenize_tokens`, `tokenize_errors_eq_nil_iff`).
-/

namespace Scriptlet

namespace Piece

/-! ## Runs of characters -/

section

variable {p : Char → Bool} {rest : List Char}

theorem takeWhile_append_of_head (h : ∀ d ∈ rest.head?, ¬ p d) (cs : List Char) :
    (cs ++ rest).takeWhile p = cs.takeWhile p := by
  have hrest : rest.takeWhile p = [] := by
    cases rest with
    | nil => rfl
    | cons d rest => exact List.takeWhile_cons_of_neg (h d rfl)
  rw [List.takeWhile_append, hrest, List.append_nil]
  split
  · next hall => exact (List.takeWhile_prefix p).eq_of_length hall |>.symm
  · rfl

theorem dropWhile_append_of_head (h : ∀ d ∈ rest.head?, ¬ p d) (cs : List Char) :
    (cs ++ rest).dropWhile p = cs.dropWhile p ++ rest := by
  have hrest : rest.dropWhile p = rest := by
    cases rest with
    | nil => rfl
    | cons d rest => exact List.dropWhile_cons_of_neg (h d rfl)
  rw [List.dropWhile_append, hrest]
  split
  · next hnil => rw [List.isEmpty_iff.mp hnil, List.nil_append]
  · rfl

end

/-! ## Where pieces end -/

/-- The text ends here, or goes on with a character that continues no token. -/
def Breaks (rest : List Char) : Prop :=
  ∀ d ∈ rest.head?, ¬ isNameChar d ∧ d ≠ '.' ∧ d ≠ '=' ∧ d ≠ '&' ∧ d ≠ '|' ∧ d ≠ '/'

theorem breaks_cons {d : Char}
    (h : ¬ isNameChar d ∧ d ≠ '.' ∧ d ≠ '=' ∧ d ≠ '&' ∧ d ≠ '|' ∧ d ≠ '/') (cs : List Char) :
    Breaks (d :: cs) := by
  rintro _ ⟨⟩
  exact h

theorem breaks_lineFeed (cs : List Char) : Breaks ('\n' :: cs) := breaks_cons (by decide) cs

namespace Breaks

variable {rest : List Char} (h : Breaks rest)

include h

theorem not_digit : ∀ d ∈ rest.head?, ¬ d.isDigit := by
  intro d hd hdigit
  exact (h d hd).1 (by simp [isNameChar, Char.isAlphanum, hdigit])

/-- No symbol of two characters ends with the character that breaks. -/
theorem ofSpelling?_eq_none {c d : Char} (hd : d ∈ rest.head?) :
    Symbol.ofSpelling? [c, d] = none := by
  obtain ⟨_, _, hequal, hand, hor, _⟩ := h d hd
  refine List.find?_eq_none.mpr fun s _ hs => ?_
  have hspelling := eq_of_beq hs
  cases s <;> simp [Symbol.spelling] at hspelling
  all_goals
    obtain ⟨_, rfl⟩ := hspelling
    contradiction

theorem fraction_append (cs : List Char) : fraction (cs ++ rest) = fraction cs := by
  cases cs with
  | nil =>
    cases rest with
    | nil => rfl
    | cons d rest =>
      have hpoint : d ≠ '.' := (h d rfl).2.1
      rw [List.nil_append, fraction, fraction]
      · simp
      · intro cs hcs
        exact hpoint (List.cons.inj hcs).1
  | cons c cs =>
    by_cases hc : c = '.'
    · subst hc
      rw [List.cons_append, fraction, fraction, takeWhile_append_of_head h.not_digit]
    · rw [List.cons_append, fraction, fraction]
      · intro _ hcs
        exact hc (List.cons.inj hcs).1
      · intro _ hcs
        exact hc (List.cons.inj hcs).1

theorem numberPiece_append (c : Char) (cs : List Char) :
    numberPiece c (cs ++ rest) = numberPiece c cs := by
  simp only [numberPiece, takeWhile_append_of_head h.not_digit,
    dropWhile_append_of_head h.not_digit, h.fraction_append]

theorem symbolPiece_append (c : Char) (cs : List Char) :
    symbolPiece c (cs ++ rest) = symbolPiece c cs := by
  cases cs with
  | cons d cs => rfl
  | nil =>
    cases rest with
    | nil => rfl
    | cons d rest =>
      have hnone : Symbol.ofSpelling? (c :: ([] ++ d :: rest).take 1) = none :=
        h.ofSpelling?_eq_none rfl
      rw [symbolPiece, hnone, symbolPiece, List.take_nil]
      cases Symbol.ofSpelling? [c] <;> rfl

end Breaks

theorem readQuoted_append {quote : Char} {cs : List Char} (h : (readQuoted quote cs).closed)
    (rest : List Char) : readQuoted quote (cs ++ rest) = readQuoted quote cs := by
  fun_induction readQuoted quote cs with
  | case1 => cases h
  | case2 => cases rest <;> simp [readQuoted]
  | case3 => cases h
  | case4 d r => simp [readQuoted]
  | case5 => cases h
  | case6 d r hd hc ih =>
    rw [List.cons_append, List.cons_append, readQuoted, if_neg hc, if_pos rfl, if_neg hd, ih h]
  | case7 c d r hc hb ih =>
    rw [List.cons_append, List.cons_append, readQuoted, if_neg hc, if_neg hb, ← List.cons_append,
      ih h]

theorem quotedPiece_append {c : Char} {cs : List Char}
    (h : (quotedPiece c cs).kind ≠ .unterminated) (rest : List Char) :
    quotedPiece c (cs ++ rest) = quotedPiece c cs := by
  have hclosed : (readQuoted c cs).closed :=
    Decidable.byContradiction fun hopen => h (if_neg hopen)
  rw [quotedPiece, readQuoted_append hclosed, quotedPiece]

/-- **A piece does not look behind a break**, unless it is a run of blanks, a comment, or a quote
that is still open. -/
theorem first_append {c : Char} {cs rest : List Char} (hrest : Breaks rest)
    (hskip : (first c cs).kind ≠ .skipped) (hopen : (first c cs).kind ≠ .unterminated) :
    first c (cs ++ rest) = first c cs := by
  have hword : ∀ d ∈ rest.head?, ¬ isNameChar d := fun d hd => (hrest d hd).1
  rw [first] at hskip hopen ⊢
  rw [first]
  split
  · next hb => simp [hb] at hskip
  · next hb =>
    rw [if_neg hb] at hskip hopen
    split
    · next hl => rw [takeWhile_append_of_head hword]
    · next hl =>
      rw [if_neg hl] at hskip hopen
      split
      · exact hrest.numberPiece_append c cs
      · next hd =>
        rw [if_neg hd] at hskip hopen
        split
        · next hq =>
          rw [if_pos hq] at hopen
          exact quotedPiece_append hopen rest
        · next hq =>
          rw [if_neg hq] at hskip
          have hcomment : ¬ (c = '/' ∧ cs.head? = some '/') := by
            intro hcomment
            rw [if_pos hcomment] at hskip
            exact hskip rfl
          have hcomment' : ¬ (c = '/' ∧ (cs ++ rest).head? = some '/') := by
            rintro ⟨hc, hhead⟩
            cases cs with
            | nil => exact (hrest _ hhead).2.2.2.2.2 rfl
            | cons d cs => exact hcomment ⟨hc, hhead⟩
          rw [if_neg hcomment, if_neg hcomment']
          exact hrest.symbolPiece_append c cs

/-! ## What is kept -/

/-- Pieces that follow each other behind a text, each with all the text before it. -/
def laid (before : List Char) : List Piece → List (Piece × List Char)
  | [] => []
  | p :: ps => (p, before) :: laid (before ++ p.text) ps

theorem map_fst_laid (before : List Char) (ps : List Piece) :
    (laid before ps).map Prod.fst = ps := by
  induction ps generalizing before with
  | nil => rfl
  | cons p ps ih => rw [laid, List.map_cons, ih]

/-- The pieces of a text behind another one that are no blanks or comments, each with all the text
before it. -/
def keptLaid (before cs : List Char) : List (Piece × List Char) :=
  (laid before (pieces cs)).filter fun q => q.1.kind ≠ .skipped

/-- The pieces of a text that are no blanks or comments. -/
def kept (cs : List Char) : List Piece := (pieces cs).filter fun p => p.kind ≠ .skipped

theorem map_fst_keptLaid (before cs : List Char) :
    (keptLaid before cs).map Prod.fst = kept cs := by
  have hfilter := List.filter_map (f := Prod.fst) (p := fun p : Piece => decide (p.kind ≠ .skipped))
    (l := laid before (pieces cs))
  rw [map_fst_laid] at hfilter
  exact hfilter.symm

theorem keptLaid_nil (before : List Char) : keptLaid before [] = [] := by
  rw [keptLaid, pieces]
  rfl

theorem keptLaid_cons (before : List Char) (c : Char) (cs : List Char) :
    keptLaid before (c :: cs) =
      [(first c cs, before)].filter (fun q => q.1.kind ≠ .skipped) ++
        keptLaid (before ++ (first c cs).text) (cs.drop (first c cs).tail.length) := by
  rw [keptLaid, pieces, laid, ← List.singleton_append, List.filter_append]
  rfl

theorem keptLaid_dropBlanks (before cs : List Char) :
    keptLaid (before ++ cs.takeWhile isBlank) (cs.dropWhile isBlank) = keptLaid before cs := by
  cases cs with
  | nil => rw [List.takeWhile_nil, List.append_nil, List.dropWhile_nil]
  | cons c cs =>
    by_cases hc : isBlank c
    · have hfirst : first c cs = ⟨.skipped, c, cs.takeWhile isBlank⟩ := by rw [first, if_pos hc]
      have hdrop : cs.drop (cs.takeWhile isBlank).length = cs.dropWhile isBlank := by
        conv => lhs; arg 2; rw [← List.takeWhile_append_dropWhile (p := isBlank) (l := cs)]
        exact List.drop_left
      rw [List.takeWhile_cons_of_pos hc, List.dropWhile_cons_of_pos hc, keptLaid_cons, hfirst,
        hdrop]
      rfl
    · rw [List.takeWhile_cons_of_neg hc, List.append_nil, List.dropWhile_cons_of_neg hc]

theorem keptLaid_cons_blank {c : Char} (hc : isBlank c) (before cs : List Char) :
    keptLaid before (c :: cs) = keptLaid (before ++ [c]) cs := by
  rw [← keptLaid_dropBlanks, List.takeWhile_cons_of_pos hc, List.dropWhile_cons_of_pos hc,
    ← keptLaid_dropBlanks (before ++ [c]), List.append_assoc, List.singleton_append]

theorem kept_nil : kept [] = [] := by
  rw [kept, pieces]
  rfl

theorem kept_cons (c : Char) (cs : List Char) :
    kept (c :: cs) =
      [first c cs].filter (fun p => p.kind ≠ .skipped) ++
        kept (cs.drop (first c cs).tail.length) := by
  rw [kept, pieces, ← List.singleton_append, List.filter_append]
  rfl

theorem kept_cons_blank {c : Char} (hc : isBlank c) (cs : List Char) :
    kept (c :: cs) = kept cs := by
  rw [← map_fst_keptLaid [], keptLaid_cons_blank hc, map_fst_keptLaid]

theorem symbolPiece_kind (c : Char) (cs : List Char) : (symbolPiece c cs).kind ≠ .skipped := by
  fun_cases symbolPiece c cs <;> rintro ⟨⟩

theorem comment_of_skipped {c : Char} {cs : List Char} (hblank : ¬ isBlank c)
    (hskip : (first c cs).kind = .skipped) : c = '/' ∧ cs.head? = some '/' := by
  rw [first, if_neg hblank] at hskip
  split at hskip
  · cases hskip
  · split at hskip
    · cases hskip
    · split at hskip
      · simp only [quotedPiece] at hskip
        split at hskip <;> cases hskip
      · split at hskip
        · assumption
        · exact absurd hskip (symbolPiece_kind c cs)

theorem first_comment_eq {cs : List Char} (h : cs.head? = some '/') :
    first '/' cs = ⟨.skipped, '/', cs.takeWhile (· != '\n')⟩ := by
  rw [first, if_neg (by decide), if_neg (by decide), if_neg (by decide), if_neg (by decide),
    if_pos ⟨rfl, h⟩]

/-- A piece that is no run of blanks ends in front of a line feed. -/
theorem first_append_lineFeed {c : Char} {cs : List Char} (hblank : ¬ isBlank c)
    (hopen : (first c cs).kind ≠ .unterminated) (rest : List Char) :
    first c (cs ++ '\n' :: rest) = first c cs := by
  by_cases hskip : (first c cs).kind = .skipped
  · obtain ⟨rfl, hhead⟩ := comment_of_skipped hblank hskip
    have hhead' : (cs ++ '\n' :: rest).head? = some '/' := by
      rw [List.head?_append, hhead, Option.some_or]
    rw [first_comment_eq hhead, first_comment_eq hhead']
    rw [takeWhile_append_of_head (by rintro _ ⟨⟩; decide)]
  · exact first_append (breaks_lineFeed rest) hskip hopen

/-- **A line feed separates texts**: what is kept of both is kept, in order and in its place, unless
the first text leaves a quote open. -/
theorem keptLaid_append {a : List Char} (h : ∀ p ∈ kept a, p.kind ≠ .unterminated)
    (before b : List Char) :
    keptLaid before (a ++ '\n' :: b) =
      keptLaid before a ++ keptLaid (before ++ (a ++ ['\n'])) b := by
  induction hn : a.length using Nat.strongRecOn generalizing a before with
  | ind n ih =>
    cases a with
    | nil =>
      rw [List.nil_append, keptLaid_cons_blank rfl, keptLaid_nil, List.nil_append,
        List.nil_append]
    | cons c cs =>
      by_cases hblank : isBlank c
      · rw [kept_cons_blank hblank] at h
        rw [List.cons_append, keptLaid_cons_blank hblank, keptLaid_cons_blank hblank,
          ih cs.length (by rw [← hn]; exact Nat.lt_succ_self _) h _ rfl]
        rw [List.append_assoc, List.singleton_append, List.cons_append]
      · have hopen : (first c cs).kind ≠ .unterminated := by
          intro hkind
          refine h (first c cs) ?_ hkind
          rw [kept_cons, List.filter_cons_of_pos (by simp [hkind])]
          exact List.mem_cons_self
        have hlen := (first_tail_isPrefix c cs).length_le
        have hlater := ih (cs.drop (first c cs).tail.length).length
          (by rw [List.length_drop, ← hn, List.length_cons]; omega)
          (fun p hp => h p (by rw [kept_cons]; exact List.mem_append_right _ hp))
          (before ++ (first c cs).text) rfl
        rw [List.cons_append, keptLaid_cons, first_append_lineFeed hblank hopen,
          List.drop_append_of_le_length hlen, hlater, keptLaid_cons before c cs, List.append_assoc,
          List.append_assoc, ← List.append_assoc (first c cs).text, first_text_append_drop,
          List.cons_append]

theorem kept_append {a : List Char} (h : ∀ p ∈ kept a, p.kind ≠ .unterminated) (b : List Char) :
    kept (a ++ '\n' :: b) = kept a ++ kept b := by
  rw [← map_fst_keptLaid [], keptLaid_append h, List.map_append, map_fst_keptLaid,
    map_fst_keptLaid]

/-! ## Tokens and errors -/

def word? (p : Piece) : Option Token :=
  match p.kind with
  | .token t => some t
  | _ => none

/-- The tokens of a text, without positions and without the end of input. -/
def words (cs : List Char) : List Token := (kept cs).filterMap word?

/-- Everything that is kept is a token. -/
def Clean (cs : List Char) : Prop := ∀ p ∈ kept cs, ∃ t, p.kind = .token t

theorem filterMap_token?_locate (table : LineTable) (offset : Nat) (ps : List Piece) :
    ((locate table offset ps).filterMap fun p => p.1.token? p.2).map Located.token =
      ps.filterMap word? := by
  induction ps generalizing offset with
  | nil => rfl
  | cons p ps ih =>
    rw [locate, List.filterMap_cons, List.filterMap_cons, ← ih (offset + byteLength p.text)]
    cases hkind : p.kind <;> simp [token?, word?, hkind]

theorem filterMap_error?_locate (table : LineTable) (offset : Nat) (ps : List Piece) :
    (locate table offset ps).filterMap (fun p => p.1.error? p.2) = [] ↔
      ∀ p ∈ ps, p.kind ≠ .skipped → ∃ t, p.kind = .token t := by
  induction ps generalizing offset with
  | nil => simp [locate]
  | cons p ps ih =>
    rw [locate, List.filterMap_cons, List.forall_mem_cons, ← ih (offset + byteLength p.text)]
    cases hkind : p.kind <;> simp [error?, hkind]

theorem filterMap_word?_pieces (cs : List Char) : (pieces cs).filterMap word? = words cs := by
  rw [words, kept, List.filterMap_filter]
  congr 1
  funext p
  cases hkind : p.kind <;> simp [word?, hkind]

theorem wordToken_ne_endOfInput (word : List Char) : wordToken word ≠ .endOfInput := by
  rw [wordToken]
  split <;> exact nofun

theorem first_ne_endOfInput (c : Char) (cs : List Char) :
    (first c cs).kind ≠ .token .endOfInput := by
  fun_cases first c cs with
  | case2 => exact fun h => wordToken_ne_endOfInput _ (PieceKind.token.inj h)
  | case4 =>
    rw [quotedPiece]
    split <;> rintro ⟨⟩
  | case6 => fun_cases symbolPiece c cs <;> rintro ⟨⟩
  | case1 | case3 | case5 => rintro ⟨⟩

theorem endOfInput_notMem_words (cs : List Char) : Token.endOfInput ∉ words cs := by
  rw [← filterMap_word?_pieces]
  fun_induction pieces cs with
  | case1 => exact List.not_mem_nil
  | case2 c cs ih =>
    rw [List.mem_filterMap]
    rintro ⟨p, hp, hword⟩
    rcases List.mem_cons.mp hp with rfl | hp
    · have hkind := first_ne_endOfInput c cs
      cases h : (first c cs).kind <;> simp_all [word?]
    · exact ih (List.mem_filterMap.mpr ⟨p, hp, hword⟩)

end Piece

theorem tokenize_tokens (source : List Char) :
    (tokenize source).tokens.map Located.token = Piece.words source ++ [.endOfInput] := by
  rw [tokenize, List.map_append, Piece.filterMap_token?_locate, Piece.filterMap_word?_pieces]
  rfl

theorem tokenize_errors_eq_nil_iff {source : List Char} :
    (tokenize source).errors = [] ↔ Piece.Clean source := by
  rw [tokenize, Piece.filterMap_error?_locate, Piece.Clean, Piece.kept]
  simp [List.mem_filter]

namespace Piece

theorem Clean.ne_unterminated {cs : List Char} (h : Clean cs) :
    ∀ p ∈ kept cs, p.kind ≠ .unterminated := by
  intro p hp hkind
  obtain ⟨t, ht⟩ := h p hp
  rw [ht] at hkind
  cases hkind

theorem words_append {a : List Char} (h : Clean a) (b : List Char) :
    words (a ++ '\n' :: b) = words a ++ words b := by
  rw [words, kept_append h.ne_unterminated, List.filterMap_append]
  rfl

theorem words_nil : words [] = [] := by
  rw [words, kept_nil]
  rfl

theorem clean_nil : Clean [] := by
  rw [Clean, kept_nil]
  exact nofun

theorem Clean.append {a b : List Char} (ha : Clean a) (hb : Clean b) :
    Clean (a ++ '\n' :: b) := by
  intro p hp
  rw [kept_append ha.ne_unterminated] at hp
  rcases List.mem_append.mp hp with hp | hp
  · exact ha p hp
  · exact hb p hp

theorem Clean.intercalate {parts : List (List Char)} (h : ∀ a ∈ parts, Clean a) :
    Clean (['\n'].intercalate parts) ∧ words (['\n'].intercalate parts) = parts.flatMap words := by
  induction parts with
  | nil => exact ⟨clean_nil, words_nil⟩
  | cons a parts ih =>
    obtain ⟨ha, hparts⟩ := List.forall_mem_cons.mp h
    cases parts with
    | nil =>
      rw [List.intercalate_singleton, List.flatMap_singleton]
      exact ⟨ha, rfl⟩
    | cons b rest =>
      obtain ⟨hclean, hwords⟩ := ih hparts
      rw [List.intercalate_cons_cons, List.append_assoc, List.singleton_append, List.flatMap_cons,
        words_append ha, hwords]
      exact ⟨ha.append hclean, rfl⟩

end Piece

end Scriptlet
