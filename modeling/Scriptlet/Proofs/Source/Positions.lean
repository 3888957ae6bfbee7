import Mathlib.Data.List.Induction
import Scriptlet.Proofs.Source.Joining

/-!
# Positions in the order of the text

A position counts the line feeds before it and the characters behind the last of them
(`Position.behind`).  The line table says the same: the lines that start at or before an offset are
the first one and those that the line feeds before the offset begin, so the bisection stops at their
number, and the last of them is the line of the offset.  The table counts in bytes and a column in
characters; they meet because a line starts between two characters, so that the bytes from there to
an offset between two characters are the characters of the line (`LineTable.position_ofText`).

Positions are ordered by line and then by column.  One character further on is a greater position,
so the tokens of a text stand at increasing positions, the end of input last
(`tokenize_positions_increase`), and so do its errors.  `positions_are_exact` puts all this
together.
-/

namespace Scriptlet

namespace Position

/-- Lines come first, columns decide within a line. -/
instance : LT Position := ⟨fun p q => p.line < q.line ∨ p.line = q.line ∧ p.column < q.column⟩

theorem lt_iff {p q : Position} :
    p < q ↔ p.line < q.line ∨ p.line = q.line ∧ p.column < q.column :=
  Iff.rfl

instance (p q : Position) : Decidable (p < q) := decidable_of_iff _ lt_iff.symm

theorem lt_trans {p q r : Position} (hpq : p < q) (hqr : q < r) : p < r := by
  rw [lt_iff] at hpq hqr ⊢
  omega

/-- The position behind a text: its line feeds and what follows the last of them are counted. -/
def behind (before : List Char) : Position :=
  ⟨before.count '\n' + 1, (before.reverse.takeWhile (· ≠ '\n')).length + 1⟩

theorem behind_lt_snoc (before : List Char) (c : Char) :
    behind before < behind (before ++ [c]) := by
  rw [lt_iff]
  by_cases hc : c = '\n'
  · subst hc
    left
    simp [behind]
  · right
    simp [behind, hc]

theorem behind_lt_append (before : List Char) {cs : List Char} (h : cs ≠ []) :
    behind before < behind (before ++ cs) := by
  induction cs generalizing before with
  | nil => exact absurd rfl h
  | cons c cs ih =>
    have hstep := behind_lt_snoc before c
    rw [← List.singleton_append, ← List.append_assoc]
    by_cases hcs : cs = []
    · rwa [hcs, List.append_nil]
    · exact lt_trans hstep (ih _ hcs)

end Position

/-! ## Bytes and characters -/

theorem byteLength_append (a b : List Char) :
    byteLength (a ++ b) = byteLength a + byteLength b := by
  induction a with
  | nil => rw [List.nil_append, byteLength, Nat.zero_add]
  | cons c a ih => rw [List.cons_append, byteLength, byteLength, ih, Nat.add_assoc]

theorem byteLength_cons (c : Char) (cs : List Char) :
    ∃ n, byteLength (c :: cs) = n + 1 ∧ c.utf8Size ≤ n + 1 ∧
      n + 1 - c.utf8Size = byteLength cs := by
  have hpos := c.utf8Size_pos
  exact ⟨c.utf8Size + byteLength cs - 1, by rw [byteLength]; omega, by omega, by omega⟩

theorem dropBytes?_append (a b : List Char) : dropBytes? (byteLength a) (a ++ b) = some b := by
  induction a with
  | nil => exact dropBytes?.eq_1 b
  | cons c a ih =>
    obtain ⟨n, hn, hle, hrest⟩ := byteLength_cons c a
    rw [hn, List.cons_append, dropBytes?, if_pos hle, hrest, ih]

theorem takeBytes?_append (a b : List Char) : takeBytes? (byteLength a) (a ++ b) = some a := by
  induction a with
  | nil => exact takeBytes?.eq_1 b
  | cons c a ih =>
    obtain ⟨n, hn, hle, hrest⟩ := byteLength_cons c a
    rw [hn, List.cons_append, takeBytes?, if_pos hle, hrest, ih, Option.map_some]

theorem slice?_append (a b c : List Char) :
    slice? (a ++ (b ++ c)) (byteLength a) (byteLength (a ++ b)) = some b := by
  have hbytes : byteLength (a ++ b) - byteLength a = byteLength b := by
    rw [byteLength_append]
    omega
  have hle : byteLength a ≤ byteLength (a ++ b) := by
    rw [byteLength_append]
    omega
  rw [slice?, if_pos hle, hbytes, dropBytes?_append, Option.bind_some, takeBytes?_append]

/-- Fewer bytes at the front of a text are a shorter front part. -/
theorem exists_append_of_byteLength_lt {source a b : List Char} (ha : a <+: source)
    (hb : b <+: source) (h : byteLength a < byteLength b) : ∃ cs, cs ≠ [] ∧ a ++ cs = b := by
  rcases List.prefix_or_prefix_of_prefix ha hb with ⟨cs, hcs⟩ | ⟨cs, hcs⟩
  · refine ⟨cs, ?_, hcs⟩
    rintro rfl
    rw [← hcs, List.append_nil] at h
    omega
  · rw [← hcs, byteLength_append] at h
    omega

namespace LineTable

/-! ## Where lines start -/

theorem breaks_append (offset : Nat) (a b : List Char) :
    breaks offset (a ++ b) = breaks offset a ++ breaks (offset + byteLength a) b := by
  induction a generalizing offset with
  | nil => rfl
  | cons c a ih =>
    rw [List.cons_append, breaks, breaks, byteLength, ← Nat.add_assoc, ih, ih]
    split
    · next hc =>
      subst hc
      rfl
    · rfl

theorem length_breaks (offset : Nat) (cs : List Char) :
    (breaks offset cs).length = cs.count '\n' := by
  induction cs generalizing offset with
  | nil => rfl
  | cons c cs ih =>
    rw [breaks, List.count_cons]
    split
    · next hc => simp [hc, ih]
    · next hc => simp [hc, ih]

theorem breaks_bounds {offset start : Nat} {cs : List Char} (h : start ∈ breaks offset cs) :
    offset < start ∧ start ≤ offset + byteLength cs := by
  induction cs generalizing offset with
  | nil => cases h
  | cons c cs ih =>
    have hpos := c.utf8Size_pos
    rw [breaks] at h
    rw [byteLength]
    split at h
    · rcases List.mem_cons.mp h with rfl | h
      · omega
      · have := ih h
        omega
    · have := ih h
      omega

/-- The last line of a text starts behind its last line feed. -/
theorem getLast?_breaks (cs : List Char) :
    ∃ front, front ++ (cs.reverse.takeWhile (· ≠ '\n')).reverse = cs ∧
      (breaks 0 cs).getLast?.getD 0 = byteLength front := by
  induction cs using List.reverseRecOn with
  | nil => exact ⟨[], rfl, rfl⟩
  | append_singleton cs c ih =>
    obtain ⟨front, hfront, hlast⟩ := ih
    rw [breaks_append, Nat.zero_add, breaks, List.reverse_append, List.reverse_singleton,
      List.singleton_append]
    by_cases hc : c = '\n'
    · subst hc
      refine ⟨cs ++ ['\n'], by simp, ?_⟩
      rw [byteLength_append]
      simp [breaks, byteLength, Char.utf8Size]
    · refine ⟨front, ?_, ?_⟩
      · rw [List.takeWhile_cons_of_pos (by simpa using hc), List.reverse_cons, ← List.append_assoc,
          hfront]
      · rw [if_neg hc, breaks, List.append_nil, hlast]

/-! ## The bisection -/

/-- The bisection finds the index at which the entries pass the offset. -/
theorem bisect_eq {starts : Array Nat} {offset lo hi k : Nat} {bound : hi ≤ starts.size}
    (hlo : lo ≤ k) (hhi : k ≤ hi)
    (hbelow : ∀ i (h : i < starts.size), i < k → starts[i] ≤ offset)
    (habove : ∀ i (h : i < starts.size), k ≤ i → offset < starts[i]) :
    bisect starts offset lo hi bound = k := by
  fun_induction bisect starts offset lo hi bound with
  | case1 lo hi bound h middle hle ih =>
    refine ih (Nat.lt_of_not_le fun hk => ?_) hhi
    exact absurd hle (Nat.not_le_of_lt (habove _ middle hk))
  | case2 lo hi bound h middle hle ih =>
    refine ih hlo (Nat.le_of_not_lt fun hk => ?_)
    exact hle (hbelow _ middle hk)
  | case3 lo hi bound h => omega

/-- The bisection stays in its bounds, and it stops below the upper one only in front of an entry
after the offset. -/
theorem bisect_bounds {starts : Array Nat} {lo hi : Nat} (offset : Nat) (bound : hi ≤ starts.size)
    (h : lo ≤ hi) :
    bisect starts offset lo hi bound ≤ hi ∧
      (bisect starts offset lo hi bound < hi →
        offset < starts.getD (bisect starts offset lo hi bound) 0) := by
  fun_induction bisect starts offset lo hi bound with
  | case1 lo hi bound hlt middle hle ih => exact ih (by omega)
  | case2 lo hi bound hlt middle hle ih =>
    obtain ⟨hbound, hentry⟩ := ih (by omega)
    refine ⟨by omega, fun _ => ?_⟩
    rcases Nat.lt_or_eq_of_le hbound with hbelow | hmiddle
    · exact hentry hbelow
    · rw [hmiddle, Array.getD_eq_getD_getElem?, Array.getElem?_eq_getElem middle]
      exact Nat.lt_of_not_le hle
  | case3 lo hi bound hge => exact ⟨h, fun hlt => absurd hlt hge⟩

theorem starts_ofText (source : List Char) :
    (ofText source).starts = (0 :: breaks 0 source).toArray := rfl

/-- **The table is only looked up at lines that it has**, whatever the offset. -/
theorem linesUpTo_bounds (source : List Char) (offset : Nat) :
    0 < (ofText source).linesUpTo offset ∧
      (ofText source).linesUpTo offset ≤ (ofText source).starts.size := by
  obtain ⟨hle, hentry⟩ :=
    bisect_bounds offset (Nat.le_refl (ofText source).starts.size) (Nat.zero_le _)
  refine ⟨Nat.pos_of_ne_zero fun hzero => ?_, hle⟩
  -- The first line starts at or before every offset.
  rw [show bisect _ _ _ _ _ = 0 from hzero] at hentry
  have hfirst := hentry (by simp [starts_ofText])
  simp [starts_ofText] at hfirst

theorem linesUpTo_ofText (before after : List Char) :
    (ofText (before ++ after)).linesUpTo (byteLength before) = before.count '\n' + 1 := by
  -- The starts up to the offset, and those after it.
  have hsplit : 0 :: breaks 0 (before ++ after) =
      (0 :: breaks 0 before) ++ breaks (byteLength before) after := by
    rw [breaks_append, Nat.zero_add, List.cons_append]
  have hcount : (0 :: breaks 0 before).length = before.count '\n' + 1 := by
    rw [List.length_cons, length_breaks]
  refine bisect_eq (Nat.zero_le _) ?_ ?_ ?_
  · rw [starts_ofText, hsplit, List.size_toArray, List.length_append, hcount]
    omega
  · intro i hi hk
    rw [← hcount] at hk
    simp only [starts_ofText, hsplit, List.getElem_toArray]
    rw [List.getElem_append_left hk]
    rcases List.mem_cons.mp (List.getElem_mem hk) with hzero | hmem
    · omega
    · have := breaks_bounds hmem
      omega
  · intro i hi hk
    rw [← hcount] at hk
    simp only [starts_ofText, hsplit, List.getElem_toArray]
    rw [List.getElem_append_right hk]
    exact (breaks_bounds (List.getElem_mem _)).1

/-- The entry of a line is the start of the last line of the text before the offset. -/
theorem start_ofText (before after : List Char) :
    (ofText (before ++ after)).starts.getD (before.count '\n') 0 =
      (breaks 0 before).getLast?.getD 0 := by
  have hcount : (0 :: breaks 0 before).length = before.count '\n' + 1 := by
    rw [List.length_cons, length_breaks]
  have hlast := List.getLast?_eq_getElem? (l := 0 :: breaks 0 before)
  rw [List.getLast?_cons, hcount, Nat.add_sub_cancel] at hlast
  rw [starts_ofText, breaks_append, ← List.cons_append, Array.getD_eq_getD_getElem?,
    List.getElem?_toArray, List.getElem?_append_left (by omega), ← hlast]
  rfl

/-- **The position of an offset is the one behind the text before it.** -/
theorem position_ofText (before after : List Char) :
    (ofText (before ++ after)).position (byteLength before) = Position.behind before := by
  obtain ⟨front, hfront, hstart⟩ := getLast?_breaks before
  have hslice := slice?_append front (before.reverse.takeWhile (· ≠ '\n')).reverse after
  rw [← List.append_assoc, hfront] at hslice
  have hsource : (ofText (before ++ after)).source = before ++ after := rfl
  simp only [position, linesUpTo_ofText, Nat.add_sub_cancel, start_ofText, hstart, hsource, hslice,
    Option.elim_some, List.length_reverse, Position.behind]

theorem position_at_front {source before : List Char} (h : before <+: source) :
    (ofText source).position (byteLength before) = Position.behind before := by
  obtain ⟨after, rfl⟩ := h
  exact position_ofText before after

/-- **A greater offset is a greater position.** -/
theorem position_lt {source a b : List Char} (ha : a <+: source) (hb : b <+: source)
    (h : byteLength a < byteLength b) :
    (ofText source).position (byteLength a) < (ofText source).position (byteLength b) := by
  rw [position_at_front ha, position_at_front hb]
  obtain ⟨cs, hne, rfl⟩ := exists_append_of_byteLength_lt ha hb h
  exact Position.behind_lt_append a hne

end LineTable

/-! ## The tokens of a text -/

namespace Piece

theorem mem_laid {before : List Char} {ps : List Piece} {q : Piece × List Char}
    (h : q ∈ laid before ps) :
    before <+: q.2 ∧ q.2 ++ q.1.text <+: before ++ ps.flatMap text := by
  induction ps generalizing before with
  | nil => cases h
  | cons p ps ih =>
    rw [List.flatMap_cons, ← List.append_assoc]
    rcases List.mem_cons.mp h with rfl | h
    · exact ⟨List.prefix_refl before, List.prefix_append _ _⟩
    · obtain ⟨hbefore, hfront⟩ := ih h
      exact ⟨(List.prefix_append before p.text).trans hbefore, hfront⟩

/-- **The position of a piece is the one behind the text before it.** -/
theorem locate_eq (before : List Char) {source : List Char} {ps : List Piece}
    (h : before ++ ps.flatMap text = source) :
    locate (.ofText source) (byteLength before) ps =
      (laid before ps).map fun q => (q.1, Position.behind q.2) := by
  induction ps generalizing before with
  | nil => rfl
  | cons p ps ih =>
    rw [List.flatMap_cons, ← List.append_assoc] at h
    rw [locate, laid, List.map_cons, ← byteLength_append, ih _ h]
    rw [LineTable.position_at_front ⟨p.text ++ ps.flatMap text, by rw [← List.append_assoc, h]⟩]

theorem laid_increases (before : List Char) (ps : List Piece) :
    ((laid before ps).map (fun q => Position.behind q.2) ++
      [Position.behind (before ++ ps.flatMap text)]).Pairwise (· < ·) := by
  induction ps generalizing before with
  | nil => simp [laid]
  | cons p ps ih =>
    have hlater : ∀ more, Position.behind before < Position.behind (before ++ p.text ++ more) := by
      intro more
      rw [List.append_assoc]
      exact Position.behind_lt_append before (List.cons_ne_nil _ _)
    rw [laid, List.map_cons, List.cons_append, List.flatMap_cons, ← List.append_assoc]
    refine List.pairwise_cons.mpr ⟨fun position hp => ?_, ih _⟩
    rcases List.mem_append.mp hp with hp | hp
    · obtain ⟨q, hq, rfl⟩ := List.mem_map.mp hp
      obtain ⟨⟨more, hmore⟩, _⟩ := mem_laid hq
      rw [← hmore]
      exact hlater more
    · rw [List.mem_singleton.mp hp]
      exact hlater _

theorem token?_position {p : Piece} {position : Position} {t : Located}
    (h : p.token? position = some t) : t.position = position := by
  rw [token?] at h
  split at h
  · cases h
    rfl
  · cases h

theorem error?_position {p : Piece} {position : Position} {e : LexicalError}
    (h : p.error? position = some e) : e.position = position := by
  rw [error?] at h
  split at h
  · cases h
    rfl
  · cases h
    rfl
  · cases h

/-- What is made of some of the pieces stands at some of the positions, in their order. -/
theorem positions_sublist {β : Type} (make : Piece → Position → Option β) {place : β → Position}
    (hmake : ∀ p position x, make p position = some x → place x = position)
    (located : List (Piece × List Char)) :
    List.Sublist ((located.filterMap fun q => make q.1 (Position.behind q.2)).map place)
      (located.map fun q => Position.behind q.2) := by
  induction located with
  | nil => exact .slnil
  | cons q located ih =>
    rw [List.filterMap_cons, List.map_cons]
    split
    · exact .cons _ ih
    · next x hx =>
      rw [List.map_cons, hmake _ _ _ hx]
      exact .cons_cons _ ih

end Piece

theorem locate_pieces (source : List Char) :
    Piece.locate (.ofText source) 0 (Piece.pieces source) =
      (Piece.laid [] (Piece.pieces source)).map fun q => (q.1, Position.behind q.2) :=
  Piece.locate_eq [] (Piece.flatMap_pieces source)

/-- **Each token stands at the position of its first character**, the end of input at the end. -/
theorem tokenize_tokens_laid (source : List Char) :
    (tokenize source).tokens =
      (Piece.laid [] (Piece.pieces source)).filterMap
          (fun q => q.1.token? (Position.behind q.2)) ++
        [⟨.endOfInput, Position.behind source⟩] := by
  simp only [tokenize, locate_pieces, List.filterMap_map, Function.comp_def,
    LineTable.position_at_front (List.prefix_refl source)]

/-- **Each error stands at the position of its first character.** -/
theorem tokenize_errors_laid (source : List Char) :
    (tokenize source).errors =
      (Piece.laid [] (Piece.pieces source)).filterMap
        (fun q => q.1.error? (Position.behind q.2)) := by
  simp only [tokenize, locate_pieces, List.filterMap_map, Function.comp_def]

theorem pieces_increase (source : List Char) :
    ((Piece.laid [] (Piece.pieces source)).map (fun q => Position.behind q.2) ++
      [Position.behind source]).Pairwise (· < ·) := by
  have h := Piece.laid_increases [] (Piece.pieces source)
  rwa [List.nil_append, Piece.flatMap_pieces] at h

/-- **The tokens of a text stand at increasing positions**, the end of input last. -/
theorem tokenize_positions_increase (source : List Char) :
    ((tokenize source).tokens.map Located.position).Pairwise (· < ·) := by
  refine (pieces_increase source).sublist ?_
  rw [tokenize_tokens_laid, List.map_append]
  exact (Piece.positions_sublist Piece.token? (fun _ _ _ => Piece.token?_position) _).append_right _

/-- **The errors of a text stand at increasing positions.** -/
theorem tokenize_errors_increase (source : List Char) :
    ((tokenize source).errors.map LexicalError.position).Pairwise (· < ·) := by
  refine (pieces_increase source).sublist ?_
  rw [tokenize_errors_laid]
  exact (Piece.positions_sublist Piece.error? (fun _ _ _ => Piece.error?_position) _).trans
    (List.sublist_append_left _ _)

theorem tokenize_position_line_pos {source : List Char} {t : Located}
    (h : t ∈ (tokenize source).tokens) : 0 < t.position.line := by
  rw [tokenize_tokens_laid] at h
  rcases List.mem_append.mp h with h | h
  · obtain ⟨q, _, ht⟩ := List.mem_filterMap.mp h
    rw [Piece.token?_position ht]
    exact Nat.succ_pos _
  · rw [List.mem_singleton.mp h]
    exact Nat.succ_pos _

/-! ## Exactness -/

/-- **Positions are exact and ordered.**  At every offset that stands between two characters, the
table finds the line and the column that counting the text before the offset gives; it is never
looked up outside of its lines, and a greater offset is a greater position.  So each token and each
error stands at the position of the first character of its piece, the end of input at the end of the
text, and both lists are in the order of their positions. -/
theorem positions_are_exact (source : List Char) :
    (∀ before, before <+: source →
      (LineTable.ofText source).position (byteLength before) =
        ⟨before.count '\n' + 1, (before.reverse.takeWhile (· ≠ '\n')).length + 1⟩) ∧
    (∀ offset, 0 < (LineTable.ofText source).linesUpTo offset ∧
      (LineTable.ofText source).linesUpTo offset - 1 < (LineTable.ofText source).starts.size) ∧
    (∀ a b, a <+: source → b <+: source → byteLength a < byteLength b →
      (LineTable.ofText source).position (byteLength a) <
        (LineTable.ofText source).position (byteLength b)) ∧
    (∀ q ∈ Piece.laid [] (Piece.pieces source), q.2 ++ q.1.text <+: source) ∧
    (tokenize source).tokens =
      (Piece.laid [] (Piece.pieces source)).filterMap
          (fun q => q.1.token? (Position.behind q.2)) ++
        [⟨.endOfInput, Position.behind source⟩] ∧
    (tokenize source).errors =
      (Piece.laid [] (Piece.pieces source)).filterMap
        (fun q => q.1.error? (Position.behind q.2)) ∧
    ((tokenize source).tokens.map Located.position).Pairwise (· < ·) ∧
    ((tokenize source).errors.map LexicalError.position).Pairwise (· < ·) := by
  refine ⟨fun before h => LineTable.position_at_front h, fun offset => ?_,
    fun a b => LineTable.position_lt, fun q hq => ?_, tokenize_tokens_laid source,
    tokenize_errors_laid source, tokenize_positions_increase source,
    tokenize_errors_increase source⟩
  · obtain ⟨hpos, hle⟩ := LineTable.linesUpTo_bounds source offset
    exact ⟨hpos, by omega⟩
  · have hfront := (Piece.mem_laid hq).2
    rwa [List.nil_append, Piece.flatMap_pieces] at hfront

/-- A quoted text over two lines, with a character of two bytes, and two characters that are no
token. -/
def accentedText : List Char := "'é\nb' @ x §".toList

theorem positions_are_exact_accentedText :
    let quote := "'é".toList
    let front := "'é\nb' @ ".toList
    quote <+: accentedText ∧ front <+: accentedText ∧ byteLength quote < byteLength front ∧
      (LineTable.ofText accentedText).position (byteLength quote) = ⟨1, 3⟩ ∧
      (LineTable.ofText accentedText).position (byteLength front) = ⟨2, 6⟩ ∧
      (LineTable.ofText accentedText).position (byteLength quote) <
        (LineTable.ofText accentedText).position (byteLength front) ∧
      ((tokenize accentedText).tokens.map Located.position).Pairwise (· < ·) := by
  intro quote front
  obtain ⟨hexact, _, hincreases, _, _, _, htokens, _⟩ := positions_are_exact accentedText
  have hquote : quote <+: accentedText := by decide
  have hfront : front <+: accentedText := by decide
  have hbytes : byteLength quote < byteLength front := by decide
  exact ⟨hquote, hfront, hbytes, hexact quote hquote, hexact front hfront,
    hincreases quote front hquote hfront hbytes, htokens⟩

end Scriptlet
