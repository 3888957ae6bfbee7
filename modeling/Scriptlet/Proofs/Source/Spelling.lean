import Scriptlet.Proofs.Number.ReadBack
import Scriptlet.Proofs.Source.Scanning

/-!
# Texts that spell tokens

`Spells text ts`: wherever the text stands in front of a break, it is scanned as the tokens `ts`,
and what follows is scanned as if the text were not there.  Names, keywords and numerals spell their
tokens (`spells_name`, `spells_keyword`, `spells_magnitude`), a punctuation mark does so in front of
anything (`kinds_alone`), and texts with punctuation between and around them are spelt piece by
piece (`Spells.separated`, `Spells.enclosed`).
-/

namespace Scriptlet

namespace Piece

/-- The kinds of the pieces that are kept. -/
def kinds (cs : List Char) : List PieceKind := (kept cs).map Piece.kind

theorem kinds_nil : kinds [] = [] := by
  rw [kinds, kept_nil]
  rfl

theorem kinds_cons_blank {c : Char} (hc : isBlank c) (cs : List Char) :
    kinds (c :: cs) = kinds cs := by
  rw [kinds, kept_cons_blank hc]
  rfl

/-- A token in front of the rest. -/
theorem kinds_of_first {c : Char} {cs rest : List Char} {t : Token}
    (h : first c (cs ++ rest) = ⟨.token t, c, cs⟩) :
    kinds (c :: cs ++ rest) = .token t :: kinds rest := by
  rw [kinds, List.cons_append, kept_cons, h, List.drop_left]
  rfl

/-- The text is scanned as the tokens, and what follows a break is scanned as without it. -/
def Spells (text : List Char) (ts : List Token) : Prop :=
  ∀ rest, Breaks rest → kinds (text ++ rest) = ts.map .token ++ kinds rest

theorem breaks_nil : Breaks [] := nofun

theorem Spells.kinds_eq {text : List Char} {ts : List Token} (h : Spells text ts) :
    kinds text = ts.map .token := by
  have := h [] breaks_nil
  rwa [List.append_nil, kinds_nil, List.append_nil] at this

theorem Spells.clean {text : List Char} {ts : List Token} (h : Spells text ts) : Clean text := by
  intro p hp
  have hmem : p.kind ∈ kinds text := List.mem_map_of_mem hp
  rw [h.kinds_eq] at hmem
  obtain ⟨t, _, ht⟩ := List.mem_map.mp hmem
  exact ⟨t, ht.symm⟩

/-- The token that a piece of this kind makes. -/
def tokenOf? : PieceKind → Option Token
  | .token t => some t
  | _ => none

theorem Spells.words_eq {text : List Char} {ts : List Token} (h : Spells text ts) :
    words text = ts := by
  have hwords : words text = (kinds text).filterMap tokenOf? := by
    rw [kinds, List.filterMap_map]
    rfl
  rw [hwords, h.kinds_eq, List.filterMap_map]
  exact List.filterMap_some

/-- One piece that takes in the whole text. -/
theorem spells_of_first {c : Char} {cs : List Char} {t : Token}
    (h : first c cs = ⟨.token t, c, cs⟩) : Spells (c :: cs) [t] := by
  intro rest hrest
  refine kinds_of_first ?_
  rw [first_append hrest (by rw [h]; exact nofun) (by rw [h]; exact nofun), h]

/-! ## Texts without comments -/

theorem kinds_cons {c : Char} {cs : List Char} {t : Token} (h : (first c cs).kind = .token t) :
    kinds (c :: cs) = .token t :: kinds (cs.drop (first c cs).tail.length) := by
  rw [kinds, kept_cons, List.filter_cons_of_pos (by simp [h]), List.map_append]
  simp [h, kinds]

/-- Where nothing is a comment, a clean text is scanned in front of a break as it is by itself. -/
theorem kinds_append {cs rest : List Char} (hclean : Clean cs) (hslash : '/' ∉ cs)
    (hrest : Breaks rest) : kinds (cs ++ rest) = kinds cs ++ kinds rest := by
  induction hn : cs.length using Nat.strongRecOn generalizing cs with
  | ind n ih =>
    cases cs with
    | nil => rw [List.nil_append, kinds_nil, List.nil_append]
    | cons c cs =>
      by_cases hblank : isBlank c
      · rw [Clean, kept_cons_blank hblank] at hclean
        rw [List.cons_append, kinds_cons_blank hblank, kinds_cons_blank hblank]
        exact ih cs.length (by rw [← hn]; exact Nat.lt_succ_self _) hclean
          (fun h => hslash (List.mem_cons_of_mem _ h)) rfl
      · have hskip : (first c cs).kind ≠ .skipped := by
          intro hkind
          obtain ⟨rfl, -⟩ := comment_of_skipped hblank hkind
          exact hslash List.mem_cons_self
        rw [Clean, kept_cons, List.filter_cons_of_pos (by simpa using hskip)] at hclean
        obtain ⟨⟨t, ht⟩, hlater⟩ := List.forall_mem_cons.mp hclean
        have hlen := (first_tail_isPrefix c cs).length_le
        have hdrop := ih (cs.drop (first c cs).tail.length).length
          (by rw [List.length_drop, ← hn, List.length_cons]; omega) hlater
          (fun h => hslash (List.mem_cons_of_mem _ (List.mem_of_mem_drop h))) rfl
        have hfirst : first c (cs ++ rest) = first c cs :=
          first_append hrest hskip (by simp [ht])
        rw [List.cons_append, kinds_cons (by rw [hfirst]; exact ht), hfirst,
          List.drop_append_of_le_length hlen, hdrop, kinds_cons ht, List.cons_append]

theorem Clean.kinds_eq {cs : List Char} (h : Clean cs) : kinds cs = (words cs).map .token := by
  rw [words, List.map_filterMap, kinds, ← List.filterMap_eq_map]
  refine (List.filterMap_congr fun p hp => ?_).symm
  obtain ⟨t, ht⟩ := h p hp
  simp [word?, ht]

/-- **A clean text without slashes spells its words.** -/
theorem spells_words {cs : List Char} (hclean : Clean cs) (hslash : '/' ∉ cs) :
    Spells cs (words cs) := by
  intro rest hrest
  rw [kinds_append hclean hslash hrest, hclean.kinds_eq]

/-! ## Punctuation -/

end Piece

/-- Symbols that are no part of another one, whatever follows them. -/
def Symbol.standsAlone : Symbol → Bool
  | .leftBrace | .rightBrace | .leftBracket | .rightBracket | .comma | .colon | .minus => true
  | _ => false

theorem Symbol.spelling_ne_nil (s : Symbol) : s.spelling ≠ [] := by
  cases s <;> exact List.cons_ne_nil _ _

theorem Symbol.eq_of_head? {s s' : Symbol} (h : s.standsAlone)
    (hs : s'.spelling.head? = s.spelling.head?) : s' = s := by
  cases s <;> cases h <;> cases s' <;> simp_all [Symbol.spelling]

namespace Piece

theorem first_alone {s : Symbol} (h : s.standsAlone) {c : Char} (hc : s.spelling = [c])
    (cs : List Char) : first c cs = ⟨.token (.symbol s), c, []⟩ := by
  obtain ⟨hb, hl, hd, hq⟩ := Rule.symbol_opens (s := s) (c := c) (by rw [Rule.Opens, hc]; rfl)
  have hslash : c ≠ '/' := by
    rintro rfl
    cases @Symbol.eq_of_head? s .slash h (by rw [hc]; rfl)
    cases h
  have hone : Symbol.ofSpelling? [c] = some s := hc ▸ Symbol.ofSpelling?_spelling s
  rw [first, if_neg (mt isBlank_iff.mp hb), if_neg (mt isNameStart_iff.mp hl),
    if_neg (mt isDigit_iff.mp hd), if_neg (mt isQuote_iff.mp hq), if_neg fun h => hslash h.1,
    symbolPiece, hone]
  cases cs with
  | nil =>
    rw [List.take_nil, hone]
  | cons d cs =>
    have htwo : Symbol.ofSpelling? (c :: (d :: cs).take 1) = none := by
      refine List.find?_eq_none.mpr fun s' _ hs' => ?_
      have hspelling : s'.spelling = [c, d] := eq_of_beq hs'
      cases Symbol.eq_of_head? h (by rw [hspelling, hc]; rfl)
      rw [hc] at hspelling
      cases hspelling
    rw [htwo]

/-- A punctuation mark is scanned by itself in front of anything. -/
theorem kinds_alone {s : Symbol} (h : s.standsAlone) (rest : List Char) :
    kinds (s.spelling ++ rest) = .token (.symbol s) :: kinds rest := by
  obtain ⟨c, hc⟩ : ∃ c, s.spelling = [c] := by cases s <;> cases h <;> exact ⟨_, rfl⟩
  rw [hc]
  exact kinds_of_first (first_alone h hc _)

theorem spells_nil : Spells [] [] := fun _ _ => rfl

theorem Breaks.append {b : List Char} (h : Breaks b) (hne : b ≠ []) (rest : List Char) :
    Breaks (b ++ rest) := by
  cases b with
  | nil => exact absurd rfl hne
  | cons d b => exact h

theorem Spells.append {a b : List Char} {ts us : List Token} (ha : Spells a ts) (hb : Spells b us)
    (hbreak : Breaks b) (hne : b ≠ []) : Spells (a ++ b) (ts ++ us) := by
  intro rest hrest
  rw [List.append_assoc, ha _ (hbreak.append hne rest), hb rest hrest, List.map_append,
    List.append_assoc]

theorem kinds_blanks {blanks : List Char} (h : ∀ c ∈ blanks, isBlank c) (cs : List Char) :
    kinds (blanks ++ cs) = kinds cs := by
  induction blanks with
  | nil => rfl
  | cons c blanks ih =>
    obtain ⟨hc, hblanks⟩ := List.forall_mem_cons.mp h
    rw [List.cons_append, kinds_cons_blank hc, ih hblanks]

/-- Two texts with a mark and a space between them. -/
theorem Spells.separated {a b : List Char} {ts us : List Token} (ha : Spells a ts)
    (hb : Spells b us) (s : Symbol) (hs : s.standsAlone) (hbreak : Breaks s.spelling) :
    Spells (a ++ (s.spelling ++ ' ' :: b)) (ts ++ .symbol s :: us) := by
  intro rest hrest
  have hmark := hbreak.append s.spelling_ne_nil (' ' :: (b ++ rest))
  rw [List.append_assoc, List.append_assoc, List.cons_append, ha _ hmark, kinds_alone hs,
    kinds_cons_blank rfl, hb rest hrest, List.map_append, List.append_assoc]
  rfl

/-- A text between two marks, with the same blanks on their inner sides. -/
theorem Spells.enclosed {a : List Char} {ts : List Token} (ha : Spells a ts)
    (opening closing : Symbol) (blanks : List Char) (hblanks : ∀ c ∈ blanks, isBlank c)
    (hopening : opening.standsAlone) (hclosing : closing.standsAlone)
    (hbreak : Breaks (blanks ++ closing.spelling)) :
    Spells (opening.spelling ++ (blanks ++ (a ++ (blanks ++ closing.spelling))))
      (.symbol opening :: (ts ++ [.symbol closing])) := by
  intro rest hrest
  have hmark := hbreak.append (List.append_ne_nil_of_right_ne_nil _ closing.spelling_ne_nil) rest
  rw [List.append_assoc, kinds_alone hopening, List.append_assoc, kinds_blanks hblanks,
    List.append_assoc, ha _ hmark, List.append_assoc, kinds_blanks hblanks, kinds_alone hclosing,
    List.map_cons, List.map_append, List.cons_append, List.append_assoc]
  rfl

/-! ## Words -/

/-- Names that are no keywords. -/
def IsName (x : String) : Prop :=
  x.toList ∈ Rule.name.language ∧ ∀ k : Keyword, x ≠ k.spelling

theorem first_word {c : Char} {cs : List Char} (h : c :: cs ∈ Rule.name.language) :
    first c cs = ⟨.token (wordToken (c :: cs)), c, cs⟩ := by
  obtain ⟨c', cs', heq, hc, hcs⟩ := mem_oneOf_mul_kstar.mp h
  cases heq
  have hblank : ¬ isBlank c := fun hb => (Rule.blank_plain (isBlank_iff.mp hb)).1 hc
  have hrun : cs.takeWhile isNameChar = cs :=
    List.takeWhile_eq_self_iff.mpr fun d hd => isNameChar_iff.mpr (hcs d hd)
  rw [first, if_neg hblank, if_pos (isNameStart_iff.mpr hc), hrun]

theorem spells_word {word : List Char} (h : word ∈ Rule.name.language) :
    Spells word [wordToken word] := by
  obtain ⟨c, cs, rfl, _⟩ := Rule.exists_opens h
  exact spells_of_first (first_word h)

theorem spells_name {x : String} (h : IsName x) : Spells x.toList [.name x] := by
  have hnone : Keyword.ofSpelling? (String.ofList x.toList) = none := by
    rw [String.ofList_toList]
    exact List.find?_eq_none.mpr fun k _ hk => h.2 k (eq_of_beq hk).symm
  have htoken : wordToken x.toList = .name x := by
    rw [wordToken, hnone, String.ofList_toList]
  rw [← htoken]
  exact spells_word h.1

theorem spells_keyword (k : Keyword) : Spells k.spelling.toList [.keyword k] := by
  have htoken : wordToken k.spelling.toList = .keyword k := by
    rw [wordToken, String.ofList_toList, Keyword.ofSpelling?_spelling]
  rw [← htoken]
  exact spells_word (Rule.keyword_le_name k)

/-! ## Numerals -/

theorem spells_magnitude {n : Nat} (h : Representable n) :
    Spells (Binary64.magnitudeText n) [.number (.finite false n h)] := by
  obtain ⟨c, cs, htext, hc, hpiece⟩ := Binary64.numberPiece_magnitudeText h
  have hdigit := isDigit_iff.mp hc
  have hblank : ¬ isBlank c := fun hb => (Rule.blank_plain (isBlank_iff.mp hb)).2.1 hdigit
  have hletter : ¬ isNameStart c := fun hl => Rule.letter_ne_digit (isNameStart_iff.mp hl) hdigit
  rw [htext]
  refine spells_of_first ?_
  rw [first, if_neg hblank, if_neg hletter, if_pos hc, hpiece]

end Piece

end Scriptlet
