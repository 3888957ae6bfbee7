import Scriptlet.Proofs.Source.Rules

/-!
# The scanner follows its rules

The first piece of a text is the longest word that a rule matches there, and made by the rule that
wins; where no rule matches it is one character, or all that an open quote covers
(`Piece.first_scans`).  There is a case for each class of first characters; in each of them few
rules can match, and their words are bounded by what the scanner takes.

A quoted text is read deterministically: the only word of the rule at the front of a text is the one
that `Piece.readQuoted` closes (`Piece.readQuoted_complete`).
-/

namespace Scriptlet

open Computability

/-! ## Runs of characters -/

/-- A front part of one class is no longer than what the scanner takes of the class. -/
theorem length_le_takeWhile {p : Char → Bool} {cs t : List Char} (ht : t <+: cs)
    (hp : ∀ c ∈ t, p c) : t.length ≤ (cs.takeWhile p).length := by
  obtain ⟨r, rfl⟩ := ht
  rw [List.takeWhile_append_of_pos hp, List.length_append]
  exact Nat.le_add_right _ _

theorem forall_mem_takeWhile {p : Char → Bool} {cs : List Char} : ∀ c ∈ cs.takeWhile p, p c :=
  List.all_eq_true.mp List.all_takeWhile

/-- A front part of one class with a character of another class behind it is all that the scanner
takes of the class. -/
theorem takeWhile_eq_of_front {p : Char → Bool} {cs t r : List Char} {c : Char}
    (h : t ++ c :: r <+: cs) (ht : ∀ d ∈ t, p d) (hc : ¬ p c) :
    cs.takeWhile p = t ∧ c :: r <+: cs.dropWhile p := by
  obtain ⟨u, rfl⟩ := h
  rw [List.append_assoc, List.takeWhile_append_of_pos ht, List.dropWhile_append_of_pos ht,
    List.cons_append, List.takeWhile_cons_of_neg hc, List.dropWhile_cons_of_neg hc,
    List.append_nil]
  exact ⟨rfl, u, rfl⟩

/-! ## Spellings -/

theorem Keyword.spelling_of_ofSpelling? {word : String} {k : Keyword}
    (h : Keyword.ofSpelling? word = some k) : k.spelling = word := by
  simpa using List.find?_some h

theorem Symbol.spelling_of_ofSpelling? {cs : List Char} {s : Symbol}
    (h : Symbol.ofSpelling? cs = some s) : s.spelling = cs := by
  simpa using List.find?_some h

theorem Symbol.length_spelling_le (s : Symbol) : s.spelling.length ≤ 2 := by
  cases s <;> decide

/-- A symbol at the front of a text is spelt by its first character or by the first two. -/
theorem Symbol.spelling_front {s : Symbol} {c : Char} {cs : List Char}
    (h : s.spelling <+: c :: cs) : s.spelling = [c] ∨ s.spelling = c :: cs.take 1 := by
  have hpos : 0 < s.spelling.length := by cases s <;> decide
  have htwo := s.length_spelling_le
  have htake := List.prefix_iff_eq_take.mp h
  have hcases : s.spelling.length = 1 ∨ s.spelling.length = 2 := by omega
  rcases hcases with hlength | hlength
  · rw [hlength] at htake
    exact Or.inl htake
  · rw [hlength] at htake
    exact Or.inr htake

/-! ## Quoted texts -/

theorem mem_quotable_kstar {q : Char} {w : List Char} :
    w ∈ (quotable q)∗ ↔ w = [] ∨
      (∃ c t, c ≠ q ∧ c ≠ '\\' ∧ t ∈ (quotable q)∗ ∧ w = c :: t) ∨
      ∃ c t, c ≠ '\n' ∧ t ∈ (quotable q)∗ ∧ w = '\\' :: c :: t := by
  conv_lhs => rw [← Language.one_add_self_mul_kstar_eq_kstar]
  rw [Language.mem_add, Language.mem_one, Language.mem_mul]
  refine or_congr Iff.rfl ?_
  constructor
  · rintro ⟨u, hu, t, ht, rfl⟩
    rcases (Language.mem_add _ _ _).mp hu with ⟨c, hc, rfl⟩ | hu
    · exact Or.inl ⟨c, t, hc.1, hc.2, ht, rfl⟩
    · obtain ⟨_, ⟨c, hc, rfl⟩, rfl⟩ := mem_singleton_mul.mp hu
      exact Or.inr ⟨c, t, hc, ht, rfl⟩
  · rintro (⟨c, t, hq, hb, ht, rfl⟩ | ⟨c, t, hc, ht, rfl⟩)
    · exact ⟨[c], (Language.mem_add _ _ _).mpr (Or.inl ⟨c, ⟨hq, hb⟩, rfl⟩), t, ht, rfl⟩
    · have hpair : ['\\', c] ∈ ({['\\']} : Language Char) * oneOf (· ≠ '\n') :=
        mem_singleton_mul.mpr ⟨[c], ⟨c, hc, rfl⟩, rfl⟩
      exact ⟨['\\', c], (Language.mem_add _ _ _).mpr (Or.inr hpair), t, ht, rfl⟩

namespace Piece

theorem readQuoted_sound {q : Char} {cs : List Char} (h : (readQuoted q cs).closed) :
    (readQuoted q cs).body ∈ (quotable q)∗ := by
  fun_induction readQuoted q cs with
  | case1 => cases h
  | case2 => exact Language.nil_mem_kstar _
  | case3 => cases h
  | case4 => exact Language.nil_mem_kstar _
  | case5 => cases h
  | case6 d r hd _ ih => exact mem_quotable_kstar.mpr (Or.inr (Or.inr ⟨d, _, hd, ih h, rfl⟩))
  | case7 c d r hc hb ih =>
    exact mem_quotable_kstar.mpr (Or.inr (Or.inl ⟨c, _, hc, hb, ih h, rfl⟩))

/-- Nothing but what is read can stand between the quotes. -/
theorem readQuoted_complete {q : Char} {cs body : List Char} (hq : q ≠ '\\')
    (hbody : body ∈ (quotable q)∗) (hfront : body ++ [q] <+: cs) :
    (readQuoted q cs).closed ∧ (readQuoted q cs).body = body := by
  fun_induction readQuoted q cs generalizing body with
  | case1 => simp at hfront
  | case2 =>
    rcases mem_quotable_kstar.mp hbody with rfl | ⟨c, t, hc, _, _, rfl⟩ | ⟨c, t, _, _, rfl⟩
    · exact ⟨rfl, rfl⟩
    · simp at hfront
    · simp at hfront
  | case3 c hc =>
    cases body with
    | nil => exact absurd (List.cons_prefix_cons.mp hfront).1.symm hc
    | cons d t => simp at hfront
  | case4 d r =>
    rcases mem_quotable_kstar.mp hbody with rfl | ⟨c, t, hc, _, _, rfl⟩ | ⟨c, t, _, _, rfl⟩
    · exact ⟨rfl, rfl⟩
    · exact absurd (List.cons_prefix_cons.mp hfront).1 hc
    · exact absurd (List.cons_prefix_cons.mp hfront).1.symm hq
  | case5 r _ =>
    rcases mem_quotable_kstar.mp hbody with rfl | ⟨c, t, _, hb, _, rfl⟩ | ⟨c, t, hc, _, rfl⟩
    · exact absurd (List.cons_prefix_cons.mp hfront).1 hq
    · exact absurd (List.cons_prefix_cons.mp hfront).1 hb
    · exact absurd (List.cons_prefix_cons.mp (List.cons_prefix_cons.mp hfront).2).1 hc
  | case6 d r hd _ ih =>
    rcases mem_quotable_kstar.mp hbody with rfl | ⟨c, t, _, hb, _, rfl⟩ | ⟨c, t, hc, ht, rfl⟩
    · exact absurd (List.cons_prefix_cons.mp hfront).1 hq
    · exact absurd (List.cons_prefix_cons.mp hfront).1 hb
    · obtain ⟨rfl, hrest⟩ := List.cons_prefix_cons.mp (List.cons_prefix_cons.mp hfront).2
      obtain ⟨hclosed, hread⟩ := ih ht hrest
      exact ⟨hclosed, by rw [Quoted.after, hread]; rfl⟩
  | case7 c d r hc hb ih =>
    rcases mem_quotable_kstar.mp hbody with rfl | ⟨e, t, _, _, ht, rfl⟩ | ⟨e, t, _, _, rfl⟩
    · exact absurd (List.cons_prefix_cons.mp hfront).1.symm hc
    · obtain ⟨rfl, hrest⟩ := List.cons_prefix_cons.mp hfront
      obtain ⟨hclosed, hread⟩ := ih ht hrest
      exact ⟨hclosed, by rw [Quoted.after, hread]; rfl⟩
    · exact absurd (List.cons_prefix_cons.mp hfront).1.symm hb

/-- An open quote covers all up to an escape that a line feed cuts off, or else to the end. -/
theorem readQuoted_openEnd {q : Char} {cs : List Char} (h : ¬ (readQuoted q cs).closed) :
    OpenEnd q cs (readQuoted q cs).body := by
  fun_induction readQuoted q cs with
  | case1 =>
    refine Or.inr ⟨rfl, fun front _ hfront => ?_⟩
    simp at hfront
  | case2 => exact absurd rfl h
  | case3 c _ =>
    refine Or.inr ⟨rfl, fun front _ hfront => ?_⟩
    have := hfront.length_le
    simp at this
  | case4 => exact absurd rfl h
  | case5 r _ =>
    exact Or.inl ⟨[], Language.nil_mem_kstar _, ⟨r, rfl⟩, rfl⟩
  | case6 d r hd _ ih =>
    rcases ih h with ⟨front, hfront, hcut, hbody⟩ | ⟨hbody, hnone⟩
    · refine Or.inl ⟨'\\' :: d :: front, ?_, ?_, ?_⟩
      · exact mem_quotable_kstar.mpr (Or.inr (Or.inr ⟨d, front, hd, hfront, rfl⟩))
      · exact List.cons_prefix_cons.mpr ⟨rfl, List.cons_prefix_cons.mpr ⟨rfl, hcut⟩⟩
      · rw [Quoted.after, hbody]
        rfl
    · refine Or.inr ⟨by rw [Quoted.after, hbody]; rfl, fun front hfront hcut => ?_⟩
      rcases mem_quotable_kstar.mp hfront with rfl | ⟨c, t, _, hb, _, rfl⟩ | ⟨c, t, _, ht, rfl⟩
      · exact hd (List.cons_prefix_cons.mp (List.cons_prefix_cons.mp hcut).2).1.symm
      · exact hb (List.cons_prefix_cons.mp hcut).1
      · exact hnone t ht (List.cons_prefix_cons.mp (List.cons_prefix_cons.mp hcut).2).2
  | case7 c d r hc hb ih =>
    rcases ih h with ⟨front, hfront, hcut, hbody⟩ | ⟨hbody, hnone⟩
    · refine Or.inl ⟨c :: front, ?_, List.cons_prefix_cons.mpr ⟨rfl, hcut⟩, ?_⟩
      · exact mem_quotable_kstar.mpr (Or.inr (Or.inl ⟨c, front, hc, hb, hfront, rfl⟩))
      · rw [Quoted.after, hbody]
        rfl
    · refine Or.inr ⟨by rw [Quoted.after, hbody]; rfl, fun front hfront hcut => ?_⟩
      rcases mem_quotable_kstar.mp hfront with rfl | ⟨e, t, _, _, ht, rfl⟩ | ⟨e, t, _, _, rfl⟩
      · exact hb (List.cons_prefix_cons.mp hcut).1.symm
      · exact hnone t ht (List.cons_prefix_cons.mp hcut).2
      · exact hb (List.cons_prefix_cons.mp hcut).1.symm

/-! ## The first piece -/

theorem first_blank {c : Char} {cs : List Char} (hc : IsBlank c) :
    Scans (c :: cs) ⟨.skipped, c, cs.takeWhile isBlank⟩ := by
  have hword : c :: cs.takeWhile isBlank ∈ Rule.blanks.language := by
    refine mem_oneOf_mul_kstar.mpr ⟨c, _, rfl, hc, fun d hd => ?_⟩
    exact isBlank_iff.mp (forall_mem_takeWhile d hd)
  refine .matched .blanks ⟨?_, ⟨_, hword⟩, ?_⟩ ⟨hword, ?_⟩ (.blanks _)
  · exact List.cons_prefix_cons.mpr ⟨rfl, List.takeWhile_prefix _⟩
  · intro rule w hw hfront
    obtain ⟨hopens, t, rfl, ht⟩ := Rule.opens_of_front hw hfront
    obtain rfl := Rule.opens_of_blank hc hopens
    obtain ⟨d, ds, he, _, hds⟩ := mem_oneOf_mul_kstar.mp hw
    cases he
    exact Nat.succ_le_succ (length_le_takeWhile ht fun d hd => isBlank_iff.mpr (hds d hd))
  · intro k hk
    exact absurd (Rule.opens_of_blank hc (Rule.opens_of_front hk List.prefix_rfl).1) nofun

theorem wordToken_makes {word : List Char} (hword : word ∈ Rule.name.language) :
    ∃ rule : Rule, rule.Wins word ∧ rule.Makes word (.token (wordToken word)) := by
  rw [wordToken]
  cases h : Keyword.ofSpelling? (String.ofList word) with
  | some k =>
    have hk : k.spelling.toList = word := by
      rw [Keyword.spelling_of_ofSpelling? h, String.toList_ofList]
    refine ⟨.keyword k, ⟨hk.symm, fun k' hk' => ?_⟩, .keyword k word⟩
    have hspelling : k.spelling = k'.spelling := String.toList_inj.mp (hk.trans hk')
    have hsame := Keyword.ofSpelling?_spelling k
    rw [hspelling, Keyword.ofSpelling?_spelling] at hsame
    cases hsame
    rfl
  | none =>
    refine ⟨.name, ⟨hword, fun k hk => ?_⟩, .name word⟩
    have hsome := Keyword.ofSpelling?_spelling k
    rw [show k.spelling = String.ofList word from String.toList_inj.mp (by simpa using hk.symm),
      h] at hsome
    cases hsome

theorem first_letter {c : Char} {cs : List Char} (hc : IsLetter c) :
    Scans (c :: cs)
      ⟨.token (wordToken (c :: cs.takeWhile isNameChar)), c, cs.takeWhile isNameChar⟩ := by
  have hword : c :: cs.takeWhile isNameChar ∈ Rule.name.language := by
    refine mem_oneOf_mul_kstar.mpr ⟨c, _, rfl, hc, fun d hd => ?_⟩
    exact isNameChar_iff.mp (forall_mem_takeWhile d hd)
  obtain ⟨rule, hwins, hmakes⟩ := wordToken_makes hword
  refine .matched rule ⟨?_, ⟨_, hword⟩, ?_⟩ hwins hmakes
  · exact List.cons_prefix_cons.mpr ⟨rfl, List.takeWhile_prefix _⟩
  · intro rule w hw hfront
    have hname : w ∈ Rule.name.language := by
      rcases Rule.opens_of_letter hc (Rule.opens_of_front hw hfront).1 with rfl | ⟨k, rfl⟩
      · exact hw
      · cases hw
        exact Rule.keyword_le_name k
    obtain ⟨_, t, rfl, ht⟩ := Rule.opens_of_front hname hfront
    obtain ⟨d, ds, he, _, hds⟩ := mem_oneOf_mul_kstar.mp hname
    cases he
    exact Nat.succ_le_succ (length_le_takeWhile ht fun d hd => isNameChar_iff.mpr (hds d hd))

/-! ### Numbers -/

theorem fraction_eq_nil_or (cs : List Char) :
    fraction cs = [] ∨ ∃ e es, fraction cs = '.' :: e :: es ∧ IsDigit e ∧ ∀ c ∈ es, IsDigit c := by
  fun_cases fraction cs with
  | case1 => exact Or.inl rfl
  | case2 cs h =>
    have hdigits : ∀ c ∈ cs.takeWhile Char.isDigit, IsDigit c :=
      fun c hc => isDigit_iff.mp (forall_mem_takeWhile c hc)
    cases hrun : cs.takeWhile Char.isDigit with
    | nil => simp [hrun] at h
    | cons e es =>
      rw [hrun] at hdigits
      exact Or.inr ⟨e, es, rfl, hdigits e List.mem_cons_self,
        fun c hc => hdigits c (List.mem_cons_of_mem _ hc)⟩
  | case3 => exact Or.inl rfl

theorem length_le_fraction {cs es : List Char} {e : Char} (h : '.' :: e :: es <+: cs)
    (hdigits : ∀ c ∈ e :: es, IsDigit c) : ('.' :: e :: es).length ≤ (fraction cs).length := by
  obtain ⟨r, rfl⟩ := h
  have hrun : ∀ c ∈ e :: es, c.isDigit := fun c hc => isDigit_iff.mpr (hdigits c hc)
  rw [List.cons_append, fraction, List.takeWhile_append_of_pos hrun]
  simp only [List.cons_append, List.isEmpty_cons, Bool.false_eq_true, if_false, List.length_cons,
    List.length_append]
  omega

theorem first_digit {c : Char} {cs : List Char} (hc : IsDigit c) :
    Scans (c :: cs) (numberPiece c cs) := by
  have hwhole : ∀ d ∈ cs.takeWhile Char.isDigit, IsDigit d :=
    fun d hd => isDigit_iff.mp (forall_mem_takeWhile d hd)
  have hdigits : ∀ d ∈ c :: cs.takeWhile Char.isDigit, IsDigit d :=
    List.forall_mem_cons.mpr ⟨hc, hwhole⟩
  have hword : (numberPiece c cs).text ∈ Rule.number.language ∧
      Rule.number.Makes (numberPiece c cs).text (numberPiece c cs).kind := by
    simp only [text, numberPiece]
    rcases fraction_eq_nil_or (cs.dropWhile Char.isDigit) with h | ⟨e, es, h, he, hes⟩
    · rw [h, List.append_nil]
      exact ⟨Rule.mem_number.mpr ⟨c, _, hc, hwhole, Or.inl rfl⟩,
        .whole hdigits (Decimal.toBinary64_roundsTo _)⟩
    · rw [h, ← List.cons_append]
      exact ⟨Rule.mem_number.mpr ⟨c, _, hc, hwhole, Or.inr ⟨e, es, he, hes, rfl⟩⟩,
        .fraction hdigits (Decimal.toBinary64_roundsTo _)⟩
  refine .matched .number ⟨?_, ⟨_, hword.1⟩, ?_⟩ ⟨hword.1, ?_⟩ hword.2
  · exact List.cons_prefix_cons.mpr ⟨rfl, numberPiece_tail_isPrefix c cs⟩
  · intro rule w hw hfront
    obtain rfl := Rule.opens_of_digit hc (Rule.opens_of_front hw hfront).1
    rcases Rule.mem_number.mp hw with ⟨d, ds, _, hds, rfl | ⟨e, es, he, hes, rfl⟩⟩
    · have hle := length_le_takeWhile (p := Char.isDigit) (List.cons_prefix_cons.mp hfront).2
        fun c hc => isDigit_iff.mpr (hds c hc)
      simp only [text, numberPiece, List.length_cons, List.length_append]
      omega
    · -- The digits before the point are all there are, so the point is where the scanner looks.
      obtain ⟨hrun, hpart⟩ := takeWhile_eq_of_front (p := Char.isDigit)
        (List.cons_prefix_cons.mp hfront).2 (fun c hc => isDigit_iff.mpr (hds c hc)) (by decide)
      have hle := length_le_fraction hpart (List.forall_mem_cons.mpr ⟨he, hes⟩)
      simp only [text, numberPiece, hrun, List.length_cons, List.length_append] at hle ⊢
      omega
  · intro k hk
    cases Rule.opens_of_digit hc (Rule.opens_of_front hk List.prefix_rfl).1

/-! ### Quotes -/

theorem mem_text_of_quote {q : Char} {w : List Char} (hq : IsQuote q) (hw : w ∈ quoted q) :
    w ∈ Rule.text.language := by
  rcases hq with rfl | rfl
  · exact (Language.mem_add _ _ _).mpr (Or.inl hw)
  · exact (Language.mem_add _ _ _).mpr (Or.inr hw)

theorem quoted_of_mem_text {q : Char} {w cs : List Char} (hq : IsQuote q) {rule : Rule}
    (hw : w ∈ rule.language) (hfront : w <+: q :: cs) :
    ∃ body ∈ (quotable q)∗, w = q :: (body ++ [q]) := by
  obtain rfl := Rule.opens_of_quote hq (Rule.opens_of_front hw hfront).1
  rcases (Language.mem_add _ _ _).mp hw with hw | hw
  · obtain ⟨body, hbody, rfl⟩ := mem_quoted.mp hw
    obtain ⟨rfl, _⟩ := List.cons_prefix_cons.mp hfront
    exact ⟨body, hbody, rfl⟩
  · obtain ⟨body, hbody, rfl⟩ := mem_quoted.mp hw
    obtain ⟨rfl, _⟩ := List.cons_prefix_cons.mp hfront
    exact ⟨body, hbody, rfl⟩

theorem first_quote {q : Char} {cs : List Char} (hq : IsQuote q) :
    Scans (q :: cs) (quotedPiece q cs) := by
  have hbackslash : q ≠ '\\' := by
    rcases hq with rfl | rfl <;> decide
  -- A word of a rule at this place is the one that is read.
  have hread : ∀ (rule : Rule) (w : List Char), w ∈ rule.language → w <+: q :: cs →
      (readQuoted q cs).closed ∧ w = q :: ((readQuoted q cs).body ++ [q]) := by
    intro rule w hw hfront
    obtain ⟨body, hbody, rfl⟩ := quoted_of_mem_text hq hw hfront
    obtain ⟨hclosed, hsame⟩ :=
      readQuoted_complete hbackslash hbody (List.cons_prefix_cons.mp hfront).2
    exact ⟨hclosed, by rw [hsame]⟩
  have hcovered := readQuoted_isPrefix q cs
  rw [quotedPiece]
  by_cases hclosed : (readQuoted q cs).closed
  · simp only [Quoted.covered, hclosed, if_true] at hcovered ⊢
    have hinside := readQuoted_sound hclosed
    have hword : q :: ((readQuoted q cs).body ++ [q]) ∈ Rule.text.language :=
      mem_text_of_quote hq (mem_quoted.mpr ⟨_, hinside, rfl⟩)
    refine .matched .text ⟨?_, ⟨_, hword⟩, ?_⟩ ⟨hword, ?_⟩ (.text hq hinside)
    · exact List.cons_prefix_cons.mpr ⟨rfl, hcovered⟩
    · intro rule w hw hfront
      rw [(hread rule w hw hfront).2]
      exact Nat.le_refl _
    · intro k hk
      cases Rule.opens_of_quote hq (Rule.opens_of_front hk List.prefix_rfl).1
  · simp only [Quoted.covered, hclosed, if_false, Bool.false_eq_true]
    exact .unterminated rfl hq (fun rule w hw hfront => hclosed (hread rule w hw hfront).1)
      (readQuoted_openEnd hclosed)

/-! ### Comments and symbols -/

theorem first_comment {cs : List Char} :
    Scans ('/' :: '/' :: cs) ⟨.skipped, '/', ('/' :: cs).takeWhile (· != '\n')⟩ := by
  have htail : ('/' :: cs).takeWhile (· != '\n') = '/' :: cs.takeWhile (· != '\n') :=
    List.takeWhile_cons_of_pos (by decide)
  have hword : '/' :: '/' :: cs.takeWhile (· != '\n') ∈ Rule.comment.language := by
    refine mem_singleton_mul.mpr ⟨_, mem_oneOf_kstar.mpr fun c hc => ?_, rfl⟩
    simpa using forall_mem_takeWhile c hc
  rw [htail]
  refine .matched .comment ⟨?_, ⟨_, hword⟩, ?_⟩ ⟨hword, ?_⟩ (.comment _)
  · refine List.cons_prefix_cons.mpr ⟨rfl, List.cons_prefix_cons.mpr ⟨rfl, ?_⟩⟩
    exact List.takeWhile_prefix _
  · intro rule w hw hfront
    have hopens := (Rule.opens_of_front hw hfront).1
    rcases Rule.opens_of_other (by decide) (by decide) (by decide) (by decide) hopens with
      rfl | ⟨s, rfl⟩
    · obtain ⟨t, ht, rfl⟩ := mem_singleton_mul.mp hw
      have hrest : t <+: cs := (List.cons_prefix_cons.mp (List.cons_prefix_cons.mp hfront).2).2
      have hle := length_le_takeWhile (p := (· != '\n')) hrest fun c hc => by
        simpa using mem_oneOf_kstar.mp ht c hc
      simp only [text, List.cons_append, List.nil_append, List.length_cons] at hle ⊢
      omega
    · cases hw
      have hlength := Symbol.length_spelling_le s
      simp only [text, List.length_cons] at hlength ⊢
      omega
  · intro k hk
    have hopens := (Rule.opens_of_front hk List.prefix_rfl).1
    exact absurd hopens (by simp [Rule.Opens]; decide)

theorem first_symbol {c : Char} {cs : List Char} (hb : ¬ IsBlank c) (hl : ¬ IsLetter c)
    (hd : ¬ IsDigit c) (hq : ¬ IsQuote c) (hcomment : ¬ (c = '/' ∧ cs.head? = some '/')) :
    Scans (c :: cs) (symbolPiece c cs) := by
  -- Only symbols can match here.
  have hsymbol : ∀ (rule : Rule) (w : List Char), w ∈ rule.language → w <+: c :: cs →
      ∃ s : Symbol, rule = .symbol s ∧ w = s.spelling := by
    intro rule w hw hfront
    rcases Rule.opens_of_other hb hl hd hq (Rule.opens_of_front hw hfront).1 with rfl | ⟨s, rfl⟩
    · obtain ⟨t, _, rfl⟩ := mem_singleton_mul.mp hw
      obtain ⟨rfl, hrest⟩ := List.cons_prefix_cons.mp hfront
      obtain ⟨r, rfl⟩ := hrest
      exact absurd ⟨rfl, rfl⟩ hcomment
    · exact ⟨s, rfl, hw⟩
  have hkeyword : ∀ {w : List Char} (k : Keyword), w <+: c :: cs →
      w ∉ (Rule.keyword k).language := by
    intro w k hfront hw
    obtain ⟨s, hs, _⟩ := hsymbol _ w hw hfront
    cases hs
  fun_cases symbolPiece c cs with
  | case1 s hs =>
    have hspelling := Symbol.spelling_of_ofSpelling? hs
    have hword : c :: cs.take 1 ∈ (Rule.symbol s).language := hspelling.symm
    have hfront : c :: cs.take 1 <+: c :: cs :=
      List.cons_prefix_cons.mpr ⟨rfl, List.take_prefix 1 cs⟩
    refine .matched (.symbol s) ⟨hfront, ⟨_, hword⟩, ?_⟩ ⟨hword, ?_⟩ (.symbol s _)
    · intro rule w hw hfront
      obtain ⟨s', _, rfl⟩ := hsymbol rule w hw hfront
      have htwo := Symbol.length_spelling_le s'
      have hle := hfront.length_le
      simp only [text, List.length_cons, List.length_take] at hle ⊢
      omega
    · intro k hk
      exact absurd hk (hkeyword k hfront)
  | case2 s hs hnone =>
    have hspelling := Symbol.spelling_of_ofSpelling? hs
    have hword : [c] ∈ (Rule.symbol s).language := hspelling.symm
    have hfront : [c] <+: c :: cs := ⟨cs, rfl⟩
    refine .matched (.symbol s) ⟨hfront, ⟨_, hword⟩, ?_⟩ ⟨hword, ?_⟩ (.symbol s _)
    · intro rule w hw hfront
      obtain ⟨s', _, rfl⟩ := hsymbol rule w hw hfront
      rcases Symbol.spelling_front hfront with h | h
      · exact Nat.le_of_eq (congrArg List.length h)
      · have hsome := Symbol.ofSpelling?_spelling s'
        rw [h, hnone] at hsome
        cases hsome
    · intro k hk
      exact absurd hk (hkeyword k hfront)
  | case3 hone htwo =>
    refine .unexpected ⟨cs, rfl⟩ hq fun rule w hw hfront => ?_
    obtain ⟨s', _, rfl⟩ := hsymbol rule w hw hfront
    have hsome := Symbol.ofSpelling?_spelling s'
    rcases Symbol.spelling_front hfront with h | h
    · rw [h, hone] at hsome
      cases hsome
    · rw [h, htwo] at hsome
      cases hsome

/-- **The first piece of a text is the one that the rules ask for.** -/
theorem first_scans (c : Char) (cs : List Char) : Scans (c :: cs) (first c cs) := by
  rw [first]
  split
  · next hb => exact first_blank (isBlank_iff.mp hb)
  · next hb =>
    split
    · next hl => exact first_letter (isNameStart_iff.mp hl)
    · next hl =>
      split
      · next hd => exact first_digit (isDigit_iff.mp hd)
      · next hd =>
        split
        · next hq => exact first_quote (isQuote_iff.mp hq)
        · next hq =>
          split
          · next hcomment =>
            obtain ⟨rfl, hhead⟩ := hcomment
            obtain ⟨cs, rfl⟩ := List.head?_eq_some_iff.mp hhead
            exact first_comment
          · next hcomment =>
            exact first_symbol (mt isBlank_iff.mpr hb) (mt isNameStart_iff.mpr hl)
              (mt isDigit_iff.mpr hd) (mt isQuote_iff.mpr hq) hcomment

end Piece

end Scriptlet
