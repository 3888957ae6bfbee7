import Scriptlet.Proofs.Source.Positions
import Scriptlet.Proofs.Syntax.Viable

/-!
# Reading a program moves on and loses nothing

A program is read in rounds.  A round takes a statement, or it takes the front of a faulty statement
and skips to where reading resumes; `Rounds ts segments` says which tokens each round covers.  The
rounds of `parseProgram` cover the tokens up to the end of input without gap or overlap, and each of
them covers at least one token (`parseProgram_rounds`, `Rounds.flatMap_tokens`,
`Rounds.tokens_ne_nil`).

The token at fault may be left for the next round, but only in front of a keyword that starts a
statement, and a statement takes such a keyword.  So the next fault is further on
(`Rounds.offences_increase`).

* `parseProgram_moves_on`: the rounds of a program, and where its errors stand.
-/

namespace Scriptlet

open ParseState

/-- What one round covers: a statement, or the front of a faulty one and what is skipped after
it. -/
inductive Segment where
  | statement (s : Statement) (taken : List Located)
  | mistake (e : SyntaxError) (taken skipped : List Located)

namespace Segment

def tokens : Segment → List Located
  | .statement _ taken => taken
  | .mistake _ taken skipped => taken ++ skipped

def statement? : Segment → Option Statement
  | .statement s _ => some s
  | .mistake .. => none

def error? : Segment → Option SyntaxError
  | .statement .. => none
  | .mistake e .. => some e

end Segment

/-- The rounds in which tokens are read, up to the end of input. -/
inductive Rounds : List Located → List Segment → Prop where
  | ended {ts : List Located} : peek ts = .endOfInput → Rounds ts []
  | statement {s : Statement} {taken rest : List Located} {segments : List Segment} :
      peek (taken ++ rest) ≠ .endOfInput →
      Goal.statement.parse (taken ++ rest) = .parsed s rest →
      Rounds rest segments → Rounds (taken ++ rest) (.statement s taken :: segments)
  | mistake {e : SyntaxError} {taken skipped rest : List Located} {segments : List Segment} :
      peek (taken ++ (skipped ++ rest)) ≠ .endOfInput →
      Goal.statement.parse (taken ++ (skipped ++ rest)) = .failed e (skipped ++ rest) →
      synchronize (openBraces taken) (!taken.isEmpty) (skipped ++ rest) = rest →
      Rounds rest segments →
      Rounds (taken ++ (skipped ++ rest)) (.mistake e taken skipped :: segments)

/-! ## Skipping -/

/-- What is skipped is no end of input. -/
theorem synchronize_skips (depth : Nat) (skipped : Bool) (ts : List Located) :
    ∃ passed, ts = passed ++ synchronize depth skipped ts ∧
      ∀ t ∈ passed, t.token ≠ .endOfInput := by
  fun_induction synchronize depth skipped ts with
  | case1 => exact ⟨[], rfl, List.forall_mem_nil _⟩
  | case2 => exact ⟨[], rfl, List.forall_mem_nil _⟩
  | case4 depth skipped t rest ht hdepth =>
    rw [skipSemicolon.eq_def]
    split
    · exact ⟨[t], rfl, by simp [ht]⟩
    · next u rest =>
      split
      · next hu => exact ⟨[t, u], rfl, by simp [ht, hu]⟩
      · exact ⟨[t], rfl, by simp [ht]⟩
  | case6 skipped t rest ht => exact ⟨[t], rfl, by simp [ht]⟩
  | case8 => exact ⟨[], rfl, List.forall_mem_nil _⟩
  | case3 | case5 | case7 | case9 | case10 =>
    rename_i ih
    obtain ⟨passed, hsplit, hpassed⟩ := ih
    refine ⟨_ :: passed, congrArg _ hsplit, List.forall_mem_cons.mpr ⟨?_, hpassed⟩⟩
    simp_all

/-- Reading resumes at the token at fault only if a statement starts with it, or at the end. -/
theorem peek_of_synchronize_eq {depth : Nat} {skipped : Bool} {ts : List Located}
    (h : synchronize depth skipped ts = ts) :
    peek ts = .endOfInput ∨ ∃ k : Keyword, peek ts = .keyword k ∧ k.startsStatement := by
  have hshorter : ∀ {t : Located} {rest : List Located} (d : Nat) (b : Bool),
      synchronize d b rest ≠ t :: rest := by
    intro t rest d b heq
    have hle := length_synchronize_le d b rest
    rw [heq, List.length_cons] at hle
    omega
  cases ts with
  | nil => exact Or.inl rfl
  | cons t rest =>
    rw [synchronize] at h
    split at h
    · next ht => exact Or.inl ht
    · exact absurd h (hshorter _ _)
    · split at h
      · have hle := length_skipSemicolon_le rest
        rw [h, List.length_cons] at hle
        omega
      · exact absurd h (hshorter _ _)
    · split at h
      · exact absurd h (List.ne_cons_self)
      · exact absurd h (hshorter _ _)
    · next k ht =>
      split at h
      · next hk =>
        simp only [Bool.and_eq_true] at hk
        exact Or.inr ⟨k, ht, hk.1.1⟩
      · exact absurd h (hshorter _ _)
    · exact absurd h (hshorter _ _)

theorem statement_step_keyword {k : Keyword} (hk : k.startsStatement) :
    ∃ b, (ParseState.statement .goal).step (.keyword k) = .shift b := by
  cases k <;> first | exact ⟨_, rfl⟩ | cases hk

/-! ## The rounds of a program -/

theorem resume_eq {taken rest : List Located} :
    resume (taken ++ rest) rest = synchronize (openBraces taken) (!taken.isEmpty) rest := by
  have htake : (taken ++ rest).take ((taken ++ rest).length - rest.length) = taken := by
    rw [List.length_append, Nat.add_sub_cancel, List.take_left]
  rw [resume, htake]

/-- **A program is read in rounds**, one for each statement and each error. -/
theorem parseProgram_rounds (ts : List Located) :
    ∃ segments, Rounds ts segments ∧
      (parseProgram ts).statements = segments.filterMap Segment.statement? ∧
      (parseProgram ts).errors = segments.filterMap Segment.error? := by
  fun_induction parseProgram ts with
  | case1 => exact ⟨[], .ended rfl, rfl, rfl⟩
  | case2 t ts hend => exact ⟨[], .ended hend, rfl, rfl⟩
  | case3 t ts hend s rest hparse ih =>
    obtain ⟨segments, hrounds, hstatements, herrors⟩ := ih
    obtain ⟨taken, b, hsplit, _⟩ := run_parsed_takes hparse
    refine ⟨.statement s taken :: segments, ?_, ?_, herrors⟩
    · rw [hsplit] at hparse ⊢
      exact .statement (hsplit ▸ hend) hparse hrounds
    · rw [Parsed.withStatement, hstatements]
      rfl
  | case4 t ts hend e rest hparse ih =>
    obtain ⟨segments, hrounds, hstatements, herrors⟩ := ih
    obtain ⟨taken, b, hsplit, _⟩ := run_failed_takes hparse
    rw [hsplit, resume_eq] at hrounds hstatements herrors ⊢
    obtain ⟨passed, hpassed, _⟩ :=
      synchronize_skips (openBraces taken) (!taken.isEmpty) rest
    refine ⟨.mistake e taken passed :: segments, ?_, hstatements, ?_⟩
    · generalize hsync : synchronize (openBraces taken) (!taken.isEmpty) rest = after at *
      subst hpassed
      exact .mistake (hsplit ▸ hend) (hsplit ▸ hparse) hsync hrounds
    · rw [Parsed.withError, herrors]
      rfl

namespace Rounds

variable {ts : List Located} {segments : List Segment}

theorem tokens_ne_nil (h : Rounds ts segments) : ∀ segment ∈ segments, segment.tokens ≠ [] := by
  induction h with
  | ended => exact List.forall_mem_nil _
  | @statement s taken rest segments _ hparse _ ih =>
    refine List.forall_mem_cons.mpr ⟨?_, ih⟩
    rintro rfl
    exact Nat.lt_irrefl _ (Goal.parse_statement_parsed hparse)
  | @mistake e taken skipped rest segments hend _ hsync _ ih =>
    refine List.forall_mem_cons.mpr ⟨fun hnil => ?_, ih⟩
    obtain ⟨rfl, rfl⟩ := List.append_eq_nil_iff.mp hnil
    -- Nothing was taken, so the first token is skipped.
    cases rest with
    | nil => exact hend rfl
    | cons t rest =>
      have hlt := length_synchronize_lt hend 0 rest
      rw [show synchronize 0 false (t :: rest) = t :: rest from hsync] at hlt
      exact Nat.lt_irrefl _ hlt

/-- **The rounds cover the tokens up to the end of input.** -/
theorem flatMap_tokens (h : Rounds ts segments) :
    segments.flatMap Segment.tokens = ts.takeWhile fun t => t.token ≠ .endOfInput := by
  induction h with
  | @ended ts hend =>
    cases ts with
    | nil => rfl
    | cons t ts =>
      have ht : t.token = .endOfInput := hend
      exact (List.takeWhile_cons_of_neg (by simp [ht])).symm
  | @statement s taken rest segments _ hparse _ ih =>
    obtain ⟨taken', b, hsplit, htakes, _⟩ := run_parsed_takes hparse
    obtain rfl := List.append_cancel_right hsplit
    have hpassed : ∀ t ∈ taken, t.token ≠ .endOfInput :=
      fun t ht => htakes.ne_endOfInput _ (List.mem_map_of_mem ht)
    rw [List.flatMap_cons, ih, List.takeWhile_append_of_pos (by simpa using hpassed)]
    rfl
  | @mistake e taken skipped rest segments _ hparse hsync _ ih =>
    obtain ⟨taken', b, hsplit, htakes, _⟩ := run_failed_takes hparse
    obtain rfl := List.append_cancel_right hsplit
    obtain ⟨passed, hpassed, hskips⟩ :=
      synchronize_skips (openBraces taken) (!taken.isEmpty) (skipped ++ rest)
    rw [hsync] at hpassed
    obtain rfl := List.append_cancel_right hpassed
    have hall : ∀ t ∈ taken ++ skipped, t.token ≠ .endOfInput := by
      intro t ht
      rcases List.mem_append.mp ht with ht | ht
      · exact htakes.ne_endOfInput _ (List.mem_map_of_mem ht)
      · exact hskips t ht
    rw [List.flatMap_cons, ih, ← List.append_assoc,
      List.takeWhile_append_of_pos (by simpa using hall)]
    rfl

end Rounds

/-! ## Where the errors stand -/

/-- The places of the tokens at fault, in segments that start at `offset`. -/
def offences (offset : Nat) : List Segment → List Nat
  | [] => []
  | .statement _ taken :: segments => offences (offset + taken.length) segments
  | .mistake _ taken skipped :: segments =>
    (offset + taken.length) :: offences (offset + taken.length + skipped.length) segments

/-- The error names the token at the place, or the end of input if there is none. -/
def SyntaxError.PointsAt (ts : List Located) (e : SyntaxError) (place : Nat) : Prop :=
  e.found = (front (ts.drop place)).token ∧ e.position = (front (ts.drop place)).position

namespace Rounds

variable {ts : List Located} {segments : List Segment}

theorem offences_bounds (h : Rounds ts segments) (offset : Nat) :
    ∀ place ∈ offences offset segments, offset ≤ place ∧
      place ≤ offset + (segments.flatMap Segment.tokens).length := by
  induction h generalizing offset with
  | ended => exact nofun
  | @statement s taken rest segments _ _ _ ih =>
    intro place hplace
    have := ih _ place hplace
    rw [List.flatMap_cons, List.length_append, Segment.tokens]
    omega
  | @mistake e taken skipped rest segments _ _ _ _ ih =>
    intro place hplace
    rw [List.flatMap_cons, List.length_append, Segment.tokens, List.length_append]
    rcases List.mem_cons.mp hplace with rfl | hplace
    · omega
    · have := ih _ place hplace
      omega

/-- Behind a keyword that starts a statement, a fault is further on. -/
theorem lt_offences (h : Rounds ts segments) {k : Keyword} (hk : k.startsStatement)
    (hpeek : peek ts = .keyword k) (offset : Nat) :
    ∀ place ∈ offences offset segments, offset < place := by
  intro place hplace
  have hcovers := h.tokens_ne_nil
  cases h with
  | ended => cases hplace
  | @statement s taken rest segments _ _ hrest =>
    have hbounds := hrest.offences_bounds _ place hplace
    have hpos := List.length_pos_iff.mpr (hcovers _ List.mem_cons_self)
    rw [Segment.tokens] at hpos
    omega
  | @mistake e taken skipped rest segments _ hparse _ hrest =>
    rcases List.mem_cons.mp hplace with rfl | hplace
    · obtain ⟨taken', b, hsplit, htakes, hfail, _⟩ := run_failed_takes hparse
      obtain rfl := List.append_cancel_right hsplit
      cases taken with
      | nil =>
        cases htakes
        obtain ⟨next, hnext⟩ := statement_step_keyword hk
        rw [show peek (skipped ++ rest) = .keyword k from hpeek] at hfail
        exact absurd (hnext.symm.trans hfail) nofun
      | cons t taken => simp
    · have hbounds := hrest.offences_bounds _ place hplace
      have hpos := List.length_pos_iff.mpr (hcovers _ List.mem_cons_self)
      rw [Segment.tokens, List.length_append] at hpos
      omega

/-- **Each fault is further on than the one before.** -/
theorem offences_increase (h : Rounds ts segments) (offset : Nat) :
    (offences offset segments).Pairwise (· < ·) := by
  induction h generalizing offset with
  | ended => exact .nil
  | statement _ _ _ ih => exact ih _
  | @mistake e taken skipped rest segments _ _ hsync hrest ih =>
    refine List.pairwise_cons.mpr ⟨fun place hplace => ?_, ih _⟩
    cases skipped with
    | nil =>
      rcases peek_of_synchronize_eq hsync with hend | ⟨k, hpeek, hk⟩
      · cases hrest with
        | ended => cases hplace
        | statement hne => exact absurd hend hne
        | mistake hne => exact absurd hend hne
      · exact hrest.lt_offences hk hpeek _ place hplace
    | cons t skipped =>
      have := (hrest.offences_bounds _ place hplace).1
      rw [List.length_cons] at this
      omega

theorem pointsAt (h : Rounds ts segments) (before : List Located) :
    List.Forall₂ (SyntaxError.PointsAt (before ++ ts)) (segments.filterMap Segment.error?)
      (offences before.length segments) := by
  induction h generalizing before with
  | ended => exact .nil
  | @statement s taken rest segments _ _ _ ih =>
    have hrest := ih (before ++ taken)
    rwa [List.append_assoc, List.length_append] at hrest
  | @mistake e taken skipped rest segments _ hparse _ _ ih =>
    obtain ⟨taken', b, hsplit, _, _, hfound, hposition⟩ := run_failed_takes hparse
    obtain rfl := List.append_cancel_right hsplit
    have hdrop : (before ++ (taken ++ (skipped ++ rest))).drop (before.length + taken.length) =
        skipped ++ rest := by
      rw [← List.append_assoc, ← List.length_append, List.drop_left]
    have hrest := ih (before ++ taken ++ skipped)
    simp only [List.append_assoc, List.length_append, ← Nat.add_assoc] at hrest
    refine .cons ⟨?_, ?_⟩ hrest
    · rw [hdrop, hfound]
    · rw [hdrop, hposition]

end Rounds

/-! ## Programs -/

/-- The segments account for what is read of the tokens. -/
structure Accounts (ts : List Located) (segments : List Segment) : Prop where
  rounds : Rounds ts segments
  statements : (parseProgram ts).statements = segments.filterMap Segment.statement?
  errors : (parseProgram ts).errors = segments.filterMap Segment.error?
  covers : segments.flatMap Segment.tokens = ts.takeWhile fun t => t.token ≠ .endOfInput
  filled : ∀ segment ∈ segments, segment.tokens ≠ []
  pointsAt : List.Forall₂ (SyntaxError.PointsAt ts) (parseProgram ts).errors (offences 0 segments)
  increase : (offences 0 segments).Pairwise (· < ·)

theorem exists_accounts (ts : List Located) : ∃ segments, Accounts ts segments := by
  obtain ⟨segments, h, hstatements, herrors⟩ := parseProgram_rounds ts
  refine ⟨segments, h, hstatements, herrors, h.flatMap_tokens, h.tokens_ne_nil, ?_,
    h.offences_increase 0⟩
  rw [herrors]
  exact h.pointsAt []

theorem front_drop {ts : List Located} {place : Nat} (h : place < ts.length) :
    front (ts.drop place) = ts[place] := by
  rw [front, List.head?_drop, List.getElem?_eq_getElem h]
  rfl

/-- The tokens of a text reach further than the rounds: the end of input is one of them. -/
theorem Accounts.lt_length {source : List Char} {segments : List Segment}
    (h : Accounts (tokenize source).tokens segments) :
    ∀ place ∈ offences 0 segments, place < (tokenize source).tokens.length := by
  intro place hplace
  have hle := (h.rounds.offences_bounds 0 place hplace).2
  rw [h.covers, Nat.zero_add] at hle
  refine Nat.lt_of_le_of_ne (Nat.le_trans hle (List.takeWhile_prefix _).length_le) fun heq => ?_
  -- Otherwise no token would be the end of input.
  have hprefix := List.takeWhile_prefix (l := (tokenize source).tokens)
    fun t => decide (t.token ≠ .endOfInput)
  have hall := hprefix.eq_of_length (Nat.le_antisymm hprefix.length_le (heq ▸ hle))
  have hend : (⟨.endOfInput, (LineTable.ofText source).position (byteLength source)⟩ : Located) ∈
      (tokenize source).tokens :=
    List.mem_append_right _ (List.mem_singleton_self _)
  have hmem := List.all_eq_true.mp List.all_takeWhile _ (hall.symm ▸ hend)
  simp at hmem

theorem Accounts.map_position {ts : List Located} {segments : List Segment}
    (h : Accounts ts segments) :
    (parseProgram ts).errors.map SyntaxError.position =
      (offences 0 segments).map fun place => (front (ts.drop place)).position := by
  have hpoints := h.pointsAt
  generalize (parseProgram ts).errors = errors, offences 0 segments = places at hpoints
  induction hpoints with
  | nil => rfl
  | cons hpoint _ ih => rw [List.map_cons, List.map_cons, hpoint.2, ih]

theorem Accounts.exists_place {ts : List Located} {segments : List Segment}
    (h : Accounts ts segments) {e : SyntaxError} (he : e ∈ (parseProgram ts).errors) :
    ∃ place ∈ offences 0 segments, e.PointsAt ts place := by
  have hpoints := h.pointsAt
  generalize (parseProgram ts).errors = errors, offences 0 segments = places at hpoints he
  induction hpoints with
  | nil => cases he
  | cons hpoint _ ih =>
    rcases List.mem_cons.mp he with rfl | he
    · exact ⟨_, List.mem_cons_self, hpoint⟩
    · obtain ⟨place, hplace, hpoint⟩ := ih he
      exact ⟨place, List.mem_cons_of_mem _ hplace, hpoint⟩

/-- **Reading a program moves on and loses nothing.**  The tokens up to the first end of input are
cut into the segments of the rounds, none of them empty, with the statements and the errors in their
order; the tokens that the errors name stand further and further on.  For the tokens of a text the
errors stand at increasing positions, each at the position of a token of the text or of its end,
and never at `0:0`. -/
theorem parseProgram_moves_on :
    (∀ ts : List Located, ∃ segments, Accounts ts segments) ∧
    ∀ source : List Char,
      ((parseProgram (tokenize source).tokens).errors.map SyntaxError.position).Pairwise (· < ·) ∧
      ∀ e ∈ (parseProgram (tokenize source).tokens).errors,
        (∃ t ∈ (tokenize source).tokens, e.found = t.token ∧ e.position = t.position) ∧
        e.position ≠ ⟨0, 0⟩ := by
  refine ⟨exists_accounts, fun source => ?_⟩
  obtain ⟨segments, h⟩ := exists_accounts (tokenize source).tokens
  have hlength := h.lt_length
  constructor
  · have hsorted := tokenize_positions_increase source
    rw [List.pairwise_map, List.pairwise_iff_getElem] at hsorted
    rw [h.map_position, List.pairwise_map]
    refine h.increase.imp_of_mem fun {i j} hi hj hij => ?_
    rw [front_drop (hlength i hi), front_drop (hlength j hj)]
    exact hsorted i j (hlength i hi) (hlength j hj) hij
  · intro e he
    obtain ⟨place, hplace, hfound, hposition⟩ := h.exists_place he
    rw [front_drop (hlength place hplace)] at hfound hposition
    have hmem := List.getElem_mem (hlength place hplace)
    refine ⟨⟨_, hmem, hfound, hposition⟩, fun hzero => ?_⟩
    have hline := tokenize_position_line_pos hmem
    rw [← hposition, hzero] at hline
    exact Nat.lt_irrefl _ hline

/-- Two lines with four mistakes; reading resumes in front of the second `let`. -/
def doubledLet : List Char := "let let = 1;\nx +; (".toList

theorem parseProgram_moves_on_doubledLet :
    let tokens := (tokenize doubledLet).tokens
    let atEquals : SyntaxError := ⟨.identifier, .symbol .equals, ⟨1, 9⟩⟩
    (parseProgram tokens).errors =
        [⟨.identifier, .keyword .letWord, ⟨1, 5⟩⟩, atEquals,
          ⟨.expression, .symbol .semicolon, ⟨2, 4⟩⟩, ⟨.expression, .endOfInput, ⟨2, 7⟩⟩] ∧
      ((parseProgram tokens).errors.map SyntaxError.position).Pairwise (· < ·) ∧
      (∃ segments, Accounts tokens segments) ∧
      ∃ t ∈ tokens, atEquals.found = t.token ∧ atEquals.position = t.position := by
  intro tokens atEquals
  have herrors : (parseProgram tokens).errors =
      [⟨.identifier, .keyword .letWord, ⟨1, 5⟩⟩, atEquals,
        ⟨.expression, .symbol .semicolon, ⟨2, 4⟩⟩, ⟨.expression, .endOfInput, ⟨2, 7⟩⟩] := by
    decide +kernel
  obtain ⟨haccounts, hpositions⟩ := parseProgram_moves_on
  obtain ⟨hincrease, hat⟩ := hpositions doubledLet
  refine ⟨herrors, hincrease, haccounts tokens, (hat atEquals ?_).1⟩
  rw [herrors]
  exact List.mem_cons_of_mem _ List.mem_cons_self

end Scriptlet
