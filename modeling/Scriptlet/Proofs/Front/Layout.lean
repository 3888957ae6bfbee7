import Mathlib.Data.List.Forall2
import Scriptlet.Front.Script
import Scriptlet.Proofs.Front.Parts
import Scriptlet.Proofs.Source.Lexemes

/-!
# Layout

How the lexemes of a script are spread over lines does not matter: blanks and comments between them
may be chosen freely (`layout_does_not_matter`).

The scanner finds the same tokens at other positions.  The reader decides on tokens alone, and so
does the recovery from errors; positions only get into the errors.  So two lists with the same
tokens are read as the same statements, with errors at other positions but with the same
expectations (`parseProgram_matches`).
-/

namespace Scriptlet

/-! ## The same tokens at other positions -/

abbrev SameTokens : List Located → List Located → Prop :=
  List.Forall₂ fun t t' => t'.token = t.token

theorem sameTokens_of_map_eq {ts us : List Located}
    (h : us.map Located.token = ts.map Located.token) : SameTokens ts us := by
  induction ts generalizing us with
  | nil =>
    rw [List.map_nil, List.map_eq_nil_iff] at h
    rw [h]
    exact .nil
  | cons t ts ih =>
    obtain ⟨u, us, rfl, hu, hus⟩ := List.map_eq_cons_iff.mp h
    exact .cons hu (ih hus)

/-- The same complaint, perhaps at another position. -/
structure SyntaxError.Matches (e e' : SyntaxError) : Prop where
  expected : e'.expected = e.expected
  found : e'.found = e.found

/-- The same phrase or complaint, with the same tokens left. -/
inductive Outcome.Matches : Outcome → Outcome → Prop where
  | parsed (s : Statement) {rest rest' : List Located} :
      SameTokens rest rest' → Outcome.Matches (.parsed s rest) (.parsed s rest')
  | failed {e e' : SyntaxError} {rest rest' : List Located} :
      e.Matches e' → SameTokens rest rest' → Outcome.Matches (.failed e rest) (.failed e' rest')

theorem ParseState.run_matches {ts us : List Located} (h : SameTokens ts us)
    (state : ParseState) : (state.run ts).Matches (state.run us) := by
  induction h generalizing state with
  | nil =>
    rw [run]
    split
    · exact .parsed _ .nil
    · exact .failed ⟨rfl, rfl⟩ .nil
    · exact .failed ⟨rfl, rfl⟩ .nil
  | @cons t u ts us ht hrest ih =>
    rw [run, run, ht]
    split
    · exact ih _
    · exact .parsed _ (.cons ht hrest)
    · exact .failed ⟨rfl, rfl⟩ (.cons ht hrest)

theorem Goal.parse_matches {ts us : List Located} (h : SameTokens ts us) (goal : Goal) :
    (goal.parse ts).Matches (goal.parse us) :=
  ParseState.run_matches h goal.start

/-! ## Recovery -/

theorem openBraces_same {ts us : List Located} (h : SameTokens ts us) :
    openBraces us = openBraces ts := by
  unfold openBraces
  generalize 0 = depth
  induction h generalizing depth with
  | nil => rfl
  | cons ht _ ih =>
    rw [List.foldl_cons, List.foldl_cons, ht]
    exact ih _

theorem skipSemicolon_same {ts us : List Located} (h : SameTokens ts us) :
    SameTokens (skipSemicolon ts) (skipSemicolon us) := by
  cases h with
  | nil => exact .nil
  | cons ht hrest =>
    rw [skipSemicolon, skipSemicolon, ht]
    split
    · exact hrest
    · exact .cons ht hrest

theorem synchronize_same {ts us : List Located} (h : SameTokens ts us) (depth : Nat)
    (skipped : Bool) :
    SameTokens (synchronize depth skipped ts) (synchronize depth skipped us) := by
  induction h generalizing depth skipped with
  | nil => exact .nil
  | cons ht hrest ih =>
    rw [synchronize, synchronize, ht]
    split
    · exact .cons ht hrest
    · exact ih _ _
    · split
      · exact skipSemicolon_same hrest
      · exact ih _ _
    · split
      · exact hrest
      · exact ih _ _
    · split
      · exact .cons ht hrest
      · exact ih _ _
    · exact ih _ _

theorem resume_same {ts us rest rest' : List Located} (h : SameTokens ts us)
    (hrest : SameTokens rest rest') : SameTokens (resume ts rest) (resume us rest') := by
  have htaken : SameTokens (ts.take (ts.length - rest.length))
      (us.take (us.length - rest'.length)) := by
    rw [← h.length_eq, ← hrest.length_eq]
    exact List.forall₂_take _ h
  have hempty : (us.take (us.length - rest'.length)).isEmpty =
      (ts.take (ts.length - rest.length)).isEmpty := by
    generalize ts.take _ = taken, us.take _ = taken' at htaken
    cases htaken <;> rfl
  unfold resume
  dsimp only
  rw [openBraces_same htaken, hempty]
  exact synchronize_same hrest _ _

/-- **Positions do not matter to the reader**: the same tokens are read as the same statements, with
the same complaints. -/
theorem parseProgram_matches {ts us : List Located} (h : SameTokens ts us) :
    (parseProgram us).statements = (parseProgram ts).statements ∧
      List.Forall₂ SyntaxError.Matches (parseProgram ts).errors (parseProgram us).errors := by
  fun_induction parseProgram ts generalizing us with
  | case1 =>
    cases h
    rw [parseProgram]
    exact ⟨rfl, .nil⟩
  | case2 t ts hend =>
    obtain _ | ⟨ht, hrest⟩ := h
    rw [parseProgram, dif_pos (ht.trans hend)]
    exact ⟨rfl, .nil⟩
  | case3 t ts hend s rest hparse ih =>
    obtain ⟨u, us, ht, hrest, rfl⟩ := List.forall₂_cons_left_iff.mp h
    have hmatches := Goal.parse_matches h .statement
    rw [hparse] at hmatches
    generalize hparse' : Goal.statement.parse (u :: us) = outcome at hmatches
    obtain ⟨_, hleft⟩ := hmatches
    obtain ⟨hstatements, herrors⟩ := ih hleft
    rw [parseProgram_parsed (ht ▸ hend) hparse']
    exact ⟨congrArg (s :: ·) hstatements, herrors⟩
  | case4 t ts hend e rest hparse ih =>
    obtain ⟨u, us, ht, hrest, rfl⟩ := List.forall₂_cons_left_iff.mp h
    have hmatches := Goal.parse_matches h .statement
    rw [hparse] at hmatches
    generalize hparse' : Goal.statement.parse (u :: us) = outcome at hmatches
    obtain _ | ⟨he, hleft⟩ := hmatches
    obtain ⟨hstatements, herrors⟩ := ih (resume_same h hleft)
    rw [parseProgram_resumed (ht ▸ hend) hparse']
    exact ⟨hstatements, .cons he herrors⟩

/-! ## Scripts -/

/-- Syntax errors with the same expectation and the same token found. -/
inductive Diagnostic.Matches : Diagnostic → Diagnostic → Prop where
  | syntactic {e e' : SyntaxError} :
      e.Matches e' → Diagnostic.Matches (.syntactic e) (.syntactic e')

/-- **Layout does not matter.**  Write the lexemes of a source that has only tokens again, with any
gaps between them and perhaps a gap before and after them.  The new text has only tokens, too, and
they are the same; it is read as the same program, with as many diagnostics, which expect and find
the same; and if there are none, it runs alike. -/
theorem layout_does_not_matter {source text : String}
    (hsource : (tokenize source.toList).errors = []) (h : Relaid source.toList text.toList) :
    (tokenize text.toList).errors = [] ∧
      (tokenize text.toList).tokens.map Located.token =
        (tokenize source.toList).tokens.map Located.token ∧
      (Script.parse text).program = (Script.parse source).program ∧
      List.Forall₂ Diagnostic.Matches (Script.parse source).diagnostics
        (Script.parse text).diagnostics ∧
      ((Script.parse source).diagnostics = [] →
        ∀ fuel, execute fuel text = execute fuel source) := by
  have hspells := h.spells
  have hclean := tokenize_errors_eq_nil_iff.mp hsource
  have htokens : (tokenize text.toList).tokens.map Located.token =
      (tokenize source.toList).tokens.map Located.token := by
    rw [tokenize_tokens, tokenize_tokens, hspells.words_eq]
  obtain ⟨hstatements, herrors⟩ := parseProgram_matches (sameTokens_of_map_eq htokens)
  have hprogram : (Script.parse text).program = (Script.parse source).program := by
    rw [Script.parse_of_clean hspells.clean, Script.parse_of_clean hclean]
    exact hstatements
  have hdiagnostics : List.Forall₂ Diagnostic.Matches (Script.parse source).diagnostics
      (Script.parse text).diagnostics := by
    rw [Script.parse_of_clean hspells.clean, Script.parse_of_clean hclean]
    exact List.forall₂_map_left_iff.mpr
      (List.forall₂_map_right_iff.mpr (herrors.imp fun _ _ he => .syntactic he))
  refine ⟨tokenize_errors_eq_nil_iff.mpr hspells.clean, htokens, hprogram, hdiagnostics, ?_⟩
  intro hnone fuel
  have hnone' : (Script.parse text).diagnostics = [] := by
    rw [hnone] at hdiagnostics
    exact List.forall₂_nil_left_iff.mp hdiagnostics
  simp only [execute, evaluateText, hnone, hnone', hprogram]

/-- A call with a comment behind it, and the call spread over lines with another comment in it; the
quoted text looks like a comment. -/
def quotedComment : String := "print('//')//end"

def quotedCommentSpread : String := "\tprint (\n'//' // '\n\r)"

theorem relaid_quotedComment : Relaid quotedComment.toList quotedCommentSpread.toList := by
  have hblank : ∀ {c : Char}, IsBlank c → [c] ∈ gap := fun hc =>
    Language.mem_mul.mpr ⟨_, ⟨_, hc, rfl⟩, [], Language.nil_mem_kstar _, rfl⟩
  have hcomment : [' ', '/', '/', ' ', '\x27', '\n', '\r'] ∈ gap := by
    refine Language.mem_mul.mpr ⟨[' '], ⟨' ', Or.inl rfl, rfl⟩, _, Language.mem_kstar.mpr
      ⟨[['/', '/', ' ', '\x27', '\n'], ['\r']], rfl, ?_⟩, rfl⟩
    have hbody : ['/', '/', ' ', '\x27'] ∈ Rule.comment.language :=
      mem_singleton_mul.mpr ⟨[' ', '\x27'], mem_oneOf_kstar.mpr (by simp), rfl⟩
    simp only [List.forall_mem_cons, Language.mem_add]
    exact ⟨Or.inr (Language.mem_mul.mpr ⟨_, hbody, ['\n'], rfl, rfl⟩),
      Or.inl ⟨'\r', by decide, rfl⟩, nofun⟩
  have hlexemes : Piece.lexemes quotedComment.toList =
      ["print".toList, ['('], ['\x27', '/', '/', '\x27'], [')']] := by decide +kernel
  have hspaced := Spaced.cons "print".toList (hblank (c := ' ') (by decide))
    (.cons ['('] (hblank (c := '\n') (by decide))
      (.cons ['\x27', '/', '/', '\x27'] hcomment (.single [')'])))
  rw [← hlexemes] at hspaced
  exact ⟨['\t'], _, [], Or.inr (hblank (by decide)), hspaced, Or.inl rfl, by decide +kernel⟩

theorem layout_does_not_matter_quotedComment :
    (tokenize quotedComment.toList).errors = [] ∧
      Relaid quotedComment.toList quotedCommentSpread.toList ∧
      (tokenize quotedCommentSpread.toList).errors = [] ∧
      (Script.parse quotedComment).diagnostics = [] ∧
      ∀ fuel, execute fuel quotedCommentSpread = execute fuel quotedComment := by
  have hsource : (tokenize quotedComment.toList).errors = [] := by decide +kernel
  have hnone : (Script.parse quotedComment).diagnostics = [] := by decide +kernel
  obtain ⟨htext, _, _, _, hruns⟩ := layout_does_not_matter hsource relaid_quotedComment
  exact ⟨hsource, relaid_quotedComment, htext, hnone, hruns hnone⟩

end Scriptlet
