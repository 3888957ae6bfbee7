import Scriptlet.Front.Script
import Scriptlet.Proofs.Eval.Sequence
import Scriptlet.Proofs.Source.Joining
import Scriptlet.Proofs.Syntax.Sequence

/-!
# A script in parts

A session reads its source in parts.  If each part is sound and every part but the last ends with a
semicolon, then the parts joined by line feeds are one script: its statements are those of the parts
in order (`parse_joined`), and it ends like the parts run one after the other in one session
(`joined_runs_in_turn`).

The scanner keeps the parts apart at the line feeds, the reader does not look beyond a semicolon
that ends a statement, and a list of statements runs its parts in turn.
-/

namespace Scriptlet

/-- The tokens of the source end with a semicolon. -/
def EndsWithSemicolon (source : String) : Prop :=
  ∃ ts, (tokenize source.toList).tokens.map Located.token =
    ts ++ [.symbol .semicolon, .endOfInput]

instance : DecidablePred EndsWithSemicolon := fun source =>
  decidable_of_iff
    ([.symbol .semicolon, .endOfInput] <:+ (tokenize source.toList).tokens.map Located.token)
    ⟨fun ⟨ts, h⟩ => ⟨ts, h.symm⟩, fun ⟨ts, h⟩ => ⟨ts, h.symm⟩⟩

theorem EndsWithSemicolon.getLast?_words {source : String} (h : EndsWithSemicolon source) :
    (Piece.words source.toList).getLast? = some (.symbol .semicolon) := by
  obtain ⟨ts, hts⟩ := h
  rw [tokenize_tokens, show ts ++ [Token.symbol .semicolon, .endOfInput] =
    (ts ++ [.symbol .semicolon]) ++ [.endOfInput] by simp] at hts
  rw [(List.append_inj' hts rfl).1, List.getLast?_concat]

namespace Script

/-! ## One part -/

/-- A source without diagnostics: it has tokens only, and they are read without errors. -/
theorem diagnostics_eq_nil_iff {source : String} :
    (parse source).diagnostics = [] ↔
      Piece.Clean source.toList ∧ (parseProgram (tokenize source.toList).tokens).errors = [] := by
  rw [← tokenize_errors_eq_nil_iff, parse]
  by_cases h : (tokenize source.toList).errors = []
  · simp [h]
  · simp [h]

theorem parse_of_clean {source : String} (h : Piece.Clean source.toList) :
    parse source = ⟨(parseProgram (tokenize source.toList).tokens).statements,
      (parseProgram (tokenize source.toList).tokens).errors.map .syntactic⟩ := by
  rw [parse, tokenize_errors_eq_nil_iff.mpr h]
  rfl

theorem tokens_eq (source : List Char) :
    ∃ ts e, (tokenize source).tokens = ts ++ [e] ∧ e.token = .endOfInput ∧
      ts.map Located.token = Piece.words source := by
  obtain ⟨ts, es, hsplit, hts, hes⟩ := List.map_eq_append_iff.mp (tokenize_tokens source)
  obtain ⟨e, rfl, he⟩ := List.map_eq_singleton_iff.mp hes
  exact ⟨ts, e, hsplit, he, hts⟩

/-! ## Parts in order -/

/-- The tokens of the parts, at any positions, are read as the statements of the parts. -/
theorem parseProgram_parts {sources : List String}
    (hclean : ∀ source ∈ sources, (parse source).diagnostics = [])
    (hends : ∀ source ∈ sources.dropLast, EndsWithSemicolon source) {located : List Located}
    (h : located.map Located.token =
      sources.flatMap (fun source => Piece.words source.toList) ++ [.endOfInput]) :
    parseProgram located = ⟨sources.flatMap fun source => (parse source).program, []⟩ := by
  induction sources generalizing located with
  | nil =>
    obtain ⟨e, rfl, he⟩ := List.map_eq_singleton_iff.mp h
    rw [parseProgram, dif_pos he]
    rfl
  | cons source rest ih =>
    obtain ⟨hsource, hrest⟩ := List.forall_mem_cons.mp hclean
    obtain ⟨hlexed, herrors⟩ := diagnostics_eq_nil_iff.mp hsource
    obtain ⟨ts, e, htokens, he, hts⟩ := tokens_eq source.toList
    rw [List.flatMap_cons, List.append_assoc, ← hts] at h
    obtain ⟨us, left, rfl, hus, hleft⟩ := List.map_eq_append_iff.mp h
    have hlast : MayPrecede ts left := by
      cases rest with
      | nil =>
        obtain ⟨e', rfl, he'⟩ := List.map_eq_singleton_iff.mp hleft
        exact Or.inl he'
      | cons next rest =>
        refine Or.inr fun t ht => ?_
        have hsemicolon := (hends source List.mem_cons_self).getLast?_words
        rw [hts, hsemicolon] at ht
        exact (Option.some.inj ht).symm
    have hnone : ∀ t ∈ ts, t.token ≠ .endOfInput := by
      intro t ht hend
      have hmem := List.mem_map_of_mem (f := Located.token) ht
      rw [hts, hend] at hmem
      exact Piece.endOfInput_notMem_words _ hmem
    have hends' : ∀ source ∈ rest.dropLast, EndsWithSemicolon source := by
      cases rest with
      | nil => exact List.forall_mem_nil _
      | cons next rest => exact fun s hs => hends s (List.mem_cons_of_mem _ hs)
    rw [htokens] at herrors
    rw [parseProgram_append_of_clean he hnone herrors hus hlast, ih hrest hends' hleft,
      List.flatMap_cons, parse_of_clean hlexed, htokens]
    rfl

/-- **Sound parts make a sound script**, and its statements are theirs in order. -/
theorem parse_joined {sources : List String}
    (hclean : ∀ source ∈ sources, (parse source).diagnostics = [])
    (hends : ∀ source ∈ sources.dropLast, EndsWithSemicolon source) :
    parse (String.intercalate "\n" sources) =
      ⟨sources.flatMap fun source => (parse source).program, []⟩ := by
  have hparts : ∀ part ∈ sources.map String.toList, Piece.Clean part := by
    intro part hpart
    obtain ⟨source, hsource, rfl⟩ := List.mem_map.mp hpart
    exact (diagnostics_eq_nil_iff.mp (hclean source hsource)).1
  obtain ⟨hlexed, hwords⟩ := Piece.Clean.intercalate hparts
  have htext : (String.intercalate "\n" sources).toList =
      ['\n'].intercalate (sources.map String.toList) := String.toList_intercalate
  rw [← htext] at hlexed hwords
  have htokens := tokenize_tokens (String.intercalate "\n" sources).toList
  rw [hwords, List.flatMap_map] at htokens
  rw [parse_of_clean hlexed, parseProgram_parts hclean hends htokens]
  rfl

/-! ## Parts in turn -/

/-- **A script ends like its parts run in one session.**  Each part is sound, every part but the
last ends with a semicolon, and the last one has a statement.  Then the parts joined by line feeds
have no diagnostics and the statements of the parts; and from any state the script ends with the
same value or fault and in the same state, with the same lines printed, as the parts one after the
other up to the first that faults or returns. -/
theorem joined_runs_in_turn (sources : List String)
    (hclean : ∀ source ∈ sources, (parse source).diagnostics = [])
    (hends : ∀ source ∈ sources.dropLast, EndsWithSemicolon source)
    (hlast : ∃ source ∈ sources.getLast?, (parse source).program ≠ []) :
    (parse (String.intercalate "\n" sources)).diagnostics = [] ∧
      (parse (String.intercalate "\n" sources)).program =
        sources.flatMap (fun source => (parse source).program) ∧
      ∀ (s : State) (r : EStateM.Result Halt State Value), Finished r →
        ((∃ fuel, Eval.program fuel (parse (String.intercalate "\n" sources)).program s = r) ↔
          ∃ fuel, Eval.inTurn fuel (sources.map fun source => (parse source).program) s = r) := by
  rw [parse_joined hclean hends]
  refine ⟨rfl, rfl, fun s r hr => ?_⟩
  rw [List.flatMap_def]
  refine Eval.exists_inTurn_iff (fun body hbody => ?_) hr
  obtain ⟨source, hsource, hne⟩ := hlast
  rw [List.getLast?_map, hsource] at hbody
  cases hbody
  exact hne

/-- A count that is kept from part to part; a comment stands behind the last semicolon. -/
def countingParts : List String := ["let n = 1;", "print(n); n = n + 1; // again", "return n"]

theorem joined_runs_in_turn_counting :
    (parse (String.intercalate "\n" countingParts)).diagnostics = [] ∧
      (parse (String.intercalate "\n" countingParts)).program =
        countingParts.flatMap (fun source => (parse source).program) ∧
      ∀ (s : State) (r : EStateM.Result Halt State Value), Finished r →
        ((∃ fuel, Eval.program fuel (parse (String.intercalate "\n" countingParts)).program s = r) ↔
          ∃ fuel,
            Eval.inTurn fuel (countingParts.map fun source => (parse source).program) s = r) :=
  joined_runs_in_turn countingParts (by decide +kernel) (by decide +kernel)
    ⟨"return n", rfl, List.ne_nil_of_length_pos (by decide +kernel)⟩

end Script

end Scriptlet
