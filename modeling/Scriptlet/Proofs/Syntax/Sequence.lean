import Scriptlet.Proofs.Syntax.Program

/-!
# Programs laid end to end

The reader decides on each token by the state alone, so a phrase that was read is read again from
the same tokens at other positions, whatever follows the first token behind it (`run_parsed_takes`,
`Takes.run_parsed`).  Behind a semicolon it does not even look at that token: a statement that can
end there has ended (`Takes.settled`).

So a program that was read without errors and ends with a semicolon is read in front of any other
tokens, and those are read as if it were not there (`parseProgram_append_of_clean`).
-/

namespace Scriptlet

namespace ParseState

/-! ## Behind a semicolon -/

/-- The state cannot end at the end of input, or it has ended already. -/
def Settled (b : ParseState) : Prop := ∀ s, b.step .endOfInput = .done s → b = .finished s

theorem endStatement_settled {s : Statement} {k : StatementContext} {b : ParseState}
    (h : endStatement s k (.symbol .semicolon) = .shift b) : b.Settled := by
  cases k with
  | goal =>
    cases h
    rintro _ ⟨⟩
    rfl
  | item before outer =>
    cases h
    exact nofun

theorem conclude_settled {c : Expr} {body : Block} {a : Alternative} {k : ConditionalContext}
    {b : ParseState} (h : conclude c body a k (.symbol .semicolon) = .shift b) : b.Settled := by
  fun_induction conclude c body a k (.symbol .semicolon) with
  | case1 => cases h
  | case2 => exact endStatement_settled h
  | case3 _ _ _ _ _ _ ih => exact ih h

theorem close_settled {e : Expr} {k : ExprContext} {b : ParseState}
    (h : close e k (.symbol .semicolon) = .shift b) : b.Settled := by
  fun_induction close e k (.symbol .semicolon) with
  | case1 e k next hnext => cases hnext
  | case2 => cases h
  | case3 _ _ _ _ ih => exact ih h
  | case4 _ _ _ _ _ ih => exact ih h
  | case5 _ _ _ _ ih => exact ih h
  | case11 => exact endStatement_settled h
  | case12 => exact endStatement_settled h
  | case13 => exact endStatement_settled h
  -- the head of a `for` goes on behind its semicolons
  | case16 | case17 | case18 =>
    cases h
    rintro s ⟨⟩
  | _ => cases h

theorem step_semicolon {a b : ParseState} (h : a.step (.symbol .semicolon) = .shift b) :
    b.Settled := by
  cases a with
  | complete e k => exact close_settled h
  | ended s k => exact endStatement_settled h
  | concluded c body a k => exact conclude_settled h
  | afterConsequence c body k => exact conclude_settled h
  | returnValue k => exact endStatement_settled h
  | forStart k | forCondition start k =>
    cases h
    exact nofun
  | _ => cases h

theorem Takes.settled {a b : ParseState} {ts : List Token}
    (h : Takes a ts b) (hlast : ts.getLast? = some (.symbol .semicolon)) : b.Settled := by
  induction h with
  | nil => cases hlast
  | @cons a b c t ts hstep hrest ih =>
    cases ts with
    | nil =>
      cases hrest
      cases hlast
      exact step_semicolon hstep
    | cons u us => exact ih hlast

/-! ## Runs -/

/-- The token that the reader sees next. -/
def peek : List Located → Token
  | [] => .endOfInput
  | t :: _ => t.token

theorem run_parsed_takes {state : ParseState} {ts rest : List Located} {s : Statement}
    (h : state.run ts = .parsed s rest) :
    ∃ taken b, ts = taken ++ rest ∧ Takes state (taken.map Located.token) b ∧
      b.step (peek rest) = .done s := by
  fun_induction run state ts with
  | case1 state s' hstep =>
    cases h
    exact ⟨[], state, rfl, .nil state, hstep⟩
  | case2 => cases h
  | case3 => cases h
  | case4 state t ts next hstep ih =>
    obtain ⟨taken, b, rfl, htakes, hdone⟩ := ih h
    exact ⟨t :: taken, b, rfl, .cons hstep htakes, hdone⟩
  | case5 state t ts s' hstep =>
    cases h
    exact ⟨[], state, rfl, .nil state, hstep⟩
  | case6 => cases h

theorem Takes.run_parsed {a b : ParseState} {taken : List Located} {s : Statement}
    (h : Takes a (taken.map Located.token) b) {rest : List Located}
    (hdone : b.step (peek rest) = .done s) : a.run (taken ++ rest) = .parsed s rest := by
  rw [h.run_eq rfl]
  cases rest with
  | nil => rw [run, show b.step .endOfInput = .done s from hdone]
  | cons t rest => rw [run, show b.step t.token = .done s from hdone]

theorem Takes.ne_endOfInput {a b : ParseState} {ts : List Token} (h : Takes a ts b) :
    ∀ t ∈ ts, t ≠ .endOfInput := by
  induction h with
  | nil => exact nofun
  | cons hstep _ ih =>
    refine List.forall_mem_cons.mpr ⟨?_, ih⟩
    rintro rfl
    exact step_endOfInput _ _ hstep

end ParseState

open ParseState

/-- A statement and the tokens it is read from: they are all taken, and the next token ends it. -/
theorem parse_statement_takes {ts rest : List Located} {s : Statement}
    (h : Goal.statement.parse ts = .parsed s rest) :
    ∃ taken b, ts = taken ++ rest ∧ taken ≠ [] ∧
      Takes (.statement .goal) (taken.map Located.token) b ∧ b.step (peek rest) = .done s := by
  obtain ⟨taken, b, rfl, htakes, hdone⟩ := run_parsed_takes h
  refine ⟨taken, b, rfl, ?_, htakes, hdone⟩
  rintro rfl
  have hlt := Goal.parse_statement_parsed h
  exact absurd hlt (Nat.lt_irrefl _)

/-! ## Programs -/

/-- What is read of `before`, and then what is read of `p`. -/
def Parsed.after (before : Block) (p : Parsed) : Parsed :=
  { p with statements := before ++ p.statements }

theorem parseProgram_failed {t : Located} {ts rest : List Located} {e : SyntaxError}
    (hend : t.token ≠ .endOfInput) (h : Goal.statement.parse (t :: ts) = .failed e rest) :
    (parseProgram (t :: ts)).errors ≠ [] := by
  rw [parseProgram, dif_neg hend]
  split
  · next h' =>
    rw [h] at h'
    cases h'
  · exact List.cons_ne_nil _ _

theorem append_end_split {ts taken rest : List Located} {e : Located}
    (h : ts ++ [e] = taken ++ rest) (he : e ∉ taken) :
    ∃ left, ts = taken ++ left ∧ rest = left ++ [e] := by
  rcases List.eq_nil_or_concat rest with rfl | ⟨left, e', rfl⟩
  · rw [List.append_nil] at h
    exact absurd (h ▸ List.mem_append_right ts (List.mem_singleton_self e)) he
  · rw [List.concat_eq_append, ← List.append_assoc] at h
    obtain ⟨hts, hend⟩ := List.append_inj' h rfl
    cases hend
    exact ⟨left, hts, List.concat_eq_append⟩

theorem peek_append_congr {left left' : List Located} (hne : left ≠ [])
    (h : left'.map Located.token = left.map Located.token) (rest rest' : List Located) :
    peek (left' ++ rest') = peek (left ++ rest) := by
  cases left with
  | nil => exact absurd rfl hne
  | cons t left =>
    obtain ⟨t', _, rfl, htoken, _⟩ := List.map_eq_cons_iff.mp h
    exact htoken

/-- The tokens may be followed by `rest`: it is at its end, or the tokens end with a semicolon. -/
def MayPrecede (ts rest : List Located) : Prop :=
  peek rest = .endOfInput ∨ ∀ t ∈ (ts.map Located.token).getLast?, t = .symbol .semicolon

theorem MayPrecede.of_append {taken left rest : List Located}
    (h : MayPrecede (taken ++ left) rest) : MayPrecede left rest := by
  refine h.imp_right fun hlast t ht => hlast t ?_
  rw [List.map_append, List.getLast?_append, ht]
  rfl

/-- A statement is read again from the same tokens at other positions, also where other tokens may
follow instead of the end of input. -/
theorem parse_statement_again {ts left₀ : List Located} {e : Located} {s : Statement}
    (he : e.token = .endOfInput) (h : Goal.statement.parse (ts ++ [e]) = .parsed s left₀) :
    ∃ taken left, ts = taken ++ left ∧ left₀ = left ++ [e] ∧ taken ≠ [] ∧
      ∀ taken' left' rest : List Located,
        taken'.map Located.token = taken.map Located.token →
        left'.map Located.token = left.map Located.token → MayPrecede ts rest →
        Goal.statement.parse (taken' ++ (left' ++ rest)) = .parsed s (left' ++ rest) := by
  obtain ⟨taken, b, hsplit, hne, htakes, hdone⟩ := parse_statement_takes h
  have hend : e ∉ taken := fun hmem => htakes.ne_endOfInput _ (List.mem_map_of_mem hmem) he
  obtain ⟨left, rfl, rfl⟩ := append_end_split hsplit hend
  refine ⟨taken, left, rfl, rfl, hne, fun taken' left' rest htaken hleft hlast => ?_⟩
  refine Takes.run_parsed (htaken.symm ▸ htakes) ?_
  by_cases hnil : left = []
  · -- The last statement: it ends at the end of input, or it had ended at its semicolon.
    subst hnil
    rw [List.map_nil, List.map_eq_nil_iff] at hleft
    rw [List.nil_append, peek, he] at hdone
    rw [hleft, List.nil_append]
    rcases hlast with hrest | hlast
    · rw [hrest, hdone]
    · rw [List.append_nil] at hlast
      have hmap : taken.map Located.token ≠ [] := mt List.map_eq_nil_iff.mp hne
      have hsome := List.getLast?_eq_some_getLast hmap
      rw [hlast _ hsome] at hsome
      rw [htakes.settled hsome s hdone]
      rfl
  · rw [peek_append_congr hnil hleft [e] rest, hdone]

/-- **A program that ends with a semicolon is read in front of anything**: in front of other tokens,
and at other positions, it has the same statements, and the other tokens are read as without it.  A
program without the semicolon is read again in front of an end of input. -/
theorem parseProgram_append_of_clean {ts us rest : List Located} {e : Located}
    (he : e.token = .endOfInput) (hts : ∀ t ∈ ts, t.token ≠ .endOfInput)
    (hclean : (parseProgram (ts ++ [e])).errors = [])
    (hus : us.map Located.token = ts.map Located.token) (hlast : MayPrecede ts rest) :
    parseProgram (us ++ rest) =
      (parseProgram rest).after (parseProgram (ts ++ [e])).statements := by
  induction hn : ts.length using Nat.strongRecOn generalizing ts us with
  | ind n ih =>
    cases ts with
    | nil =>
      rw [List.map_nil, List.map_eq_nil_iff] at hus
      rw [hus, List.nil_append, List.nil_append, parseProgram, dif_pos he]
      rfl
    | cons t ts =>
      have hhead : t.token ≠ .endOfInput := hts t List.mem_cons_self
      cases hparse : Goal.statement.parse (t :: ts ++ [e]) with
      | failed error left => exact absurd hclean (parseProgram_failed hhead hparse)
      | parsed s left =>
        obtain ⟨taken, left, hsplit, rfl, hne, hagain⟩ := parse_statement_again he hparse
        have hread : parseProgram (t :: ts ++ [e]) = (parseProgram (left ++ [e])).withStatement s :=
          parseProgram_parsed hhead hparse
        rw [hread] at hclean ⊢
        obtain ⟨u, us, rfl, hu, -⟩ := List.map_eq_cons_iff.mp hus
        have huend : u.token ≠ .endOfInput := hu ▸ hhead
        rw [hsplit] at hus hts hlast hn
        rw [List.map_append] at hus
        obtain ⟨taken', left', hsplit', htaken, hleft⟩ := List.map_eq_append_iff.mp hus
        have hparse' : Goal.statement.parse (u :: (us ++ rest)) = .parsed s (left' ++ rest) := by
          rw [← List.cons_append, hsplit', List.append_assoc]
          exact hagain taken' left' rest htaken hleft (hsplit ▸ hlast)
        rw [List.cons_append, parseProgram_parsed huend hparse']
        rw [ih left.length ?_ (fun t ht => hts t (List.mem_append_right _ ht)) hclean hleft
          hlast.of_append rfl]
        · rfl
        · rw [← hn, List.length_append]
          have := List.length_pos_iff.mpr hne
          omega

end Scriptlet
