import Scriptlet.Proofs.Syntax.Frames
import Scriptlet.Proofs.Syntax.Progress

/-!
# Mistakes stay where they are

A mistake in a program costs the statement it is in and nothing else, as long as reading can tell
where that statement ends.  This module says for two kinds of pieces that it can: a **simple unit**
holds no brace and ends with its only semicolon, a **braced unit** is the sound head of a statement,
any tokens between matching braces, and a semicolon.

A faulty simple unit is skipped up to its semicolon.  In a braced unit the frame of the outer brace
stays open up to its `}`, so the statement neither ends before it nor is skipped beyond it
(`ParseState.Takes.encloses`, `synchronize_closesAtEnd`), and behind it the semicolon is taken
whatever stood between the braces (`Frame.ClosedBy.finishes`).

* `ProgramUnit.contributes`: what a unit contributes to a program depends on nothing that follows.
* `parseProgram_units`: a program of units gives the statements and the errors of its units, each
  with at most one error.
-/

namespace Scriptlet

open ParseState

/-! ## Units -/

/-- With `depth` braces open, the last of the tokens, and no earlier one, closes them all. -/
def ClosesAtEnd : Nat → List Token → Prop
  | _, [] => False
  | depth, .symbol .leftBrace :: ts => ClosesAtEnd (depth + 1) ts
  | depth, .symbol .rightBrace :: ts => if depth ≤ 1 then ts = [] else ClosesAtEnd (depth - 1) ts
  | depth, _ :: ts => ClosesAtEnd depth ts

/-- The tokens start with a `{` whose matching `}` is the last of them. -/
def Braced : List Token → Prop
  | .symbol .leftBrace :: ts => ClosesAtEnd 1 ts
  | _ => False

/-- The tokens are the head of one statement: with `{ };` behind them they are read as exactly one
statement, without errors. -/
def HeadsStatement (head : List Located) : Prop :=
  ∃ probe : List Located,
    probe.map Located.token =
      [.symbol .leftBrace, .symbol .rightBrace, .symbol .semicolon, .endOfInput] ∧
    (parseProgram (head ++ probe)).statements.length = 1 ∧
    (parseProgram (head ++ probe)).errors = []

namespace Token

/-- A token that may stand in a simple unit in front of its semicolon. -/
def Plain (t : Token) : Prop :=
  t ≠ .symbol .leftBrace ∧ t ≠ .symbol .rightBrace ∧ t ≠ .symbol .semicolon ∧ t ≠ .endOfInput

instance (t : Token) : Decidable t.Plain := inferInstanceAs (Decidable (_ ∧ _))

def startsStatement : Token → Bool
  | .keyword k => k.startsStatement
  | _ => false

end Token

/-- A piece of a program that a mistake does not get out of. -/
inductive ProgramUnit : List Located → Prop where
  | simple {body : List Located} {stop : Located} :
      (∀ t ∈ body, t.token.Plain) → peek body ≠ .keyword .forWord →
      (∀ t ∈ body.tail, ¬ t.token.startsStatement) →
      stop.token = .symbol .semicolon → ProgramUnit (body ++ [stop])
  | braced {head body : List Located} {stop : Located} :
      (∀ t ∈ head, t.token ≠ .endOfInput) → HeadsStatement head →
      (∀ t ∈ body, t.token ≠ .endOfInput) → Braced (body.map Located.token) →
      stop.token = .symbol .semicolon → ProgramUnit (head ++ body ++ [stop])

/-! ## Skipping to the end of a unit -/

theorem synchronize_plain {ts : List Located} {stop : Located} (hplain : ∀ t ∈ ts, t.token.Plain)
    (hword : ∀ t ∈ ts, ¬ t.token.startsStatement)
    (hstop : stop.token = .symbol .semicolon) (skipped : Bool) (tail : List Located) :
    synchronize 0 skipped (ts ++ stop :: tail) = tail := by
  induction ts generalizing skipped with
  | nil =>
    rw [List.nil_append, synchronize, hstop]
    rfl
  | cons t ts ih =>
    obtain ⟨⟨hopen, hclose, hsemi, hend⟩, hplain⟩ := List.forall_mem_cons.mp hplain
    obtain ⟨ht, hword⟩ := List.forall_mem_cons.mp hword
    rw [List.cons_append, synchronize]
    split
    · contradiction
    · contradiction
    · contradiction
    · contradiction
    · next k hk =>
      have hk : ¬ k.startsStatement := by rwa [hk] at ht
      rw [if_neg (by simp [hk])]
      exact ih hplain hword true
    · exact ih hplain hword true

theorem skipSemicolon_cons {stop : Located} (hstop : stop.token = .symbol .semicolon)
    (tail : List Located) : skipSemicolon (stop :: tail) = tail := if_pos hstop

/-- Inside of braces all is skipped up to the `}` of the outermost ones, and a semicolon behind. -/
theorem synchronize_closesAtEnd {ts : List Located} {depth : Nat} (hdepth : 0 < depth)
    (hclose : ClosesAtEnd depth (ts.map Located.token))
    (hend : ∀ t ∈ ts, t.token ≠ .endOfInput) (skipped : Bool) (tail : List Located) :
    synchronize depth skipped (ts ++ tail) = skipSemicolon tail := by
  induction ts generalizing depth skipped with
  | nil => cases hclose
  | cons t ts ih =>
    obtain ⟨ht, hend⟩ := List.forall_mem_cons.mp hend
    rw [List.map_cons] at hclose
    rw [List.cons_append, synchronize]
    split
    · contradiction
    · next htoken =>
      rw [htoken] at hclose
      exact ih (Nat.succ_pos depth) hclose hend skipped
    · next htoken =>
      rw [htoken, ClosesAtEnd] at hclose
      split
      · next hle =>
        rw [if_pos hle, List.map_eq_nil_iff] at hclose
        rw [hclose, List.nil_append]
      · next hle =>
        rw [if_neg hle] at hclose
        exact ih (by omega) hclose hend skipped
    · next htoken =>
      rw [htoken] at hclose
      rw [if_neg (Nat.pos_iff_ne_zero.mp hdepth)]
      exact ih hdepth hclose hend true
    · next k htoken =>
      rw [htoken] at hclose
      rw [if_neg (by simp [Nat.pos_iff_ne_zero.mp hdepth])]
      exact ih hdepth hclose hend true
    · rw [ClosesAtEnd] at hclose
      · exact ih hdepth hclose hend true
      · assumption
      · assumption

/-! ## Taking the tokens of a unit -/

namespace ParseState

theorem Takes.of_append {a c : ParseState} {ts us : List Token} (h : Takes a (ts ++ us) c) :
    ∃ b, Takes a ts b ∧ Takes b us c := by
  induction ts generalizing a with
  | nil => exact ⟨a, .nil a, h⟩
  | cons t ts ih =>
    cases h with
    | cons hstep hrest =>
      obtain ⟨b, hts, hus⟩ := ih hrest
      exact ⟨b, .cons hstep hts, hus⟩

/-- All tokens are taken, or one of them is not. -/
theorem takes_or_stops (a : ParseState) (ts : List Located) :
    (∃ b, Takes a (ts.map Located.token) b) ∨
      ∃ taken t rest b, ts = taken ++ t :: rest ∧ Takes a (taken.map Located.token) b ∧
        ∀ c, b.step t.token ≠ .shift c := by
  induction ts generalizing a with
  | nil => exact Or.inl ⟨a, .nil a⟩
  | cons t ts ih =>
    by_cases hstep : ∃ b, a.step t.token = .shift b
    · obtain ⟨b, hstep⟩ := hstep
      rcases ih b with ⟨c, hc⟩ | ⟨taken, u, rest, c, rfl, hc, hstop⟩
      · exact Or.inl ⟨c, .cons hstep hc⟩
      · exact Or.inr ⟨t :: taken, u, rest, c, rfl, .cons hstep hc, hstop⟩
    · exact Or.inr ⟨[], t, ts, a, rfl, .nil a, not_exists.mp hstep⟩

end ParseState

/-! ### Between braces -/

theorem ClosesAtEnd.of_cons {depth : Nat} {t : Token} {ts : List Token}
    (h : ClosesAtEnd depth (t :: ts)) :
    (t = .symbol .rightBrace ∧ depth ≤ 1 ∧ ts = []) ∨
      (t = .symbol .rightBrace → 1 < depth) ∧ ClosesAtEnd (t.depthAfter depth) ts := by
  rw [ClosesAtEnd.eq_def] at h
  split at h
  · next heq => cases heq
  · next heq =>
    cases heq
    exact Or.inr ⟨nofun, h⟩
  · next heq =>
    cases heq
    split at h
    · next hle => exact Or.inl ⟨rfl, hle, h⟩
    · next hle => exact Or.inr ⟨fun _ => Nat.lt_of_not_le hle, h⟩
  · next hopen hclose heq =>
    cases heq
    rw [Token.depthAfter] <;> first | exact Or.inr ⟨fun ht => absurd ht hclose, h⟩ | assumption

/-- The outermost frame stays open until its own brace is closed. -/
theorem Token.Reframes.keeps_outermost {t : Token} {fs : List Frame} {b : ParseState} {f : Frame}
    (h : t.Reframes fs b) (hf : f.isBrace) (hbase : [f] <:+ fs) :
    [f] <:+ b.frames ∨ t = .symbol .rightBrace ∧ f.ClosedBy b ∧ fs = [f] := by
  have hpush : ∀ {g : Frame}, b.frames = g :: fs → [f] <:+ b.frames :=
    fun {g} heq => heq ▸ hbase.trans (List.suffix_cons g fs)
  have hpop : ∀ {g : Frame}, fs = g :: b.frames → ¬ g.isBrace → [f] <:+ b.frames := by
    rintro g rfl hg
    rcases List.suffix_cons_iff.mp hbase with heq | hsuffix
    · obtain ⟨rfl, _⟩ := List.cons.inj heq
      exact absurd hf hg
    · exact hsuffix
  unfold Token.Reframes at h
  split at h
  · exact Or.inl (hpush h)
  · exact Or.inl (hpush h)
  · obtain ⟨g, _, heq⟩ := h
    exact Or.inl (hpush heq)
  · exact Or.inl (hpop h Bool.false_ne_true)
  · exact Or.inl (hpop h Bool.false_ne_true)
  · obtain ⟨g, hclosed, rfl⟩ := h
    rcases List.suffix_cons_iff.mp hbase with heq | hsuffix
    · obtain ⟨rfl, hnil⟩ := List.cons.inj heq
      exact Or.inr ⟨rfl, hclosed, heq.symm⟩
    · exact Or.inl hsuffix
  · exact Or.inl (h ▸ hbase)

theorem braceCount_pos {f : Frame} {fs : List Frame} (hf : f.isBrace) (hbase : [f] <:+ fs) :
    0 < braceCount fs :=
  List.countP_pos_iff.mpr ⟨f, hbase.subset (List.mem_singleton_self f), hf⟩

namespace ParseState

/-- One token on the way to the closing brace of a frame: it is that brace, or the frame stays
open. -/
theorem step_encloses {a b : ParseState} {f : Frame} {t : Token} {rest : List Token}
    (hf : f.isBrace) (hbase : [f] <:+ a.frames)
    (hclose : ClosesAtEnd (braceCount a.frames) (t :: rest)) (hstep : a.step t = .shift b) :
    (rest = [] ∧ f.ClosedBy b) ∨
      [f] <:+ b.frames ∧ ClosesAtEnd (braceCount b.frames) rest := by
  have hframes := step_reframes hstep
  have hcount := hframes.braceCount_eq
  rcases hframes.keeps_outermost hf hbase with hkept | ⟨rfl, hclosed, hlast⟩
  · rcases hclose.of_cons with ⟨rfl, hle, rfl⟩ | ⟨_, hrest⟩
    · have hpos := braceCount_pos hf hkept
      rw [Token.depthAfter] at hcount
      omega
    · exact Or.inr ⟨hkept, hcount ▸ hrest⟩
  · rcases hclose.of_cons with ⟨_, _, rfl⟩ | ⟨hlt, _⟩
    · exact Or.inl ⟨rfl, hclosed⟩
    · have hone : braceCount a.frames = 1 := hlast ▸ braceCount_cons_brace hf []
      exact absurd (hlt rfl) (by omega)

theorem Takes.encloses {a b : ParseState} {f : Frame} {taken rest : List Token}
    (hf : f.isBrace) (hbase : [f] <:+ a.frames)
    (hclose : ClosesAtEnd (braceCount a.frames) (taken ++ rest)) (h : Takes a taken b) :
    (rest = [] ∧ f.ClosedBy b) ∨
      [f] <:+ b.frames ∧ ClosesAtEnd (braceCount b.frames) rest := by
  induction h with
  | nil => exact Or.inr ⟨hbase, hclose⟩
  | @cons a b c t ts hstep hrest ih =>
    rcases step_encloses hf hbase hclose hstep with ⟨hnil, hclosed⟩ | ⟨hbase, hclose⟩
    · obtain ⟨rfl, rfl⟩ := List.append_eq_nil_iff.mp hnil
      cases hrest
      exact Or.inl ⟨rfl, hclosed⟩
    · exact ih hbase hclose

/-- **Between braces** the tokens are taken up to the closing brace, or one of them is at fault;
then the open braces are those that the rest of the tokens closes. -/
theorem takes_enclosed {a : ParseState} {f : Frame} (hf : f.isBrace) (hframes : a.frames = [f])
    {ts : List Located} (hclose : ClosesAtEnd 1 (ts.map Located.token)) :
    (∃ c, Takes a (ts.map Located.token) c ∧ f.ClosedBy c) ∨
      ∃ taken t rest b x, ts = taken ++ t :: rest ∧ Takes a (taken.map Located.token) b ∧
        b.step t.token = .fail x ∧ 0 < braceCount b.frames ∧
        ClosesAtEnd (braceCount b.frames) ((t :: rest).map Located.token) := by
  have hbase : [f] <:+ a.frames := hframes ▸ List.suffix_rfl
  rw [show 1 = braceCount a.frames from hframes ▸ (braceCount_cons_brace hf []).symm] at hclose
  rcases takes_or_stops a ts with ⟨c, htakes⟩ | ⟨taken, t, rest, b, rfl, htakes, hstops⟩
  · rw [← List.append_nil (ts.map Located.token)] at hclose
    rcases htakes.encloses hf hbase hclose with ⟨_, hclosed⟩ | ⟨_, hnone⟩
    · exact Or.inl ⟨c, htakes, hclosed⟩
    · cases hnone
  · rw [List.map_append] at hclose
    rcases htakes.encloses hf hbase hclose with ⟨hnil, _⟩ | ⟨hkept, hrest⟩
    · cases hnil
    · have hpos := braceCount_pos hf hkept
      cases hmove : b.step t.token with
      | shift c => exact absurd hmove (hstops c)
      | done s =>
        rw [frames_of_done hmove] at hpos
        cases hpos
      | fail x => exact Or.inr ⟨taken, t, rest, b, x, rfl, htakes, hmove, hpos, hrest⟩

/-! ### Behind the closing brace -/

theorem endStatement_finished {s r : Statement} {k : StatementContext}
    (h : endStatement s k (.symbol .semicolon) = .shift (.finished r)) : k = .goal := by
  cases k with
  | goal => rfl
  | item before outer => cases h

theorem conclude_finishes_alike {c : Expr} {body : Block} {a : Alternative} {k : ConditionalContext}
    {r : Statement} (h : conclude c body a k (.symbol .semicolon) = .shift (.finished r))
    (c' : Expr) (body' : Block) (a' : Alternative) :
    ∃ r', conclude c' body' a' k (.symbol .semicolon) = .shift (.finished r') := by
  fun_induction conclude c body a k (.symbol .semicolon) generalizing c' body' a' with
  | case1 => cases h
  | case2 =>
    obtain rfl := endStatement_finished h
    exact ⟨_, rfl⟩
  | case3 _ _ _ outer first _ ih => exact ih h outer first (.elseIf c' body' a')

theorem close_finishes_alike {e : Expr} {k : ExprContext} {r : Statement}
    (h : close e k (.symbol .semicolon) = .shift (.finished r)) (e' : Expr) :
    ∃ r', close e' k (.symbol .semicolon) = .shift (.finished r') := by
  fun_induction close e k (.symbol .semicolon) generalizing e' with
  | case1 k e next hnext => cases hnext
  | case3 e op k _ ih => exact ih h (.unary op e')
  | case4 e left op k _ ih => exact ih h (.binary op left e')
  | case5 e x k _ ih => exact ih h (.assign x e')
  | case11 | case12 | case13 =>
    obtain rfl := endStatement_finished h
    exact ⟨_, rfl⟩
  | _ => cases h

end ParseState

/-- **Behind the closing brace** it does not matter what stood in front of it: if a semicolon ends
the statement there for one content of the braces, it does for any. -/
theorem Frame.ClosedBy.finishes {f : Frame} {b c : ParseState} {r : Statement}
    (hb : f.ClosedBy b) (hc : f.ClosedBy c)
    (h : b.step (.symbol .semicolon) = .shift (.finished r)) :
    ∃ r', c.step (.symbol .semicolon) = .shift (.finished r') := by
  cases f with
  | paren | bracket => cases hb
  | object k =>
    obtain ⟨ps, rfl⟩ := hb
    obtain ⟨qs, rfl⟩ := hc
    exact close_finishes_alike h (.object qs)
  | block k =>
    obtain ⟨body, rfl⟩ := hb
    obtain ⟨body', rfl⟩ := hc
    cases k with
    | goal => cases h
    | consequence c k => exact conclude_finishes_alike h c body' .absent
    | alternative c first k => exact conclude_finishes_alike h c first (.block body')
    | whileBody | forBody | function =>
      obtain rfl := endStatement_finished h
      exact ⟨_, rfl⟩
    | lambda parameters k => exact close_finishes_alike h (.function parameters body')

/-! ## Rounds -/

theorem parseProgram_statement {taken rest : List Located} {s : Statement}
    (hend : peek (taken ++ rest) ≠ .endOfInput)
    (h : Goal.statement.parse (taken ++ rest) = .parsed s rest) :
    parseProgram (taken ++ rest) = (parseProgram rest).withStatement s := by
  generalize taken ++ rest = ts at hend h ⊢
  cases ts with
  | nil => exact absurd rfl hend
  | cons t ts => exact parseProgram_parsed hend h

theorem parseProgram_mistake {taken rest : List Located} {e : SyntaxError}
    (hend : peek (taken ++ rest) ≠ .endOfInput)
    (h : Goal.statement.parse (taken ++ rest) = .failed e rest) :
    parseProgram (taken ++ rest) =
      (parseProgram (synchronize (openBraces taken) (!taken.isEmpty) rest)).withError e := by
  rw [← resume_eq]
  generalize taken ++ rest = ts at hend h ⊢
  cases ts with
  | nil => exact absurd rfl hend
  | cons t ts =>
    rw [parseProgram, dif_neg (show t.token ≠ .endOfInput from hend)]
    split
    · next h' =>
      rw [h] at h'
      cases h'
    · next h' =>
      rw [h] at h'
      cases h'
      rfl

/-! ## What a unit contributes -/

/-- What was read of two pieces of a program, one after the other. -/
def Parsed.append (p q : Parsed) : Parsed := ⟨p.statements ++ q.statements, p.errors ++ q.errors⟩

/-- The tokens contribute `p` to any program that starts with them. -/
def Contributes (ts : List Located) (p : Parsed) : Prop :=
  ∀ tail, parseProgram (ts ++ tail) = p.append (parseProgram tail)

theorem peek_ne_endOfInput {taken rest : List Located} {b : ParseState}
    (h : Takes (.statement .goal) (taken.map Located.token) b)
    (hrest : taken = [] → peek rest ≠ .endOfInput) : peek (taken ++ rest) ≠ .endOfInput := by
  cases taken with
  | nil => exact hrest rfl
  | cons t taken => exact h.ne_endOfInput _ List.mem_cons_self

namespace Contributes

variable {taken ts : List Located} {p : Parsed} {b : ParseState}

theorem nil : Contributes [] Parsed.empty := fun _ => rfl

/-- A statement that ends in front of the other tokens. -/
theorem of_statement {s : Statement} (htakes : Takes (.statement .goal) (taken.map Located.token) b)
    (hdone : ∀ tail, b.step (peek (ts ++ tail)) = .done s) (h : Contributes ts p) :
    Contributes (taken ++ ts) (p.withStatement s) := by
  intro tail
  have hpeek : peek (taken ++ (ts ++ tail)) ≠ .endOfInput := by
    refine peek_ne_endOfInput htakes fun hnil => ?_
    subst hnil
    cases htakes
    exact absurd (hdone tail) (startStatement_ne_done .goal _ s)
  have hread : Goal.statement.parse (taken ++ (ts ++ tail)) = .parsed s (ts ++ tail) :=
    htakes.run_parsed (hdone tail)
  rw [List.append_assoc, parseProgram_statement hpeek hread, h tail]
  rfl

/-- A statement that has ended with the last of the tokens. -/
theorem of_finished {s : Statement}
    (htakes : Takes (.statement .goal) (taken.map Located.token) (.finished s)) :
    Contributes taken (Parsed.empty.withStatement s) := by
  have h := of_statement htakes (fun _ => rfl) nil
  rwa [List.append_nil] at h

/-- A statement that fails, with the tokens skipped up to others. -/
theorem of_resumed {t : Located} {x : Expectation} {us : List Located}
    (htakes : Takes (.statement .goal) (taken.map Located.token) b)
    (hfail : b.step t.token = .fail x) (hend : t.token ≠ .endOfInput)
    (hskip : ∀ tail, synchronize (openBraces taken) (!taken.isEmpty) (t :: ts ++ tail) = us ++ tail)
    (h : Contributes us p) :
    Contributes (taken ++ t :: ts) (p.withError ⟨x, t.token, t.position⟩) := by
  intro tail
  have hpeek : peek (taken ++ (t :: ts ++ tail)) ≠ .endOfInput :=
    peek_ne_endOfInput htakes fun _ => hend
  have hread : Goal.statement.parse (taken ++ (t :: ts ++ tail)) = _ :=
    htakes.run_failed hfail (ts ++ tail)
  rw [List.append_assoc, parseProgram_mistake hpeek hread, hskip tail, h tail]
  rfl

/-- A statement that fails, with the rest of the tokens skipped. -/
theorem of_mistake {t : Located} {x : Expectation}
    (htakes : Takes (.statement .goal) (taken.map Located.token) b)
    (hfail : b.step t.token = .fail x) (hend : t.token ≠ .endOfInput)
    (hskip : ∀ tail, synchronize (openBraces taken) (!taken.isEmpty) (t :: ts ++ tail) = tail) :
    Contributes (taken ++ t :: ts) ⟨[], [⟨x, t.token, t.position⟩]⟩ :=
  of_resumed htakes hfail hend hskip nil

end Contributes

/-! ### Simple units -/

/-- The tokens open neither a block nor the head of a `for`. -/
def OpensNothing (ts : List Token) : Prop :=
  .symbol .leftBrace ∉ ts ∧ .keyword .forWord ∉ ts

theorem OpensNothing.left {ts us : List Token} (h : OpensNothing (ts ++ us)) : OpensNothing ts :=
  ⟨fun hmem => h.1 (List.mem_append_left us hmem), fun hmem => h.2 (List.mem_append_left us hmem)⟩

namespace ParseState

variable {p : List Token} {c : ParseState}

theorem Takes.reached {g : Goal} {a b : ParseState} {ts : List Token} (h : Takes a ts b)
    (ha : a.Reached g p) : b.Reached g (p ++ ts) := by
  induction h generalizing p with
  | nil => rwa [List.append_nil]
  | @cons a b c t ts hstep _ ih =>
    have hsound := step_sound (t := t) ha
    rw [hstep] at hsound
    simpa using ih hsound

theorem endStatement_of_opensNothing {s : Statement} {k : StatementContext}
    (hk : k.Reached .statement p) (hp : OpensNothing p)
    (h : endStatement s k (.symbol .semicolon) = .shift c) : c = .finished s := by
  cases hk with
  | goal =>
    cases h
    rfl
  | item => exact absurd (by simp) hp.1

theorem conclude_of_opensNothing {e : Expr} {body : Block} {a : Alternative}
    {k : ConditionalContext} (hk : k.Reached .statement p) (hp : OpensNothing p)
    (h : conclude e body a k (.symbol .semicolon) = .shift c) : ∃ s, c = .finished s := by
  fun_induction conclude e body a k (.symbol .semicolon) generalizing p with
  | case1 => cases h
  | case2 =>
    cases hk with
    | statement hk => exact ⟨_, endStatement_of_opensNothing hk hp h⟩
  | case3 _ _ _ _ _ _ ih =>
    cases hk with
    | elseIf hk => exact ih hk hp.left.left.left h

theorem close_of_opensNothing {e : Expr} {k : ExprContext} (hk : k.Reached .statement p)
    (hp : OpensNothing p) (h : close e k (.symbol .semicolon) = .shift c) :
    ∃ s, c = .finished s := by
  fun_induction close e k (.symbol .semicolon) generalizing p with
  | case1 k e next hnext => cases hnext
  | case3 _ _ _ _ ih =>
    cases hk with
    | unary hk => exact ih hk hp.left h
  | case4 _ _ _ _ _ ih =>
    cases hk with
    | binary hk => exact ih hk hp.left.left h
  | case5 _ _ _ _ ih =>
    cases hk with
    | assign hk => exact ih hk hp.left.left h
  | case11 =>
    cases hk with
    | declaration hk => exact ⟨_, endStatement_of_opensNothing hk hp.left h⟩
  | case12 =>
    cases hk with
    | expression hk => exact ⟨_, endStatement_of_opensNothing hk hp h⟩
  | case13 =>
    cases hk with
    | returning hk => exact ⟨_, endStatement_of_opensNothing hk hp.left h⟩
  -- only the head of a `for` goes on behind a semicolon
  | case16 | case17 | case18 =>
    cases hk
    exact absurd (by simp) hp.2
  | _ => cases h

/-- Without an open block and outside the head of a `for`, a semicolon ends the statement. -/
theorem step_semicolon_finished {b : ParseState} (hb : b.Reached .statement p)
    (hp : OpensNothing p) (h : b.step (.symbol .semicolon) = .shift c) : ∃ s, c = .finished s := by
  cases b with
  | complete e k =>
    obtain ⟨q, ts, rfl, hk, _⟩ := hb
    exact close_of_opensNothing hk hp.left h
  | ended s k =>
    obtain ⟨q, ts, rfl, hk, _⟩ := hb
    exact ⟨_, endStatement_of_opensNothing hk hp.left h⟩
  | concluded e body a k =>
    obtain ⟨q, ts, rfl, hk, _⟩ := hb
    exact conclude_of_opensNothing hk hp.left h
  | afterConsequence e body k =>
    obtain ⟨q, ts, us, rfl, hk, _⟩ := hb
    exact conclude_of_opensNothing hk hp.left.left h
  | returnValue k =>
    obtain ⟨q, rfl, hk⟩ := hb
    exact ⟨_, endStatement_of_opensNothing hk hp.left h⟩
  | forStart k | forCondition start k =>
    cases hb
    exact absurd (by simp) hp.2
  | _ => cases h

end ParseState

theorem openBraces_of_plain {ts : List Located} (h : ∀ t ∈ ts, t.token.Plain) :
    openBraces ts = 0 := by
  rw [openBraces_eq_foldl]
  induction ts with
  | nil => rfl
  | cons t ts ih =>
    obtain ⟨⟨hopen, hclose, _⟩, hts⟩ := List.forall_mem_cons.mp h
    have hdepth : t.token.depthAfter 0 = 0 := by
      rw [Token.depthAfter] <;> assumption
    rw [List.map_cons, List.foldl_cons, hdepth, ih hts]

theorem statement_step_starts {t : Token} (ht : t.startsStatement) :
    ∃ b, (ParseState.statement .goal).step t = .shift b := by
  cases t with
  | keyword k => exact statement_step_keyword ht
  | _ => cases ht

/-- The rest of a simple unit from the place where reading stops. -/
theorem simple_rest {body taken rest : List Located} {stop t : Located}
    (h : body ++ [stop] = taken ++ t :: rest) :
    ∃ left, body = taken ++ left ∧ t :: rest = left ++ [stop] := by
  rcases List.append_eq_append_iff.mp h with ⟨left, htaken, hstop⟩ | ⟨left, hbody, hrest⟩
  · cases left with
    | nil => exact ⟨[], by simpa using htaken.symm, hstop.symm⟩
    | cons u left => simp at hstop
  · exact ⟨left, hbody, hrest⟩

/-- **A simple unit** contributes the same to every program, with at most one error. -/
theorem simple_contributes {body : List Located} {stop : Located}
    (hplain : ∀ t ∈ body, t.token.Plain) (hfor : ∀ t ∈ body, t.token ≠ .keyword .forWord)
    (hword : ∀ t ∈ body.tail, ¬ t.token.startsStatement)
    (hstop : stop.token = .symbol .semicolon) :
    ∃ p : Parsed, p.errors.length ≤ 1 ∧ Contributes (body ++ [stop]) p := by
  induction hn : body.length using Nat.strongRecOn generalizing body with
  | ind n ih =>
    rcases takes_or_stops (.statement .goal) (body ++ [stop]) with
      ⟨c, htakes⟩ | ⟨taken, t, rest, b, hsplit, htakes, hstops⟩
    · -- Everything is taken; the semicolon ends the statement.
      have htakes' := htakes
      rw [List.map_append] at htakes'
      obtain ⟨b, hbody, hlast⟩ := htakes'.of_append
      have hreached : b.Reached .statement (body.map Located.token) :=
        hbody.reached (Goal.statement.start_reached nofun)
      have hopens : OpensNothing (body.map Located.token) := by
        constructor
        · intro hmem
          obtain ⟨t, ht, htoken⟩ := List.mem_map.mp hmem
          exact (hplain t ht).1 htoken
        · intro hmem
          obtain ⟨t, ht, htoken⟩ := List.mem_map.mp hmem
          exact hfor t ht htoken
      cases hlast with
      | cons hstep hnil =>
        cases hnil
        rw [hstop] at hstep
        obtain ⟨s, rfl⟩ := step_semicolon_finished hreached hopens hstep
        exact ⟨Parsed.empty.withStatement s, Nat.zero_le 1, .of_finished htakes⟩
    · obtain ⟨left, rfl, hrest⟩ := simple_rest hsplit
      have hleft : ∀ u ∈ left, u.token.Plain := fun u hu => hplain u (List.mem_append_right _ hu)
      have hlater : taken ≠ [] → ∀ u ∈ left, ¬ u.token.startsStatement := by
        intro hne u hu
        refine hword u ?_
        rw [List.tail_append_of_ne_nil hne]
        exact List.mem_append_right _ hu
      rw [hsplit]
      cases hmove : b.step t.token with
      | shift c => exact absurd hmove (hstops c)
      | done s =>
        have hne : taken ≠ [] := by
          rintro rfl
          cases htakes
          exact startStatement_ne_done .goal t.token s hmove
        have hlt : left.length < n := by
          have hpos := List.length_pos_iff.mpr hne
          rw [List.length_append] at hn
          omega
        obtain ⟨p, hp, hcontributes⟩ :=
          ih left.length hlt hleft (fun u hu => hfor u (List.mem_append_right _ hu))
            (fun u hu => hlater hne u (List.mem_of_mem_tail hu)) rfl
        rw [← hrest] at hcontributes
        exact ⟨p.withStatement s, hp, .of_statement htakes (fun _ => hmove) hcontributes⟩
      | fail x =>
        have hend : t.token ≠ .endOfInput := by
          have hmem : t ∈ left ++ [stop] := hrest ▸ List.mem_cons_self
          rcases List.mem_append.mp hmem with ht | ht
          · exact (hleft t ht).2.2.2
          · rw [List.mem_singleton.mp ht, hstop]
            exact nofun
        have hno : ∀ u ∈ left, ¬ u.token.startsStatement := by
          by_cases hne : taken = []
          · -- A statement takes the keyword it may start with, so that is not the token at fault.
            subst hne
            cases htakes
            cases left with
            | nil => exact nofun
            | cons u left =>
              obtain ⟨rfl, _⟩ := List.cons.inj hrest
              refine List.forall_mem_cons.mpr ⟨fun hstarts => ?_, hword⟩
              obtain ⟨c, hc⟩ := statement_step_starts hstarts
              exact hstops c hc
          · exact hlater hne
        refine ⟨⟨[], [⟨x, t.token, t.position⟩]⟩, Nat.le_refl 1,
          .of_mistake htakes hmove hend fun tail => ?_⟩
        rw [openBraces_of_plain fun u hu => hplain u (List.mem_append_left _ hu), hrest,
          List.append_assoc]
        exact synchronize_plain hleft hno hstop _ tail

/-! ### Braced units -/

/-- Nothing is read only where nothing is left. -/
theorem peek_of_empty {ts : List Located} (hstatements : (parseProgram ts).statements = [])
    (herrors : (parseProgram ts).errors = []) : peek ts = .endOfInput := by
  fun_cases parseProgram ts with
  | case1 => rfl
  | case2 t ts hend => exact hend
  | case3 t ts hend s rest hparse =>
    rw [parseProgram_parsed hend hparse] at hstatements
    cases hstatements
  | case4 t ts hend e rest hparse => exact absurd herrors (parseProgram_failed hend hparse)

/-- Tokens that are read as one statement up to their semicolon are all taken by it. -/
theorem takes_of_single {ts : List Located} {e : Located} (he : e.token = .endOfInput)
    (hend : ∀ t ∈ ts, t.token ≠ .endOfInput)
    (hlast : (ts.map Located.token).getLast? = some (.symbol .semicolon))
    (hone : (parseProgram (ts ++ [e])).statements.length = 1)
    (hclean : (parseProgram (ts ++ [e])).errors = []) :
    ∃ s, Takes (.statement .goal) (ts.map Located.token) (.finished s) := by
  cases ts with
  | nil => cases hlast
  | cons t ts =>
    have hhead : t.token ≠ .endOfInput := hend t List.mem_cons_self
    cases hparse : Goal.statement.parse (t :: ts ++ [e]) with
    | failed error rest => exact absurd hclean (parseProgram_failed hhead hparse)
    | parsed s rest =>
      rw [show parseProgram (t :: ts ++ [e]) = (parseProgram rest).withStatement s from
        parseProgram_parsed hhead hparse] at hone hclean
      have hrest := peek_of_empty (List.length_eq_zero_iff.mp (Nat.succ_inj.mp hone)) hclean
      obtain ⟨taken, b, hsplit, _, htakes, hdone⟩ := parse_statement_takes hparse
      have hnot : e ∉ taken := fun hmem => htakes.ne_endOfInput _ (List.mem_map_of_mem hmem) he
      obtain ⟨left, hts, rfl⟩ := append_end_split hsplit hnot
      cases left with
      | nil =>
        rw [List.append_nil] at hts
        rw [← hts] at htakes
        rw [hrest] at hdone
        exact ⟨s, htakes.settled hlast s hdone ▸ htakes⟩
      | cons u left => exact absurd hrest (hend u (hts ▸ by simp))

/-- The head of a statement and a `{` open one frame, and behind the `}` of that frame a semicolon
ends the statement. -/
theorem HeadsStatement.opens {head : List Located} (h : HeadsStatement head)
    (hend : ∀ t ∈ head, t.token ≠ .endOfInput) :
    ∃ f a b s, Takes (.statement .goal) (head.map Located.token ++ [.symbol .leftBrace]) a ∧
      a.frames = [f] ∧ f.ClosedBy b ∧ b.step (.symbol .semicolon) = .shift (.finished s) := by
  obtain ⟨probe, hprobe, hone, hclean⟩ := h
  obtain ⟨o, _, rfl, ho, hprobe⟩ := List.map_eq_cons_iff.mp hprobe
  obtain ⟨c, _, rfl, hc, hprobe⟩ := List.map_eq_cons_iff.mp hprobe
  obtain ⟨m, _, rfl, hm, hprobe⟩ := List.map_eq_cons_iff.mp hprobe
  obtain ⟨e, _, rfl, he, hprobe⟩ := List.map_eq_cons_iff.mp hprobe
  obtain rfl := List.map_eq_nil_iff.mp hprobe
  have hend' : ∀ t ∈ head ++ [o, c, m], t.token ≠ .endOfInput := by
    intro t ht
    simp only [List.mem_append, List.mem_cons, List.not_mem_nil, or_false] at ht
    rcases ht with ht | rfl | rfl | rfl
    · exact hend t ht
    · simp [ho]
    · simp [hc]
    · simp [hm]
  rw [show head ++ [o, c, m, e] = head ++ [o, c, m] ++ [e] by simp] at hone hclean
  obtain ⟨s, htakes⟩ := takes_of_single he hend' (by simp [hm]) hone hclean
  rw [List.map_append] at htakes
  obtain ⟨b₀, hhead, hbraces⟩ := htakes.of_append
  simp only [List.map_cons, List.map_nil, ho, hc, hm] at hbraces
  obtain _ | ⟨hopen, _ | ⟨hclose, _ | ⟨hfinish, _ | _⟩⟩⟩ := hbraces
  obtain ⟨f, hclosed, hframes⟩ := step_reframes hclose
  rw [← show [] = _ from step_reframes hfinish] at hframes
  exact ⟨f, _, _, s, hhead.snoc hopen, hframes, hclosed, hfinish⟩

theorem Braced.exists_cons {ts : List Token} (h : Braced ts) :
    ∃ rest, ts = .symbol .leftBrace :: rest ∧ ClosesAtEnd 1 rest := by
  rw [Braced.eq_def] at h
  split at h
  · exact ⟨_, rfl, h⟩
  · exact h.elim

/-- **A braced unit** contributes the same to every program, with at most one error. -/
theorem braced_contributes {head body : List Located} {stop : Located}
    (hhead : ∀ t ∈ head, t.token ≠ .endOfInput) (hheads : HeadsStatement head)
    (hbody : ∀ t ∈ body, t.token ≠ .endOfInput) (hbraced : Braced (body.map Located.token))
    (hstop : stop.token = .symbol .semicolon) :
    ∃ p : Parsed, p.errors.length ≤ 1 ∧ Contributes (head ++ body ++ [stop]) p := by
  obtain ⟨f, a, b, s, hopened, hframes, hclosed, hfinish⟩ := hheads.opens hhead
  obtain ⟨rest, hcons, hends⟩ := hbraced.exists_cons
  obtain ⟨o, inner, rfl, ho, rfl⟩ := List.map_eq_cons_iff.mp hcons
  rw [← ho, ← List.map_singleton (f := Located.token), ← List.map_append] at hopened
  rcases takes_enclosed hclosed.isBrace hframes hends with
    ⟨c, hinner, hc⟩ | ⟨taken, t, rest, b, x, rfl, htaken, hfail, hpos, hrest⟩
  · -- The content of the braces is sound.
    obtain ⟨r, hr⟩ := hclosed.finishes hc hfinish
    have hall := hopened.append (hinner.snoc hr)
    rw [← hstop, ← List.map_singleton (f := Located.token), ← List.map_append,
      ← List.map_append] at hall
    refine ⟨Parsed.empty.withStatement r, Nat.zero_le 1, ?_⟩
    simpa using Contributes.of_finished hall
  · have hall := hopened.append htaken
    rw [← List.map_append] at hall
    have hends : ∀ u ∈ t :: rest, u.token ≠ .endOfInput :=
      fun u hu => hbody u (List.mem_cons_of_mem o (List.mem_append_right taken hu))
    have hsplit : head ++ o :: (taken ++ t :: rest) ++ [stop] =
        head ++ [o] ++ taken ++ t :: (rest ++ [stop]) := by simp
    rw [hsplit]
    refine ⟨⟨[], [⟨x, t.token, t.position⟩]⟩, Nat.le_refl 1,
      .of_mistake hall hfail (hends t List.mem_cons_self) fun tail => ?_⟩
    have hskip := synchronize_closesAtEnd hpos hrest hends (!(head ++ [o] ++ taken).isEmpty)
      (stop :: tail)
    rw [skipSemicolon_cons hstop] at hskip
    rw [hall.openBraces_eq rfl]
    simpa using hskip

/-! ## Programs of units -/

theorem ProgramUnit.contributes {u : List Located} (h : ProgramUnit u) :
    ∃ p : Parsed, p.errors.length ≤ 1 ∧ Contributes u p := by
  cases h with
  | braced hhead hheads hbody hbraced hstop =>
    exact braced_contributes hhead hheads hbody hbraced hstop
  | @simple body stop hplain hfirst hword hstop =>
    refine simple_contributes hplain (fun t ht htoken => ?_) hword hstop
    cases body with
    | nil => cases ht
    | cons u body =>
      rcases List.mem_cons.mp ht with rfl | ht
      · exact hfirst htoken
      · exact hword t ht (htoken ▸ rfl)

theorem parseProgram_endOfInput {e : Located} (he : e.token = .endOfInput) :
    parseProgram [e] = Parsed.empty := by
  rw [parseProgram, dif_pos he]

theorem Contributes.eq_parseProgram {u : List Located} {p : Parsed} (h : Contributes u p)
    {e : Located} (he : e.token = .endOfInput) : parseProgram (u ++ [e]) = p := by
  rw [h [e], parseProgram_endOfInput he, Parsed.append, Parsed.empty, List.append_nil,
    List.append_nil]

/-- **Mistakes stay in their unit.**  A program made of units gives the statements of its units and
the errors of its units, in their order, as if each had been read alone, and each of them has at
most one error. -/
theorem parseProgram_units {units : List (List Located)} (hunits : ∀ u ∈ units, ProgramUnit u)
    {e e' : Located} (he : e.token = .endOfInput) (he' : e'.token = .endOfInput) :
    (parseProgram (units.flatten ++ [e])).statements =
        units.flatMap (fun u => (parseProgram (u ++ [e'])).statements) ∧
      (parseProgram (units.flatten ++ [e])).errors =
        units.flatMap (fun u => (parseProgram (u ++ [e'])).errors) ∧
      ∀ u ∈ units, (parseProgram (u ++ [e'])).errors.length ≤ 1 := by
  induction units with
  | nil =>
    rw [List.flatten_nil, List.nil_append, parseProgram_endOfInput he]
    exact ⟨rfl, rfl, nofun⟩
  | cons u units ih =>
    obtain ⟨hu, hunits⟩ := List.forall_mem_cons.mp hunits
    obtain ⟨p, hp, hcontributes⟩ := hu.contributes
    obtain ⟨hstatements, herrors, hone⟩ := ih hunits
    have halone := hcontributes.eq_parseProgram he'
    rw [List.flatten_cons, List.append_assoc, hcontributes, Parsed.append, hstatements, herrors,
      List.flatMap_cons, List.flatMap_cons, halone]
    exact ⟨rfl, rfl, List.forall_mem_cons.mpr ⟨halone ▸ hp, hone⟩⟩

/-- Tokens at one position. -/
def placed (ts : List Token) : List Located := ts.map fun t => ⟨t, ⟨1, 1⟩⟩

def functionHead : List Token :=
  [.keyword .fnWord, .name "f", .symbol .leftParen, .symbol .rightParen]

/-- `{ let ] { ( ; if } ; }` -/
def brokenBody : List Token :=
  [.symbol .leftBrace, .keyword .letWord, .symbol .rightBracket, .symbol .leftBrace,
    .symbol .leftParen, .symbol .semicolon, .keyword .ifWord, .symbol .rightBrace,
    .symbol .semicolon, .symbol .rightBrace]

/-- A function with a broken body, a broken `if` and a sound statement. -/
def brokenUnits : List (List Located) :=
  [placed functionHead ++ placed brokenBody ++ placed [.symbol .semicolon],
    placed [.keyword .ifWord, .symbol .leftParen, .name "x"] ++ placed [.symbol .semicolon],
    placed [.name "y"] ++ placed [.symbol .semicolon]]

theorem parseProgram_units_broken :
    let e : Located := ⟨.endOfInput, ⟨1, 1⟩⟩
    (∀ u ∈ brokenUnits, ProgramUnit u) ∧
      (parseProgram (brokenUnits.flatten ++ [e])).errors.length = 2 ∧
      (parseProgram (brokenUnits.flatten ++ [e])).statements =
        brokenUnits.flatMap (fun u => (parseProgram (u ++ [e])).statements) ∧
      (parseProgram (brokenUnits.flatten ++ [e])).errors =
        brokenUnits.flatMap (fun u => (parseProgram (u ++ [e])).errors) ∧
      ∀ u ∈ brokenUnits, (parseProgram (u ++ [e])).errors.length ≤ 1 := by
  intro e
  have hunits : ∀ u ∈ brokenUnits, ProgramUnit u := by
    refine List.forall_mem_cons.mpr ⟨?_, List.forall_mem_cons.mpr ⟨?_, List.forall_mem_cons.mpr
      ⟨?_, nofun⟩⟩⟩
    · refine .braced (by decide) ⟨placed [.symbol .leftBrace, .symbol .rightBrace,
        .symbol .semicolon, .endOfInput], rfl, by decide +kernel, by decide +kernel⟩
        (by decide) ?_ rfl
      simp [Braced, ClosesAtEnd, placed, brokenBody]
    · exact .simple (by decide) (by decide) (by decide) rfl
    · exact .simple (by decide) (by decide) (by decide) rfl
  exact ⟨hunits, by decide +kernel, parseProgram_units hunits rfl rfl⟩

end Scriptlet
