import Scriptlet.Proofs.Syntax.Recovery

/-!
# Brackets are nested

Resumption counts braces over bare tokens (`openBraces`), and the reader keeps the brackets that
stand open in its contexts (`ParseState.frames`).  This module says what the bare tokens look like:
`Balanced` and `LeavesOpen` are the grammar of nested brackets of three kinds, said without the
reader, and `BracketKind.nest` finds the open brackets of any tokens with a stack
(`leavesOpen_iff`).

From the start of a goal, that stack is at each token the list of the frames of the reader
(`ParseState.Takes.foldlM_nest`).  So the tokens taken are nested wherever reading stops, and the
count of braces never meets a `}` that closes nothing.

* `brackets_are_nested`: the brackets among the tokens that a goal takes, whether it is reached or
  not.
-/

namespace Scriptlet

/-! ## Nesting -/

/-- The kinds of brackets. -/
inductive BracketKind where
  | paren
  | square
  | brace
  deriving DecidableEq

namespace BracketKind

def opening : BracketKind → Token
  | .paren => .symbol .leftParen
  | .square => .symbol .leftBracket
  | .brace => .symbol .leftBrace

def closing : BracketKind → Token
  | .paren => .symbol .rightParen
  | .square => .symbol .rightBracket
  | .brace => .symbol .rightBrace

end BracketKind

def Token.NoBracket (t : Token) : Prop := ∀ b : BracketKind, t ≠ b.opening ∧ t ≠ b.closing

/-- Each bracket is closed by one of its own kind, with balanced tokens between the two. -/
inductive Balanced : List Token → Prop where
  | nil : Balanced []
  | other {t : Token} {ts : List Token} : t.NoBracket → Balanced ts → Balanced (t :: ts)
  | enclosed (b : BracketKind) {ts us : List Token} :
      Balanced ts → Balanced us → Balanced (b.opening :: (ts ++ b.closing :: us))

/-- The tokens are balanced but for the opening brackets listed, the last one first. -/
inductive LeavesOpen : List BracketKind → List Token → Prop where
  | balanced {ts : List Token} : Balanced ts → LeavesOpen [] ts
  | opened (b : BracketKind) {bs : List BracketKind} {ts us : List Token} :
      LeavesOpen bs ts → Balanced us → LeavesOpen (b :: bs) (ts ++ b.opening :: us)

/-- No bracket is closed by one of another kind, and none is closed that was not opened. -/
def Nested (ts : List Token) : Prop := ∃ bs, LeavesOpen bs ts

theorem Balanced.append {ts us : List Token} (hts : Balanced ts) (hus : Balanced us) :
    Balanced (ts ++ us) := by
  induction hts with
  | nil => exact hus
  | other ht _ ih => exact .other ht ih
  | enclosed b hinner _ _ ih =>
    rw [List.cons_append, List.append_assoc, List.cons_append]
    exact .enclosed b hinner ih

theorem LeavesOpen.append_balanced {bs : List BracketKind} {ts us : List Token}
    (hts : LeavesOpen bs ts) (hus : Balanced us) : LeavesOpen bs (ts ++ us) := by
  cases hts with
  | balanced hts => exact .balanced (hts.append hus)
  | opened b hts hinner =>
    rw [List.append_assoc, List.cons_append]
    exact .opened b hts (hinner.append hus)

theorem leavesOpen_nil_iff {ts : List Token} : LeavesOpen [] ts ↔ Balanced ts := by
  constructor
  · intro h
    cases h with
    | balanced h => exact h
  · exact .balanced

/-! ## The stack of open brackets -/

namespace BracketKind

/-- Closes the innermost bracket, if it is of this kind. -/
def close (b : BracketKind) : List BracketKind → Option (List BracketKind)
  | [] => none
  | c :: bs => if c = b then some bs else none

/-- The open brackets behind a token, innermost first; none if it closes a bracket that is not the
innermost one. -/
def nest (bs : List BracketKind) (t : Token) : Option (List BracketKind) :=
  match t with
  | .symbol .leftParen => some (.paren :: bs)
  | .symbol .leftBracket => some (.square :: bs)
  | .symbol .leftBrace => some (.brace :: bs)
  | .symbol .rightParen => close .paren bs
  | .symbol .rightBracket => close .square bs
  | .symbol .rightBrace => close .brace bs
  | _ => some bs

variable {bs cs : List BracketKind} {t : Token} {ts : List Token}

theorem nest_opening (b : BracketKind) (bs : List BracketKind) :
    nest bs b.opening = some (b :: bs) := by
  cases b <;> rfl

theorem close_eq_some_iff {b : BracketKind} : b.close bs = some cs ↔ bs = b :: cs := by
  cases bs with
  | nil => simp [close]
  | cons c bs => simp [close]

theorem nest_closing_iff {b : BracketKind} : nest bs b.closing = some cs ↔ bs = b :: cs := by
  have hclose : nest bs b.closing = b.close bs := by cases b <;> rfl
  rw [hclose, close_eq_some_iff]

theorem nest_other (h : t.NoBracket) (bs : List BracketKind) : nest bs t = some bs := by
  rw [nest]
  · exact (h .paren).1
  · exact (h .square).1
  · exact (h .brace).1
  · exact (h .paren).2
  · exact (h .square).2
  · exact (h .brace).2

/-- A token opens a bracket, or closes the innermost one, or is none. -/
theorem nest_cases (h : nest bs t = some cs) :
    (∃ b : BracketKind, t = b.opening ∧ cs = b :: bs) ∨
      (∃ b : BracketKind, t = b.closing ∧ bs = b :: cs) ∨ t.NoBracket ∧ cs = bs := by
  by_cases hopening : ∃ b : BracketKind, t = b.opening
  · obtain ⟨b, rfl⟩ := hopening
    rw [nest_opening] at h
    exact Or.inl ⟨b, rfl, (Option.some.inj h).symm⟩
  by_cases hclosing : ∃ b : BracketKind, t = b.closing
  · obtain ⟨b, rfl⟩ := hclosing
    exact Or.inr (Or.inl ⟨b, rfl, nest_closing_iff.mp h⟩)
  · -- What neither opens nor closes is no bracket by definition; no list of tokens is needed.
    have hother : t.NoBracket := fun b => ⟨not_exists.mp hopening b, not_exists.mp hclosing b⟩
    rw [nest_other hother] at h
    exact Or.inr (Or.inr ⟨hother, (Option.some.inj h).symm⟩)

theorem foldlM_nest_cons (h : nest bs t = some cs) (ts : List Token) :
    (t :: ts).foldlM nest bs = ts.foldlM nest cs := by
  rw [List.foldlM_cons, h]
  rfl

theorem foldlM_nest_append (h : ts.foldlM nest bs = some cs) (us : List Token) :
    (ts ++ us).foldlM nest bs = us.foldlM nest cs := by
  rw [List.foldlM_append, h]
  rfl

theorem exists_of_foldlM_nest_cons (h : (t :: ts).foldlM nest bs = some cs) :
    ∃ ds, nest bs t = some ds ∧ ts.foldlM nest ds = some cs := by
  rw [List.foldlM_cons] at h
  exact Option.bind_eq_some_iff.mp h

end BracketKind

open BracketKind

theorem Balanced.foldlM_nest {ts : List Token} (h : Balanced ts) (bs : List BracketKind) :
    ts.foldlM nest bs = some bs := by
  induction h generalizing bs with
  | nil => rfl
  | other ht _ ih =>
    rw [foldlM_nest_cons (nest_other ht bs)]
    exact ih bs
  | enclosed b _ _ ihinner ih =>
    rw [foldlM_nest_cons (b.nest_opening bs), foldlM_nest_append (ihinner (b :: bs)),
      foldlM_nest_cons (nest_closing_iff.mpr rfl)]
    exact ih bs

theorem LeavesOpen.foldlM_nest {bs : List BracketKind} {ts : List Token} (h : LeavesOpen bs ts) :
    ts.foldlM nest [] = some bs := by
  induction h with
  | balanced h => exact h.foldlM_nest []
  | @opened b bs ts us _ hus ih =>
    rw [foldlM_nest_append ih, foldlM_nest_cons (b.nest_opening bs)]
    exact hus.foldlM_nest (b :: bs)

theorem LeavesOpen.concat {bs cs : List BracketKind} {ts : List Token} {t : Token}
    (h : LeavesOpen bs ts) (ht : nest bs t = some cs) : LeavesOpen cs (ts ++ [t]) := by
  rcases nest_cases ht with ⟨b, rfl, rfl⟩ | ⟨b, rfl, rfl⟩ | ⟨hother, rfl⟩
  · exact .opened b h .nil
  · cases h with
    | opened _ hts hinner =>
      rw [List.append_assoc, List.cons_append]
      exact hts.append_balanced (.enclosed b hinner .nil)
  · exact h.append_balanced (.other hother .nil)

theorem LeavesOpen.append {bs cs : List BracketKind} {ts us : List Token} (h : LeavesOpen bs ts)
    (hus : us.foldlM nest bs = some cs) : LeavesOpen cs (ts ++ us) := by
  induction us generalizing bs ts with
  | nil =>
    obtain rfl : bs = cs := Option.some.inj hus
    rwa [List.append_nil]
  | cons u us ih =>
    obtain ⟨ds, hu, hus⟩ := exists_of_foldlM_nest_cons hus
    rw [List.append_cons]
    exact ih (h.concat hu) hus

/-- **The stack finds the brackets that the tokens leave open.** -/
theorem leavesOpen_iff {bs : List BracketKind} {ts : List Token} :
    LeavesOpen bs ts ↔ ts.foldlM nest [] = some bs :=
  ⟨LeavesOpen.foldlM_nest, (LeavesOpen.balanced .nil).append⟩

instance (bs : List BracketKind) (ts : List Token) : Decidable (LeavesOpen bs ts) :=
  decidable_of_iff _ leavesOpen_iff.symm

instance (ts : List Token) : Decidable (Balanced ts) := decidable_of_iff _ leavesOpen_nil_iff

example : Balanced [.symbol .leftParen, .symbol .leftBracket, .comment, .symbol .rightBracket,
    .symbol .leftBrace, .symbol .rightBrace, .symbol .rightParen] := by decide

example : ¬ Balanced [.symbol .leftParen, .symbol .leftBracket, .symbol .rightParen,
    .symbol .rightBracket] := by decide

/-! ### Counting -/

theorem BracketKind.count_nest (b : BracketKind) {bs cs : List BracketKind} {t : Token}
    (h : nest bs t = some cs) :
    [t].count b.opening + bs.count b = [t].count b.closing + cs.count b := by
  rcases nest_cases h with ⟨c, rfl, rfl⟩ | ⟨c, rfl, rfl⟩ | ⟨hother, rfl⟩
  · cases b <;> cases c <;> simp [opening, closing, Nat.add_comm]
  · cases b <;> cases c <;> simp [opening, closing, Nat.add_comm]
  · rw [List.count_cons_of_ne (hother b).1, List.count_cons_of_ne (hother b).2]
    rfl

theorem BracketKind.count_foldlM_nest (b : BracketKind) {bs cs : List BracketKind} {ts : List Token}
    (h : ts.foldlM nest bs = some cs) :
    ts.count b.opening + bs.count b = ts.count b.closing + cs.count b := by
  induction ts generalizing bs with
  | nil =>
    obtain rfl : bs = cs := Option.some.inj h
    rfl
  | cons t ts ih =>
    obtain ⟨ds, ht, hts⟩ := exists_of_foldlM_nest_cons h
    have hfirst := b.count_nest ht
    have hrest := ih hts
    rw [← List.singleton_append, List.count_append, List.count_append]
    omega

/-- Brackets of a kind are opened as often as they are closed or left open. -/
theorem LeavesOpen.count_opening {bs : List BracketKind} {ts : List Token} (h : LeavesOpen bs ts)
    (b : BracketKind) : ts.count b.opening = ts.count b.closing + bs.count b :=
  b.count_foldlM_nest h.foldlM_nest

/-! ## The brackets that the reader takes -/

def Frame.kind : Frame → BracketKind
  | .paren => .paren
  | .bracket => .square
  | .object _ | .block _ => .brace

theorem Frame.kind_of_isBrace {f : Frame} (h : f.isBrace) : f.kind = .brace := by
  cases f with
  | object | block => rfl
  | paren | bracket => cases h

theorem count_kind_eq_braceCount (fs : List Frame) :
    (fs.map Frame.kind).count .brace = braceCount fs := by
  rw [List.count, List.countP_map, braceCount]
  refine List.countP_congr fun f _ => ?_
  cases f <;> simp [Frame.kind, Frame.isBrace]

/-- The kinds of the brackets open in a state, innermost first. -/
def ParseState.openBrackets (a : ParseState) : List BracketKind := a.frames.map Frame.kind

theorem Token.Reframes.nest_eq {t : Token} {fs : List Frame} {b : ParseState}
    (h : t.Reframes fs b) : nest (fs.map Frame.kind) t = some b.openBrackets := by
  rw [ParseState.openBrackets]
  unfold Token.Reframes at h
  split at h
  · rw [h]
    rfl
  · rw [h]
    rfl
  · obtain ⟨f, hf, hframes⟩ := h
    rw [hframes, List.map_cons, Frame.kind_of_isBrace hf]
    rfl
  · rw [h]
    rfl
  · rw [h]
    rfl
  · obtain ⟨f, hf, rfl⟩ := h
    rw [List.map_cons, Frame.kind_of_isBrace hf.isBrace]
    rfl
  · rw [h, nest] <;> assumption

theorem Goal.frames_start (goal : Goal) : goal.start.frames = [] := by
  cases goal <;> rfl

namespace ParseState

/-- **The stack of the bare tokens is that of the frames.** -/
theorem Takes.foldlM_nest {a b : ParseState} {ts : List Token} (h : Takes a ts b) :
    ts.foldlM nest a.openBrackets = some b.openBrackets := by
  induction h with
  | nil => rfl
  | @cons a b c t ts hstep _ ih =>
    have hnest : nest a.openBrackets t = some b.openBrackets := (step_reframes hstep).nest_eq
    rw [foldlM_nest_cons hnest]
    exact ih

variable {goal : Goal} {b : ParseState}

theorem Takes.leavesOpen {ts : List Token} (h : Takes goal.start ts b) :
    LeavesOpen b.openBrackets ts := by
  have hscan := h.foldlM_nest
  rw [openBrackets, goal.frames_start] at hscan
  exact leavesOpen_iff.mpr hscan

theorem Takes.openBraces_eq_count {taken : List Located}
    (h : Takes goal.start (taken.map Located.token) b) :
    openBraces taken = b.openBrackets.count .brace := by
  rw [h.openBraces_eq goal.frames_start, openBrackets, count_kind_eq_braceCount]

end ParseState

/-! ## Goals -/

/-- The tokens that are taken for a goal, as `resume` cuts them off. -/
def Goal.taken (goal : Goal) (tokens : List Located) : List Located :=
  tokens.take (tokens.length - (goal.parse tokens).rest.length)

theorem Goal.taken_append {goal : Goal} {taken rest : List Located}
    (h : (goal.parse (taken ++ rest)).rest = rest) : goal.taken (taken ++ rest) = taken := by
  rw [Goal.taken, h, List.length_append, Nat.add_sub_cancel, List.take_left]

/-- What is taken leads to a state, and to one without frames if the goal is reached. -/
theorem Goal.takes_taken (goal : Goal) (tokens : List Located) :
    tokens = goal.taken tokens ++ (goal.parse tokens).rest ∧
      ∃ b, ParseState.Takes goal.start ((goal.taken tokens).map Located.token) b ∧
        ∀ s rest, goal.parse tokens = .parsed s rest → b.frames = [] := by
  cases h : goal.parse tokens with
  | parsed s rest =>
    obtain ⟨taken, b, rfl, htakes, hdone⟩ := ParseState.run_parsed_takes h
    rw [goal.taken_append (by rw [h, Outcome.rest])]
    exact ⟨rfl, b, htakes, fun _ _ _ => ParseState.frames_of_done hdone⟩
  | failed e rest =>
    obtain ⟨taken, b, rfl, htakes, _⟩ := ParseState.run_failed_takes h
    rw [goal.taken_append (by rw [h, Outcome.rest])]
    refine ⟨rfl, b, htakes, fun _ _ hparsed => ?_⟩
    cases hparsed

def openedBraces (ts : List Located) : Nat :=
  (ts.map Located.token).count (.symbol .leftBrace)

def closedBraces (ts : List Located) : Nat :=
  (ts.map Located.token).count (.symbol .rightBrace)

/-- In front of any of the tokens taken, the open braces are those opened and not yet closed. -/
theorem Goal.openBraces_taken {goal : Goal} {tokens p : List Located}
    (hp : p <+: goal.taken tokens) : openedBraces p = closedBraces p + openBraces p := by
  -- The front part leads to a state of its own, whose frames say what is open there.
  obtain ⟨q, hq⟩ := hp
  obtain ⟨_, b, htakes, _⟩ := goal.takes_taken tokens
  rw [← hq, List.map_append] at htakes
  obtain ⟨c, hc, _⟩ := htakes.of_append
  rw [hc.openBraces_eq_count]
  exact hc.leavesOpen.count_opening .brace

/-- **Brackets are nested.**  Whether a goal is reached or not, the tokens taken for it are nested,
and balanced if it is reached.  In each front part of them, the whole included, no more braces are
closed than opened, and `openBraces` is exactly the difference: it never meets a `}` with no brace
open. -/
theorem brackets_are_nested (goal : Goal) (tokens : List Located) :
    tokens = goal.taken tokens ++ (goal.parse tokens).rest ∧
      (∀ p, p <+: goal.taken tokens →
        closedBraces p ≤ openedBraces p ∧
        (openBraces p : Int) = openedBraces p - closedBraces p) ∧
      (∀ p t, p ++ [t] <+: goal.taken tokens → t.token = .symbol .rightBrace →
        0 < openBraces p) ∧
      Nested ((goal.taken tokens).map Located.token) ∧
      ∀ s rest, goal.parse tokens = .parsed s rest →
        Balanced ((goal.taken tokens).map Located.token) := by
  obtain ⟨hsplit, b, htakes, hreached⟩ := goal.takes_taken tokens
  refine ⟨hsplit, ?_, ?_, ⟨_, htakes.leavesOpen⟩, ?_⟩
  · intro p hp
    have hcount := Goal.openBraces_taken hp
    omega
  · intro p t hp ht
    have hfront := Goal.openBraces_taken ((List.prefix_append p [t]).trans hp)
    have hbehind := Goal.openBraces_taken hp
    have hopened : openedBraces (p ++ [t]) = openedBraces p := by simp [openedBraces, ht]
    have hclosed : closedBraces (p ++ [t]) = closedBraces p + 1 := by simp [closedBraces, ht]
    omega
  · intro s rest h
    have hopen := htakes.leavesOpen
    rw [ParseState.openBrackets, hreached s rest h] at hopen
    exact leavesOpen_nil_iff.mp hopen

/-- `f({k: [{}, a` -/
def openCall : List Located :=
  placed [.name "f", .symbol .leftParen, .symbol .leftBrace, .name "k", .symbol .colon,
    .symbol .leftBracket, .symbol .leftBrace, .symbol .rightBrace, .symbol .comma, .name "a"]

/-- A `)` that would cross the open `[` and `{` is refused; the three closing brackets in their
order are taken. -/
theorem brackets_are_nested_openCall :
    let crossing := placed [.symbol .rightParen]
    let closing := placed [.symbol .rightBracket, .symbol .rightBrace, .symbol .rightParen]
    (∃ e, Goal.statement.parse (openCall ++ crossing) = .failed e crossing) ∧
      Nested (openCall.map Located.token) ∧
      (openBraces openCall : Int) = 2 - 1 ∧
      0 < openBraces (openCall.take 7) ∧
      (∃ s, Goal.statement.parse (openCall ++ closing) = .parsed s []) ∧
      Balanced ((openCall ++ closing).map Located.token) := by
  intro crossing closing
  have hfailed : Goal.statement.parse (openCall ++ crossing) =
    .failed ⟨.commaOr .rightBracket, .symbol .rightParen, ⟨1, 1⟩⟩ crossing := rfl
  have htaken : Goal.statement.taken (openCall ++ crossing) = openCall :=
    Goal.taken_append (by rw [hfailed, Outcome.rest])
  obtain ⟨s, hparsed⟩ : ∃ s, Goal.statement.parse (openCall ++ closing) = .parsed s [] :=
    ⟨_, rfl⟩
  obtain ⟨_, hcounts, hpositive, hnested, _⟩ :=
    brackets_are_nested .statement (openCall ++ crossing)
  obtain ⟨hsplit, _, _, _, hbalanced⟩ := brackets_are_nested .statement (openCall ++ closing)
  rw [htaken] at hcounts hpositive hnested
  rw [hparsed, Outcome.rest, List.append_nil] at hsplit
  have hcount := (hcounts openCall List.prefix_rfl).2
  have hopen := hpositive (openCall.take 7) ⟨.symbol .rightBrace, ⟨1, 1⟩⟩
    (List.take_prefix 8 openCall) rfl
  exact ⟨⟨_, hfailed⟩, hnested, hcount, hopen, ⟨s, hparsed⟩, hsplit ▸ hbalanced s [] hparsed⟩

end Scriptlet
