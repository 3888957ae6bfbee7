import Scriptlet.Proofs.Eval.Sequence
import Scriptlet.Proofs.Transform.Congruence

/-!
# Statements behind a return

A list of statements never gets behind its first `return`.  `Block.pruned` removes what stands
there, in every list of a program: at the top level, in blocks, branches and loops, and in the
bodies of functions.  The program and the pruned one then run in step: with the same fuel they make
the same scopes, with values that differ only in the bodies of their closures, and end alike
(`code_after_return_is_dead`).

A list alone does more: with or without the statements behind a `return` it leaves exactly the same
state (`statements_after_return`), so none of their names is bound.
-/

namespace Scriptlet

def Statement.isReturn : Statement → Bool
  | .returning _ => true
  | _ => false

/-! ## Pruned trees -/

mutual

/-- The expression without the statements behind a `return`. -/
def Expr.pruned : Expr → Expr
  | .literal l => .literal l
  | .name x => .name x
  | .binary op a b => .binary op a.pruned b.pruned
  | .unary op a => .unary op a.pruned
  | .call f es => .call f.pruned (Expr.prunedList es)
  | .member a key => .member a.pruned key
  | .index a i => .index a.pruned i.pruned
  | .assign x a => .assign x a.pruned
  | .array es => .array (Expr.prunedList es)
  | .object ps => .object (Expr.prunedProperties ps)
  | .function parameters body => .function parameters (Block.pruned body)

def Expr.prunedList : List Expr → List Expr
  | [] => []
  | e :: es => e.pruned :: Expr.prunedList es

def Expr.prunedProperties : List (String × Expr) → List (String × Expr)
  | [] => []
  | p :: ps => Expr.prunedProperty p :: Expr.prunedProperties ps

def Expr.prunedProperty : String × Expr → String × Expr
  | (key, e) => (key, e.pruned)

def Expr.prunedOption : Option Expr → Option Expr
  | none => none
  | some e => some e.pruned

/-- The statement without the statements behind a `return` in one of its lists. -/
def Statement.pruned : Statement → Statement
  | .declare constant x e => .declare constant x e.pruned
  | .expression e => .expression e.pruned
  | .block body => .block (Block.pruned body)
  | .ifElse c body a => .ifElse c.pruned (Block.pruned body) a.pruned
  | .whileLoop c body => .whileLoop c.pruned (Block.pruned body)
  | .forLoop start c u body =>
    .forLoop (Statement.prunedOption start) (Expr.prunedOption c) (Expr.prunedOption u)
      (Block.pruned body)
  | .function x parameters body => .function x parameters (Block.pruned body)
  | .returning e => .returning (Expr.prunedOption e)

def Statement.prunedOption : Option Statement → Option Statement
  | none => none
  | some st => some st.pruned

def Alternative.pruned : Alternative → Alternative
  | .absent => .absent
  | .block body => .block (Block.pruned body)
  | .elseIf c body a => .elseIf c.pruned (Block.pruned body) a.pruned

/-- The list up to and with its first `return`, and its statements pruned. -/
def Block.pruned : List Statement → List Statement
  | [] => []
  | st :: rest => st.pruned :: if st.isReturn then [] else Block.pruned rest

end

/-- Trees and the trees pruned. -/
def pruning : TreeRel where
  expr e e' := e' = e.pruned
  statement st st' := st' = st.pruned
  alternative a a' := a' = a.pruned
  block body body' := body' = Block.pruned body

/-! A tree keeps its construct, other than in a list of statements. -/

theorem Expr.prunedList_forall₂ (es : List Expr) :
    List.Forall₂ pruning.expr es (Expr.prunedList es) := by
  induction es with
  | nil => exact .nil
  | cons e es ih => exact .cons rfl ih

theorem Expr.prunedProperties_like (ps : List (String × Expr)) :
    Fields.Like pruning.expr ps (Expr.prunedProperties ps) := by
  induction ps with
  | nil => exact .nil
  | cons p ps ih =>
    obtain ⟨key, e⟩ := p
    have he : pruning.expr e e.pruned := rfl
    exact .cons (.mk key he) ih

theorem Expr.prunedOption_rel (e : Option Expr) :
    Option.Rel pruning.expr e (Expr.prunedOption e) := by
  cases e with
  | none => exact .none
  | some e => exact .some rfl

theorem Statement.prunedOption_rel (st : Option Statement) :
    Option.Rel pruning.statement st (Statement.prunedOption st) := by
  cases st with
  | none => exact .none
  | some st => exact .some rfl

theorem Expr.pruned_keeps (e : Expr) : Expr.Keeps pruning e e.pruned := by
  cases e with
  | literal l => exact .literal l
  | name x => exact .name x
  | binary op a b => exact .binary op rfl rfl
  | unary op a => exact .unary op rfl
  | call f es => exact .call rfl (Expr.prunedList_forall₂ es)
  | member a key => exact .member key rfl
  | index a i => exact .index rfl rfl
  | assign x a => exact .assign x rfl
  | array es => exact .array (Expr.prunedList_forall₂ es)
  | object ps => exact .object (Expr.prunedProperties_like ps)
  | function parameters body => exact .function parameters rfl

theorem Statement.pruned_keeps (st : Statement) : Statement.Keeps pruning st st.pruned := by
  cases st with
  | declare constant x e => exact .declare constant x rfl
  | expression e => exact .expression rfl
  | block body => exact .block rfl
  | ifElse c body a => exact .ifElse rfl rfl rfl
  | whileLoop c body => exact .whileLoop rfl rfl
  | forLoop start c u body =>
    exact .forLoop (Statement.prunedOption_rel start) (Expr.prunedOption_rel c)
      (Expr.prunedOption_rel u) rfl
  | function x parameters body => exact .function x parameters rfl
  | returning e => exact .returning (Expr.prunedOption_rel e)

theorem Alternative.pruned_keeps (a : Alternative) : Alternative.Keeps pruning a a.pruned := by
  cases a with
  | absent => exact .absent
  | block body => exact .block rfl
  | elseIf c body a => exact .elseIf rfl rfl rfl

/-! ## Lists with a return -/

namespace Eval

/-- A `return` does not end normally. -/
theorem statement_return {st : Statement} (h : st.isReturn) {n : Nat} {id : ScopeId}
    {s t : State} {flow : Flow} (hrun : statement n id st s = .ok flow t) :
    ∃ v, flow = .returned v := by
  cases st with
  | returning e =>
    cases n with
    | zero => cases hrun
    | succ n =>
      cases e with
      | none =>
        cases hrun
        exact ⟨_, rfl⟩
      | some e =>
        obtain ⟨v, r, _, hpure⟩ := bind_eq_ok hrun
        cases hpure
        exact ⟨_, rfl⟩
  | declare | expression | block | ifElse | whileLoop | forLoop | function => cases h

theorem statements_cons_return {st : Statement} (h : st.isReturn) (n : Nat) (id : ScopeId)
    (last : Value) (rest rest' : Block) :
    statements n id last (st :: rest) = statements n id last (st :: rest') := by
  cases n with
  | zero => rfl
  | succ n =>
    funext s
    rw [statements_cons, statements_cons]
    cases hst : statement n id st s with
    | error e t => rfl
    | ok flow t =>
      obtain ⟨v, rfl⟩ := statement_return h hst
      rfl

/-- **Nothing behind a `return` leaves a trace**: the list ends in the same way and in the same
state, whatever stands there. -/
theorem statements_after_return (n : Nat) (id : ScopeId) (last : Value) (before : Block)
    (e : Option Expr) (after : Block) :
    statements n id last (before ++ .returning e :: after) =
      statements n id last (before ++ [.returning e]) := by
  induction before generalizing n last with
  | nil => exact statements_cons_return rfl n id last after []
  | cons st before ih =>
    cases n with
    | zero => rfl
    | succ n =>
      funext s
      rw [List.cons_append, List.cons_append, statements_cons, statements_cons]
      split
      · rfl
      · next v t _ => rw [ih n v]
      · rfl

end Eval

/-! ## Runs in step -/

/-- A list runs in step with what is left of it: behind a `return` neither of them goes on. -/
theorem EvalsPaired.statements_pruned {side : Side} {n : Nat} (ih : EvalsPaired pruning side n n)
    {w : World} {s s' : State} {id id' : ScopeId} {last last' : Value}
    (hs : Tracks pruning.block w s s') (hid : World.Twin w id id')
    (hlast : LikeIn pruning.block w last last') (body : Block) :
    Paired pruning.block side w (Eval.statements (n + 1) id last body)
      (Eval.statements (n + 1) id' last' (Block.pruned body)) s s' (FlowsLike pruning.block) := by
  cases body with
  | nil => exact .pure hs (.normal hlast)
  | cons st rest =>
    rw [Block.pruned]
    split
    · next hreturn =>
      rw [Eval.statements_cons_return hreturn (n + 1) id last rest []]
      exact ih.statements_cons hs hid rfl rfl
    · exact ih.statements_cons hs hid rfl rfl

theorem pruning_paired (side : Side) (n : Nat) : EvalsPaired pruning side n n := by
  induction n with
  | zero => exact .zero
  | succ n ih =>
    exact {
      expr := fun hs hid he => he ▸ ih.expr_succ hs hid (Expr.pruned_keeps _)
      exprs := ih.exprs_succ
      call := ih.call_succ
      block := ih.block_succ
      statements := fun hs hid hlast hbody => hbody ▸ ih.statements_pruned hs hid hlast _
      statement := fun hs hid hst => hst ▸ ih.statement_succ hs hid (Statement.pruned_keeps _)
      conditional := fun hs hid hc hbody ha =>
        ha ▸ ih.conditional_succ hs hid hc hbody (Alternative.pruned_keeps _)
      loop := ih.loop_succ }

/-- **Code behind a `return` is dead.**  Remove from every list of a program, at any depth, all
statements that follow its first `return`.  With the same fuel the two programs end alike in a new
session, or neither of them ends: they print the same lines and end in the same fault or in values
with the same text.  Nor does what stands behind a `return` bind anything: a list without it ends in
the very same state. -/
theorem code_after_return_is_dead (body : Block) :
    (∀ n, observe (Eval.program n (Block.pruned body) .initial) =
        observe (Eval.program n body .initial)) ∧
      ∀ n id last before e after,
        Eval.statements n id last (before ++ .returning e :: after) =
          Eval.statements n id last (before ++ [.returning e]) := by
  refine ⟨fun n => ?_, Eval.statements_after_return⟩
  have hglobal : World.Twin [.twin State.globalId] State.globalId State.globalId := rfl
  have hpaired : ∀ side, Paired pruning.block side [.twin State.globalId] (Eval.program n body)
      (Eval.program n (Block.pruned body)) .initial .initial (LikeIn pruning.block) := by
    intro side
    refine ((pruning_paired side n).statements .initial hglobal .null rfl).bind
      fun w flow flow' t t' hw ht hflow => ?_
    exact .pure ht hflow.value
  exact observe_eq_of_paired hpaired

end Scriptlet
