import Scriptlet.Proofs.Eval.Sequence
import Scriptlet.Proofs.Transform.Congruence

/-!
# A `for` written with `while`

    for (start; condition; update) body      { start; while (condition) { body update; } }

The two do the same, except for the value of the whole, which only counts for the last statement of
a list.  `Block.Unrolls` relates a program to one in which any number of other `for`s are written
with `while`, at any depth.

In the second form each round makes one scope more, around the body and the update.  It stays empty,
so it is an annex to the scope of the loop; but closures made in the update capture it, and scopes
made in the body stand inside it.  The runs are paired by one induction on the fuel of the first,
for all functions of the evaluator and for the two shapes of the loop (`Pairing`).  The second run
needs more fuel, but never more than eight times as much (`Side.Affords`).

* `Pairing.round`: a round of the loop and of its second form.
* `for_is_while`: **both programs end alike**, or neither ends.
-/

namespace Scriptlet

/-! ## The two forms -/

/-- A missing condition holds. -/
def whileCondition (condition : Option Expr) : Expr := condition.getD (.literal (.boolean true))

/-- The body in a block of its own, and then the update. -/
def whileBody (update : Option Expr) (body : Block) : Block :=
  .block body :: (update.map Statement.expression).toList

/-- A `for` written with `while`; a missing start or update is left out. -/
def whileForm (start : Option Statement) (condition update : Option Expr) (body : Block) :
    Statement :=
  .block (start.toList ++ [.whileLoop (whileCondition condition) (whileBody update body)])

/-- A declaration or an expression: what the start of a `for` can be. -/
def Statement.isPlain : Statement → Bool
  | .declare .. | .expression _ => true
  | _ => false

mutual

/-- The same expression, with some `for`s inside it written with `while`. -/
inductive Expr.Unrolls : Expr → Expr → Prop where
  | literal (l : Literal) : Expr.Unrolls (.literal l) (.literal l)
  | name (x : String) : Expr.Unrolls (.name x) (.name x)
  | binary (op : BinaryOp) {a a' b b' : Expr} :
      Expr.Unrolls a a' → Expr.Unrolls b b' → Expr.Unrolls (.binary op a b) (.binary op a' b')
  | unary (op : UnaryOp) {a a' : Expr} :
      Expr.Unrolls a a' → Expr.Unrolls (.unary op a) (.unary op a')
  | call {f f' : Expr} {es es' : List Expr} :
      Expr.Unrolls f f' → List.Forall₂ Expr.Unrolls es es' →
      Expr.Unrolls (.call f es) (.call f' es')
  | member {a a' : Expr} (key : String) :
      Expr.Unrolls a a' → Expr.Unrolls (.member a key) (.member a' key)
  | index {a a' i i' : Expr} :
      Expr.Unrolls a a' → Expr.Unrolls i i' → Expr.Unrolls (.index a i) (.index a' i')
  | assign (x : String) {a a' : Expr} :
      Expr.Unrolls a a' → Expr.Unrolls (.assign x a) (.assign x a')
  | array {es es' : List Expr} :
      List.Forall₂ Expr.Unrolls es es' → Expr.Unrolls (.array es) (.array es')
  | object {ps ps' : List (String × Expr)} :
      List.Forall₂ (Fields.Entry Expr.Unrolls) ps ps' → Expr.Unrolls (.object ps) (.object ps')
  | function (parameters : List String) {body body' : List Statement} :
      Block.Unrolls body body' →
      Expr.Unrolls (.function parameters body) (.function parameters body')

/-- The same statement, with some `for`s inside it written with `while`. -/
inductive Statement.Unrolls : Statement → Statement → Prop where
  | declare (constant : Bool) (x : String) {e e' : Expr} :
      Expr.Unrolls e e' → Statement.Unrolls (.declare constant x e) (.declare constant x e')
  | expression {e e' : Expr} :
      Expr.Unrolls e e' → Statement.Unrolls (.expression e) (.expression e')
  | block {body body' : List Statement} :
      Block.Unrolls body body' → Statement.Unrolls (.block body) (.block body')
  | ifElse {c c' : Expr} {body body' : List Statement} {a a' : Alternative} :
      Expr.Unrolls c c' → Block.Unrolls body body' → Alternative.Unrolls a a' →
      Statement.Unrolls (.ifElse c body a) (.ifElse c' body' a')
  | whileLoop {c c' : Expr} {body body' : List Statement} :
      Expr.Unrolls c c' → Block.Unrolls body body' →
      Statement.Unrolls (.whileLoop c body) (.whileLoop c' body')
  | forLoop {start start' : Option Statement} {c c' u u' : Option Expr}
      {body body' : List Statement} :
      Option.Rel Statement.Unrolls start start' → Option.Rel Expr.Unrolls c c' →
      Option.Rel Expr.Unrolls u u' → Block.Unrolls body body' →
      Statement.Unrolls (.forLoop start c u body) (.forLoop start' c' u' body')
  | function (x : String) (parameters : List String) {body body' : List Statement} :
      Block.Unrolls body body' →
      Statement.Unrolls (.function x parameters body) (.function x parameters body')
  | returning {e e' : Option Expr} :
      Option.Rel Expr.Unrolls e e' → Statement.Unrolls (.returning e) (.returning e')

inductive Alternative.Unrolls : Alternative → Alternative → Prop where
  | absent : Alternative.Unrolls .absent .absent
  | block {body body' : List Statement} :
      Block.Unrolls body body' → Alternative.Unrolls (.block body) (.block body')
  | elseIf {c c' : Expr} {body body' : List Statement} {a a' : Alternative} :
      Expr.Unrolls c c' → Block.Unrolls body body' → Alternative.Unrolls a a' →
      Alternative.Unrolls (.elseIf c body a) (.elseIf c' body' a')

/-- The same statements, with some `for`s inside them written with `while`, and some of the
statements themselves, but not the last. -/
inductive Block.Unrolls : List Statement → List Statement → Prop where
  | nil : Block.Unrolls [] []
  | cons {st st' : Statement} {rest rest' : List Statement} :
      Statement.Unrolls st st' → Block.Unrolls rest rest' →
      Block.Unrolls (st :: rest) (st' :: rest')
  | unroll {start start' : Option Statement} {c c' u u' : Option Expr}
      {body body' rest rest' : List Statement} :
      (∀ st ∈ start, st.isPlain) → Option.Rel Statement.Unrolls start start' →
      Option.Rel Expr.Unrolls c c' → Option.Rel Expr.Unrolls u u' → Block.Unrolls body body' →
      rest ≠ [] → Block.Unrolls rest rest' →
      Block.Unrolls (.forLoop start c u body :: rest) (whileForm start' c' u' body' :: rest')

end

/-! A program in which no `for` is written with `while` is one of its forms, too. -/

mutual

theorem Expr.Unrolls.refl : ∀ e : Expr, Expr.Unrolls e e
  | .literal l => .literal l
  | .name x => .name x
  | .binary op a b => .binary op (.refl a) (.refl b)
  | .unary op a => .unary op (.refl a)
  | .call f es => .call (.refl f) (Expr.Unrolls.refl_list es)
  | .member a key => .member key (.refl a)
  | .index a i => .index (.refl a) (.refl i)
  | .assign x a => .assign x (.refl a)
  | .array es => .array (Expr.Unrolls.refl_list es)
  | .object ps => .object (Expr.Unrolls.refl_properties ps)
  | .function parameters body => .function parameters (.refl body)

theorem Expr.Unrolls.refl_list : ∀ es : List Expr, List.Forall₂ Expr.Unrolls es es
  | [] => .nil
  | e :: es => .cons (.refl e) (Expr.Unrolls.refl_list es)

theorem Expr.Unrolls.refl_properties :
    ∀ ps : List (String × Expr), List.Forall₂ (Fields.Entry Expr.Unrolls) ps ps
  | [] => .nil
  | (key, e) :: ps => .cons (.mk key (.refl e)) (Expr.Unrolls.refl_properties ps)

theorem Expr.Unrolls.refl_option : ∀ e : Option Expr, Option.Rel Expr.Unrolls e e
  | none => .none
  | some e => .some (.refl e)

theorem Statement.Unrolls.refl : ∀ st : Statement, Statement.Unrolls st st
  | .declare constant x e => .declare constant x (.refl e)
  | .expression e => .expression (.refl e)
  | .block body => .block (.refl body)
  | .ifElse c body a => .ifElse (.refl c) (.refl body) (.refl a)
  | .whileLoop c body => .whileLoop (.refl c) (.refl body)
  | .forLoop start c u body =>
    .forLoop (Statement.Unrolls.refl_option start) (Expr.Unrolls.refl_option c)
      (Expr.Unrolls.refl_option u) (.refl body)
  | .function x parameters body => .function x parameters (.refl body)
  | .returning e => .returning (Expr.Unrolls.refl_option e)

theorem Statement.Unrolls.refl_option :
    ∀ st : Option Statement, Option.Rel Statement.Unrolls st st
  | none => .none
  | some st => .some (.refl st)

theorem Alternative.Unrolls.refl : ∀ a : Alternative, Alternative.Unrolls a a
  | .absent => .absent
  | .block body => .block (.refl body)
  | .elseIf c body a => .elseIf (.refl c) (.refl body) (.refl a)

theorem Block.Unrolls.refl : ∀ body : List Statement, Block.Unrolls body body
  | [] => .nil
  | st :: rest => .cons (.refl st) (.refl rest)

end

/-! A tree keeps its construct, other than in a list of statements. -/

/-- The four relations together. -/
def unrolling : TreeRel := ⟨Expr.Unrolls, Statement.Unrolls, Alternative.Unrolls, Block.Unrolls⟩

theorem Expr.Unrolls.keeps {e e' : Expr} (h : Expr.Unrolls e e') : Expr.Keeps unrolling e e' := by
  cases h <;> constructor <;> assumption

theorem Statement.Unrolls.keeps {st st' : Statement} (h : Statement.Unrolls st st') :
    Statement.Keeps unrolling st st' := by
  cases h <;> constructor <;> assumption

theorem Alternative.Unrolls.keeps {a a' : Alternative} (h : Alternative.Unrolls a a') :
    Alternative.Keeps unrolling a a' := by
  cases h <;> constructor <;> assumption

theorem Block.Unrolls.ne_nil {body body' : List Statement} (h : Block.Unrolls body body')
    (hne : body ≠ []) : body' ≠ [] := by
  cases h with
  | nil => exact absurd rfl hne
  | cons | unroll => exact List.cons_ne_nil _ _

/-! ## Fuel -/

/-- How the fuel `m` of the second run compares with the fuel `n` of the first.  If the first is
known to finish, then the second has eight units for each of its units, and `c` more; if the second
is, then it has no more than the first. -/
def Side.Affords (side : Side) (n c m : Nat) : Prop :=
  match side with
  | .first => 8 * n + c ≤ m
  | .second => m ≤ n

theorem Side.Affords.all {side : Side} {n c m : Nat} (h : side.Affords n c m) :
    side.Affords n 0 m := by
  cases side with
  | first => exact Nat.le_trans (Nat.le_add_right _ c) h
  | second => exact h

namespace Paired

variable {bodies : Block → Block → Prop} {side : Side} {α α' : Type} {w : World} {x : Eval α}
  {y : Nat → Eval α'} {s s' : State} {Q : World → α → α' → Prop} {n c m : Nat}

/-- Neither run has fuel. -/
theorem exhausted (h : side.Affords 0 0 m) (hx : x = throw .outOfFuel)
    (hy : y 0 = throw .outOfFuel) : Paired bodies side w x (y m) s s' Q := by
  intro hend
  cases side with
  | first =>
    rw [hx] at hend
    exact absurd rfl hend
  | second =>
    rw [Nat.le_zero.mp h, hy] at hend
    exact absurd rfl hend

/-- The second run spends a unit of its fuel. -/
theorem spend (h : side.Affords n (c + 1) m) (hzero : y 0 = throw .outOfFuel)
    (hsucc : ∀ k, side.Affords n c k → Paired bodies side w x (y (k + 1)) s s' Q) :
    Paired bodies side w x (y m) s s' Q := by
  cases m with
  | zero =>
    cases side with
    | first => exact absurd h (Nat.not_succ_le_zero _)
    | second =>
      intro hend
      rw [hzero] at hend
      exact absurd rfl hend
  | succ k =>
    refine hsucc k ?_
    cases side with
    | first => exact Nat.le_of_succ_le_succ h
    | second => exact Nat.le_of_succ_le h

/-- Both runs spend a unit of their fuel. -/
theorem step (h : side.Affords (n + 1) 0 m) (hzero : y 0 = throw .outOfFuel)
    (hsucc : ∀ k, side.Affords n 7 k → Paired bodies side w x (y (k + 1)) s s' Q) :
    Paired bodies side w x (y m) s s' Q := by
  cases side with
  | first => exact spend (show 8 * n + 8 ≤ m from h) hzero hsucc
  | second =>
    cases m with
    | zero =>
      intro hend
      rw [hzero] at hend
      exact absurd rfl hend
    | succ k => exact hsucc k (Nat.le_of_succ_le_succ h)

/-- What the first run alone says about its result. -/
theorem with_first {y : Eval α'} {P : α → Prop} (h : Paired bodies side w x y s s' Q)
    (hP : ∀ a t, x s = .ok a t → P a) :
    Paired bodies side w x y s s' fun w a b => Q w a b ∧ P a := by
  intro hend
  have hmeets := h hend
  generalize hx : x s = r, y s' = r' at hmeets
  cases hmeets with
  | fault e output => exact .fault e output
  | ok grows tracks result => exact .ok grows tracks ⟨result, hP _ _ hx⟩

/-- The second run does something more with its result. -/
theorem bind_second {β' : Type} {y : Eval α'} {g : α' → Eval β'} {R : World → α → β' → Prop}
    (h : Paired bodies side w x y s s' Q)
    (hg : ∀ w' a b t t', w <+: w' → Tracks bodies w' t t' → Q w' a b →
      Paired bodies side w' (Pure.pure a) (g b) t t' R) :
    Paired bodies side w x (y >>= g) s s' R := by
  rw [← bind_pure x]
  exact h.bind hg

end Paired

/-! ## Flows -/

/-- Values that the two forms of a program may have in the same place. -/
abbrev ValuesMatch (w : World) : Value → Value → Prop := LikeIn Block.Unrolls w

abbrev FlowsMatch (w : World) : Flow → Flow → Prop := Flow.Pair (ValuesMatch w) (ValuesMatch w)

/-- Flows of which only a returned value counts. -/
abbrev FlowsFade (w : World) : Flow → Flow → Prop := Flow.Pair (fun _ _ => True) (ValuesMatch w)

/-- The second run comes to the end of a list of statements. -/
theorem Paired.ended {side : Side} {n c k : Nat} {w : World} {s s' : State} {id' : ScopeId}
    (h : side.Affords n (c + 1) k) (hs : Tracks Block.Unrolls w s s') (v v' : Value) :
    Paired Block.Unrolls side w (Pure.pure (.normal v)) (Eval.statements k id' v' []) s s'
      FlowsFade :=
  .spend (y := fun k => Eval.statements k id' v' []) h rfl fun _ _ => .pure hs (.normal trivial)

/-! ## Rounds -/

namespace Eval

/-- One round of a loop: the body and, unless it returned, the update. -/
def round (n : Nat) (id : ScopeId) (update : Option Expr) (body : Block) : Eval Flow := do
  match ← block n id body with
  | .returned v => pure (.returned v)
  | .normal v => do
    optionally (expr n id) update
    pure (.normal v)

theorem optionally_some_bind {α β γ : Type} (action : α → Eval β) (a : α) (g : Unit → Eval γ) :
    optionally action (some a) >>= g = action a >>= fun _ => g () := by
  simp [optionally, Functor.discard, map_const]

theorem loop_eq_round (n : Nat) (id : ScopeId) (c u : Option Expr) (body : Block) (last : Value) :
    loop (n + 1) id c u body last = (do
      if ← holds (expr n id) c then
        match ← round n id u body with
        | .returned v => pure (.returned v)
        | .normal v => loop n id c u body v
      else pure (.normal last)) := by
  rw [loop]
  refine bind_congr fun again => ?_
  split
  · rw [round, bind_assoc]
    refine bind_congr fun flow => ?_
    cases flow with
    | returned v => rfl
    | normal v =>
      dsimp only
      rw [bind_assoc]
      rfl
  · rfl

theorem round_none (n : Nat) (id : ScopeId) (body : Block) :
    round n id none body = block n id body := by
  calc round n id none body = block n id body >>= pure := by
        refine bind_congr fun flow => ?_
        cases flow <;> rfl
    _ = block n id body := bind_pure _

/-- A declaration or an expression does not return. -/
theorem statement_plain {st : Statement} (h : st.isPlain) {n : Nat} {id : ScopeId} {s t : State}
    {flow : Flow} (hrun : statement n id st s = .ok flow t) : ∃ v, flow = .normal v := by
  cases n with
  | zero => cases hrun
  | succ n =>
    cases st with
    | declare constant x value =>
      obtain ⟨v, r, _, hdefine⟩ := bind_eq_ok hrun
      obtain ⟨_, r, _, hpure⟩ := bind_eq_ok hdefine
      cases hpure
      exact ⟨_, rfl⟩
    | expression value =>
      obtain ⟨v, r, _, hpure⟩ := bind_eq_ok hrun
      cases hpure
      exact ⟨_, rfl⟩
    | block | ifElse | whileLoop | forLoop | function | returning => cases h

end Eval

/-! ## Evaluation -/

/-- All evaluations with fuel `n` are paired with those of the second form, and so is a `for` with
its second form. -/
structure Pairing (side : Side) (n : Nat) : Prop where
  expr : ∀ {m w s s' id id' e e'}, side.Affords n 0 m → Tracks Block.Unrolls w s s' →
    World.Stands w id id' → Expr.Unrolls e e' →
    Paired Block.Unrolls side w (Eval.expr n id e) (Eval.expr m id' e') s s' ValuesMatch
  exprs : ∀ {m w s s' id id' es es'}, side.Affords n 0 m → Tracks Block.Unrolls w s s' →
    World.Stands w id id' → List.Forall₂ Expr.Unrolls es es' →
    Paired Block.Unrolls side w (Eval.exprs n id es) (Eval.exprs m id' es') s s'
      fun w => List.Forall₂ (ValuesMatch w)
  call : ∀ {m w s s' f f' vs vs'}, side.Affords n 0 m → Tracks Block.Unrolls w s s' →
    ValuesMatch w f f' → List.Forall₂ (ValuesMatch w) vs vs' →
    Paired Block.Unrolls side w (Eval.call n f vs) (Eval.call m f' vs') s s' ValuesMatch
  block : ∀ {m w s s' id id' body body'}, side.Affords n 0 m → Tracks Block.Unrolls w s s' →
    World.Stands w id id' → Block.Unrolls body body' →
    Paired Block.Unrolls side w (Eval.block n id body) (Eval.block m id' body') s s' FlowsMatch
  statements : ∀ {m w s s' id id' last last' body body'}, side.Affords n 0 m →
    Tracks Block.Unrolls w s s' → World.Twin w id id' → ValuesMatch w last last' →
    Block.Unrolls body body' →
    Paired Block.Unrolls side w (Eval.statements n id last body)
      (Eval.statements m id' last' body') s s' FlowsMatch
  statement : ∀ {m w s s' id id' st st'}, side.Affords n 0 m → Tracks Block.Unrolls w s s' →
    World.Twin w id id' → Statement.Unrolls st st' →
    Paired Block.Unrolls side w (Eval.statement n id st) (Eval.statement m id' st') s s' FlowsMatch
  conditional : ∀ {m w s s' id id' c c' body body' a a'}, side.Affords n 0 m →
    Tracks Block.Unrolls w s s' → World.Stands w id id' → Expr.Unrolls c c' →
    Block.Unrolls body body' → Alternative.Unrolls a a' →
    Paired Block.Unrolls side w (Eval.conditional n id c body a)
      (Eval.conditional m id' c' body' a') s s' FlowsMatch
  loop : ∀ {m w s s' id id' c c' u u' body body' last last'}, side.Affords n 0 m →
    Tracks Block.Unrolls w s s' → World.Stands w id id' → Option.Rel Expr.Unrolls c c' →
    Option.Rel Expr.Unrolls u u' → Block.Unrolls body body' → ValuesMatch w last last' →
    Paired Block.Unrolls side w (Eval.loop n id c u body last)
      (Eval.loop m id' c' u' body' last') s s' FlowsMatch
  rounds : ∀ {m w s s' id id' c c' u u' body body'} (last last' : Value), side.Affords n 0 m →
    Tracks Block.Unrolls w s s' → World.Stands w id id' → Option.Rel Expr.Unrolls c c' →
    Option.Rel Expr.Unrolls u u' → Block.Unrolls body body' →
    Paired Block.Unrolls side w (Eval.loop n id c u body last)
      (Eval.loop m id' (some (whileCondition c')) none (whileBody u' body') last') s s' FlowsFade
  unrolled : ∀ {m w s s' id id' start start' c c' u u' body body'}, side.Affords n 0 m →
    Tracks Block.Unrolls w s s' → World.Stands w id id' → (∀ st ∈ start, st.isPlain) →
    Option.Rel Statement.Unrolls start start' → Option.Rel Expr.Unrolls c c' →
    Option.Rel Expr.Unrolls u u' → Block.Unrolls body body' →
    Paired Block.Unrolls side w (Eval.statement n id (.forLoop start c u body))
      (Eval.statement m id' (whileForm start' c' u' body')) s s' FlowsFade

namespace Pairing

variable {side : Side}

theorem zero : Pairing side 0 where
  expr {_ _ _ _ _ id' _ e'} h _ _ _ := .exhausted (y := fun m => Eval.expr m id' e') h rfl rfl
  exprs {_ _ _ _ _ id' _ es'} h _ _ _ := .exhausted (y := fun m => Eval.exprs m id' es') h rfl rfl
  call {_ _ _ _ _ f' _ vs'} h _ _ _ := .exhausted (y := fun m => Eval.call m f' vs') h rfl rfl
  block {_ _ _ _ _ id' _ body'} h _ _ _ :=
    .exhausted (y := fun m => Eval.block m id' body') h rfl rfl
  statements {_ _ _ _ _ id' _ last' _ body'} h _ _ _ _ :=
    .exhausted (y := fun m => Eval.statements m id' last' body') h rfl rfl
  statement {_ _ _ _ _ id' _ st'} h _ _ _ :=
    .exhausted (y := fun m => Eval.statement m id' st') h rfl rfl
  conditional {_ _ _ _ _ id' _ c' _ body' _ a'} h _ _ _ _ _ :=
    .exhausted (y := fun m => Eval.conditional m id' c' body' a') h rfl rfl
  loop {_ _ _ _ _ id' _ c' _ u' _ body' _ last'} h _ _ _ _ _ _ :=
    .exhausted (y := fun m => Eval.loop m id' c' u' body' last') h rfl rfl
  rounds _ last' h _ _ _ _ _ := .exhausted (y := fun m => Eval.loop m _ _ _ _ last') h rfl rfl
  unrolled h _ _ _ _ _ _ _ := .exhausted (y := fun m => Eval.statement m _ _) h rfl rfl

section Succ

variable {n m : Nat} (ih : Pairing side n) {w : World} {s s' : State} {id id' : ScopeId}

include ih

theorem evals {c k : Nat} (h : side.Affords n c k) : EvalsPaired unrolling side n k where
  expr := ih.expr h.all
  exprs := ih.exprs h.all
  call := ih.call h.all
  block := ih.block h.all
  statements := ih.statements h.all
  statement := ih.statement h.all
  conditional := ih.conditional h.all
  loop := ih.loop h.all

theorem expr_succ {e e' : Expr} (h : side.Affords (n + 1) 0 m) (hs : Tracks Block.Unrolls w s s')
    (hid : World.Stands w id id') (he : Expr.Unrolls e e') :
    Paired Block.Unrolls side w (Eval.expr (n + 1) id e) (Eval.expr m id' e') s s'
      ValuesMatch := by
  refine .step (y := fun m => Eval.expr m id' e') h rfl fun k hk => ?_
  exact (ih.evals hk).expr_succ hs hid he.keeps

theorem exprs_succ {es es' : List Expr} (h : side.Affords (n + 1) 0 m)
    (hs : Tracks Block.Unrolls w s s') (hid : World.Stands w id id')
    (hes : List.Forall₂ Expr.Unrolls es es') :
    Paired Block.Unrolls side w (Eval.exprs (n + 1) id es) (Eval.exprs m id' es') s s'
      fun w => List.Forall₂ (ValuesMatch w) := by
  refine .step (y := fun m => Eval.exprs m id' es') h rfl fun k hk => ?_
  exact (ih.evals hk).exprs_succ hs hid hes

theorem call_succ {f f' : Value} {vs vs' : List Value} (h : side.Affords (n + 1) 0 m)
    (hs : Tracks Block.Unrolls w s s') (hf : ValuesMatch w f f')
    (hvs : List.Forall₂ (ValuesMatch w) vs vs') :
    Paired Block.Unrolls side w (Eval.call (n + 1) f vs) (Eval.call m f' vs') s s'
      ValuesMatch := by
  refine .step (y := fun m => Eval.call m f' vs') h rfl fun k hk => ?_
  exact (ih.evals hk).call_succ hs hf hvs

theorem block_succ {body body' : Block} (h : side.Affords (n + 1) 0 m)
    (hs : Tracks Block.Unrolls w s s') (hid : World.Stands w id id')
    (hbody : Block.Unrolls body body') :
    Paired Block.Unrolls side w (Eval.block (n + 1) id body) (Eval.block m id' body') s s'
      FlowsMatch := by
  refine .step (y := fun m => Eval.block m id' body') h rfl fun k hk => ?_
  exact (ih.evals hk).block_succ hs hid hbody

theorem statements_succ {last last' : Value} {body body' : Block} (h : side.Affords (n + 1) 0 m)
    (hs : Tracks Block.Unrolls w s s') (hid : World.Twin w id id')
    (hlast : ValuesMatch w last last') (hbody : Block.Unrolls body body') :
    Paired Block.Unrolls side w (Eval.statements (n + 1) id last body)
      (Eval.statements m id' last' body') s s' FlowsMatch := by
  refine .step (y := fun m => Eval.statements m id' last' body') h rfl fun k hk => ?_
  cases hbody with
  | nil => exact .pure hs (.normal hlast)
  | cons hst hrest => exact (ih.evals hk).statements_cons hs hid hst hrest
  | unroll hplain hstart hc hu hbody hne hrest =>
    refine (ih.unrolled hk.all hs hid.stands hplain hstart hc hu hbody).bind
      fun w₁ flow flow' t t' hw ht hflow => ?_
    cases hflow with
    | returned hv => exact .pure ht (.returned hv)
    | @normal v v' _ =>
      -- The value of the loop is forgotten by the statements behind it.
      have hne' : _ ≠ [] := hrest.ne_nil hne
      dsimp only
      rw [Eval.statements_last hne n id v .null, Eval.statements_last hne' k id' v' .null]
      exact ih.statements hk.all ht (hid.mono hw) .null hrest

theorem statement_succ {st st' : Statement} (h : side.Affords (n + 1) 0 m)
    (hs : Tracks Block.Unrolls w s s') (hid : World.Twin w id id')
    (hst : Statement.Unrolls st st') :
    Paired Block.Unrolls side w (Eval.statement (n + 1) id st) (Eval.statement m id' st') s s'
      FlowsMatch := by
  refine .step (y := fun m => Eval.statement m id' st') h rfl fun k hk => ?_
  exact (ih.evals hk).statement_succ hs hid hst.keeps

theorem conditional_succ {c c' : Expr} {body body' : Block} {a a' : Alternative}
    (h : side.Affords (n + 1) 0 m) (hs : Tracks Block.Unrolls w s s')
    (hid : World.Stands w id id') (hc : Expr.Unrolls c c') (hbody : Block.Unrolls body body')
    (ha : Alternative.Unrolls a a') :
    Paired Block.Unrolls side w (Eval.conditional (n + 1) id c body a)
      (Eval.conditional m id' c' body' a') s s' FlowsMatch := by
  refine .step (y := fun m => Eval.conditional m id' c' body' a') h rfl fun k hk => ?_
  exact (ih.evals hk).conditional_succ hs hid hc hbody ha.keeps

theorem loop_succ {c c' u u' : Option Expr} {body body' : Block} {last last' : Value}
    (h : side.Affords (n + 1) 0 m) (hs : Tracks Block.Unrolls w s s')
    (hid : World.Stands w id id') (hc : Option.Rel Expr.Unrolls c c')
    (hu : Option.Rel Expr.Unrolls u u') (hbody : Block.Unrolls body body')
    (hlast : ValuesMatch w last last') :
    Paired Block.Unrolls side w (Eval.loop (n + 1) id c u body last)
      (Eval.loop m id' c' u' body' last') s s' FlowsMatch := by
  refine .step (y := fun m => Eval.loop m id' c' u' body' last') h rfl fun k hk => ?_
  exact (ih.evals hk).loop_succ hs hid hc hu hbody hlast

theorem update_at_end {d k : Nat} {u u' : Option Expr} (v v' : Value)
    (h : side.Affords n (d + 3) k) (hs : Tracks Block.Unrolls w s s') (hid : World.Stands w id id')
    (hu : Option.Rel Expr.Unrolls u u') :
    Paired Block.Unrolls side w
      (do Eval.optionally (Eval.expr n id) u; pure (.normal v))
      (Eval.statements k id' v' (u'.map Statement.expression).toList) s s' FlowsFade := by
  cases hu with
  | none => exact .ended h hs v v'
  | @some e e' he =>
    refine .spend (y := fun k => Eval.statements k id' v' [.expression e']) h rfl fun k h => ?_
    have hupdate : Paired Block.Unrolls side w (Eval.optionally (Eval.expr n id) (some e))
        (Eval.statement k id' (.expression e')) s s' fun _ _ flow => ∃ v, flow = .normal v :=
      .spend (y := fun k => Eval.statement k id' _) h rfl fun k h =>
        (ih.expr h.all hs hid he).bind fun _ _ v _ _ _ ht _ => .pure ht ⟨v, rfl⟩
    refine hupdate.bind fun w₁ _ flow t t' hw ht hflow => ?_
    obtain ⟨last, rfl⟩ := hflow
    exact .ended h ht v last

/-- **A round is paired with the round of the second form**, which runs the body and the update in
an annex. -/
theorem round {k : Nat} {u u' : Option Expr} {body body' : Block} (h : side.Affords n 7 k)
    (hs : Tracks Block.Unrolls w s s') (hid : World.Stands w id id')
    (hu : Option.Rel Expr.Unrolls u u') (hbody : Block.Unrolls body body') :
    Paired Block.Unrolls side w (Eval.round n id u body) (Eval.block k id' (whileBody u' body'))
      s s' FlowsFade := by
  refine .spend (y := fun k => Eval.block k id' _) h rfl fun k h => ?_
  refine Paired.annex hs hid fun w₁ t' inner hw ht hinner => ?_
  refine .spend (y := fun k => Eval.statements k inner .null _) h rfl fun k h => ?_
  have hblock : Paired Block.Unrolls side w₁ (Eval.block n id body)
      (Eval.statement k inner (.block body')) s t' FlowsMatch :=
    .spend (y := fun k => Eval.statement k inner _) h rfl fun k h => ih.block h.all ht hinner hbody
  refine hblock.bind fun w₂ flow flow' r r' hw hr hflow => ?_
  cases hflow with
  | returned hv => exact .pure hr (.returned hv)
  | normal _ => exact ih.update_at_end _ _ h hr (hinner.mono hw) hu

theorem rounds_succ {c c' u u' : Option Expr} {body body' : Block} (last last' : Value)
    (h : side.Affords (n + 1) 0 m) (hs : Tracks Block.Unrolls w s s')
    (hid : World.Stands w id id') (hc : Option.Rel Expr.Unrolls c c')
    (hu : Option.Rel Expr.Unrolls u u') (hbody : Block.Unrolls body body') :
    Paired Block.Unrolls side w (Eval.loop (n + 1) id c u body last)
      (Eval.loop m id' (some (whileCondition c')) none (whileBody u' body') last') s s'
      FlowsFade := by
  refine .step (y := fun m => Eval.loop m id' _ none _ last') h rfl fun k hk => ?_
  rw [Eval.loop_eq_round, Eval.loop_eq_round, Eval.round_none]
  have hcheck : Paired Block.Unrolls side w (Eval.holds (Eval.expr n id) c)
      (Eval.holds (Eval.expr k id') (some (whileCondition c'))) s s' fun _ b b' => b' = b := by
    cases hc with
    | none =>
      -- Only the second run has something to evaluate.
      exact .spend (y := fun k => Eval.holds (Eval.expr k id') (some _)) hk rfl
        fun k hk => .pure hs rfl
    | some he => exact Paired.holds hs (.some he) fun e e' he => ih.expr hk.all hs hid he
  refine hcheck.bind fun w₁ again again' t t' hw ht hagain => ?_
  subst hagain
  have hid := hid.mono hw
  split
  · refine (ih.round hk ht hid hu hbody).bind fun w₂ flow flow' r r' hw hr hflow => ?_
    cases hflow with
    | returned hv => exact .pure hr (.returned hv)
    | normal _ => exact ih.rounds _ _ hk.all hr (hid.mono hw) hc hu hbody
  · exact .pure ht (.normal trivial)

/-- The rounds of a loop are paired with the loop that ends the block of the second form. -/
theorem loop_at_end {d k : Nat} {c c' u u' : Option Expr} {body body' : Block}
    (last last' : Value) (h : side.Affords n (d + 3) k) (hs : Tracks Block.Unrolls w s s')
    (hid : World.Stands w id id') (hc : Option.Rel Expr.Unrolls c c')
    (hu : Option.Rel Expr.Unrolls u u') (hbody : Block.Unrolls body body') :
    Paired Block.Unrolls side w (Eval.loop n id c u body last)
      (Eval.statements k id' last' [.whileLoop (whileCondition c') (whileBody u' body')]) s s'
      FlowsFade := by
  refine .spend (y := fun k => Eval.statements k id' last' _) h rfl fun k h => ?_
  have hloop : Paired Block.Unrolls side w (Eval.loop n id c u body last)
      (Eval.statement k id' (.whileLoop (whileCondition c') (whileBody u' body'))) s s'
      FlowsFade :=
    .spend (y := fun k => Eval.statement k id' _) h rfl fun k h =>
      ih.rounds last .null h.all hs hid hc hu hbody
  refine hloop.bind_second fun w₁ flow flow' t t' hw ht hflow => ?_
  cases hflow with
  | returned hv => exact .pure ht (.returned hv)
  | normal _ => exact .ended h ht _ _

theorem unrolled_succ {start start' : Option Statement} {c c' u u' : Option Expr}
    {body body' : Block} (h : side.Affords (n + 1) 0 m) (hs : Tracks Block.Unrolls w s s')
    (hid : World.Stands w id id') (hplain : ∀ st ∈ start, st.isPlain)
    (hstart : Option.Rel Statement.Unrolls start start') (hc : Option.Rel Expr.Unrolls c c')
    (hu : Option.Rel Expr.Unrolls u u') (hbody : Block.Unrolls body body') :
    Paired Block.Unrolls side w (Eval.statement (n + 1) id (.forLoop start c u body))
      (Eval.statement m id' (whileForm start' c' u' body')) s s' FlowsFade := by
  refine .step (y := fun m => Eval.statement m id' _) h rfl fun k h => ?_
  refine .spend (y := fun k => Eval.block k id' _) h rfl fun k h => ?_
  refine (Paired.enter hs hid).bind fun w₁ inner inner' t t' hw ht hinner => ?_
  cases hstart with
  | none => exact ih.loop_at_end .null .null h ht hinner.stands hc hu hbody
  | @some st st' hst =>
    refine .spend (y := fun k => Eval.statements k inner' .null _) h rfl fun k h => ?_
    -- The start of a `for` may not return: the loop would still run, but not its second form.
    have hfirst := (ih.statement h.all ht hinner hst).with_first fun _ _ hrun =>
      Eval.statement_plain (hplain st rfl) hrun
    rw [Eval.optionally_some_bind]
    refine hfirst.bind fun w₂ flow flow' r r' hw hr ⟨hflow, v, hnormal⟩ => ?_
    subst hnormal
    cases hflow with
    | normal _ => exact ih.loop_at_end .null _ h hr (hinner.mono hw).stands hc hu hbody

end Succ

end Pairing

theorem pairing (side : Side) (n : Nat) : Pairing side n := by
  induction n with
  | zero => exact .zero
  | succ n ih =>
    exact {
      expr := ih.expr_succ
      exprs := ih.exprs_succ
      call := ih.call_succ
      block := ih.block_succ
      statements := ih.statements_succ
      statement := ih.statement_succ
      conditional := ih.conditional_succ
      loop := ih.loop_succ
      rounds := ih.rounds_succ
      unrolled := ih.unrolled_succ }

/-! ## Programs -/

theorem program_paired {side : Side} {n m : Nat} {body body' : Block}
    (h : Block.Unrolls body body') (hm : side.Affords n 0 m) :
    Paired Block.Unrolls side [.twin State.globalId] (Eval.program n body) (Eval.program m body')
      .initial .initial (LikeIn Block.Unrolls) := by
  have hglobal : World.Twin [.twin State.globalId] State.globalId State.globalId := rfl
  refine ((pairing side n).statements hm .initial hglobal .null h).bind
    fun w flow flow' t t' hw ht hflow => ?_
  exact .pure ht (FlowsLike.value hflow)

/-- **A `for` is its `while` form.**  Write any `for`s of a program with `while`, at any depth, as
long as they start with a declaration or an expression, if at all, and are not the last statement of
their list.  If one of the two programs ends in a new session, then the other one does, too; and
they print the same lines and end in the same fault or in values with the same text. -/
theorem for_is_while {body body' : Block} (h : Block.Unrolls body body') (seen : Observation) :
    (∃ n, observe (Eval.program n body .initial) = some seen) ↔
      ∃ n, observe (Eval.program n body' .initial) = some seen :=
  exists_observe_iff (fun n => ⟨8 * n, program_paired h (Nat.le_refl _)⟩)
    (fun n => ⟨n, program_paired h (Nat.le_refl _)⟩) seen

/-- Two loops in a function, in one form or the other: the outer one keeps a closure over its
variable in each round and its update calls another closure, and the inner one returns. -/
def keepingCounters (loop : Option Statement → Option Expr → Option Expr → Block → Statement) :
    Block :=
  [.declare false "fs" (.array []),
    .function "fill" ["n"]
      [loop (some (.declare false "i" (.literal (.number (.ofNat 0))))) none
          (some (.assign "i" (.call (.function []
            [.expression (.binary .add (.name "i") (.literal (.number (.ofNat 1))))]) [])))
          [.expression (.assign "fs"
              (.call (.name "push") [.name "fs", .function [] [.expression (.name "i")]])),
            loop none (some (.binary .equal (.name "i") (.name "n"))) none
              [.returning (some (.name "i"))],
            .expression (.call (.name "print") [.name "i"])],
        .expression (.literal .null)],
    .expression (.call (.name "fill") [.literal (.number (.ofNat 1))]),
    .expression (.call (.index (.name "fs") (.literal (.number (.ofNat 0)))) [])]

theorem for_is_while_keepingCounters :
    Block.Unrolls (keepingCounters .forLoop) (keepingCounters whileForm) ∧
      observe (Eval.program 40 (keepingCounters .forLoop) .initial) =
        some ⟨#["0"], .ok "1"⟩ ∧
      ∃ n, observe (Eval.program n (keepingCounters whileForm) .initial) =
        some ⟨#["0"], .ok "1"⟩ := by
  have h : Block.Unrolls (keepingCounters .forLoop) (keepingCounters whileForm) := by
    refine .cons (.refl _) (.cons (.function _ _ ?_) (.refl _))
    refine .unroll (by simp [Statement.isPlain]) (.some (.refl _)) .none (.some (.refl _)) ?_
      (List.cons_ne_nil _ _) (.refl _)
    exact .cons (.refl _) (.unroll nofun .none (.some (.refl _)) .none (.refl _)
      (List.cons_ne_nil _ _) (.refl _))
  have hseen : observe (Eval.program 40 (keepingCounters .forLoop) .initial) =
      some ⟨#["0"], .ok "1"⟩ := by decide +kernel
  exact ⟨h, hseen, (for_is_while h _).mp ⟨40, hseen⟩⟩

end Scriptlet
