import Scriptlet.Eval.Run

/-!
# More fuel changes no finished run

A run is **finished** when it ended in a value or in a fault, and not for lack of fuel.  With more
fuel it ends in the same way and in the same state (`expr_of_le`, `statements_of_le`), so whether a
program has a result, and which one, does not depend on how much fuel it is given beyond what it
needs.

`Within x y` compares two computations.  It goes through sequencing (`Within.bind`), and the eight
functions of the evaluator are compared by one induction on the fuel (`Lasting`).
-/

namespace Scriptlet

/-- Ended in a value or in a fault. -/
def Finished {α : Type} : EStateM.Result Halt State α → Prop
  | .ok _ _ => True
  | .error h _ => h ≠ .outOfFuel

namespace Eval

variable {α β : Type}

theorem bind_ok {x : Eval α} {f : α → Eval β} {s t : State} {a : α} (h : x s = .ok a t) :
    (x >>= f) s = f a t := by
  rw [show (x >>= f) s = EStateM.bind x f s from rfl, EStateM.bind, h]

/-- Where `x` finishes, `y` ends like it. -/
def Within (x y : Eval α) : Prop := ∀ s, Finished (x s) → y s = x s

namespace Within

theorem refl (x : Eval α) : Within x x := fun _ _ => rfl

theorem trans {x y z : Eval α} (hxy : Within x y) (hyz : Within y z) : Within x z := by
  intro s hs
  have hy := hxy s hs
  rw [← hy] at hs ⊢
  exact hyz s hs

theorem outOfFuel (y : Eval α) : Within (throw .outOfFuel) y := fun _ hs => absurd rfl hs

theorem bind {x y : Eval α} {f g : α → Eval β} (hxy : Within x y)
    (hfg : ∀ a, Within (f a) (g a)) : Within (x >>= f) (y >>= g) := by
  intro s hs
  show EStateM.bind y g s = EStateM.bind x f s
  replace hs : Finished (EStateM.bind x f s) := hs
  rw [EStateM.bind] at hs
  rw [EStateM.bind, EStateM.bind]
  cases hx : x s with
  | ok a t =>
    rw [hx] at hs
    rw [hxy s (hx ▸ trivial), hx]
    exact hfg a t hs
  | error h t =>
    rw [hx] at hs
    rw [hxy s (hx ▸ hs), hx]

theorem bind_left {x y : Eval α} (hxy : Within x y) (f : α → Eval β) :
    Within (x >>= f) (y >>= f) :=
  hxy.bind fun a => .refl (f a)

theorem optionally {f g : α → Eval β} (h : ∀ a, Within (f a) (g a)) (a : Option α) :
    Within (Eval.optionally f a) (Eval.optionally g a) := by
  cases a with
  | none => exact .refl _
  | some a => exact (h a).bind_left _

theorem holds {f g : α → Eval Value} (h : ∀ a, Within (f a) (g a)) (a : Option α) :
    Within (Eval.holds f a) (Eval.holds g a) := by
  cases a with
  | none => exact .refl _
  | some a => exact (h a).bind_left _

end Within

/-! ## One more unit -/

/-- All evaluations with fuel `n` end like those with one unit more, unless they run out. -/
structure Lasting (n : Nat) : Prop where
  expr : ∀ id e, Within (expr n id e) (expr (n + 1) id e)
  exprs : ∀ id es, Within (exprs n id es) (exprs (n + 1) id es)
  call : ∀ f vs, Within (call n f vs) (call (n + 1) f vs)
  block : ∀ id body, Within (block n id body) (block (n + 1) id body)
  statements : ∀ id last body,
    Within (statements n id last body) (statements (n + 1) id last body)
  statement : ∀ id st, Within (statement n id st) (statement (n + 1) id st)
  conditional : ∀ id c body a, Within (conditional n id c body a) (conditional (n + 1) id c body a)
  loop : ∀ id c u body last, Within (loop n id c u body last) (loop (n + 1) id c u body last)

namespace Lasting

theorem zero : Lasting 0 where
  expr _ _ := .outOfFuel _
  exprs _ _ := .outOfFuel _
  call _ _ := .outOfFuel _
  block _ _ := .outOfFuel _
  statements _ _ _ := .outOfFuel _
  statement _ _ := .outOfFuel _
  conditional _ _ _ _ := .outOfFuel _
  loop _ _ _ _ _ := .outOfFuel _

section Succ

variable {n : Nat} (ih : Lasting n) (id : ScopeId)

include ih

theorem expr_succ (e : Expr) : Within (Eval.expr (n + 1) id e) (Eval.expr (n + 2) id e) := by
  cases e with
  | literal l => exact .refl _
  | name x => exact .refl _
  | binary op left right =>
    exact (ih.expr id left).bind fun a => (ih.expr id right).bind_left _
  | unary op operand => exact (ih.expr id operand).bind_left _
  | call callee arguments =>
    exact (ih.expr id callee).bind fun f => (ih.exprs id arguments).bind fun vs => ih.call f vs
  | member object key => exact (ih.expr id object).bind_left _
  | index object place =>
    exact (ih.expr id object).bind fun a => (ih.expr id place).bind_left _
  | assign x value => exact (ih.expr id value).bind_left _
  | array elements => exact (ih.exprs id elements).bind_left _
  | object properties => exact (ih.exprs id (properties.map Prod.snd)).bind_left _
  | function parameters body => exact .refl _

theorem exprs_succ (es : List Expr) :
    Within (Eval.exprs (n + 1) id es) (Eval.exprs (n + 2) id es) := by
  cases es with
  | nil => exact .refl _
  | cons e es => exact (ih.expr id e).bind fun v => (ih.exprs id es).bind_left _

theorem call_succ (f : Value) (vs : List Value) :
    Within (Eval.call (n + 1) f vs) (Eval.call (n + 2) f vs) := by
  cases f with
  | closure parameters body outer =>
    rw [Eval.call, Eval.call]
    split
    · refine .bind (.refl _) fun inner => .bind (.refl _) fun _ => ?_
      exact (ih.block inner body).bind_left _
    · exact .refl _
  | builtin | number | text | boolean | null | array | object => exact .refl _

theorem block_succ (body : Block) :
    Within (Eval.block (n + 1) id body) (Eval.block (n + 2) id body) :=
  .bind (.refl _) fun inner => ih.statements inner .null body

theorem statements_succ (last : Value) (body : Block) :
    Within (Eval.statements (n + 1) id last body) (Eval.statements (n + 2) id last body) := by
  cases body with
  | nil => exact .refl _
  | cons st rest =>
    refine (ih.statement id st).bind fun flow => ?_
    cases flow with
    | returned v => exact .refl _
    | normal v => exact ih.statements id v rest

theorem statement_succ (st : Statement) :
    Within (Eval.statement (n + 1) id st) (Eval.statement (n + 2) id st) := by
  cases st with
  | declare constant x value => exact (ih.expr id value).bind_left _
  | expression value => exact (ih.expr id value).bind_left _
  | block body => exact ih.block id body
  | ifElse c body a => exact ih.conditional id c body a
  | whileLoop c body => exact ih.loop id (some c) none body .null
  | forLoop start c u body =>
    refine .bind (.refl _) fun inner => ?_
    refine (Within.optionally (ih.statement inner) start).bind fun _ => ?_
    exact ih.loop inner c u body .null
  | function x parameters body => exact .refl _
  | returning value =>
    cases value with
    | none => exact .refl _
    | some value => exact (ih.expr id value).bind_left _

theorem conditional_succ (c : Expr) (body : Block) (a : Alternative) :
    Within (Eval.conditional (n + 1) id c body a) (Eval.conditional (n + 2) id c body a) := by
  refine (ih.expr id c).bind fun v => ?_
  split
  · exact ih.block id body
  · cases a with
    | absent => exact .refl _
    | block body => exact ih.block id body
    | elseIf c body a => exact ih.conditional id c body a

theorem loop_succ (c u : Option Expr) (body : Block) (last : Value) :
    Within (Eval.loop (n + 1) id c u body last) (Eval.loop (n + 2) id c u body last) := by
  refine (Within.holds (ih.expr id) c).bind fun goes => ?_
  split
  · refine (ih.block id body).bind fun flow => ?_
    cases flow with
    | returned v => exact .refl _
    | normal v =>
      exact (Within.optionally (ih.expr id) u).bind fun _ => ih.loop id c u body v
  · exact .refl _

end Succ

end Lasting

theorem lasting (n : Nat) : Lasting n := by
  induction n with
  | zero => exact .zero
  | succ n ih =>
    exact {
      expr := ih.expr_succ
      exprs := ih.exprs_succ
      call := ih.call_succ
      block := ih.block_succ
      statements := ih.statements_succ
      statement := ih.statement_succ
      conditional := ih.conditional_succ
      loop := ih.loop_succ }

/-! ## Any more fuel -/

theorem Within.of_le {x : Nat → Eval α} (h : ∀ n, Within (x n) (x (n + 1))) {m n : Nat}
    (hmn : m ≤ n) : Within (x m) (x n) := by
  induction hmn with
  | refl => exact .refl _
  | step _ ih => exact ih.trans (h _)

variable {m n : Nat} (hmn : m ≤ n)

include hmn

theorem expr_of_le (id : ScopeId) (e : Expr) : Within (expr m id e) (expr n id e) :=
  .of_le (fun k => (lasting k).expr id e) hmn

theorem exprs_of_le (id : ScopeId) (es : List Expr) : Within (exprs m id es) (exprs n id es) :=
  .of_le (fun k => (lasting k).exprs id es) hmn

theorem statement_of_le (id : ScopeId) (st : Statement) :
    Within (statement m id st) (statement n id st) :=
  .of_le (fun k => (lasting k).statement id st) hmn

theorem statements_of_le (id : ScopeId) (last : Value) (body : Block) :
    Within (statements m id last body) (statements n id last body) :=
  .of_le (fun k => (lasting k).statements id last body) hmn

theorem program_of_le (body : Block) : Within (program m body) (program n body) :=
  (statements_of_le hmn State.globalId .null body).bind_left _

end Eval

end Scriptlet
