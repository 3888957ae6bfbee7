import Scriptlet.Proofs.Transform.Twins

/-!
# Rewriting below a construct

A rewriting of programs relates trees of the four kinds (`TreeRel`).  Most of the time a tree keeps
its construct and only its parts are rewritten: `Expr.Keeps`, `Statement.Keeps` and
`Alternative.Keeps` say so for one layer.  Then an evaluation of the one tree is paired with an
evaluation of the other as soon as the evaluations of the parts are.  This is shown here once for
each function of the evaluator, from the evaluations with one unit of fuel less on either side
(`EvalsPaired`).  Lists of statements are left out: they are where rewritings differ.
-/

namespace Scriptlet

/-! ## One layer of a tree -/

/-- A relation between the trees of two programs, for each kind of tree. -/
structure TreeRel where
  expr : Expr → Expr → Prop
  statement : Statement → Statement → Prop
  alternative : Alternative → Alternative → Prop
  block : Block → Block → Prop

section Layers

variable (R : TreeRel)

/-- The same construct with related parts. -/
inductive Expr.Keeps : Expr → Expr → Prop where
  | literal (l : Literal) : Expr.Keeps (.literal l) (.literal l)
  | name (x : String) : Expr.Keeps (.name x) (.name x)
  | binary (op : BinaryOp) {a a' b b' : Expr} :
      R.expr a a' → R.expr b b' → Expr.Keeps (.binary op a b) (.binary op a' b')
  | unary (op : UnaryOp) {a a' : Expr} : R.expr a a' → Expr.Keeps (.unary op a) (.unary op a')
  | call {f f' : Expr} {es es' : List Expr} :
      R.expr f f' → List.Forall₂ R.expr es es' → Expr.Keeps (.call f es) (.call f' es')
  | member {a a' : Expr} (key : String) :
      R.expr a a' → Expr.Keeps (.member a key) (.member a' key)
  | index {a a' i i' : Expr} :
      R.expr a a' → R.expr i i' → Expr.Keeps (.index a i) (.index a' i')
  | assign (x : String) {a a' : Expr} : R.expr a a' → Expr.Keeps (.assign x a) (.assign x a')
  | array {es es' : List Expr} :
      List.Forall₂ R.expr es es' → Expr.Keeps (.array es) (.array es')
  | object {ps ps' : List (String × Expr)} :
      Fields.Like R.expr ps ps' → Expr.Keeps (.object ps) (.object ps')
  | function (parameters : List String) {body body' : Block} :
      R.block body body' → Expr.Keeps (.function parameters body) (.function parameters body')

/-- The same construct with related parts. -/
inductive Statement.Keeps : Statement → Statement → Prop where
  | declare (constant : Bool) (x : String) {e e' : Expr} :
      R.expr e e' → Statement.Keeps (.declare constant x e) (.declare constant x e')
  | expression {e e' : Expr} : R.expr e e' → Statement.Keeps (.expression e) (.expression e')
  | block {body body' : Block} :
      R.block body body' → Statement.Keeps (.block body) (.block body')
  | ifElse {c c' : Expr} {body body' : Block} {a a' : Alternative} :
      R.expr c c' → R.block body body' → R.alternative a a' →
      Statement.Keeps (.ifElse c body a) (.ifElse c' body' a')
  | whileLoop {c c' : Expr} {body body' : Block} :
      R.expr c c' → R.block body body' →
      Statement.Keeps (.whileLoop c body) (.whileLoop c' body')
  | forLoop {start start' : Option Statement} {c c' u u' : Option Expr} {body body' : Block} :
      Option.Rel R.statement start start' → Option.Rel R.expr c c' → Option.Rel R.expr u u' →
      R.block body body' →
      Statement.Keeps (.forLoop start c u body) (.forLoop start' c' u' body')
  | function (x : String) (parameters : List String) {body body' : Block} :
      R.block body body' →
      Statement.Keeps (.function x parameters body) (.function x parameters body')
  | returning {e e' : Option Expr} :
      Option.Rel R.expr e e' → Statement.Keeps (.returning e) (.returning e')

/-- The same branches with related parts. -/
inductive Alternative.Keeps : Alternative → Alternative → Prop where
  | absent : Alternative.Keeps .absent .absent
  | block {body body' : Block} :
      R.block body body' → Alternative.Keeps (.block body) (.block body')
  | elseIf {c c' : Expr} {body body' : Block} {a a' : Alternative} :
      R.expr c c' → R.block body body' → R.alternative a a' →
      Alternative.Keeps (.elseIf c body a) (.elseIf c' body' a')

end Layers

/-! ## Flows -/

/-- Both statements ended normally, with values related by `N`, or by returning values related by
`R`. -/
inductive Flow.Pair (N R : Value → Value → Prop) : Flow → Flow → Prop where
  | normal {v v' : Value} : N v v' → Flow.Pair N R (.normal v) (.normal v')
  | returned {v v' : Value} : R v v' → Flow.Pair N R (.returned v) (.returned v')

/-- Flows that carry like values. -/
abbrev FlowsLike (bodies : Block → Block → Prop) (w : World) : Flow → Flow → Prop :=
  Flow.Pair (LikeIn bodies w) (LikeIn bodies w)

theorem FlowsLike.value {bodies : Block → Block → Prop} {w : World} {flow flow' : Flow}
    (h : FlowsLike bodies w flow flow') : LikeIn bodies w flow.value flow'.value := by
  cases h with
  | normal h => exact h
  | returned h => exact h

/-! ## Evaluation -/

/-- All evaluations of related trees, with fuel `n` and `m`, are paired. -/
structure EvalsPaired (R : TreeRel) (side : Side) (n m : Nat) : Prop where
  expr : ∀ {w s s' id id' e e'}, Tracks R.block w s s' → World.Stands w id id' → R.expr e e' →
    Paired R.block side w (Eval.expr n id e) (Eval.expr m id' e') s s' (LikeIn R.block)
  exprs : ∀ {w s s' id id' es es'}, Tracks R.block w s s' → World.Stands w id id' →
    List.Forall₂ R.expr es es' →
    Paired R.block side w (Eval.exprs n id es) (Eval.exprs m id' es') s s'
      fun w => List.Forall₂ (LikeIn R.block w)
  call : ∀ {w s s' f f' vs vs'}, Tracks R.block w s s' → LikeIn R.block w f f' →
    List.Forall₂ (LikeIn R.block w) vs vs' →
    Paired R.block side w (Eval.call n f vs) (Eval.call m f' vs') s s' (LikeIn R.block)
  block : ∀ {w s s' id id' body body'}, Tracks R.block w s s' → World.Stands w id id' →
    R.block body body' →
    Paired R.block side w (Eval.block n id body) (Eval.block m id' body') s s' (FlowsLike R.block)
  statements : ∀ {w s s' id id' last last' body body'}, Tracks R.block w s s' →
    World.Twin w id id' → LikeIn R.block w last last' → R.block body body' →
    Paired R.block side w (Eval.statements n id last body) (Eval.statements m id' last' body')
      s s' (FlowsLike R.block)
  statement : ∀ {w s s' id id' st st'}, Tracks R.block w s s' → World.Twin w id id' →
    R.statement st st' →
    Paired R.block side w (Eval.statement n id st) (Eval.statement m id' st') s s'
      (FlowsLike R.block)
  conditional : ∀ {w s s' id id' c c' body body' a a'}, Tracks R.block w s s' →
    World.Stands w id id' → R.expr c c' → R.block body body' → R.alternative a a' →
    Paired R.block side w (Eval.conditional n id c body a) (Eval.conditional m id' c' body' a')
      s s' (FlowsLike R.block)
  loop : ∀ {w s s' id id' c c' u u' body body' last last'}, Tracks R.block w s s' →
    World.Stands w id id' → Option.Rel R.expr c c' → Option.Rel R.expr u u' →
    R.block body body' → LikeIn R.block w last last' →
    Paired R.block side w (Eval.loop n id c u body last) (Eval.loop m id' c' u' body' last') s s'
      (FlowsLike R.block)

namespace EvalsPaired

theorem zero {R : TreeRel} {side : Side} : EvalsPaired R side 0 0 where
  expr _ _ _ := .outOfFuel
  exprs _ _ _ := .outOfFuel
  call _ _ _ := .outOfFuel
  block _ _ _ := .outOfFuel
  statements _ _ _ _ := .outOfFuel
  statement _ _ _ := .outOfFuel
  conditional _ _ _ _ _ := .outOfFuel
  loop _ _ _ _ _ _ := .outOfFuel

variable {R : TreeRel} {side : Side} {n m : Nat} (ih : EvalsPaired R side n m) {w : World}
  {s s' : State} {id id' : ScopeId}

include ih

theorem expr_succ {e e' : Expr} (hs : Tracks R.block w s s') (hid : World.Stands w id id')
    (he : Expr.Keeps R e e') :
    Paired R.block side w (Eval.expr (n + 1) id e) (Eval.expr (m + 1) id' e') s s'
      (LikeIn R.block) := by
  cases he with
  | literal l => exact .pure hs (.ofLiteral l)
  | name x => exact .read hs hid x
  | binary op ha hb =>
    refine (ih.expr hs hid ha).bind fun w₁ a a' t t' hw ht ha => ?_
    refine (ih.expr ht (hid.mono hw) hb).bind fun w₂ b b' u u' hw hu hb => ?_
    exact .ofExcept hu (op.apply_like (LikeIn.mono ha hw) hb) fun _ _ hv => hv
  | unary op ha =>
    refine (ih.expr hs hid ha).bind fun w₁ a a' t t' hw ht ha => ?_
    exact .ofExcept ht (op.apply_like ha) fun _ _ hv => hv
  | call hf hes =>
    refine (ih.expr hs hid hf).bind fun w₁ f f' t t' hw ht hf => ?_
    refine (ih.exprs ht (hid.mono hw) hes).bind fun w₂ vs vs' u u' hw hu hvs => ?_
    exact ih.call hu (LikeIn.mono hf hw) hvs
  | member key ha =>
    refine (ih.expr hs hid ha).bind fun w₁ a a' t t' hw ht ha => ?_
    exact .ofExcept ht (Value.member_like ha key) fun _ _ hv => hv
  | index ha hi =>
    refine (ih.expr hs hid ha).bind fun w₁ a a' t t' hw ht ha => ?_
    refine (ih.expr ht (hid.mono hw) hi).bind fun w₂ i i' u u' hw hu hi => ?_
    exact .ofExcept hu (Value.index_like (LikeIn.mono ha hw) hi) fun _ _ hv => hv
  | assign x ha =>
    refine (ih.expr hs hid ha).bind fun w₁ v v' t t' hw ht hv => ?_
    refine (Paired.assign ht (hid.mono hw) x hv).bind fun w₂ _ _ u u' hw hu _ => ?_
    exact .pure hu (LikeIn.mono hv hw)
  | array hes =>
    exact (ih.exprs hs hid hes).bind fun w₁ vs vs' t t' hw ht hvs => .pure ht (.array hvs)
  | object hps =>
    refine (ih.exprs hs hid (Fields.Like.items hps)).bind fun w₁ vs vs' t t' hw ht hvs => ?_
    rw [Fields.Like.keys_eq hps]
    exact .pure ht (.object (Fields.Like.ofList (Fields.Like.zip hvs _)))
  | function parameters hbody => exact .pure hs (.closure parameters hbody hid)

theorem exprs_succ {es es' : List Expr} (hs : Tracks R.block w s s')
    (hid : World.Stands w id id') (hes : List.Forall₂ R.expr es es') :
    Paired R.block side w (Eval.exprs (n + 1) id es) (Eval.exprs (m + 1) id' es') s s'
      fun w => List.Forall₂ (LikeIn R.block w) := by
  cases hes with
  | nil => exact .pure hs .nil
  | cons he hes =>
    refine (ih.expr hs hid he).bind fun w₁ v v' t t' hw ht hv => ?_
    refine (ih.exprs ht (hid.mono hw) hes).bind fun w₂ vs vs' u u' hw hu hvs => ?_
    exact .pure hu (.cons (LikeIn.mono hv hw) hvs)

theorem call_succ {f f' : Value} {vs vs' : List Value} (hs : Tracks R.block w s s')
    (hf : LikeIn R.block w f f') (hvs : List.Forall₂ (LikeIn R.block w) vs vs') :
    Paired R.block side w (Eval.call (n + 1) f vs) (Eval.call (m + 1) f' vs') s s'
      (LikeIn R.block) := by
  cases hf with
  | builtin b => exact .builtin hs hvs
  | closure parameters hbody hid =>
    rw [Eval.call, Eval.call, hvs.length_eq]
    split
    · refine (Paired.enter hs hid).bind fun w₁ inner inner' t t' hw ht hinner => ?_
      have hitems := Fields.Like.zip (hvs.imp fun _ _ hv => LikeIn.mono hv hw) parameters
      refine (Paired.defineAll ht hinner hitems).bind fun w₂ _ _ u u' hw hu _ => ?_
      refine (ih.block hu (hinner.mono hw).stands hbody).bind
        fun w₃ flow flow' r r' hw hr hflow => ?_
      exact .pure hr hflow.value
    · exact .fault hs
  | number | text | boolean | null | array | object => exact .fault hs

theorem block_succ {body body' : Block} (hs : Tracks R.block w s s')
    (hid : World.Stands w id id') (hbody : R.block body body') :
    Paired R.block side w (Eval.block (n + 1) id body) (Eval.block (m + 1) id' body') s s'
      (FlowsLike R.block) := by
  refine (Paired.enter hs hid).bind fun w₁ inner inner' t t' hw ht hinner => ?_
  exact ih.statements ht hinner .null hbody

/-- A statement in front of a list that is rewritten, too. -/
theorem statements_cons {last last' : Value} {st st' : Statement} {rest rest' : Block}
    (hs : Tracks R.block w s s') (hid : World.Twin w id id') (hst : R.statement st st')
    (hrest : R.block rest rest') :
    Paired R.block side w (Eval.statements (n + 1) id last (st :: rest))
      (Eval.statements (m + 1) id' last' (st' :: rest')) s s' (FlowsLike R.block) := by
  refine (ih.statement hs hid hst).bind fun w₁ flow flow' t t' hw ht hflow => ?_
  cases hflow with
  | returned hv => exact .pure ht (.returned hv)
  | normal hv => exact ih.statements ht (hid.mono hw) hv hrest

theorem statement_succ {st st' : Statement} (hs : Tracks R.block w s s')
    (hid : World.Twin w id id') (hst : Statement.Keeps R st st') :
    Paired R.block side w (Eval.statement (n + 1) id st) (Eval.statement (m + 1) id' st') s s'
      (FlowsLike R.block) := by
  cases hst with
  | declare constant x he =>
    refine (ih.expr hs hid.stands he).bind fun w₁ v v' t t' hw ht hv => ?_
    refine (Paired.define ht (hid.mono hw) x hv constant).bind fun w₂ _ _ u u' hw hu _ => ?_
    exact .pure hu (.normal .null)
  | expression he =>
    exact (ih.expr hs hid.stands he).bind fun w₁ v v' t t' hw ht hv => .pure ht (.normal hv)
  | block hbody => exact ih.block hs hid.stands hbody
  | ifElse hc hbody ha => exact ih.conditional hs hid.stands hc hbody ha
  | whileLoop hc hbody => exact ih.loop hs hid.stands (.some hc) .none hbody .null
  | forLoop hstart hc hu hbody =>
    refine (Paired.enter hs hid.stands).bind fun w₁ inner inner' t t' hw ht hinner => ?_
    have hfirst := Paired.optionally ht hstart fun st st' hst => ih.statement ht hinner hst
    refine hfirst.bind fun w₂ _ _ r r' hw hr _ => ?_
    exact ih.loop hr (hinner.mono hw).stands hc hu hbody .null
  | function x parameters hbody =>
    refine (Paired.define hs hid x (.closure parameters hbody hid.stands) false).bind
      fun w₁ _ _ t t' hw ht _ => ?_
    exact .pure ht (.normal .null)
  | returning he =>
    cases he with
    | none => exact .pure hs (.returned .null)
    | some he =>
      exact (ih.expr hs hid.stands he).bind fun w₁ v v' t t' hw ht hv => .pure ht (.returned hv)

theorem conditional_succ {c c' : Expr} {body body' : Block} {a a' : Alternative}
    (hs : Tracks R.block w s s') (hid : World.Stands w id id') (hc : R.expr c c')
    (hbody : R.block body body') (ha : Alternative.Keeps R a a') :
    Paired R.block side w (Eval.conditional (n + 1) id c body a)
      (Eval.conditional (m + 1) id' c' body' a') s s' (FlowsLike R.block) := by
  refine (ih.expr hs hid hc).bind fun w₁ v v' t t' hw ht hv => ?_
  rw [hv.truthy_eq]
  split
  · exact ih.block ht (hid.mono hw) hbody
  · cases ha with
    | absent => exact .pure ht (.normal .null)
    | block hbody => exact ih.block ht (hid.mono hw) hbody
    | elseIf hc hbody ha => exact ih.conditional ht (hid.mono hw) hc hbody ha

theorem loop_succ {c c' u u' : Option Expr} {body body' : Block} {last last' : Value}
    (hs : Tracks R.block w s s') (hid : World.Stands w id id') (hc : Option.Rel R.expr c c')
    (hu : Option.Rel R.expr u u') (hbody : R.block body body')
    (hlast : LikeIn R.block w last last') :
    Paired R.block side w (Eval.loop (n + 1) id c u body last)
      (Eval.loop (m + 1) id' c' u' body' last') s s' (FlowsLike R.block) := by
  have hcheck := Paired.holds hs hc fun e e' he => ih.expr hs hid he
  refine hcheck.bind fun w₁ again again' t t' hw ht hagain => ?_
  subst hagain
  have hid := hid.mono hw
  split
  · refine (ih.block ht hid hbody).bind fun w₂ flow flow' r r' hw hr hflow => ?_
    have hid := hid.mono hw
    cases hflow with
    | returned hv => exact .pure hr (.returned hv)
    | normal hv =>
      have hupdate := Paired.optionally hr hu fun e e' he => ih.expr hr hid he
      refine hupdate.bind fun w₃ _ _ q q' hw hq _ => ?_
      exact ih.loop hq (hid.mono hw) hc hu hbody (LikeIn.mono hv hw)
  · exact .pure ht (.normal (LikeIn.mono hlast hw))

end EvalsPaired

end Scriptlet
