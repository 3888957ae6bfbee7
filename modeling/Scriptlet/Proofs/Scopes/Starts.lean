import Scriptlet.Proofs.Scopes.Discipline

/-!
# What an evaluation starts

Inside a program, evaluations start other evaluations: operands, arguments, bodies, rounds.  A
`Task` is what one of the eight functions evaluates, and `Starts` lists which tasks it comes to
evaluate in turn, each with the state in which it does.  Nothing is missing from the list: an
evaluation runs out of fuel only if one that it starts does (`Task.starts_of_outOfFuel`), and all
calls from one of the functions to another could run out of it.
-/

namespace Scriptlet

/-- What is evaluated: the arguments of one of the eight functions, apart from the fuel. -/
inductive Task where
  | expr (id : ScopeId) (e : Expr)
  | exprs (id : ScopeId) (es : List Expr)
  | call (callee : Value) (arguments : List Value)
  | block (id : ScopeId) (body : Block)
  | statements (id : ScopeId) (last : Value) (body : Block)
  | statement (id : ScopeId) (st : Statement)
  | conditional (id : ScopeId) (condition : Expr) (consequence : Block) (alternative : Alternative)
  | loop (id : ScopeId) (condition update : Option Expr) (body : Block) (last : Value)

namespace Task

/-- Evaluates; the answer are the values found, one unless it is a list of expressions. -/
def run (n : Nat) : Task → Eval (List Value)
  | .expr id e => return [← Eval.expr n id e]
  | .exprs id es => Eval.exprs n id es
  | .call callee arguments => return [← Eval.call n callee arguments]
  | .block id body => return [(← Eval.block n id body).value]
  | .statements id last body => return [(← Eval.statements n id last body).value]
  | .statement id st => return [(← Eval.statement n id st).value]
  | .conditional id condition consequence alternative =>
    return [(← Eval.conditional n id condition consequence alternative).value]
  | .loop id condition update body last =>
    return [(← Eval.loop n id condition update body last).value]

end Task

/-- `Starts n task s next t`: evaluating `task` in `s` with fuel `n + 1` comes to evaluate `next` in
`t` with fuel `n`. -/
inductive Starts (n : Nat) : Task → State → Task → State → Prop
  | left {id op l r s} : Starts n (.expr id (.binary op l r)) s (.expr id l) s
  | right {id op l r v s t} (left : Eval.expr n id l s = .ok v t) :
      Starts n (.expr id (.binary op l r)) s (.expr id r) t
  | operand {id op e s} : Starts n (.expr id (.unary op e)) s (.expr id e) s
  | callee {id f es s} : Starts n (.expr id (.call f es)) s (.expr id f) s
  | arguments {id f es v s t} (callee : Eval.expr n id f s = .ok v t) :
      Starts n (.expr id (.call f es)) s (.exprs id es) t
  | call {id f es v vs s t u} (callee : Eval.expr n id f s = .ok v t)
      (arguments : Eval.exprs n id es t = .ok vs u) :
      Starts n (.expr id (.call f es)) s (.call v vs) u
  | member {id e key s} : Starts n (.expr id (.member e key)) s (.expr id e) s
  | indexed {id e i s} : Starts n (.expr id (.index e i)) s (.expr id e) s
  | place {id e i v s t} (indexed : Eval.expr n id e s = .ok v t) :
      Starts n (.expr id (.index e i)) s (.expr id i) t
  | assigned {id x e s} : Starts n (.expr id (.assign x e)) s (.expr id e) s
  | elements {id es s} : Starts n (.expr id (.array es)) s (.exprs id es) s
  | properties {id ps s} : Starts n (.expr id (.object ps)) s (.exprs id (ps.map Prod.snd)) s
  | firstExpr {id e es s} : Starts n (.exprs id (e :: es)) s (.expr id e) s
  | moreExprs {id e es v s t} (first : Eval.expr n id e s = .ok v t) :
      Starts n (.exprs id (e :: es)) s (.exprs id es) t
  -- The body of a closure runs inside the scope of its parameters.
  | body {outer id parameters body vs s t u} (arity : vs.length = parameters.length)
      (enter : Eval.enter outer s = .ok id t)
      (define : Eval.defineAll id (parameters.zip vs) t = .ok () u) :
      Starts n (.call (.closure parameters body outer) vs) s (.block id body) u
  | content {outer id body s t} (enter : Eval.enter outer s = .ok id t) :
      Starts n (.block outer body) s (.statements id .null body) t
  | firstStatement {id last st rest s} :
      Starts n (.statements id last (st :: rest)) s (.statement id st) s
  | moreStatements {id last v st rest s t}
      (first : Eval.statement n id st s = .ok (.normal v) t) :
      Starts n (.statements id last (st :: rest)) s (.statements id v rest) t
  | declared {id constant x e s} :
      Starts n (.statement id (.declare constant x e)) s (.expr id e) s
  | expression {id e s} : Starts n (.statement id (.expression e)) s (.expr id e) s
  | block {id body s} : Starts n (.statement id (.block body)) s (.block id body) s
  | ifElse {id c body rest s} :
      Starts n (.statement id (.ifElse c body rest)) s (.conditional id c body rest) s
  | whileLoop {id c body s} :
      Starts n (.statement id (.whileLoop c body)) s (.loop id (some c) none body .null) s
  | start {outer id st c e body s t} (enter : Eval.enter outer s = .ok id t) :
      Starts n (.statement outer (.forLoop (some st) c e body)) s (.statement id st) t
  | forLoop {outer id st c e body s t u} (enter : Eval.enter outer s = .ok id t)
      (start : Eval.optionally (Eval.statement n id) st t = .ok () u) :
      Starts n (.statement outer (.forLoop st c e body)) s (.loop id c e body .null) u
  | returned {id e s} : Starts n (.statement id (.returning (some e))) s (.expr id e) s
  | condition {id c body rest s} : Starts n (.conditional id c body rest) s (.expr id c) s
  | consequence {id c body rest v s t} (condition : Eval.expr n id c s = .ok v t)
      (truthy : v.truthy) : Starts n (.conditional id c body rest) s (.block id body) t
  | otherwise {id c body body' v s t} (condition : Eval.expr n id c s = .ok v t)
      (falsy : ¬ v.truthy) : Starts n (.conditional id c body (.block body')) s (.block id body') t
  | elseIf {id c c' body body' rest v s t} (condition : Eval.expr n id c s = .ok v t)
      (falsy : ¬ v.truthy) :
      Starts n (.conditional id c body (.elseIf c' body' rest)) s (.conditional id c' body' rest) t
  | check {id c e body last s} : Starts n (.loop id (some c) e body last) s (.expr id c) s
  | round {id c e body last s t} (check : Eval.holds (Eval.expr n id) c s = .ok true t) :
      Starts n (.loop id c e body last) s (.block id body) t
  | update {id c e body last v s t u} (check : Eval.holds (Eval.expr n id) c s = .ok true t)
      (round : Eval.block n id body t = .ok (.normal v) u) :
      Starts n (.loop id c (some e) body last) s (.expr id e) u
  | again {id c e body last v s t u w} (check : Eval.holds (Eval.expr n id) c s = .ok true t)
      (round : Eval.block n id body t = .ok (.normal v) u)
      (update : Eval.optionally (Eval.expr n id) e u = .ok () w) :
      Starts n (.loop id c e body last) s (.loop id c e body v) w

/-! ## Nothing else is started -/

/-- Any state may be reached; the fuel may only run out in an evaluation that `task` starts. -/
def blaming (n : Nat) (task : Task) (s : State) : Discipline where
  good _ := True
  step _ _ := True
  halts h := h = .outOfFuel →
    ∃ next t u, Starts n task s next t ∧ next.run n t = .error .outOfFuel u
  refl _ := trivial
  trans _ _ := trivial

section Blame

variable {n : Nat} {s : State}

theorem Starts.blame {α : Type} {task next : Task} {t : State} {x : Eval α}
    (h : Starts n task s next t) (hx : ∀ e u, x t = .error e u → next.run n t = .error e u) :
    Keeps (blaming n task s) x t fun _ _ => True := by
  rw [Keeps]
  cases hxt : x t with
  | ok a u => exact ⟨trivial, trivial, trivial⟩
  | error e u =>
    refine ⟨trivial, trivial, ?_⟩
    rintro rfl
    exact ⟨next, t, u, h, hx _ u hxt⟩

theorem Eval.expr_blames (id : ScopeId) (e : Expr) :
    Keeps (blaming n (.expr id e) s) (Eval.expr (n + 1) id e) s fun _ _ => True := by
  have hresult : ∀ {t : State} (r : Except Fault Value),
      Keeps (blaming n (.expr id e) s) (Eval.ofExcept r) t fun _ _ => True :=
    fun r => .ofExcept trivial (fun _ _ => trivial) fun _ _ => nofun
  cases e with
  | literal l => exact .pure trivial trivial
  | name x => exact .read trivial (fun _ _ => trivial) fun _ => nofun
  | binary op left right =>
    refine (Starts.left.blame bind_error).bind_ok fun a t ha => ?_
    exact ((Starts.right ha).blame bind_error).bind_ok fun b u _ => hresult _
  | unary op operand => exact (Starts.operand.blame bind_error).bind_ok fun a t _ => hresult _
  | call callee arguments =>
    refine (Starts.callee.blame bind_error).bind_ok fun f t hf => ?_
    refine ((Starts.arguments hf).blame fun _ _ h => h).bind_ok fun vs u hvs => ?_
    exact (Starts.call hf hvs).blame bind_error
  | member object key => exact (Starts.member.blame bind_error).bind_ok fun a t _ => hresult _
  | index object place =>
    refine (Starts.indexed.blame bind_error).bind_ok fun a t ha => ?_
    exact ((Starts.place ha).blame bind_error).bind_ok fun b u _ => hresult _
  | assign x value =>
    refine (Starts.assigned.blame bind_error).bind_ok fun v t _ => ?_
    have hassign : Keeps (blaming n (.expr id (.assign x value)) s) (Eval.assign id x v) t
        fun _ _ => True :=
      .assign trivial (fun _ _ _ => ⟨trivial, trivial, trivial⟩) nofun fun _ => nofun
    exact hassign.bind_ok fun _ u _ => .pure trivial trivial
  | array elements =>
    exact (Starts.elements.blame fun _ _ h => h).bind_ok fun vs t _ => .pure trivial trivial
  | object properties =>
    exact (Starts.properties.blame fun _ _ h => h).bind_ok fun vs t _ => .pure trivial trivial
  | function parameters body => exact .pure trivial trivial

theorem Eval.exprs_blames (id : ScopeId) (es : List Expr) :
    Keeps (blaming n (.exprs id es) s) (Eval.exprs (n + 1) id es) s fun _ _ => True := by
  cases es with
  | nil => exact .pure trivial trivial
  | cons e es =>
    refine (Starts.firstExpr.blame bind_error).bind_ok fun v t hv => ?_
    refine ((Starts.moreExprs hv).blame fun _ _ h => h).bind_ok fun vs u _ => ?_
    exact .pure trivial trivial

theorem Eval.define_blames {task : Task} {id : ScopeId} {x : String} {v : Value} {constant : Bool}
    {t : State} : Keeps (blaming n task s) (define id x v constant) t fun _ _ => True :=
  .define trivial (fun _ => ⟨trivial, trivial, trivial⟩) fun _ => nofun

theorem Eval.defineAll_blames {task : Task} {id : ScopeId} (items : List (String × Value))
    {t : State} : Keeps (blaming n task s) (defineAll id items) t fun _ _ => True := by
  induction items generalizing t with
  | nil => exact .pure trivial trivial
  | cons p items ih => exact define_blames.bind_ok fun _ u _ => ih

theorem Builtin.call_blames {task : Task} {t : State} (b : Builtin) (arguments : List Value) :
    Keeps (blaming n task s) (b.call arguments) t fun _ _ => True :=
  .builtin trivial (fun _ => ⟨trivial, trivial, trivial⟩) (fun _ _ => trivial) (fun _ _ => nofun)
    fun _ => nofun

theorem Eval.enter_blames {task : Task} {id : ScopeId} {t : State} :
    Keeps (blaming n task s) (enter id) t fun _ _ => True :=
  .enter trivial trivial trivial

theorem Eval.call_blames (callee : Value) (arguments : List Value) :
    Keeps (blaming n (.call callee arguments) s) (Eval.call (n + 1) callee arguments) s
      fun _ _ => True := by
  cases callee with
  | builtin b => exact b.call_blames arguments
  | closure parameters body outer =>
    rw [Eval.call]
    split
    · next harity =>
      refine enter_blames.bind_ok fun id t henter => ?_
      refine (defineAll_blames (parameters.zip arguments)).bind_ok fun _ u hdefine => ?_
      refine ((Starts.body harity henter hdefine).blame bind_error).bind_ok fun flow w _ => ?_
      exact .pure trivial trivial
    · exact .fault trivial nofun
  | number | text | boolean | null | array | object => exact .fault trivial nofun

theorem Eval.block_blames (id : ScopeId) (body : Block) :
    Keeps (blaming n (.block id body) s) (Eval.block (n + 1) id body) s fun _ _ => True :=
  enter_blames.bind_ok fun _ _ henter => (Starts.content henter).blame bind_error

theorem Eval.statements_blames (id : ScopeId) (last : Value) (body : Block) :
    Keeps (blaming n (.statements id last body) s) (Eval.statements (n + 1) id last body) s
      fun _ _ => True := by
  cases body with
  | nil => exact .pure trivial trivial
  | cons st rest =>
    refine (Starts.firstStatement.blame bind_error).bind_ok fun flow t hflow => ?_
    cases flow with
    | returned v => exact .pure trivial trivial
    | normal v => exact (Starts.moreStatements hflow).blame bind_error

theorem Eval.statement_blames (id : ScopeId) (st : Statement) :
    Keeps (blaming n (.statement id st) s) (Eval.statement (n + 1) id st) s fun _ _ => True := by
  cases st with
  | declare constant x value =>
    refine (Starts.declared.blame bind_error).bind_ok fun v t _ => ?_
    exact define_blames.bind_ok fun _ u _ => .pure trivial trivial
  | expression value =>
    exact (Starts.expression.blame bind_error).bind_ok fun v t _ => .pure trivial trivial
  | block body => exact Starts.block.blame bind_error
  | ifElse condition consequence alternative => exact Starts.ifElse.blame bind_error
  | whileLoop condition body => exact Starts.whileLoop.blame bind_error
  | forLoop start condition update body =>
    refine enter_blames.bind_ok fun inner t henter => ?_
    have hstart : Keeps (blaming n (.statement id (.forLoop start condition update body)) s)
        (optionally (Eval.statement n inner) start) t fun _ _ => True := by
      refine .optionally (R := fun _ _ => True) trivial fun st hst => ?_
      subst hst
      exact (Starts.start henter).blame bind_error
    exact hstart.bind_ok fun _ u hu => (Starts.forLoop henter hu).blame bind_error
  | function x parameters body =>
    exact define_blames.bind_ok fun _ t _ => .pure trivial trivial
  | returning value =>
    cases value with
    | none => exact .pure trivial trivial
    | some value =>
      exact (Starts.returned.blame bind_error).bind_ok fun v t _ => .pure trivial trivial

theorem Eval.conditional_blames (id : ScopeId) (condition : Expr) (consequence : Block)
    (alternative : Alternative) :
    Keeps (blaming n (.conditional id condition consequence alternative) s)
      (Eval.conditional (n + 1) id condition consequence alternative) s fun _ _ => True := by
  refine (Starts.condition.blame bind_error).bind_ok fun v t hv => ?_
  split
  · next htruthy => exact (Starts.consequence hv htruthy).blame bind_error
  · next hfalsy =>
    cases alternative with
    | absent => exact .pure trivial trivial
    | block body => exact (Starts.otherwise hv hfalsy).blame bind_error
    | elseIf condition consequence alternative =>
      exact (Starts.elseIf hv hfalsy).blame bind_error

theorem Eval.loop_blames (id : ScopeId) (condition update : Option Expr) (body : Block)
    (last : Value) :
    Keeps (blaming n (.loop id condition update body last) s)
      (Eval.loop (n + 1) id condition update body last) s fun _ _ => True := by
  have hcheck : Keeps (blaming n (.loop id condition update body last) s)
      (holds (Eval.expr n id) condition) s fun _ _ => True := by
    refine .holds (R := fun _ _ => True) trivial fun c hc => ?_
    subst hc
    exact Starts.check.blame bind_error
  refine hcheck.bind_ok fun again t ht => ?_
  cases again with
  | false => exact .pure trivial trivial
  | true =>
    refine ((Starts.round ht).blame bind_error).bind_ok fun flow u hflow => ?_
    cases flow with
    | returned v => exact .pure trivial trivial
    | normal v =>
      have hupdate : Keeps (blaming n (.loop id condition update body last) s)
          (optionally (Eval.expr n id) update) u fun _ _ => True := by
        refine .optionally (R := fun _ _ => True) trivial fun e he => ?_
        subst he
        exact (Starts.update ht hflow).blame bind_error
      exact hupdate.bind_ok fun _ w hw => (Starts.again ht hflow hw).blame bind_error

theorem Task.run_blames (task : Task) :
    Keeps (blaming n task s) (task.run (n + 1)) s fun _ _ => True := by
  cases task with
  | expr id e => exact (Eval.expr_blames id e).bind_ok fun _ _ _ => .pure trivial trivial
  | exprs id es => exact Eval.exprs_blames id es
  | call callee arguments =>
    exact (Eval.call_blames callee arguments).bind_ok fun _ _ _ => .pure trivial trivial
  | block id body => exact (Eval.block_blames id body).bind_ok fun _ _ _ => .pure trivial trivial
  | statements id last body =>
    exact (Eval.statements_blames id last body).bind_ok fun _ _ _ => .pure trivial trivial
  | statement id st =>
    exact (Eval.statement_blames id st).bind_ok fun _ _ _ => .pure trivial trivial
  | conditional id condition consequence alternative =>
    refine (Eval.conditional_blames id condition consequence alternative).bind_ok fun _ _ _ => ?_
    exact .pure trivial trivial
  | loop id condition update body last =>
    refine (Eval.loop_blames id condition update body last).bind_ok fun _ _ _ => ?_
    exact .pure trivial trivial

/-- **An evaluation runs out of fuel only in one that it starts.** -/
theorem Task.starts_of_outOfFuel {task : Task} {u : State}
    (h : task.run (n + 1) s = .error .outOfFuel u) :
    ∃ next t u', Starts n task s next t ∧ next.run n t = .error .outOfFuel u' := by
  have hblames : Keeps (blaming n task s) (task.run (n + 1)) s fun _ _ => True := task.run_blames
  rw [Keeps, h] at hblames
  exact hblames.2.2 rfl

end Blame

end Scriptlet
