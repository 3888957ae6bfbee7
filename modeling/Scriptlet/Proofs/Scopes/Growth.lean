import Scriptlet.Proofs.Scopes.Discipline
import Scriptlet.Proofs.Scopes.Extension

/-!
# States only grow

Every evaluation keeps the table of scopes well formed and extends the state, wherever it ends.  The
discipline is `growth`; besides it, a result may hold only closures over scopes that exist when the
result is there.

The steps that touch the state come first.  Evaluation itself is an induction on the fuel, for all
eight functions at once (`Growing`); each of them only starts others with less fuel.
-/

namespace Scriptlet

/-- The table stays well formed and nothing is taken back, for whatever reason a run halts. -/
def growth : Discipline where
  good := State.WellFormed
  step := State.Extends
  halts _ := True
  refl := State.Extends.refl
  trans := State.Extends.trans

namespace Eval

variable {s : State} {id : ScopeId} {x : String} {v : Value}

/-! ## Steps -/

theorem throw_grows {α : Type} {h : Halt} {Q : α → State → Prop} (hs : s.WellFormed) :
    Keeps growth (throw h : Eval α) s Q :=
  .throw hs trivial

theorem ofExcept_grows {α : Type} {r : Except Fault α} {Q : α → State → Prop} (hs : s.WellFormed)
    (hr : ∀ a, r = .ok a → Q a s) : Keeps growth (ofExcept r) s Q :=
  .ofExcept hs hr fun _ _ => trivial

theorem read_grows (hs : s.WellFormed) : Keeps growth (read id x) s fun v t => t.Knows v :=
  .read hs (fun _ hw => hs.knows (State.stores_of_value? hw)) fun _ => trivial

theorem define_grows {constant : Bool} (hs : s.WellFormed) (hv : s.Knows v) :
    Keeps growth (define id x v constant) s fun _ _ => True := by
  refine .define hs (fun hfree => ?_) fun _ => trivial
  exact ⟨hs.write hv, State.extends_write fun hbound => absurd hbound hfree, trivial⟩

theorem assign_grows (hs : s.WellFormed) (hv : s.Knows v) :
    Keeps growth (assign id x v) s fun _ _ => True := by
  refine .assign hs (fun owner _ hfree => ?_) trivial fun _ => trivial
  exact ⟨hs.write hv, State.extends_write fun _ => hfree, trivial⟩

theorem enter_grows (hs : s.WellFormed) (hid : id < s.scopes.size) :
    Keeps growth (enter id) s fun new t => new < t.scopes.size := by
  refine .enter (hs.addScope ?_ (fun _ hp => ?_) fun _ hx => ?_) (State.extends_addScope _) ?_
  · rintro p ⟨⟩
    exact hid
  · cases hp
  · cases hx
  · rw [State.size_addScope]
    exact Nat.lt_succ_self _

theorem defineAll_grows {items : List (String × Value)} (hs : s.WellFormed)
    (h : ∀ p ∈ items, s.Knows p.2) : Keeps growth (defineAll id items) s fun _ _ => True := by
  induction items generalizing s with
  | nil => exact .pure hs trivial
  | cons p items ih =>
    rw [defineAll]
    refine (define_grows hs (h p List.mem_cons_self)).bind fun _ t ht hst _ => ?_
    exact ih ht fun q hq => State.Extends.knows hst (h q (List.mem_cons_of_mem _ hq))

theorem defineAll_zip_grows {parameters : List String} {arguments : List Value} (hs : s.WellFormed)
    (ha : ∀ v ∈ arguments, s.Knows v) :
    Keeps growth (defineAll id (parameters.zip arguments)) s fun _ _ => True :=
  defineAll_grows hs fun _ hp => ha _ (List.of_mem_zip hp).2

end Eval

theorem Builtin.call_grows {s : State} {b : Builtin} {arguments : List Value} (hs : s.WellFormed)
    (ha : ∀ v ∈ arguments, s.Knows v) :
    Keeps growth (b.call arguments) s fun v t => t.Knows v := by
  refine .builtin hs (fun line => ?_) (fun v hv => ?_) (fun _ _ => trivial) fun _ => trivial
  · exact ⟨hs.print line, State.extends_print line, Value.allClosures_null⟩
  · exact apply_allClosures hv ha

/-! ## Evaluation -/

open Eval

/-- All evaluations with fuel `n` keep growth, and their results are known. -/
structure Growing (n : Nat) : Prop where
  expr : ∀ {s id} e, s.WellFormed → id < s.scopes.size →
    Keeps growth (expr n id e) s fun v t => t.Knows v
  exprs : ∀ {s id} es, s.WellFormed → id < s.scopes.size →
    Keeps growth (exprs n id es) s fun vs t => ∀ v ∈ vs, t.Knows v
  call : ∀ {s callee arguments}, s.WellFormed → s.Knows callee → (∀ v ∈ arguments, s.Knows v) →
    Keeps growth (call n callee arguments) s fun v t => t.Knows v
  block : ∀ {s id} body, s.WellFormed → id < s.scopes.size →
    Keeps growth (block n id body) s fun flow t => t.Knows flow.value
  statements : ∀ {s id last} body, s.WellFormed → id < s.scopes.size → s.Knows last →
    Keeps growth (statements n id last body) s fun flow t => t.Knows flow.value
  statement : ∀ {s id} st, s.WellFormed → id < s.scopes.size →
    Keeps growth (statement n id st) s fun flow t => t.Knows flow.value
  conditional : ∀ {s id} condition consequence alternative, s.WellFormed → id < s.scopes.size →
    Keeps growth (conditional n id condition consequence alternative) s
      fun flow t => t.Knows flow.value
  loop : ∀ {s id last} condition update body, s.WellFormed → id < s.scopes.size → s.Knows last →
    Keeps growth (loop n id condition update body last) s fun flow t => t.Knows flow.value

namespace Growing

theorem zero : Growing 0 where
  expr _ hs _ := throw_grows hs
  exprs _ hs _ := throw_grows hs
  call hs _ _ := throw_grows hs
  block _ hs _ := throw_grows hs
  statements _ hs _ _ := throw_grows hs
  statement _ hs _ := throw_grows hs
  conditional _ _ _ hs _ := throw_grows hs
  loop _ _ _ hs _ _ := throw_grows hs

section Succ

variable {n : Nat} (ih : Growing n) {s : State} {id : ScopeId}

include ih

theorem expr_succ (e : Expr) (hs : s.WellFormed) (hid : id < s.scopes.size) :
    Keeps growth (Eval.expr (n + 1) id e) s fun v t => t.Knows v := by
  cases e with
  | literal l => exact .pure hs (Value.allClosures_ofLiteral l)
  | name x => exact read_grows hs
  | binary op left right =>
    refine (ih.expr left hs hid).bind fun a t ht hst _ => ?_
    refine (ih.expr right ht (hst.exists_lt hid)).bind fun b u hu _ _ => ?_
    exact ofExcept_grows hu fun v hv => BinaryOp.apply_allClosures hv
  | unary op operand =>
    refine (ih.expr operand hs hid).bind fun a t ht _ _ => ?_
    exact ofExcept_grows ht fun v hv => UnaryOp.apply_allClosures hv
  | call callee arguments =>
    refine (ih.expr callee hs hid).bind fun f t ht hst hf => ?_
    refine (ih.exprs arguments ht (hst.exists_lt hid)).bind fun vs u hu htu hvs => ?_
    exact ih.call hu (htu.knows hf) hvs
  | member object key =>
    refine (ih.expr object hs hid).bind fun a t ht _ ha => ?_
    exact ofExcept_grows ht fun v hv => Value.member_allClosures hv ha
  | index object place =>
    refine (ih.expr object hs hid).bind fun a t ht hst ha => ?_
    refine (ih.expr place ht (hst.exists_lt hid)).bind fun b u hu htu _ => ?_
    exact ofExcept_grows hu fun v hv => Value.index_allClosures hv (htu.knows ha)
  | assign x value =>
    refine (ih.expr value hs hid).bind fun v t ht _ hv => ?_
    exact (assign_grows ht hv).bind fun _ u hu htu _ => .pure hu (htu.knows hv)
  | array elements =>
    refine (ih.exprs elements hs hid).bind fun vs t ht _ hvs => ?_
    exact .pure ht (Value.allClosures_array.mpr hvs)
  | object properties =>
    refine (ih.exprs (properties.map Prod.snd) hs hid).bind fun vs t ht _ hvs => ?_
    refine .pure ht (Value.allClosures_object.mpr fun p hp => ?_)
    exact hvs _ (List.of_mem_zip (Fields.mem_ofList hp)).2
  | function parameters body => exact .pure hs (Value.allClosures_closure.mpr hid)

theorem exprs_succ (es : List Expr) (hs : s.WellFormed) (hid : id < s.scopes.size) :
    Keeps growth (Eval.exprs (n + 1) id es) s fun vs t => ∀ v ∈ vs, t.Knows v := by
  cases es with
  | nil => exact .pure hs nofun
  | cons e es =>
    refine (ih.expr e hs hid).bind fun v t ht hst hv => ?_
    refine (ih.exprs es ht (hst.exists_lt hid)).bind fun vs u hu htu hvs => ?_
    exact .pure hu (List.forall_mem_cons.mpr ⟨htu.knows hv, hvs⟩)

theorem call_succ {callee : Value} {arguments : List Value} (hs : s.WellFormed)
    (hf : s.Knows callee) (ha : ∀ v ∈ arguments, s.Knows v) :
    Keeps growth (Eval.call (n + 1) callee arguments) s fun v t => t.Knows v := by
  cases callee with
  | builtin b => exact Builtin.call_grows hs ha
  | closure parameters body outer =>
    rw [Eval.call]
    split
    · refine (enter_grows hs (Value.allClosures_closure.mp hf)).bind fun inner t ht hst hinner => ?_
      have ha : ∀ v ∈ arguments, t.Knows v := fun v hv => hst.knows (ha v hv)
      refine (defineAll_zip_grows ht ha).bind fun _ u hu htu _ => ?_
      exact (ih.block body hu (htu.exists_lt hinner)).bind fun flow w hw _ hflow => .pure hw hflow
    · exact .fault hs trivial
  | number | text | boolean | null | array | object => exact .fault hs trivial

theorem block_succ (body : Block) (hs : s.WellFormed) (hid : id < s.scopes.size) :
    Keeps growth (Eval.block (n + 1) id body) s fun flow t => t.Knows flow.value := by
  refine (enter_grows hs hid).bind fun inner t ht _ hinner => ?_
  exact ih.statements body ht hinner Value.allClosures_null

theorem statements_succ {last : Value} (body : Block) (hs : s.WellFormed)
    (hid : id < s.scopes.size) (hlast : s.Knows last) :
    Keeps growth (Eval.statements (n + 1) id last body) s fun flow t => t.Knows flow.value := by
  cases body with
  | nil => exact .pure hs hlast
  | cons st rest =>
    refine (ih.statement st hs hid).bind fun flow t ht hst hflow => ?_
    cases flow with
    | returned v => exact .pure ht hflow
    | normal v => exact ih.statements rest ht (hst.exists_lt hid) hflow

theorem statement_succ (st : Statement) (hs : s.WellFormed) (hid : id < s.scopes.size) :
    Keeps growth (Eval.statement (n + 1) id st) s fun flow t => t.Knows flow.value := by
  cases st with
  | declare constant x value =>
    refine (ih.expr value hs hid).bind fun v t ht _ hv => ?_
    exact (define_grows ht hv).bind fun _ u hu _ _ => .pure hu Value.allClosures_null
  | expression value => exact (ih.expr value hs hid).bind fun v t ht _ hv => .pure ht hv
  | block body => exact ih.block body hs hid
  | ifElse condition consequence alternative =>
    exact ih.conditional condition consequence alternative hs hid
  | whileLoop condition body =>
    exact ih.loop (some condition) none body hs hid Value.allClosures_null
  | forLoop start condition update body =>
    refine (enter_grows hs hid).bind fun inner t ht _ hinner => ?_
    refine (Keeps.optionally ht fun st _ => ih.statement st ht hinner).bind fun _ u hu htu _ => ?_
    exact ih.loop condition update body hu (htu.exists_lt hinner) Value.allClosures_null
  | function x parameters body =>
    refine (define_grows hs (Value.allClosures_closure.mpr hid)).bind fun _ t ht _ _ => ?_
    exact .pure ht Value.allClosures_null
  | returning value =>
    cases value with
    | none => exact .pure hs Value.allClosures_null
    | some value => exact (ih.expr value hs hid).bind fun v t ht _ hv => .pure ht hv

theorem conditional_succ (condition : Expr) (consequence : Block) (alternative : Alternative)
    (hs : s.WellFormed) (hid : id < s.scopes.size) :
    Keeps growth (Eval.conditional (n + 1) id condition consequence alternative) s
      fun flow t => t.Knows flow.value := by
  refine (ih.expr condition hs hid).bind fun v t ht hst _ => ?_
  have hid := hst.exists_lt hid
  split
  · exact ih.block consequence ht hid
  · cases alternative with
    | absent => exact .pure ht Value.allClosures_null
    | block body => exact ih.block body ht hid
    | elseIf condition consequence alternative =>
      exact ih.conditional condition consequence alternative ht hid

theorem loop_succ {last : Value} (condition update : Option Expr) (body : Block)
    (hs : s.WellFormed) (hid : id < s.scopes.size) (hlast : s.Knows last) :
    Keeps growth (Eval.loop (n + 1) id condition update body last) s
      fun flow t => t.Knows flow.value := by
  refine (Keeps.holds hs fun e _ => ih.expr e hs hid).bind fun holds t ht hst _ => ?_
  have hid := hst.exists_lt hid
  split
  · refine (ih.block body ht hid).bind fun flow u hu htu hflow => ?_
    have hid := htu.exists_lt hid
    cases flow with
    | returned v => exact .pure hu hflow
    | normal v =>
      refine (Keeps.optionally hu fun e _ => ih.expr e hu hid).bind fun _ w hw huw _ => ?_
      exact ih.loop condition update body hw (huw.exists_lt hid) (huw.knows hflow)
  · exact .pure ht (hst.knows hlast)

end Succ

end Growing

/-- **Every evaluation keeps growth.** -/
theorem growing (n : Nat) : Growing n := by
  induction n with
  | zero => exact .zero
  | succ n ih =>
    exact {
      expr := ih.expr_succ
      exprs := ih.exprs_succ
      call := ih.call_succ
      block := ih.block_succ
      statements := ih.statements_succ
      statement := ih.statement_succ
      conditional := ih.conditional_succ
      loop := ih.loop_succ }

end Scriptlet
