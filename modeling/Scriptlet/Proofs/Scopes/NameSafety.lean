import Scriptlet.Proofs.Scopes.Settled

/-!
# Well-scoped programs meet no name fault

A well-scoped program meets no name fault, whatever closures it makes, keeps and calls.  The proof
is an induction on the fuel for all eight functions of evaluation (`Safe`).  A statement may bind
what it declares, in its own scope; everything else binds nothing in the scopes that were there
before it.  A list of statements is run with the names it may use in sight and the names it declares
still free; each statement brings its own names in sight for the rest.
-/

namespace Scriptlet

open Eval

/-- All evaluations of well-scoped trees with fuel `n` are safe, and their results settled. -/
structure Safe (n : Nat) : Prop where
  expr : ∀ {s id names} e, s.Settled → s.Offers id names → e.Scoped names →
    Keeps (scoping nothing) (expr n id e) s fun v t => t.Settles v
  exprs : ∀ {s id names} es, s.Settled → s.Offers id names → Expr.AllScoped names es →
    Keeps (scoping nothing) (exprs n id es) s fun vs t => ∀ v ∈ vs, t.Settles v
  call : ∀ {s callee arguments}, s.Settled → s.Settles callee → (∀ v ∈ arguments, s.Settles v) →
    Keeps (scoping nothing) (call n callee arguments) s fun v t => t.Settles v
  block : ∀ {s id names} body, s.Settled → s.Offers id names → Statement.AllScoped names body →
    Keeps (scoping nothing) (block n id body) s fun flow t => t.Settles flow.value
  statements : ∀ {s id last names} body, s.Settled → s.Offers id names →
    Statement.AllScoped names body → (∀ x ∈ Statement.allDeclare body, ¬ s.binds id x) →
    s.Settles last → Keeps (scoping (binding id (Statement.allDeclare body)))
      (statements n id last body) s fun flow t => t.Settles flow.value
  statement : ∀ {s id names} st, s.Settled → s.Offers id names → st.Scoped names →
    (∀ x ∈ st.declares, ¬ s.binds id x) → Keeps (scoping (binding id st.declares))
      (statement n id st) s fun flow t => t.Settles flow.value ∧ ∀ x ∈ st.declares, t.binds id x
  conditional : ∀ {s id names} condition consequence alternative, s.Settled → s.Offers id names →
    condition.Scoped names → Statement.AllScoped names consequence → alternative.Scoped names →
    Keeps (scoping nothing) (conditional n id condition consequence alternative) s
      fun flow t => t.Settles flow.value
  loop : ∀ {s id last names} condition update body, s.Settled → s.Offers id names →
    Expr.OptionScoped names condition → Expr.OptionScoped names update →
    Statement.AllScoped names body → s.Settles last →
    Keeps (scoping nothing) (loop n id condition update body last) s
      fun flow t => t.Settles flow.value

namespace Safe

theorem zero : Safe 0 where
  expr _ hs _ _ := outOfFuel_safe hs
  exprs _ hs _ _ := outOfFuel_safe hs
  call hs _ _ := outOfFuel_safe hs
  block _ hs _ _ := outOfFuel_safe hs
  statements _ hs _ _ _ _ := outOfFuel_safe hs
  statement _ hs _ _ _ := outOfFuel_safe hs
  conditional _ _ _ hs _ _ _ _ := outOfFuel_safe hs
  loop _ _ _ hs _ _ _ _ _ := outOfFuel_safe hs

section Succ

variable {n : Nat} (ih : Safe n) {s : State} {id : ScopeId} {names : List String}

include ih

theorem expr_succ (e : Expr) (hs : s.Settled) (ho : s.Offers id names) (he : e.Scoped names) :
    Keeps (scoping nothing) (Eval.expr (n + 1) id e) s fun v t => t.Settles v := by
  cases e with
  | literal l => exact .pure hs (Value.allClosures_ofLiteral l)
  | name x => exact read_safe hs (ho.2 x he)
  | binary op left right =>
    refine (ih.expr left hs ho he.1).bind fun a t ht hst _ => ?_
    refine (ih.expr right ht (hst.1.offers ho) he.2).bind fun b u hu _ _ => ?_
    refine ofExcept_safe hu (fun v hv => ?_) fun f => BinaryOp.apply_isName
    exact BinaryOp.apply_allClosures hv
  | unary op operand =>
    refine (ih.expr operand hs ho he).bind fun a t ht _ _ => ?_
    refine ofExcept_safe ht (fun v hv => ?_) fun f => UnaryOp.apply_isName
    exact UnaryOp.apply_allClosures hv
  | call callee arguments =>
    refine (ih.expr callee hs ho he.1).bind fun f t ht hst hf => ?_
    refine (ih.exprs arguments ht (hst.1.offers ho) he.2).bind fun vs u hu htu hvs => ?_
    exact ih.call hu (htu.1.settles hf) hvs
  | member object key =>
    refine (ih.expr object hs ho he).bind fun a t ht _ ha => ?_
    refine ofExcept_safe ht (fun v hv => ?_) fun f => Value.member_isName
    exact Value.member_allClosures hv ha
  | index object place =>
    refine (ih.expr object hs ho he.1).bind fun a t ht hst ha => ?_
    refine (ih.expr place ht (hst.1.offers ho) he.2).bind fun b u hu htu _ => ?_
    refine ofExcept_safe hu (fun v hv => ?_) fun f => Value.index_isName
    exact Value.index_allClosures hv (htu.1.settles ha)
  | assign x value =>
    refine (ih.expr value hs ho he.2).bind fun v t ht hst hv => ?_
    refine (assign_safe ht (hst.1.visible (ho.2 x he.1)) hv).bind fun _ u hu htu _ => ?_
    exact .pure hu (htu.1.settles hv)
  | array elements =>
    refine (ih.exprs elements hs ho he).bind fun vs t ht _ hvs => ?_
    exact .pure ht (Value.allClosures_array.mpr hvs)
  | object properties =>
    have hvalues := Expr.PropertiesScoped.values he
    refine (ih.exprs (properties.map Prod.snd) hs ho hvalues).bind fun vs t ht _ hvs => ?_
    refine .pure ht (Value.allClosures_object.mpr fun p hp => ?_)
    exact hvs _ (List.of_mem_zip (Fields.mem_ofList hp)).2
  | function parameters body =>
    exact .pure hs (Value.allClosures_closure.mpr ⟨he.1, names, ho, he.2⟩)

theorem exprs_succ (es : List Expr) (hs : s.Settled) (ho : s.Offers id names)
    (hes : Expr.AllScoped names es) :
    Keeps (scoping nothing) (Eval.exprs (n + 1) id es) s fun vs t => ∀ v ∈ vs, t.Settles v := by
  cases es with
  | nil => exact .pure hs nofun
  | cons e es =>
    refine (ih.expr e hs ho hes.1).bind fun v t ht hst hv => ?_
    refine (ih.exprs es ht (hst.1.offers ho) hes.2).bind fun vs u hu htu hvs => ?_
    exact .pure hu (List.forall_mem_cons.mpr ⟨htu.1.settles hv, hvs⟩)

theorem call_succ {callee : Value} {arguments : List Value} (hs : s.Settled)
    (hf : s.Settles callee) (ha : ∀ v ∈ arguments, s.Settles v) :
    Keeps (scoping nothing) (Eval.call (n + 1) callee arguments) s fun v t => t.Settles v := by
  cases callee with
  | builtin b => exact Builtin.call_safe hs ha
  | closure parameters body outer =>
    obtain ⟨hnodup, names, ho, hbody⟩ := Value.allClosures_closure.mp hf
    rw [Eval.call]
    split
    · next harity =>
      have hfst : (parameters.zip arguments).map Prod.fst = parameters :=
        List.map_fst_zip (Nat.le_of_eq harity.symm)
      refine Keeps.fresh ?_
      refine (enter_safe hs ho).bind fun inner t ht hst hinner => ?_
      obtain ⟨hle, ho, hempty⟩ := hinner
      have hdefine := @defineAll_safe t inner (parameters.zip arguments) ht ho.1
        (by rw [hfst]; exact hnodup) (fun p _ => hempty p.1)
        fun p hp => hst.1.settles (ha _ (List.of_mem_zip hp).2)
      rw [hfst] at hdefine
      refine (hdefine.widen fun i _ hi => hi.1 ▸ hle).bind fun _ u hu htu hbound => ?_
      have ho : u.Offers inner (parameters ++ names) := (htu.1.offers ho).bound hbound
      exact (ih.block body hu ho hbody).quiet.bind fun flow w hw _ hflow => .pure hw hflow
    · exact fault_safe hs rfl
  | number | text | boolean | null | array | object => exact fault_safe hs rfl

theorem block_succ (body : Block) (hs : s.Settled) (ho : s.Offers id names)
    (hbody : Statement.AllScoped names body) :
    Keeps (scoping nothing) (Eval.block (n + 1) id body) s fun flow t => t.Settles flow.value := by
  refine Keeps.fresh ((enter_safe hs ho).bind fun inner t ht _ hinner => ?_)
  obtain ⟨hle, ho, hempty⟩ := hinner
  have hrun := ih.statements body ht ho hbody (fun x _ => hempty x) Value.allClosures_null
  exact hrun.widen fun i _ hi => hi.1 ▸ hle

theorem statements_succ {last : Value} (body : Block) (hs : s.Settled) (ho : s.Offers id names)
    (hbody : Statement.AllScoped names body)
    (hfree : ∀ x ∈ Statement.allDeclare body, ¬ s.binds id x) (hlast : s.Settles last) :
    Keeps (scoping (binding id (Statement.allDeclare body)))
      (Eval.statements (n + 1) id last body) s fun flow t => t.Settles flow.value := by
  cases body with
  | nil => exact .pure hs hlast
  | cons st rest =>
    obtain ⟨hst, hdistinct, hrest⟩ := hbody
    have hall : Statement.allDeclare (st :: rest) = st.declares ++ Statement.allDeclare rest := rfl
    rw [hall] at hfree ⊢
    have hfirst := ih.statement st hs ho hst fun x hx => hfree x (List.mem_append_left _ hx)
    -- The first statement binds only what it declares; that keeps the names of the rest free.
    have hfirst := hfirst.imp fun _ t _ hstep hq => And.intro hq hstep
    have hmay : ∀ i x, binding id st.declares i x →
        binding id (st.declares ++ Statement.allDeclare rest) i x :=
      fun i x h => ⟨h.1, List.mem_append_left _ h.2⟩
    refine (hfirst.widen hmay).bind fun flow t ht _ hq => ?_
    obtain ⟨⟨hflow, hbound⟩, hext, hnew⟩ := hq
    cases flow with
    | returned v => exact .pure ht hflow
    | normal v =>
      have hfree : ∀ x ∈ Statement.allDeclare rest, ¬ t.binds id x := by
        intro x hx hb
        rcases hnew ho.1 hb with hb | hb
        · exact hfree x (List.mem_append_right _ hx) hb
        · exact hdistinct x hb.2 hx
      have ho : t.Offers id (st.declares ++ names) := (hext.offers ho).bound hbound
      refine (ih.statements rest ht ho hrest hfree hflow).widen fun i x h => ?_
      exact ⟨h.1, List.mem_append_right _ h.2⟩

theorem conditional_succ (condition : Expr) (consequence : Block) (alternative : Alternative)
    (hs : s.Settled) (ho : s.Offers id names) (hc : condition.Scoped names)
    (hbody : Statement.AllScoped names consequence) (ha : alternative.Scoped names) :
    Keeps (scoping nothing) (Eval.conditional (n + 1) id condition consequence alternative) s
      fun flow t => t.Settles flow.value := by
  refine (ih.expr condition hs ho hc).bind fun v t ht hst _ => ?_
  have ho := hst.1.offers ho
  split
  · exact ih.block consequence ht ho hbody
  · cases alternative with
    | absent => exact .pure ht Value.allClosures_null
    | block body => exact ih.block body ht ho ha
    | elseIf condition consequence alternative =>
      exact ih.conditional condition consequence alternative ht ho ha.1 ha.2.1 ha.2.2

theorem loop_succ {last : Value} (condition update : Option Expr) (body : Block) (hs : s.Settled)
    (ho : s.Offers id names) (hc : Expr.OptionScoped names condition)
    (hu : Expr.OptionScoped names update) (hbody : Statement.AllScoped names body)
    (hlast : s.Settles last) :
    Keeps (scoping nothing) (Eval.loop (n + 1) id condition update body last) s
      fun flow t => t.Settles flow.value := by
  have hcheck : Keeps (scoping nothing) (holds (Eval.expr n id) condition) s fun _ _ => True :=
    .holds hs fun e he => ih.expr e hs ho (hc.of_eq_some he)
  refine hcheck.bind fun again t ht hst _ => ?_
  have ho := hst.1.offers ho
  split
  · refine (ih.block body ht ho hbody).bind fun flow u hu' htu hflow => ?_
    have ho := htu.1.offers ho
    cases flow with
    | returned v => exact .pure hu' hflow
    | normal v =>
      have hupdate : Keeps (scoping nothing) (optionally (Eval.expr n id) update) u
          fun _ _ => True :=
        .optionally hu' fun e he => ih.expr e hu' ho (hu.of_eq_some he)
      refine hupdate.bind fun _ w hw huw _ => ?_
      have ho := huw.1.offers ho
      exact ih.loop condition update body hw ho hc hu hbody (huw.1.settles hflow)
  · exact .pure ht (hst.1.settles hlast)

theorem statement_succ (st : Statement) (hs : s.Settled) (ho : s.Offers id names)
    (hst : st.Scoped names) (hfree : ∀ x ∈ st.declares, ¬ s.binds id x) :
    Keeps (scoping (binding id st.declares)) (Eval.statement (n + 1) id st) s
      fun flow t => t.Settles flow.value ∧ ∀ x ∈ st.declares, t.binds id x := by
  cases st with
  | declare constant x value =>
    have hvalue : Keeps (scoping nothing) (Eval.expr n id value) s fun v t =>
        t.Settles v ∧ ¬ t.binds id x := by
      refine (ih.expr value hs ho hst).imp fun v t _ hstep hv => ⟨hv, fun hb => ?_⟩
      rcases hstep.2 ho.1 hb with hb | hb
      · exact hfree x List.mem_cons_self hb
      · exact hb
    refine hvalue.quiet.bind fun v t ht hstep hq => ?_
    have hdefine : Keeps (scoping (binding id [x])) (define id x v constant) t
        fun _ u => u.binds id x :=
      define_safe ht (hstep.1.exists_lt ho.1) hq.2 fun u he _ => he.settles hq.1
    refine hdefine.bind fun _ u hu _ hbound => .pure hu ⟨Value.allClosures_null, ?_⟩
    exact fun y hy => List.mem_singleton.mp hy ▸ hbound
  | expression value =>
    refine (ih.expr value hs ho hst).quiet.bind fun v t ht _ hv => ?_
    exact .pure ht ⟨hv, nofun⟩
  | block body => exact (ih.block body hs ho hst).quiet.imp fun _ _ _ _ h => ⟨h, nofun⟩
  | ifElse condition consequence alternative =>
    have hrun := ih.conditional condition consequence alternative hs ho hst.1 hst.2.1 hst.2.2
    exact hrun.quiet.imp fun _ _ _ _ h => ⟨h, nofun⟩
  | whileLoop condition body =>
    have hrun := ih.loop (some condition) none body hs ho hst.1 trivial hst.2 Value.allClosures_null
    exact hrun.quiet.imp fun _ _ _ _ h => ⟨h, nofun⟩
  | forLoop start condition update body =>
    obtain ⟨hstart, hc, hu, hbody⟩ := hst
    have hrun : Keeps (scoping nothing)
        (Eval.statement (n + 1) id (.forLoop start condition update body)) s
        fun flow t => t.Settles flow.value := by
      refine Keeps.fresh ((enter_safe hs ho).bind fun inner t ht _ hinner => ?_)
      obtain ⟨hle, ho, hempty⟩ := hinner
      have hstarted : Keeps (scoping fun i _ => s.scopes.size ≤ i)
          (optionally (Eval.statement n inner) start) t
          fun _ u => ∀ x ∈ Statement.startDeclares start, u.binds inner x := by
        refine .optionally_of ht (fun hnone => by subst hnone; nofun) fun st hst => ?_
        have hst' := ih.statement st ht ho (hstart.of_eq_some hst) fun x _ => hempty x
        subst hst
        exact (hst'.widen fun i _ hi => hi.1 ▸ hle).imp fun _ _ _ _ h => h.2
      refine hstarted.bind fun _ u hu' htu hbound => ?_
      have ho := (htu.1.offers ho).bound hbound
      exact (ih.loop condition update body hu' ho hc hu hbody Value.allClosures_null).quiet
    exact hrun.quiet.imp fun _ _ _ _ h => ⟨h, nofun⟩
  | function x parameters body =>
    have hdefine : Keeps (scoping (binding id [x]))
        (define id x (.closure parameters body id) false) s fun _ u => u.binds id x := by
      refine define_safe hs ho.1 (hfree x List.mem_cons_self) fun t he hb => ?_
      have ho : t.Offers id (x :: names) :=
        (he.offers ho).bound fun y hy => List.mem_singleton.mp hy ▸ hb
      exact Value.allClosures_closure.mpr ⟨hst.1, x :: names, ho, hst.2⟩
    refine hdefine.bind fun _ u hu _ hbound => .pure hu ⟨Value.allClosures_null, ?_⟩
    exact fun y hy => List.mem_singleton.mp hy ▸ hbound
  | returning value =>
    cases value with
    | none => exact .pure hs ⟨Value.allClosures_null, nofun⟩
    | some value =>
      refine (ih.expr value hs ho hst).quiet.bind fun v t ht _ hv => ?_
      exact .pure ht ⟨hv, nofun⟩

end Succ

end Safe

theorem safe (n : Nat) : Safe n := by
  induction n with
  | zero => exact .zero
  | succ n ih =>
    exact {
      expr := ih.expr_succ
      exprs := ih.exprs_succ
      call := ih.call_succ
      block := ih.block_succ
      statements := ih.statements_succ
      statement := ih.statement_succ
      conditional := ih.conditional_succ
      loop := ih.loop_succ }

/-! ## Programs -/

theorem State.binds_initial {x : String} (h : initial.binds globalId x) : x ∈ Builtin.names := by
  obtain ⟨v, hv⟩ := Option.isSome_iff_exists.mp h
  obtain ⟨scope, hscope, hget⟩ := Option.bind_eq_some_iff.mp hv
  cases hscope
  obtain ⟨b, hb, he⟩ := List.mem_map.mp (Fields.mem_ofList (Fields.mem_of_get? hget))
  cases he
  exact List.mem_map_of_mem hb

theorem State.offers_initial : initial.Offers globalId Builtin.names := by
  refine ⟨by decide, fun x hx => sees_of_binds ?_⟩
  revert x
  decide

theorem State.settled_initial : initial.Settled := by
  intro v hv
  obtain ⟨b, hb⟩ := stores_initial hv
  rw [hb]
  exact Value.allClosures_builtin b

/-- **Well-scoped programs meet no name fault.**  Run in a new session, with however much fuel, such
a program never ends because a name is not defined or is defined twice. -/
theorem program_no_nameFault {program : Block} (h : WellScoped program) (fuel : Nat) (x : String)
    (t : State) :
    Eval.program fuel program .initial ≠ .error (.fault (.undefinedVariable x)) t ∧
      Eval.program fuel program .initial ≠ .error (.fault (.duplicateDefinition x)) t := by
  have hfree : ∀ y ∈ Statement.allDeclare program, ¬ State.initial.binds State.globalId y :=
    fun y hy hb => h.2 y hy (State.binds_initial hb)
  have hrun := (safe fuel).statements program State.settled_initial State.offers_initial h.1 hfree
    Value.allClosures_null
  have hprogram : Keeps (scoping (binding State.globalId (Statement.allDeclare program)))
      (Eval.program fuel program) .initial fun v t => t.Settles v :=
    hrun.bind fun flow u hu _ hflow => .pure hu hflow
  have hname : ∀ f, Eval.program fuel program .initial = .error (.fault f) t →
      f.isName = false := by
    intro f hf
    rw [Keeps, hf] at hprogram
    exact hprogram.2.2 f rfl
  constructor
  · intro hf
    cases hname _ hf
  · intro hf
    cases hname _ hf

/-- A recursive function and a loop that keeps closures over its variable. -/
def keepingClosures : Block :=
  [.function "flip" ["b"]
      [.ifElse (.name "b") [.returning (some (.literal (.boolean false)))] .absent,
        .returning (some (.call (.name "flip") [.literal (.boolean true)]))],
    .declare false "fs" (.array []),
    .forLoop (some (.declare false "i" (.literal (.boolean true)))) (some (.name "i"))
      (some (.assign "i" (.call (.name "flip") [.name "i"])))
      [.expression (.assign "fs"
        (.call (.name "push") [.name "fs", .function [] [.returning (some (.name "i"))]]))],
    .expression (.call (.index (.name "fs") (.literal (.number (.ofNat 0)))) [])]

theorem program_no_nameFault_keepingClosures :
    WellScoped keepingClosures ∧ ∀ x t,
      Eval.program 30 keepingClosures .initial ≠ .error (.fault (.undefinedVariable x)) t ∧
        Eval.program 30 keepingClosures .initial ≠ .error (.fault (.duplicateDefinition x)) t := by
  have h : WellScoped keepingClosures := by
    simp [WellScoped, keepingClosures, Builtin.names, Builtin.all, Builtin.name,
      Statement.AllScoped, Statement.Scoped, Statement.StartScoped, Statement.startDeclares,
      Statement.declares, Statement.allDeclare, Alternative.Scoped, Expr.Scoped, Expr.AllScoped,
      Expr.OptionScoped]
  exact ⟨h, fun x t => program_no_nameFault h 30 x t⟩

end Scriptlet
