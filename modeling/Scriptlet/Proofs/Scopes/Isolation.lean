import Scriptlet.Proofs.Eval.Fuel
import Scriptlet.Proofs.Scopes.Discipline
import Scriptlet.Proofs.Scopes.Reach

/-!
# What an evaluation can see

An evaluation gets to scopes only through the scope it runs in, through parents, and through the
closures it finds as values.  So two runs from states that agree on all these scopes do the same,
and each of them leaves the other scopes alone.

The two runs are followed side by side.  Their states stay linked over one region, fixed at the
start: what could be reached then, and all scopes that are made on the way (`Mirrored`).  A sequence
is mirrored as soon as its parts are (`Mirrored.bind`), and evaluation is an induction on the fuel
for all eight functions at once (`Mirroring`).

* `unreachable_untouched`: scopes out of reach are neither read nor written, so clearing one of them
  changes nothing else, and a call changes only what its callee and its arguments reach.
-/

namespace Scriptlet

open State (Linked Spares)

/-! ## Two runs side by side -/

/-- What two runs, one from `s` to `t` and one from `s'` to `t'`, have in common. -/
structure Alike (region : Region) (s s' t t' : State) : Prop where
  linked : Linked region t t'
  spares : Spares region s t
  spares' : Spares region s' t'
  printed : ∃ lines : List String,
    t.output.toList = s.output.toList ++ lines ∧ t'.output.toList = s'.output.toList ++ lines

namespace Alike

variable {region : Region} {s s' t t' u u' : State}

theorem refl (h : Linked region s s') : Alike region s s' s s' :=
  ⟨h, .refl _ _, .refl _ _, [], (List.append_nil _).symm, (List.append_nil _).symm⟩

theorem trans (h : Alike region s s' t t') (g : Alike region t t' u u') :
    Alike region s s' u u' := by
  obtain ⟨lines, ht, ht'⟩ := h.printed
  obtain ⟨more, hu, hu'⟩ := g.printed
  refine ⟨g.linked, h.spares.trans g.spares, h.spares'.trans g.spares', lines ++ more, ?_, ?_⟩
  · rw [hu, ht, List.append_assoc]
  · rw [hu', ht', List.append_assoc]

end Alike

/-- Run in `s` and in `s'`, the computation ends alike: with the same result, which satisfies `Q`,
or by the same halt. -/
inductive Mirrored {α : Type} (region : Region) (x : Eval α) (s s' : State) (Q : α → Prop) : Prop
  | ok {a : α} {t t' : State} (run : x s = .ok a t) (run' : x s' = .ok a t') (result : Q a)
      (alike : Alike region s s' t t')
  | error {h : Halt} {t t' : State} (run : x s = .error h t) (run' : x s' = .error h t')
      (alike : Alike region s s' t t')

namespace Mirrored

variable {region : Region} {α β : Type} {x : Eval α} {s s' : State} {Q : α → Prop}

theorem pure {a : α} (hs : Linked region s s') (ha : Q a) : Mirrored region (pure a) s s' Q :=
  .ok rfl rfl ha (.refl hs)

theorem throw {h : Halt} (hs : Linked region s s') :
    Mirrored region (throw h : Eval α) s s' Q :=
  .error rfl rfl (.refl hs)

theorem fault {f : Fault} (hs : Linked region s s') :
    Mirrored region (Eval.fault f : Eval α) s s' Q :=
  throw hs

/-- **A sequence is mirrored if its parts are.** -/
theorem bind {R : β → Prop} {f : α → Eval β} (hx : Mirrored region x s s' Q)
    (hf : ∀ a t t', Linked region t t' → Q a → Mirrored region (f a) t t' R) :
    Mirrored region (x >>= f) s s' R := by
  cases hx with
  | error run run' alike => exact .error (Eval.bind_error _ _ run) (Eval.bind_error _ _ run') alike
  | ok run run' result alike =>
    cases hf _ _ _ alike.linked result with
    | ok next next' result' alike' =>
      exact .ok ((Eval.bind_ok run).trans next) ((Eval.bind_ok run').trans next') result'
        (alike.trans alike')
    | error next next' alike' =>
      exact .error ((Eval.bind_ok run).trans next) ((Eval.bind_ok run').trans next')
        (alike.trans alike')

theorem ofExcept {r : Except Fault α} (hs : Linked region s s') (hr : ∀ a, r = .ok a → Q a) :
    Mirrored region (Eval.ofExcept r) s s' Q := by
  cases r with
  | ok a => exact pure hs (hr a rfl)
  | error f => exact fault hs

theorem optionally {action : α → Eval β} {R : β → Prop} {item : Option α}
    (hs : Linked region s s')
    (h : ∀ a, item = some a → Mirrored region (action a) s s' R) :
    Mirrored region (Eval.optionally action item) s s' fun _ => True := by
  cases item with
  | none => exact pure hs trivial
  | some a => exact (h a rfl).bind fun _ t t' ht _ => pure ht trivial

theorem holds {value : α → Eval Value} {R : Value → Prop} {item : Option α}
    (hs : Linked region s s')
    (h : ∀ a, item = some a → Mirrored region (value a) s s' R) :
    Mirrored region (Eval.holds value item) s s' fun _ => True := by
  cases item with
  | none => exact pure hs trivial
  | some a => exact (h a rfl).bind fun v t t' ht _ => pure ht trivial

/-! ### The steps that touch the state -/

variable {id : ScopeId} {y : String} {v : Value}

theorem read (hs : Linked region s s') (hid : region id) :
    Mirrored region (Eval.read id y) s s' (Value.Within region) := by
  have hsame := hs.value?_eq (x := y) hid
  cases h : s.value? id y with
  | none =>
    rw [h] at hsame
    exact .error (by rw [Eval.read, h]) (by rw [Eval.read, ← hsame]) (.refl hs)
  | some v =>
    rw [h] at hsame
    exact .ok (by rw [Eval.read, h]) (by rw [Eval.read, ← hsame]) (hs.within_of_value? hid h)
      (.refl hs)

/-- Both runs write the same name. -/
theorem alike_write (hs : Linked region s s') (hid : region id) (hv : v.Within region)
    (constant : Bool) :
    Alike region s s' (s.write id y v constant) (s'.write id y v constant) :=
  ⟨hs.write hv, State.spares_write hid y v constant, State.spares_write hid y v constant, [],
    (List.append_nil _).symm, (List.append_nil _).symm⟩

theorem define {constant : Bool} (hs : Linked region s s') (hid : region id)
    (hv : v.Within region) :
    Mirrored region (Eval.define id y v constant) s s' fun _ => True := by
  have hsame := hs.binds_eq (x := y) hid
  by_cases h : s.binds id y
  · exact .error (if_pos h) (if_pos (hsame ▸ h)) (.refl hs)
  · exact .ok (if_neg h) (if_neg (hsame ▸ h)) trivial (alike_write hs hid hv constant)

theorem assign (hs : Linked region s s') (hid : region id) (hv : v.Within region) :
    Mirrored region (Eval.assign id y v) s s' fun _ => True := by
  have hsame := hs.owner?_eq (x := y) hid
  cases h : s.owner? id y with
  | none =>
    rw [h] at hsame
    exact .error (by rw [Eval.assign, h]) (by rw [Eval.assign, ← hsame]) (.refl hs)
  | some owner =>
    rw [h] at hsame
    have howner := hs.owner?_mem hid h
    have hconstant := hs.isConstant_eq (x := y) howner
    by_cases hc : s.isConstant owner y
    · refine .error (h := .fault (.constantReassignment y)) ?_ ?_ (.refl hs)
      · simp only [Eval.assign, h, if_pos hc]
      · simp only [Eval.assign, ← hsame, ← hconstant, if_pos hc]
    · refine .ok (a := ()) ?_ ?_ trivial (alike_write (y := y) hs howner hv false)
      · simp only [Eval.assign, h, if_neg hc]
      · simp only [Eval.assign, ← hsame, ← hconstant, if_neg hc]

theorem enter (hs : Linked region s s') (hid : region id) :
    Mirrored region (Eval.enter id) s s' region := by
  have hfresh : region s.scopes.size := hs.fresh (Nat.le_refl _)
  have hfresh' : region s'.scopes.size := hs.size ▸ hfresh
  have hrun' : Eval.enter id s' = .ok s.scopes.size (s'.addScope (.child id)) := by
    rw [hs.size]
    rfl
  exact .ok rfl hrun' hfresh ⟨hs.addScope hid, State.spares_addScope hfresh _,
    State.spares_addScope hfresh' _, [], (List.append_nil _).symm, (List.append_nil _).symm⟩

theorem defineAll {items : List (String × Value)} (hs : Linked region s s') (hid : region id)
    (h : ∀ p ∈ items, p.2.Within region) :
    Mirrored region (Eval.defineAll id items) s s' fun _ => True := by
  induction items generalizing s s' with
  | nil => exact pure hs trivial
  | cons p items ih =>
    rw [Eval.defineAll]
    refine (define hs hid (h p List.mem_cons_self)).bind fun _ t t' ht _ => ?_
    exact ih ht fun q hq => h q (List.mem_cons_of_mem _ hq)

theorem emit (hs : Linked region s s') (line : String) :
    Mirrored region (Eval.emit line) s s' fun _ => True :=
  .ok rfl rfl trivial ⟨hs.print line, .refl _ _, .refl _ _, [line], by simp [State.print],
    by simp [State.print]⟩

theorem builtin {b : Builtin} {arguments : List Value} (hs : Linked region s s')
    (ha : ∀ w ∈ arguments, w.Within region) :
    Mirrored region (b.call arguments) s s' (Value.Within region) := by
  have happly : Mirrored region (Eval.ofExcept (b.apply arguments)) s s' (Value.Within region) :=
    ofExcept hs fun v hv => Builtin.apply_allClosures hv ha
  have hrun : Mirrored region (b.run arguments) s s' (Value.Within region) := by
    cases b with
    | print =>
      exact (emit hs (Builtin.printedLine arguments)).bind fun _ t t' ht _ =>
        pure ht Value.allClosures_null
    | len | type | push | pop | first | last | rest => exact happly
  rw [Builtin.call]
  split
  · split
    · exact hrun
    · exact fault hs
  · exact hrun

end Mirrored

/-! ## Evaluation -/

/-- All evaluations with fuel `n` are mirrored, in scopes of the region and for values within it. -/
structure Mirroring (region : Region) (n : Nat) : Prop where
  expr : ∀ {s s' id} e, Linked region s s' → region id →
    Mirrored region (Eval.expr n id e) s s' (Value.Within region)
  exprs : ∀ {s s' id} es, Linked region s s' → region id →
    Mirrored region (Eval.exprs n id es) s s' fun vs => ∀ v ∈ vs, v.Within region
  call : ∀ {s s' callee arguments}, Linked region s s' → callee.Within region →
    (∀ v ∈ arguments, v.Within region) →
    Mirrored region (Eval.call n callee arguments) s s' (Value.Within region)
  block : ∀ {s s' id} body, Linked region s s' → region id →
    Mirrored region (Eval.block n id body) s s' fun flow => flow.value.Within region
  statements : ∀ {s s' id last} body, Linked region s s' → region id → last.Within region →
    Mirrored region (Eval.statements n id last body) s s' fun flow => flow.value.Within region
  statement : ∀ {s s' id} st, Linked region s s' → region id →
    Mirrored region (Eval.statement n id st) s s' fun flow => flow.value.Within region
  conditional : ∀ {s s' id} condition consequence alternative, Linked region s s' → region id →
    Mirrored region (Eval.conditional n id condition consequence alternative) s s'
      fun flow => flow.value.Within region
  loop : ∀ {s s' id last} condition update body, Linked region s s' → region id →
    last.Within region →
    Mirrored region (Eval.loop n id condition update body last) s s'
      fun flow => flow.value.Within region

namespace Mirroring

variable {region : Region}

theorem zero : Mirroring region 0 where
  expr _ hs _ := .throw hs
  exprs _ hs _ := .throw hs
  call hs _ _ := .throw hs
  block _ hs _ := .throw hs
  statements _ hs _ _ := .throw hs
  statement _ hs _ := .throw hs
  conditional _ _ _ hs _ := .throw hs
  loop _ _ _ hs _ _ := .throw hs

section Succ

variable {n : Nat} (ih : Mirroring region n) {s s' : State} {id : ScopeId}

include ih

theorem expr_succ (e : Expr) (hs : Linked region s s') (hid : region id) :
    Mirrored region (Eval.expr (n + 1) id e) s s' (Value.Within region) := by
  cases e with
  | literal l => exact .pure hs (Value.allClosures_ofLiteral l)
  | name x => exact .read hs hid
  | binary op left right =>
    refine (ih.expr left hs hid).bind fun a t t' ht _ => ?_
    refine (ih.expr right ht hid).bind fun b u u' hu _ => ?_
    exact .ofExcept hu fun v hv => BinaryOp.apply_allClosures hv
  | unary op operand =>
    refine (ih.expr operand hs hid).bind fun a t t' ht _ => ?_
    exact .ofExcept ht fun v hv => UnaryOp.apply_allClosures hv
  | call callee arguments =>
    refine (ih.expr callee hs hid).bind fun f t t' ht hf => ?_
    refine (ih.exprs arguments ht hid).bind fun vs u u' hu hvs => ?_
    exact ih.call hu hf hvs
  | member object key =>
    refine (ih.expr object hs hid).bind fun a t t' ht ha => ?_
    exact .ofExcept ht fun v hv => Value.member_allClosures hv ha
  | index object place =>
    refine (ih.expr object hs hid).bind fun a t t' ht ha => ?_
    refine (ih.expr place ht hid).bind fun b u u' hu _ => ?_
    exact .ofExcept hu fun v hv => Value.index_allClosures hv ha
  | assign x value =>
    refine (ih.expr value hs hid).bind fun v t t' ht hv => ?_
    exact (Mirrored.assign ht hid hv).bind fun _ u u' hu _ => .pure hu hv
  | array elements =>
    refine (ih.exprs elements hs hid).bind fun vs t t' ht hvs => ?_
    exact .pure ht (Value.allClosures_array.mpr hvs)
  | object properties =>
    refine (ih.exprs (properties.map Prod.snd) hs hid).bind fun vs t t' ht hvs => ?_
    refine .pure ht (Value.allClosures_object.mpr fun p hp => ?_)
    exact hvs _ (List.of_mem_zip (Fields.mem_ofList hp)).2
  | function parameters body => exact .pure hs (Value.allClosures_closure.mpr hid)

theorem exprs_succ (es : List Expr) (hs : Linked region s s') (hid : region id) :
    Mirrored region (Eval.exprs (n + 1) id es) s s' fun vs => ∀ v ∈ vs, v.Within region := by
  cases es with
  | nil => exact .pure hs nofun
  | cons e es =>
    refine (ih.expr e hs hid).bind fun v t t' ht hv => ?_
    refine (ih.exprs es ht hid).bind fun vs u u' hu hvs => ?_
    exact .pure hu (List.forall_mem_cons.mpr ⟨hv, hvs⟩)

theorem call_succ {callee : Value} {arguments : List Value} (hs : Linked region s s')
    (hf : callee.Within region) (ha : ∀ v ∈ arguments, v.Within region) :
    Mirrored region (Eval.call (n + 1) callee arguments) s s' (Value.Within region) := by
  cases callee with
  | builtin b => exact .builtin hs ha
  | closure parameters body outer =>
    rw [Eval.call]
    split
    · refine (Mirrored.enter hs (Value.allClosures_closure.mp hf)).bind fun inner t t' ht hin => ?_
      have hitems : ∀ p ∈ parameters.zip arguments, p.2.Within region :=
        fun p hp => ha _ (List.of_mem_zip hp).2
      refine (Mirrored.defineAll ht hin hitems).bind fun _ u u' hu _ => ?_
      exact (ih.block body hu hin).bind fun flow w w' hw hflow => .pure hw hflow
    · exact .fault hs
  | number | text | boolean | null | array | object => exact .fault hs

theorem block_succ (body : Block) (hs : Linked region s s') (hid : region id) :
    Mirrored region (Eval.block (n + 1) id body) s s' fun flow => flow.value.Within region := by
  refine (Mirrored.enter hs hid).bind fun inner t t' ht hin => ?_
  exact ih.statements body ht hin Value.allClosures_null

theorem statements_succ {last : Value} (body : Block) (hs : Linked region s s') (hid : region id)
    (hlast : last.Within region) :
    Mirrored region (Eval.statements (n + 1) id last body) s s'
      fun flow => flow.value.Within region := by
  cases body with
  | nil => exact .pure hs hlast
  | cons st rest =>
    refine (ih.statement st hs hid).bind fun flow t t' ht hflow => ?_
    cases flow with
    | returned v => exact .pure ht hflow
    | normal v => exact ih.statements rest ht hid hflow

theorem statement_succ (st : Statement) (hs : Linked region s s') (hid : region id) :
    Mirrored region (Eval.statement (n + 1) id st) s s' fun flow => flow.value.Within region := by
  cases st with
  | declare constant x value =>
    refine (ih.expr value hs hid).bind fun v t t' ht hv => ?_
    exact (Mirrored.define ht hid hv).bind fun _ u u' hu _ => .pure hu Value.allClosures_null
  | expression value => exact (ih.expr value hs hid).bind fun v t t' ht hv => .pure ht hv
  | block body => exact ih.block body hs hid
  | ifElse condition consequence alternative =>
    exact ih.conditional condition consequence alternative hs hid
  | whileLoop condition body =>
    exact ih.loop (some condition) none body hs hid Value.allClosures_null
  | forLoop start condition update body =>
    refine (Mirrored.enter hs hid).bind fun inner t t' ht hin => ?_
    have hstart := Mirrored.optionally ht fun st (_ : start = some st) => ih.statement st ht hin
    refine hstart.bind fun _ u u' hu _ => ?_
    exact ih.loop condition update body hu hin Value.allClosures_null
  | function x parameters body =>
    refine (Mirrored.define hs hid (Value.allClosures_closure.mpr hid)).bind fun _ t t' ht _ => ?_
    exact .pure ht Value.allClosures_null
  | returning value =>
    cases value with
    | none => exact .pure hs Value.allClosures_null
    | some value => exact (ih.expr value hs hid).bind fun v t t' ht hv => .pure ht hv

theorem conditional_succ (condition : Expr) (consequence : Block) (alternative : Alternative)
    (hs : Linked region s s') (hid : region id) :
    Mirrored region (Eval.conditional (n + 1) id condition consequence alternative) s s'
      fun flow => flow.value.Within region := by
  refine (ih.expr condition hs hid).bind fun v t t' ht _ => ?_
  split
  · exact ih.block consequence ht hid
  · cases alternative with
    | absent => exact .pure ht Value.allClosures_null
    | block body => exact ih.block body ht hid
    | elseIf condition consequence alternative =>
      exact ih.conditional condition consequence alternative ht hid

theorem loop_succ {last : Value} (condition update : Option Expr) (body : Block)
    (hs : Linked region s s') (hid : region id) (hlast : last.Within region) :
    Mirrored region (Eval.loop (n + 1) id condition update body last) s s'
      fun flow => flow.value.Within region := by
  have hcheck := Mirrored.holds hs fun e (_ : condition = some e) => ih.expr e hs hid
  refine hcheck.bind fun again t t' ht _ => ?_
  split
  · refine (ih.block body ht hid).bind fun flow u u' hu hflow => ?_
    cases flow with
    | returned v => exact .pure hu hflow
    | normal v =>
      have hupdate := Mirrored.optionally hu fun e (_ : update = some e) => ih.expr e hu hid
      refine hupdate.bind fun _ w w' hw _ => ?_
      exact ih.loop condition update body hw hid hflow
  · exact .pure ht hlast

end Succ

end Mirroring

/-- **All evaluations are mirrored.** -/
theorem mirroring (region : Region) (n : Nat) : Mirroring region n := by
  induction n with
  | zero => exact .zero
  | succ n ih =>
    exact {
      expr := ih.expr_succ
      exprs := ih.exprs_succ
      call := ih.call_succ
      block := ih.block_succ
      statements := ih.statements_succ
      statement := ih.statement_succ
      conditional := ih.conditional_succ
      loop := ih.loop_succ }

/-! ## Scopes out of reach -/

/-- The scopes that closures inside the values capture. -/
def capturedBy (vs : List Value) : Region := fun id =>
  ∃ v ∈ vs, ∃ parameters body, (Value.closure parameters body id).Inside v

theorem within_capturedBy {vs : List Value} {v : Value} (hv : v ∈ vs) (s : State) :
    v.Within (s.InReach (capturedBy vs)) :=
  fun parameters body _ hi => State.inReach_origin ⟨v, hv, parameters, body, hi⟩

/-- Whether the change is made before or after, the computation ends the same way. -/
def Ignores {α : Type} (x : Eval α) (change : State → State) (s : State) : Prop :=
  match x s with
  | .ok a t => x (change s) = .ok a (change t)
  | .error h t => x (change s) = .error h (change t)

theorem State.eq_clearScope {s t t' : State} {region : Region} {dead : ScopeId}
    (hdead : ¬ region dead) (h : Alike region s (s.clearScope dead) t t') :
    t' = t.clearScope dead := by
  obtain ⟨lines, ht, ht'⟩ := h.printed
  have houtput : t'.output = t.output := Array.toList_inj.mp (ht'.trans ht.symm)
  have hscopes : t'.scopes = (t.clearScope dead).scopes := by
    refine Array.ext_getElem? fun id => ?_
    by_cases hid : id = dead
    · subst hid
      rw [h.spares' id hdead]
      simp only [clearScope, Array.getElem?_modify, h.spares id hdead]
    · rw [getElem?_clearScope_ne hid]
      by_cases hregion : region id
      · exact (h.linked.same hregion).symm
      · rw [h.spares' id hregion, h.spares id hregion, getElem?_clearScope_ne hid]
  cases t'
  cases t
  cases houtput
  cases hscopes
  rfl

theorem Mirrored.ignores {α : Type} {x : Eval α} {s : State} {region : Region} {dead : ScopeId}
    {Q : α → Prop} (hdead : ¬ region dead) (h : Mirrored region x s (s.clearScope dead) Q) :
    Ignores x (State.clearScope · dead) s := by
  rw [Ignores]
  cases h with
  | ok run run' _ alike =>
    rw [run, run', State.eq_clearScope hdead alike]
  | error run run' alike =>
    rw [run, run', State.eq_clearScope hdead alike]

/-- **Scopes out of reach are neither read nor written.**  Two states that agree on all that can be
reached from the scope of an evaluation, or from the closures of a call, and that number their next
scope alike, have the same scopes in reach and lead to the same result or halt and to the same new
lines; afterwards they agree on what could be reached before and on all new scopes, and in both of
them each other scope is as it was.  So an evaluation ignores it when a scope out of reach is
cleared. -/
theorem unreachable_untouched (n : Nat) :
    (∀ (env : ScopeId) (s s' : State), State.Agree (· = env) s s' →
      (∀ id, s.Reaches env id ↔ s'.Reaches env id) ∧
      (∀ e : Expr, Mirrored (s.InReach (· = env)) (Eval.expr n env e) s s'
        (Value.Within (s.InReach (· = env)))) ∧
      ∀ st : Statement, Mirrored (s.InReach (· = env)) (Eval.statement n env st) s s'
        fun flow => flow.value.Within (s.InReach (· = env))) ∧
    (∀ (callee : Value) (arguments : List Value) (s s' : State),
      State.Agree (capturedBy (callee :: arguments)) s s' →
      Mirrored (s.InReach (capturedBy (callee :: arguments))) (Eval.call n callee arguments) s s'
        (Value.Within (s.InReach (capturedBy (callee :: arguments))))) ∧
    ∀ (dead : ScopeId) (s : State), dead < s.scopes.size →
      (∀ env : ScopeId, ¬ s.Reaches env dead →
        (∀ e : Expr, Ignores (Eval.expr n env e) (State.clearScope · dead) s) ∧
        ∀ st : Statement, Ignores (Eval.statement n env st) (State.clearScope · dead) s) ∧
      ∀ (callee : Value) (arguments : List Value),
        (∀ id, capturedBy (callee :: arguments) id → ¬ s.Reaches id dead) →
        Ignores (Eval.call n callee arguments) (State.clearScope · dead) s := by
  have hrun : ∀ (env : ScopeId) (s s' : State), State.Agree (· = env) s s' →
      (∀ e : Expr, Mirrored (s.InReach (· = env)) (Eval.expr n env e) s s'
        (Value.Within (s.InReach (· = env)))) ∧
      ∀ st : Statement, Mirrored (s.InReach (· = env)) (Eval.statement n env st) s s'
        fun flow => flow.value.Within (s.InReach (· = env)) := by
    intro env s s' hagree
    have henv : s.InReach (· = env) env := State.inReach_origin rfl
    exact ⟨fun e => (mirroring _ n).expr e hagree.linked henv,
      fun st => (mirroring _ n).statement st hagree.linked henv⟩
  have hcall : ∀ (callee : Value) (arguments : List Value) (s s' : State),
      State.Agree (capturedBy (callee :: arguments)) s s' →
      Mirrored (s.InReach (capturedBy (callee :: arguments))) (Eval.call n callee arguments) s s'
        (Value.Within (s.InReach (capturedBy (callee :: arguments)))) := by
    intro callee arguments s s' hagree
    exact (mirroring _ n).call hagree.linked (within_capturedBy List.mem_cons_self s)
      fun v hv => within_capturedBy (List.mem_cons_of_mem _ hv) s
  refine ⟨fun env s s' hagree => ⟨fun id => hagree.reaches_iff rfl, hrun env s s' hagree⟩, hcall,
    fun dead s hdead => ?_⟩
  have hout : ∀ origins : Region, (∀ id, origins id → ¬ s.Reaches id dead) →
      ¬ s.InReach origins dead := by
    rintro origins hnot (⟨origin, horigin, hreach⟩ | hfresh)
    · exact hnot origin horigin hreach
    · exact absurd hdead (Nat.not_lt.mpr hfresh)
  constructor
  · intro env henv
    have hnot : ∀ id, id = env → ¬ s.Reaches id dead := fun id hid => hid ▸ henv
    obtain ⟨hexpr, hstatement⟩ := hrun env s (s.clearScope dead) (State.agree_clearScope hnot)
    exact ⟨fun e => (hexpr e).ignores (hout _ hnot),
      fun st => (hstatement st).ignores (hout _ hnot)⟩
  · intro callee arguments hnot
    exact (hcall callee arguments s _ (State.agree_clearScope hnot)).ignores (hout _ hnot)

/-- Two scopes with a name each; only one of them is captured by a function in the global scope. -/
def twoSwitches : State :=
  ⟨#[⟨none, [("flip", .closure [] [.expression (.assign "on" (.literal (.boolean true)))] 1)],
        ["flip"]⟩,
    ⟨some 0, [("on", .boolean false)], []⟩, ⟨some 0, [("on", .boolean false)], []⟩], #[]⟩

theorem twoSwitches_not_reaches : ¬ twoSwitches.Reaches 0 2 := by
  have hclosed : twoSwitches.Encloses (· ≠ 2) := by
    constructor
    · rintro (_ | _ | _ | id) p scope hid hscope hp <;> simp [twoSwitches] at hid hscope <;>
        subst hscope <;> simp at hp
      subst hp
      decide
    · rintro (_ | _ | _ | id) scope x v hid hscope hx <;> simp [twoSwitches] at hid hscope <;>
        subst hscope <;> simp at hx <;> obtain ⟨rfl, rfl⟩ := hx <;> simp [Value.Within]
  intro h
  exact h.region hclosed (by decide) rfl

theorem unreachable_untouched_twoSwitches :
    let flip := Expr.call (.name "flip") []
    State.Agree (· = 0) twoSwitches (twoSwitches.clearScope 2) ∧
      Mirrored (twoSwitches.InReach (· = 0)) (Eval.expr 9 0 flip) twoSwitches
        (twoSwitches.clearScope 2) (Value.Within (twoSwitches.InReach (· = 0))) ∧
      Ignores (Eval.expr 9 0 flip) (State.clearScope · 2) twoSwitches ∧
      (((Eval.expr 9 0 flip).after twoSwitches).ownValue? 1 "on").any (·.truthy) := by
  intro flip
  have hnot : ∀ id, id = 0 → ¬ twoSwitches.Reaches id 2 :=
    fun id hid => hid ▸ twoSwitches_not_reaches
  have hagree := State.agree_clearScope hnot
  obtain ⟨hrun, _, hclear⟩ := unreachable_untouched 9
  exact ⟨hagree, (hrun 0 _ _ hagree).2.1 flip,
    ((hclear 2 twoSwitches (by decide)).1 0 twoSwitches_not_reaches).1 flip, by decide +kernel⟩

end Scriptlet
