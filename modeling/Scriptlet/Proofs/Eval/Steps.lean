import Scriptlet.Proofs.Eval.Sequence
import Scriptlet.Proofs.Scopes.Lookup
import Scriptlet.Proofs.Value.Indexing

/-!
# Evaluation, step by step

One lemma for each construct: if its parts evaluate in turn, then so does the whole, with one more
unit of fuel.  The rounds of a loop are composed by `Eval.loop_rounds`: what holds before the first
round and is kept by each round holds when the loop has come to a given round, and the rest of the
run is the loop from there on.
-/

namespace Scriptlet

namespace Eval

variable {n : Nat} {id : ScopeId} {s t u : State} {v w : Value}

/-! ## Expressions -/

theorem expr_name {x : String} (h : (s.slot? id x).map Slot.value = some v) :
    expr (n + 1) id (.name x) s = .ok v s := by
  rw [State.map_value_slot?] at h
  show read id x s = _
  rw [read, h]

theorem expr_binary {op : BinaryOp} {left right : Expr} {a b : Value}
    (hleft : expr n id left s = .ok a t) (hright : expr n id right t = .ok b u)
    (h : op.apply a b = .ok v) : expr (n + 1) id (.binary op left right) s = .ok v u := by
  refine (bind_ok hleft).trans ((bind_ok hright).trans ?_)
  rw [h]
  rfl

theorem expr_index {target place : Expr} {a i : Value} (htarget : expr n id target s = .ok a t)
    (hplace : expr n id place t = .ok i u) (h : a.index i = .ok v) :
    expr (n + 1) id (.index target place) s = .ok v u := by
  refine (bind_ok htarget).trans ((bind_ok hplace).trans ?_)
  rw [h]
  rfl

theorem exprs_cons_ok {e : Expr} {es : List Expr} {vs : List Value}
    (he : expr n id e s = .ok v t) (hes : exprs n id es t = .ok vs u) :
    exprs (n + 1) id (e :: es) s = .ok (v :: vs) u :=
  (bind_ok he).trans (bind_ok hes)

theorem exprs_singleton {e : Expr} (h : expr (n + 1) id e s = .ok v t) :
    exprs (n + 2) id [e] s = .ok [v] t :=
  exprs_cons_ok h rfl

theorem exprs_pair {e f : Expr} (he : expr (n + 2) id e s = .ok v t)
    (hf : expr (n + 1) id f t = .ok w u) : exprs (n + 3) id [e, f] s = .ok [v, w] u :=
  exprs_cons_ok he (exprs_singleton hf)

/-- A call of a builtin function that touches no state. -/
theorem expr_call_builtin {callee : Expr} {arguments : List Expr} {b : Builtin} {vs : List Value}
    (hcallee : expr (n + 1) id callee s = .ok (.builtin b) t)
    (harguments : exprs (n + 1) id arguments t = .ok vs u)
    (h : b.call vs u = .ok v u) : expr (n + 2) id (.call callee arguments) s = .ok v u :=
  (bind_ok hcallee).trans ((bind_ok harguments).trans h)

theorem expr_assign {x : String} {e : Expr} {owner : ScopeId} (he : expr n id e s = .ok v t)
    (howner : t.owner? id x = some owner) (hslot : t.ownSlot? owner x = some ⟨w, false⟩) :
    expr (n + 1) id (.assign x e) s = .ok v (t.write owner x v false) := by
  have hassign : assign id x v t = .ok () (t.write owner x v false) := by
    rw [assign, howner]
    simp [(State.ownSlot?_eq_some_iff.mp hslot).2]
  exact (bind_ok he).trans (bind_ok hassign)

/-! ## Statements -/

theorem statement_expression {e : Expr} (h : expr n id e s = .ok v t) :
    statement (n + 1) id (.expression e) s = .ok (.normal v) t :=
  bind_ok h

theorem statement_returning {e : Expr} (h : expr n id e s = .ok v t) :
    statement (n + 1) id (.returning (some e)) s = .ok (.returned v) t :=
  bind_ok h

theorem statement_declare {constant : Bool} {x : String} {e : Expr}
    (he : expr n id e s = .ok v t) (hfree : t.ownSlot? id x = none) :
    statement (n + 1) id (.declare constant x e) s =
      .ok (.normal .null) (t.write id x v constant) := by
  have hdefine : define id x v constant t = .ok () (t.write id x v constant) := by
    simp [define, State.binds_eq_isSome, hfree]
  exact (bind_ok he).trans (bind_ok hdefine)

theorem statements_singleton {st : Statement} {flow : Flow}
    (h : statement (n + 1) id st s = .ok flow t) (last : Value) :
    statements (n + 2) id last [st] s = .ok flow t := by
  rw [statements_cons, h]
  cases flow <;> rfl

/-- A block runs in a scope of its own. -/
theorem block_singleton {st : Statement} {flow : Flow}
    (h : statement (n + 1) s.scopes.size st (s.addScope (.child id)) = .ok flow t) :
    block (n + 3) id [st] s = .ok flow t :=
  statements_singleton h .null

theorem conditional_true {condition : Expr} {consequence : Block}
    (hcondition : expr n id condition s = .ok (.boolean true) t) (alternative : Alternative) :
    conditional (n + 1) id condition consequence alternative s = block n id consequence t :=
  bind_ok hcondition

theorem conditional_false {condition : Expr} {consequence : Block}
    (hcondition : expr n id condition s = .ok (.boolean false) t) :
    conditional (n + 1) id condition consequence .absent s = .ok (.normal .null) t :=
  bind_ok hcondition

/-! ## Loops -/

variable {condition update : Expr} {body : Block} {last : Value}

theorem holds_some {b : Bool} (h : expr n id condition s = .ok (.boolean b) t) :
    holds (expr n id) (some condition) s = .ok b t :=
  bind_ok h

theorem loop_done (hcondition : expr n id condition s = .ok (.boolean false) t) :
    loop (n + 1) id (some condition) (some update) body last s = .ok (.normal last) t :=
  bind_ok (holds_some hcondition)

theorem loop_returned (hcondition : expr n id condition s = .ok (.boolean true) t)
    (hbody : block n id body t = .ok (.returned v) u) :
    loop (n + 1) id (some condition) (some update) body last s = .ok (.returned v) u :=
  (bind_ok (holds_some hcondition)).trans (bind_ok hbody)

theorem loop_round {r : State} (hcondition : expr n id condition s = .ok (.boolean true) t)
    (hbody : block n id body t = .ok (.normal v) u) (hupdate : expr n id update u = .ok w r) :
    loop (n + 1) id (some condition) (some update) body last s =
      loop n id (some condition) (some update) body v r := by
  have hdiscard : optionally (expr n id) (some update) u = .ok () r := bind_ok hupdate
  exact (bind_ok (holds_some hcondition)).trans ((bind_ok hbody).trans (bind_ok hdiscard))

/-- The rounds of a `for` run in the scope of its start. -/
theorem statement_forLoop {start : Statement} {flow : Flow} {c u : Option Expr}
    (hstart : statement n s.scopes.size start (s.addScope (.child id)) = .ok flow t) :
    statement (n + 1) id (.forLoop (some start) c u body) s =
      loop n s.scopes.size c u body .null t := by
  have hdiscard : optionally (statement n s.scopes.size) (some start)
      (s.addScope (.child id)) = .ok () t := bind_ok hstart
  exact bind_ok hdiscard

/-- **Rounds that keep an invariant, one after the other.**  If round `j` leads from the invariant
for `j` to that for `j + 1`, for all rounds before `stop`, then the loop comes to round `stop`, one
unit of fuel a round. -/
theorem loop_rounds {I : Nat → State → Prop} {least stop : Nat}
    (hround : ∀ n j last s, least ≤ n → j < stop → I j s →
      ∃ v t, I (j + 1) t ∧ loop (n + 1) id (some condition) (some update) body last s =
        loop n id (some condition) (some update) body v t)
    {j : Nat} (hj : j ≤ stop) (hn : least ≤ n) (hs : I j s) (last : Value) :
    ∃ v t, I stop t ∧ loop (n + (stop - j)) id (some condition) (some update) body last s =
      loop n id (some condition) (some update) body v t := by
  -- on the number of rounds to go
  induction hrest : stop - j generalizing j s last with
  | zero =>
    obtain rfl : j = stop := by omega
    exact ⟨last, s, hs, rfl⟩
  | succ rest ih =>
    obtain ⟨v, t, ht, hfirst⟩ := hround (n + rest) j last s (by omega) (by omega) hs
    obtain ⟨w, u, hu, hothers⟩ := ih (by omega) ht v (by omega)
    exact ⟨w, u, hu, hfirst.trans hothers⟩

end Eval

end Scriptlet
