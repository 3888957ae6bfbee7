import Scriptlet.Proofs.Scopes.Growth
import Scriptlet.Proofs.Scopes.Starts

/-!
# Sessions

A session runs one program after the other in the same state; a program that halts leaves the state
as it stands, and the next one goes on from there.  `Session.Performs` says which evaluations a
session performs, from the programs down to the smallest parts, each with the state it starts in.
All of them start in a well-formed state, end in one, and take nothing back (`Session.scopes_grow`).
-/

namespace Scriptlet

/-- The scope exists and the values capture scopes that do. -/
def Task.Fits (s : State) : Task → Prop
  | .expr id _ | .exprs id _ | .block id _ | .statement id _ | .conditional id _ _ _ =>
    id < s.scopes.size
  | .call callee arguments => s.Knows callee ∧ ∀ v ∈ arguments, s.Knows v
  | .statements id last _ | .loop id _ _ _ last => id < s.scopes.size ∧ s.Knows last

/-- **What an evaluation starts, it starts in a well-formed state.** -/
theorem Starts.fits {n : Nat} {task next : Task} {s t : State} (h : Starts n task s next t)
    (hs : s.WellFormed) (hfits : task.Fits s) : t.WellFormed ∧ next.Fits t := by
  have ih := growing n
  cases h with
  | left | operand | callee | member | indexed | assigned | elements | properties | firstExpr
  | declared | expression | block | ifElse | returned | condition => exact ⟨hs, hfits⟩
  | firstStatement | check => exact ⟨hs, hfits.1⟩
  | whileLoop => exact ⟨hs, hfits, Value.allClosures_null⟩
  | right hl | arguments hl | place hl | moreExprs hl =>
    obtain ⟨ht, hst, _⟩ := (ih.expr _ hs hfits).ok hl
    exact ⟨ht, hst.exists_lt hfits⟩
  | call hf hvs =>
    obtain ⟨ht, hst, hv⟩ := (ih.expr _ hs hfits).ok hf
    obtain ⟨hu, htu, hvs⟩ := (ih.exprs _ ht (hst.exists_lt hfits)).ok hvs
    exact ⟨hu, htu.knows hv, hvs⟩
  | body harity henter hdefine =>
    obtain ⟨hclosure, hvs⟩ := hfits
    obtain ⟨ht, hst, hid⟩ := (Eval.enter_grows hs (Value.allClosures_closure.mp hclosure)).ok henter
    have hvs := fun v hv => hst.knows (hvs v hv)
    obtain ⟨hu, htu, _⟩ := (Eval.defineAll_zip_grows ht hvs).ok hdefine
    exact ⟨hu, htu.exists_lt hid⟩
  | content henter =>
    obtain ⟨ht, _, hid⟩ := (Eval.enter_grows hs hfits).ok henter
    exact ⟨ht, hid, Value.allClosures_null⟩
  | moreStatements hfirst =>
    obtain ⟨hid, _⟩ := hfits
    obtain ⟨ht, hst, hv⟩ := (ih.statement _ hs hid).ok hfirst
    exact ⟨ht, hst.exists_lt hid, hv⟩
  | start henter =>
    obtain ⟨ht, _, hid⟩ := (Eval.enter_grows hs hfits).ok henter
    exact ⟨ht, hid⟩
  | forLoop henter hstart =>
    obtain ⟨ht, _, hid⟩ := (Eval.enter_grows hs hfits).ok henter
    obtain ⟨hu, htu, _⟩ := (Keeps.optionally ht fun st _ => ih.statement st ht hid).ok hstart
    exact ⟨hu, htu.exists_lt hid, Value.allClosures_null⟩
  | consequence hc | otherwise hc | elseIf hc =>
    obtain ⟨ht, hst, _⟩ := (ih.expr _ hs hfits).ok hc
    exact ⟨ht, hst.exists_lt hfits⟩
  | round hcheck =>
    obtain ⟨hid, _⟩ := hfits
    obtain ⟨ht, hst, _⟩ := (Keeps.holds hs fun e _ => ih.expr e hs hid).ok hcheck
    exact ⟨ht, hst.exists_lt hid⟩
  | update hcheck hround =>
    obtain ⟨hid, _⟩ := hfits
    obtain ⟨ht, hst, _⟩ := (Keeps.holds hs fun e _ => ih.expr e hs hid).ok hcheck
    have hid := hst.exists_lt hid
    obtain ⟨hu, htu, _⟩ := (ih.block _ ht hid).ok hround
    exact ⟨hu, htu.exists_lt hid⟩
  | again hcheck hround hupdate =>
    obtain ⟨hid, _⟩ := hfits
    obtain ⟨ht, hst, _⟩ := (Keeps.holds hs fun e _ => ih.expr e hs hid).ok hcheck
    have hid := hst.exists_lt hid
    obtain ⟨hu, htu, hv⟩ := (ih.block _ ht hid).ok hround
    have hid := htu.exists_lt hid
    obtain ⟨hw, huw, _⟩ := (Keeps.optionally hu fun e _ => ih.expr e hu hid).ok hupdate
    exact ⟨hw, huw.exists_lt hid, huw.knows hv⟩

theorem Task.run_grows {task : Task} (n : Nat) {s : State} (hs : s.WellFormed)
    (hfits : task.Fits s) : Keeps growth (task.run n) s fun vs t => ∀ v ∈ vs, t.Knows v := by
  have ih := growing n
  have hone : ∀ {v : Value} {t : State}, t.WellFormed → t.Knows v →
      Keeps growth (pure [v]) t fun vs u => ∀ v ∈ vs, u.Knows v :=
    fun ht hv => .pure ht fun w hw => List.mem_singleton.mp hw ▸ hv
  cases task with
  | expr id e => exact (ih.expr e hs hfits).bind fun v t ht _ hv => hone ht hv
  | exprs id es => exact ih.exprs es hs hfits
  | call callee arguments =>
    exact (ih.call hs hfits.1 hfits.2).bind fun v t ht _ hv => hone ht hv
  | block id body => exact (ih.block body hs hfits).bind fun flow t ht _ hv => hone ht hv
  | statements id last body =>
    exact (ih.statements body hs hfits.1 hfits.2).bind fun flow t ht _ hv => hone ht hv
  | statement id st => exact (ih.statement st hs hfits).bind fun flow t ht _ hv => hone ht hv
  | conditional id condition consequence alternative =>
    refine (ih.conditional condition consequence alternative hs hfits).bind fun flow t ht _ hv => ?_
    exact hone ht hv
  | loop id condition update body last =>
    refine (ih.loop condition update body hs hfits.1 hfits.2).bind fun flow t ht _ hv => ?_
    exact hone ht hv

/-! ## Sessions -/

/-- The programs of a session in order, each with the fuel for its run. -/
abbrev Session := List (Nat × Block)

namespace Session

/-- The state that the programs of a session leave; a program that halts does not end it. -/
def state (session : Session) : State :=
  session.foldl (fun s run => (Eval.program run.1 run.2).after s) .initial

/-- `session.Performs n task s`: somewhere in the session, `task` is evaluated in the state `s` with
fuel `n`. -/
inductive Performs (session : Session) : Nat → Task → State → Prop
  | program {before after : Session} {n : Nat} {body : Block}
      (split : session = before ++ (n, body) :: after) :
      Performs session n (.statements State.globalId .null body) before.state
  | starts {n : Nat} {task next : Task} {s t : State} (performs : Performs session (n + 1) task s)
      (starts : Starts n task s next t) : Performs session n next t

theorem global_fits {s : State} (h : State.initial.Extends s) (body : Block) :
    (Task.statements State.globalId .null body).Fits s :=
  ⟨h.exists_lt (by decide), Value.allClosures_null⟩

theorem after_program (n : Nat) (body : Block) (s : State) :
    (Eval.program n body).after s =
      ((Task.statements State.globalId .null body).run n).after s := by
  rw [Eval.after, Eval.after, Eval.program, Task.run]
  simp only [bind, EStateM.bind]
  cases Eval.statements n State.globalId .null body s <;> rfl

theorem run_state {s : State} (session : Session) (hs : s.WellFormed)
    (hinitial : State.initial.Extends s) :
    (session.foldl (fun s run => (Eval.program run.1 run.2).after s) s).WellFormed ∧
      s.Extends (session.foldl (fun s run => (Eval.program run.1 run.2).after s) s) := by
  induction session generalizing s with
  | nil => exact ⟨hs, .refl s⟩
  | cons run session ih =>
    obtain ⟨n, body⟩ := run
    obtain ⟨ht, hst⟩ := (Task.run_grows n hs (global_fits hinitial body)).after
    rw [List.foldl_cons, after_program]
    obtain ⟨hu, htu⟩ := ih ht (hinitial.trans hst)
    exact ⟨hu, .trans hst htu⟩

theorem wellFormed_state (session : Session) : session.state.WellFormed :=
  (run_state session State.wellFormed_initial (.refl _)).1

theorem initial_extends_state (session : Session) : State.initial.Extends session.state :=
  (run_state session State.wellFormed_initial (.refl _)).2

theorem extends_state_append (before after : Session) :
    before.state.Extends (before ++ after).state := by
  rw [state, state, List.foldl_append]
  exact (run_state after before.wellFormed_state before.initial_extends_state).2

theorem Performs.fits {session : Session} {n : Nat} {task : Task} {s : State}
    (h : session.Performs n task s) : s.WellFormed ∧ task.Fits s := by
  induction h with
  | @program before after n body split =>
    exact ⟨before.wellFormed_state, global_fits before.initial_extends_state body⟩
  | starts performs starts ih => exact starts.fits ih.1 ih.2

/-- **The table of scopes over a session.**  After every session it is well formed, and extends what
it was after each part of the session; and every evaluation in the session, wherever it ends, goes
from a well-formed state to one that is well formed and extends it.  No evaluation is left out: one
that runs out of fuel does so in another one that the session performs. -/
theorem scopes_grow (session : Session) :
    session.state.WellFormed ∧
      (∀ before after, session = before ++ after → before.state.Extends session.state) ∧
      (∀ n task s, session.Performs n task s →
        s.WellFormed ∧ ((task.run n).after s).WellFormed ∧ s.Extends ((task.run n).after s)) ∧
      ∀ n task s u, session.Performs (n + 1) task s → task.run (n + 1) s = .error .outOfFuel u →
        ∃ next t u', session.Performs n next t ∧ next.run n t = .error .outOfFuel u' := by
  refine ⟨session.wellFormed_state, ?_, ?_, ?_⟩
  · rintro before after rfl
    exact extends_state_append before after
  · intro n task s hperforms
    obtain ⟨hs, hfits⟩ := hperforms.fits
    exact ⟨hs, (Task.run_grows n hs hfits).after⟩
  · intro n task s u hperforms hrun
    obtain ⟨next, t, u', hstarts, hnext⟩ := Task.starts_of_outOfFuel hrun
    exact ⟨next, t, u', .starts hperforms hstarts, hnext⟩

/-- Declares a constant. -/
def declaring : Block := [.declare true "k" (.literal (.text "kept"))]

/-- Keeps a closure over the constant in an array and then tries to assign the constant. -/
def assigning : Block :=
  [.declare false "fs" (.array [.function [] [.returning (some (.name "k"))]]),
    .expression (.assign "k" (.literal .null))]

theorem scopes_grow_assigning :
    let session : Session := [(4, declaring), (9, assigning)]
    let task : Task := .statements State.globalId .null assigning
    let before := state [(4, declaring)]
    session.state.binds State.globalId "fs" ∧
      (session.state.slot? State.globalId "k").any (·.constant) ∧ session.state.WellFormed ∧
      session.Performs 9 task before ∧ before.Extends ((task.run 9).after before) := by
  intro session task before
  have hperforms : session.Performs 9 task before := .program rfl
  obtain ⟨hstate, _, hruns, _⟩ := scopes_grow session
  obtain ⟨_, _, hextends⟩ := hruns 9 task before hperforms
  exact ⟨by decide +kernel, by decide +kernel, hstate, hperforms, hextends⟩

end Session

end Scriptlet
