import Scriptlet.Proofs.Eval.Fuel

/-!
# Statements one after the other

A list of statements laid end to end with another one runs the first and then, unless that ended in
a fault or a return, the second (`statements_append_cases`, `statements_append`,
`statements_append_of_stops`).  The only thing handed over besides the state is the value of the
last statement, and a list that is not empty forgets it (`statements_last`).

`inTurn` runs programs one after the other in the global scope.  **Programs run in turn end like
the program that they make together** (`exists_inTurn_iff`), as long as the last of them is not
empty.
-/

namespace Scriptlet

namespace Eval

variable {n : Nat} {id : ScopeId} {last : Value} {s t : State}

/-! ## Lists of statements -/

theorem statements_cons (n : Nat) (id : ScopeId) (last : Value) (st : Statement) (rest : Block)
    (s : State) :
    statements (n + 1) id last (st :: rest) s =
      match statement n id st s with
      | .ok (.returned v) t => .ok (.returned v) t
      | .ok (.normal v) t => statements n id v rest t
      | .error h t => .error h t := by
  show EStateM.bind _ _ s = _
  rw [EStateM.bind]
  cases statement n id st s with
  | ok flow t => cases flow <;> rfl
  | error h t => rfl

/-- A list that is not empty forgets the value before it. -/
theorem statements_last {body : Block} (h : body ≠ []) (n : Nat) (id : ScopeId)
    (last last' : Value) : statements n id last body = statements n id last' body := by
  cases body with
  | nil => exact absurd rfl h
  | cons st rest => cases n <;> rfl

/-- Ended in a fault or a return, so that nothing runs after it. -/
def Stops : EStateM.Result Halt State Flow → Prop
  | .ok (.normal _) _ => False
  | _ => True

theorem stops_or_normal (r : EStateM.Result Halt State Flow) :
    Stops r ∨ ∃ v t, r = .ok (.normal v) t := by
  cases r with
  | ok flow t =>
    cases flow with
    | normal v => exact Or.inr ⟨v, t, rfl⟩
    | returned v => exact Or.inl trivial
  | error h t => exact Or.inl trivial

theorem statements_append_of_stops {body : Block} (h : Stops (statements n id last body s))
    (rest : Block) :
    statements n id last (body ++ rest) s = statements n id last body s := by
  induction body generalizing n last s with
  | nil =>
    cases n with
    | zero => rfl
    | succ n => exact False.elim h
  | cons st body ih =>
    cases n with
    | zero => rfl
    | succ n =>
      rw [List.cons_append, statements_cons, statements_cons]
      rw [statements_cons] at h
      split
      · rfl
      · next v t hst =>
        rw [hst] at h
        exact ih h
      · rfl

/-- What the second list runs with is what the first one left. -/
theorem statements_append {m : Nat} {v : Value} {body rest : Block}
    (h : statements n id last body s = .ok (.normal v) t)
    (hrest : Finished (statements m id v rest t)) :
    statements (n + m) id last (body ++ rest) s = statements m id v rest t := by
  induction body generalizing n last s with
  | nil =>
    cases n with
    | zero => cases h
    | succ n =>
      cases h
      exact statements_of_le (Nat.le_add_left m (n + 1)) id v rest t hrest
  | cons st body ih =>
    cases n with
    | zero => cases h
    | succ n =>
      rw [statements_cons] at h
      rw [Nat.succ_add, List.cons_append, statements_cons]
      split at h
      · cases h
      · next w u hst =>
        have hmore := statement_of_le (Nat.le_add_right n m) id st s (hst ▸ trivial)
        rw [hmore, hst]
        exact ih h
      · cases h

theorem statements_append_cases {body rest : Block}
    (h : Finished (statements n id last (body ++ rest) s)) :
    (Stops (statements n id last body s) ∧
        statements n id last body s = statements n id last (body ++ rest) s) ∨
      ∃ v t m, statements n id last body s = .ok (.normal v) t ∧
        statements m id v rest t = statements n id last (body ++ rest) s := by
  induction body generalizing n last s with
  | nil =>
    cases n with
    | zero => exact absurd rfl h
    | succ n => exact Or.inr ⟨last, s, n + 1, rfl, rfl⟩
  | cons st body ih =>
    cases n with
    | zero => exact absurd rfl h
    | succ n =>
      rw [List.cons_append, statements_cons] at h ⊢
      rw [statements_cons]
      split
      · exact Or.inl ⟨trivial, rfl⟩
      · next v t hst =>
        rw [hst] at h
        exact ih h
      · exact Or.inl ⟨trivial, rfl⟩

/-! ## Programs in turn -/

/-- Programs one after the other in the global scope, each as `program` runs it but with a return
told apart: a fault or a return ends the session.  `last` is the value of the program before
them. -/
def inTurnFrom (fuel : Nat) (last : Value) : List Block → Eval Flow
  | [] => pure (.normal last)
  | body :: rest => do
    match ← statements fuel State.globalId .null body with
    | .returned v => pure (.returned v)
    | .normal v => inTurnFrom fuel v rest

/-- The value of the last program that was run. -/
def inTurn (fuel : Nat) (programs : List Block) : Eval Value := do
  let flow ← inTurnFrom fuel .null programs
  pure flow.value

theorem inTurnFrom_cons (n : Nat) (last : Value) (body : Block) (rest : List Block) (s : State) :
    inTurnFrom n last (body :: rest) s =
      match statements n State.globalId .null body s with
      | .ok (.returned v) t => .ok (.returned v) t
      | .ok (.normal v) t => inTurnFrom n v rest t
      | .error h t => .error h t := by
  rw [inTurnFrom]
  show EStateM.bind _ _ s = _
  rw [EStateM.bind]
  cases statements n State.globalId .null body s with
  | ok flow t => cases flow <;> rfl
  | error h t => rfl

theorem inTurnFrom_of_le {m n : Nat} (hmn : m ≤ n) (last : Value) (programs : List Block) :
    Within (inTurnFrom m last programs) (inTurnFrom n last programs) := by
  induction programs generalizing last with
  | nil => exact .refl _
  | cons body rest ih =>
    rw [inTurnFrom, inTurnFrom]
    refine (statements_of_le hmn State.globalId .null body).bind fun flow => ?_
    cases flow with
    | returned v => exact .refl _
    | normal v => exact ih v

theorem inTurnFrom_of_stops {body : Block} {r : EStateM.Result Halt State Flow}
    (h : statements n State.globalId .null body s = r) (hr : Stops r) (last : Value)
    (rest : List Block) : inTurnFrom n last (body :: rest) s = r := by
  rw [inTurnFrom_cons, h]
  cases r with
  | ok flow t =>
    cases flow with
    | normal v => exact False.elim hr
    | returned v => rfl
  | error h t => rfl

/-- The last program, if there is one, is not empty. -/
def EndsFilled (programs : List Block) : Prop := ∀ body ∈ programs.getLast?, body ≠ []

theorem EndsFilled.tail {body : Block} {rest : List Block} (h : EndsFilled (body :: rest)) :
    EndsFilled rest := by
  cases rest with
  | nil => exact nofun
  | cons next rest => rwa [EndsFilled, List.getLast?_cons_cons] at h

theorem EndsFilled.flatten_ne_nil {body : Block} {rest : List Block}
    (h : EndsFilled (body :: rest)) : (body :: rest).flatten ≠ [] := by
  intro hnil
  rw [List.flatten_eq_nil_iff] at hnil
  have hlast := List.getLast?_eq_some_getLast (List.cons_ne_nil body rest)
  exact h _ hlast (hnil _ (List.mem_of_getLast? hlast))

theorem exists_inTurnFrom {programs : List Block} (h : EndsFilled programs)
    (hrun : Finished (statements n State.globalId last programs.flatten s)) :
    ∃ m, inTurnFrom m last programs s = statements n State.globalId last programs.flatten s := by
  induction programs generalizing n last s with
  | nil =>
    cases n with
    | zero => exact absurd rfl hrun
    | succ n => exact ⟨0, rfl⟩
  | cons body rest ih =>
    rw [statements_last h.flatten_ne_nil n _ last .null] at hrun ⊢
    rw [List.flatten_cons] at hrun ⊢
    rcases statements_append_cases hrun with ⟨hstops, heq⟩ | ⟨v, t, m, hbody, heq⟩
    · exact ⟨n, inTurnFrom_of_stops heq (heq ▸ hstops) last rest⟩
    · rw [← heq] at hrun ⊢
      obtain ⟨k, hk⟩ := ih h.tail hrun
      refine ⟨max n k, ?_⟩
      have hmore := statements_of_le (Nat.le_max_left n k) State.globalId .null body s
        (hbody ▸ trivial)
      rw [inTurnFrom_cons, hmore, hbody, ← hk]
      exact inTurnFrom_of_le (Nat.le_max_right n k) v rest t (hk ▸ hrun)

theorem exists_statements {programs : List Block} (h : EndsFilled programs)
    (hrun : Finished (inTurnFrom n last programs s)) :
    ∃ m, statements m State.globalId last programs.flatten s = inTurnFrom n last programs s := by
  induction programs generalizing last s with
  | nil => exact ⟨1, rfl⟩
  | cons body rest ih =>
    have hnull : ∀ m, statements m State.globalId last (body :: rest).flatten =
        statements m State.globalId .null (body ++ rest.flatten) :=
      fun m => statements_last h.flatten_ne_nil m _ last .null
    simp only [hnull]
    rcases stops_or_normal (statements n State.globalId .null body s) with hstops | ⟨v, t, hbody⟩
    · refine ⟨n, ?_⟩
      rw [statements_append_of_stops hstops, inTurnFrom_of_stops rfl hstops]
    · rw [inTurnFrom_cons, hbody] at hrun ⊢
      obtain ⟨m, hm⟩ := ih h.tail hrun
      exact ⟨n + m, (statements_append hbody (hm ▸ hrun)).trans hm⟩

theorem exists_value {x y : Nat → Eval Flow} {r : EStateM.Result Halt State Value}
    (hxy : ∀ n, Finished (x n s) → ∃ m, y m s = x n s) (hr : Finished r)
    (h : ∃ n, (do let flow ← x n; pure flow.value : Eval Value) s = r) :
    ∃ n, (do let flow ← y n; pure flow.value : Eval Value) s = r := by
  obtain ⟨n, rfl⟩ := h
  have hx : Finished (x n s) := by
    replace hr : Finished (EStateM.bind (x n) _ s) := hr
    rw [EStateM.bind] at hr
    cases hxs : x n s with
    | ok flow t => trivial
    | error h t =>
      rw [hxs] at hr
      exact hr
  obtain ⟨m, hm⟩ := hxy n hx
  refine ⟨m, ?_⟩
  show EStateM.bind (y m) _ s = EStateM.bind (x n) _ s
  rw [EStateM.bind, EStateM.bind, hm]

/-- **Programs run in turn end like the program that they make together**: with the same value or
fault, and in the same state. -/
theorem exists_inTurn_iff {programs : List Block} (h : EndsFilled programs)
    {r : EStateM.Result Halt State Value} (hr : Finished r) :
    (∃ n, program n programs.flatten s = r) ↔ ∃ n, inTurn n programs s = r :=
  ⟨exists_value (fun _ hx => exists_inTurnFrom h hx) hr,
    exists_value (fun _ hx => exists_statements h hx) hr⟩

end Eval

end Scriptlet
