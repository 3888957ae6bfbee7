import Scriptlet.Proofs.Syntax.Grammar

/-!
# The grip of a token

A token that continues an expression takes it as its left operand.  Its **grip** is how tight that
operand has to be: a call, an index or a member takes a suffix expression, an operator an expression
of its own level, and `=` a disjunction.  A token extends an expression only in a context that is no
tighter than its grip, and every context that is no tighter lets it, but for the `=` after something
that is no name.
-/

namespace Scriptlet

/-- The level of the left operand that the token takes; the loosest level if it takes none. -/
def Token.grip (t : Token) : Level :=
  match t with
  | .symbol .leftParen | .symbol .leftBracket | .symbol .dot => Level.suffix
  | .symbol .equals => Level.disjunction
  | t =>
    match BinaryOp.ofToken? t with
    | some op => op.level
    | none => Level.assignment

theorem BinaryOp.level_pos (op : BinaryOp) : Level.disjunction ≤ op.level := by
  cases op <;> decide

theorem BinaryOp.level_lt (op : BinaryOp) : op.level < Level.unary := by
  cases op <;> decide

theorem BinaryOp.symbol_of_ofToken? {t : Token} {op : BinaryOp} (h : ofToken? t = some op) :
    t = .symbol op.symbol := by
  fun_cases ofToken? t <;> simp_all [ofToken?, symbol] <;> subst h <;> rfl

theorem UnaryOp.symbol_of_ofToken? {t : Token} {op : UnaryOp} (h : ofToken? t = some op) :
    t = .symbol op.symbol := by
  fun_cases ofToken? t <;> simp_all [ofToken?, symbol] <;> subst h <;> rfl

theorem Token.grip_symbol (op : BinaryOp) : (Token.symbol op.symbol).grip = op.level := by
  cases op <;> rfl

theorem Token.grip_le (t : Token) : t.grip ≤ Level.suffix := by
  fun_cases grip t with
  | case5 t _ _ _ _ op _ => exact Nat.le_of_lt (Nat.lt_succ_of_lt op.level_lt)
  | _ => decide

theorem Token.grip_ne_unary (t : Token) : t.grip ≠ Level.unary := by
  fun_cases grip t with
  | case5 t _ _ _ _ op _ => exact Nat.ne_of_lt op.level_lt
  | _ => decide

namespace ParseState

/-- A token that does not extend an expression is too loose for its context, or takes no left
operand at all, or is the `=` of an assignment to something else than a name. -/
theorem grip_of_extend?_eq_none {e : Expr} {k : ExprContext} {t : Token}
    (h : extend? e k t = none) :
    t.grip < k.level ∨ t.grip = Level.assignment ∨ t = .symbol .equals := by
  fun_cases extend? e k t <;> simp_all [extend?, Token.grip]

theorem grip_of_extend?_eq_some {e : Expr} {k : ExprContext} {t : Token} {next : ParseState}
    (h : extend? e k t = some next) : k.level ≤ t.grip ∧ Level.assignment < t.grip := by
  revert h
  fun_cases extend? e k t with
  | case1 e hl => exact fun _ => ⟨hl, by decide⟩
  | case3 e hl => exact fun _ => ⟨hl, by decide⟩
  | case5 e hl => exact fun _ => ⟨hl, by decide⟩
  | case7 x hl => exact fun _ => ⟨hl ▸ Nat.zero_le _, by decide⟩
  | case10 e t _ _ _ _ op hop hl =>
    intro _
    rw [BinaryOp.symbol_of_ofToken? hop, Token.grip_symbol]
    exact ⟨hl, op.level_pos⟩
  | _ => simp

theorem extend?_eq_none {e : Expr} {k : ExprContext} {t : Token}
    (h : t.grip < k.level ∨ t.grip = Level.assignment) : extend? e k t = none := by
  cases hnext : extend? e k t with
  | none => rfl
  | some next =>
    obtain ⟨hle, hpos⟩ := grip_of_extend?_eq_some hnext
    rcases h with h | h
    · exact absurd hle (Nat.not_le_of_lt h)
    · exact absurd h (Nat.ne_of_gt hpos)

theorem close_of_extend? {e : Expr} {k : ExprContext} {t : Token} {next : ParseState}
    (h : extend? e k t = some next) : close e k t = .shift next := by
  rw [close.eq_def, h]

theorem extend?_binary {e : Expr} {k : ExprContext} {op : BinaryOp} (h : k.level ≤ op.level) :
    extend? e k (.symbol op.symbol) = some (operand (.binary e op k)) := by
  cases op <;> exact if_pos h

end ParseState

end Scriptlet
