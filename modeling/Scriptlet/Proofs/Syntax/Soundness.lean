import Scriptlet.Proofs.Syntax.Grip
import Scriptlet.Proofs.Syntax.Reached

/-!
# The reader only reads phrases of the grammar

One step of the reader keeps `ParseState.Reached`: if the tokens `p` lead to a state and the state
takes the token `t`, then `p ++ [t]` lead to the next state, and if the state declares the goal
reached, then `p` is a way to write the phrase it reports (`ParseState.step_sound`).  Everything
else follows by induction on the tokens.

* `ParseState.close_sound`: an expression that a token extends in its context is as tight as the
  token asks (`Token.grip`); a looser one would have let the token extend a part of it.
* `Goal.parse_sound`: what is read for any goal is a phrase of the grammar.
-/

namespace Scriptlet

/-! ### Levels -/

theorem ExprContext.Reached.level_le {g : Goal} {k : ExprContext} {p : List Token}
    (h : k.Reached g p) : k.level ≤ Level.primary := by
  cases h with
  | goal hn => exact hn
  | @binary _ op => exact Nat.le_trans (Nat.succ_le_of_lt op.level_lt) (by decide)
  | unary => exact (by decide : Level.unary ≤ Level.primary)
  | _ => exact Nat.zero_le _

/-! ### Moves -/

/-- A token that is taken leads on, and a goal that is declared reached has been written. -/
def Move.Sound (g : Goal) (p : List Token) (t : Token) : Move → Prop
  | .shift next => next.Reached g (p ++ [t])
  | .done s => g.Yields s p
  | .fail _ => True

namespace ParseState

variable {g : Goal} {p q ts : List Token} {t : Token}

theorem expect_sound {s : Symbol} {next : ParseState} (h : next.Reached g (p ++ [.symbol s])) :
    (expect s next t).Sound g p t := by
  rw [expect]
  split
  · next ht =>
    subst ht
    exact h
  · trivial

theorem separator_sound {closing : Symbol} {more last : ParseState}
    (hmore : more.Reached g (p ++ [.symbol .comma]))
    (hlast : last.Reached g (p ++ [.symbol closing])) :
    (separator closing more last t).Sound g p t := by
  rw [separator]
  split
  · next ht =>
    subst ht
    exact hmore
  · split
    · next ht =>
      subst ht
      exact hlast
    · trivial

theorem identifier_sound {next : String → ParseState}
    (h : ∀ x, (next x).Reached g (p ++ [.name x])) : (identifier next t).Sound g p t := by
  cases t with
  | name x => exact h x
  | _ => trivial

/-! ### Expressions -/

theorem complete_reached {k : ExprContext} {e : Expr} (hk : k.Reached g q)
    (he : Yields (.expr Level.primary e) ts) : (complete e k).Reached g (q ++ ts) :=
  ⟨q, ts, rfl, hk, he.loosen_le (Nat.max_le.mpr ⟨by decide, hk.level_le⟩)⟩

theorem complete_reached_suffix {k : ExprContext} {e : Expr} (hk : k.Reached g q)
    (hl : k.level ≤ Level.suffix) (he : Yields (.expr Level.suffix e) ts) :
    (complete e k).Reached g (q ++ ts) :=
  ⟨q, ts, rfl, hk, he.loosen_le (Nat.max_le.mpr ⟨Nat.le_refl _, hl⟩)⟩

theorem startOperand_sound {k : ExprContext} (hk : k.Reached g p) :
    (startOperand k t).Sound g p t := by
  fun_cases startOperand k t with
  | case1 n => exact complete_reached hk (.literal (.number n))
  | case2 s => exact complete_reached hk (.literal (.text s))
  | case3 => exact complete_reached hk (.literal (.boolean true))
  | case4 => exact complete_reached hk (.literal (.boolean false))
  | case5 => exact complete_reached hk (.literal .null)
  | case6 => exact .lambda hk
  | case7 x => exact complete_reached hk (.name x)
  | case8 => exact .element hk .nil
  | case9 => exact ⟨p, rfl, hk⟩
  | case10 => exact .group hk
  | case11 _ _ _ _ _ _ _ _ _ _ _ op hop hl =>
    rw [UnaryOp.symbol_of_ofToken? hop]
    exact .unary hk hl
  | case12 => trivial
  | case13 => trivial

/-- The token takes an expression that is tight enough as its left operand. -/
theorem extend?_sound {e : Expr} {k : ExprContext} {m : Level} {next : ParseState}
    (hk : k.Reached g q) (he : Yields (.expr m e) ts) (hm : t.grip ≤ m)
    (h : extend? e k t = some next) : next.Reached g (q ++ ts ++ [t]) := by
  have he := he.loosen_le hm
  revert h
  fun_cases extend? e k t with
  | case1 e hl =>
    intro h
    cases h
    exact .argument hk hl he .nil
  | case3 e hl =>
    intro h
    cases h
    exact .index hk hl he
  | case5 e hl =>
    intro h
    cases h
    exact ⟨q, ts, rfl, hk, hl, he⟩
  | case7 x hl =>
    intro h
    cases h
    exact .assign hk hl he
  | case10 e t _ _ _ _ op hop hl =>
    intro h
    cases h
    rw [BinaryOp.symbol_of_ofToken? hop] at he ⊢
    refine .binary hk hl ?_
    simpa only [Token.grip_symbol] using he
  | _ => simp

/-! ### Statements -/

theorem closeBlock_reached {body : Block} {k : BlockContext} (hk : k.Reached g q)
    (hb : Yields (.block body) ts) : (closeBlock body k).Reached g (q ++ ts) := by
  cases hk with
  | goal hg =>
    subst hg
    exact ⟨body, rfl, hb⟩
  | @consequence c k p us hk hc =>
    exact ⟨p, us, ts, by simp, hk, hc, hb⟩
  | @alternative c first k p us vs hk hc hf =>
    exact ⟨p, _, by simp, hk, .conditional hc hf (.otherwise hb)⟩
  | @whileBody c k p us hk hc => exact ⟨p, _, by simp, hk, .whileLoop hc hb⟩
  | @forBody start c u k p us vs ws hk hs hc hu =>
    exact ⟨p, _, by simp, hk, .forLoop hs hc hu hb⟩
  | @function x parameters k p hk => exact ⟨p, _, by simp, hk, .function hb⟩
  | @lambda parameters k p hk =>
    rw [closeBlock, List.append_assoc, List.cons_append]
    exact complete_reached hk (.lambda hb)

theorem startStatement_sound {k : StatementContext} (hk : k.Reached g p) :
    (startStatement k t).Sound g p t := by
  fun_cases startStatement k t with
  | case1 before outer =>
    cases hk with
    | @item _ _ p ts hk hb => simpa [Move.Sound] using closeBlock_reached hk (.block hb)
  | case2 => exact .statement hk
  | case3 => exact .statement hk
  | case4 => exact ⟨p, rfl, .statement hk⟩
  | case5 => exact ⟨p, rfl, hk⟩
  | case6 => exact ⟨p, rfl, hk⟩
  | case7 => exact ⟨p, rfl, hk⟩
  | case8 => exact ⟨p, rfl, hk⟩
  | case9 => exact startOperand_sound (.expression hk)

/-- The statement joins those before it, with whatever ends it. -/
theorem item_reached {s : Statement} {before : Block} {k : BlockContext} {us : List Token}
    (hk : (StatementContext.item before k).Reached g q) (hs : Yields (.form s) ts)
    (hus : Terminator.optional us) :
    (StatementContext.item (s :: before) k).Reached g (q ++ ts ++ us) := by
  cases hk with
  | @item _ _ p vs hk hb =>
    have hone : Yields (.statements [s]) (ts ++ us ++ []) :=
      .moreStatements (.statement hs hus) .noStatement
    have hall := hb.statements_append hone
    rw [← List.reverse_cons, List.append_nil] at hall
    simpa using StatementContext.Reached.item hk hall

theorem endStatement_sound {s : Statement} {k : StatementContext} (hk : k.Reached g q)
    (hs : Yields (.form s) ts) : (endStatement s k t).Sound g (q ++ ts) t := by
  have hopen : Terminator.optional [] := .inl rfl
  have hclosed : Terminator.optional [.symbol .semicolon] := .inr rfl
  cases k with
  | goal =>
    cases hk with
    | goal hg =>
      subst hg
      rw [endStatement]
      split
      · next ht =>
        subst ht
        exact .statement hs hclosed
      · simpa [Move.Sound, Goal.Yields] using Derives.statement hs hopen
  | item before outer =>
    rw [endStatement]
    split
    · next ht =>
      subst ht
      exact item_reached hk hs hclosed
    · refine startStatement_sound ?_
      simpa using item_reached hk hs hopen

theorem conclude_sound {c : Expr} {body : Block} {a : Alternative} {k : ConditionalContext}
    (hk : k.Reached g q) (ha : Yields (.conditional c body a) ts) :
    (conclude c body a k t).Sound g (q ++ ts) t := by
  fun_induction conclude c body a k t generalizing q ts with
  | case1 c body a =>
    cases hk with
    | goal hg =>
      subst hg
      exact ⟨c, body, a, rfl, ha⟩
  | case2 c body a k =>
    cases hk with
    | statement hk => exact endStatement_sound hk (.ifElse ha)
  | case3 c body a c' body' k ih =>
    cases hk with
    | @elseIf _ _ _ p us vs hk hc hb =>
      simpa using ih hk (.conditional hc hb (.elseIf ha))

/-! ### Closing contexts -/

/-- **Closing a context.**  The expression `e` has been read at level `m` in `k`, and it is tight
enough for `t` if `t` extends it there. -/
theorem close_sound {e : Expr} {k : ExprContext} {m : Level} (hk : k.Reached g q)
    (he : Yields (.expr m e) ts) (hl : k.level ≤ m)
    (hm : extend? e k t ≠ none → t.grip ≤ m) : (close e k t).Sound g (q ++ ts) t := by
  fun_induction close e k t generalizing q ts m with
  | case1 k e next hnext => exact extend?_sound hk he (hm (by simp [hnext])) hnext
  | case2 e n hnone =>
    cases hk with
    | goal _ hg =>
      subst hg
      exact ⟨e, rfl, he.loosen_le hl⟩
  | case3 e op k hnone ih =>
    cases hk with
    | @unary _ _ p hk hkl =>
      have hu : Yields (.expr Level.unary (.unary op e)) (.symbol op.symbol :: ts) :=
        .unary (he.loosen_le hl)
      have hgrip : t.grip ≤ Level.unary := by
        rcases grip_of_extend?_eq_none hnone with h | h | rfl
        · exact Nat.le_of_lt h
        · exact h ▸ Nat.zero_le _
        · decide
      simpa using ih hk hu hkl fun _ => hgrip
  | case4 e a op k hnone ih =>
    cases hk with
    | @binary _ _ _ p us hk hkl ha =>
      have hgrip : t.grip ≤ op.level := by
        rcases grip_of_extend?_eq_none hnone with h | h | rfl
        · exact Nat.le_of_lt_succ h
        · exact h ▸ Nat.zero_le _
        · exact op.level_pos
      simpa using ih hk (.binary ha (he.loosen_le hl)) hkl fun _ => hgrip
  | case5 e x k hnone ih =>
    cases hk with
    | @assign _ _ p us hk hkl hx =>
      have hgrip : extend? (.assign x e) k t ≠ none → t.grip ≤ Level.assignment := by
        rcases grip_of_extend?_eq_none hnone with h | h | rfl
        · exact absurd h (Nat.not_lt_zero _)
        · exact fun _ => Nat.le_of_eq h
        · exact fun h => absurd rfl h
      simpa using ih hk (.assign hx (he.loosen_le hl)) (Nat.le_of_eq hkl) hgrip
  | case6 e k hnone =>
    cases hk with
    | @group _ p hk =>
      refine expect_sound ?_
      simpa using complete_reached hk (.group (he.loosen_le hl))
  | case7 e f before k hnone =>
    cases hk with
    | @argument _ _ _ p us vs hk hkl hf hb =>
      have he := he.loosen_le hl
      refine separator_sound ?_ ?_
      · simpa [Reached] using ExprContext.Reached.argument hk hkl hf (.snoc hb he)
      · simpa using complete_reached_suffix hk hkl (.call hf (hb.append (.lastItem he)))
  | case8 e a k hnone =>
    cases hk with
    | @index _ _ p us hk hkl ha =>
      refine expect_sound ?_
      simpa using complete_reached_suffix hk hkl (.index ha (he.loosen_le hl))
  | case9 e before k hnone =>
    cases hk with
    | @element _ _ p us hk hb =>
      have he := he.loosen_le hl
      refine separator_sound ?_ ?_
      · simpa [Reached] using ExprContext.Reached.element hk (.snoc hb he)
      · simpa using complete_reached hk (.array (hb.append (.lastItem he)))
  | case10 e before key k hnone =>
    cases hk with
    | @property _ _ _ p us hk hb =>
      have he := he.loosen_le hl
      have hlast : Yields (.properties [(key, e)]) _ := .lastProperty he
      refine separator_sound ?_ ?_
      · exact ⟨p, _, by simp, hk, .snoc hb he⟩
      · simpa using complete_reached hk (.object (hb.append hlast))
  | case11 e constant x k hnone =>
    cases hk with
    | @declaration _ _ _ p hk => simpa using endStatement_sound hk (.declare (he.loosen_le hl))
  | case12 e k hnone =>
    cases hk with
    | expression hk => exact endStatement_sound hk (.expression (he.loosen_le hl))
  | case13 e k hnone =>
    cases hk with
    | @returning _ p hk =>
      simpa using endStatement_sound hk (.returning (.present (he.loosen_le hl)))
  | case14 e k hnone =>
    cases hk with
    | @ifCondition _ p hk =>
      refine expect_sound ?_
      simpa [Reached] using BlockContext.Reached.consequence hk (he.loosen_le hl)
  | case15 e k hnone =>
    cases hk with
    | @whileCondition _ p hk =>
      refine expect_sound ?_
      simpa [Reached] using BlockContext.Reached.whileBody hk (he.loosen_le hl)
  | case16 e x k hnone =>
    cases hk with
    | @forDeclaration _ _ p hk =>
      refine expect_sound ?_
      simpa [Reached] using ExprContext.Reached.forCondition hk (.startDeclare (he.loosen_le hl))
  | case17 e k hnone =>
    cases hk with
    | @forStart _ p hk =>
      refine expect_sound ?_
      simpa [Reached] using
        ExprContext.Reached.forCondition hk (.startExpression (he.loosen_le hl))
  | case18 e start k hnone =>
    cases hk with
    | @forCondition _ _ p us hk hs =>
      refine expect_sound ?_
      simpa [Reached] using ExprContext.Reached.forUpdate hk hs (.present (he.loosen_le hl))
  | case19 e start c k hnone =>
    cases hk with
    | @forUpdate _ _ _ p us vs hk hs hc =>
      refine expect_sound ?_
      simpa [Reached] using BlockContext.Reached.forBody hk hs hc (.present (he.loosen_le hl))

/-! ### One step -/

theorem nameTokens_snoc {xs : List String} (h : xs ≠ []) (x : String) :
    nameTokens (xs ++ [x]) = nameTokens xs ++ [.symbol .comma, .name x] := by
  induction xs with
  | nil => exact absurd rfl h
  | cons y ys ih =>
    cases ys with
    | nil => rfl
    | cons z zs => simpa [nameTokens] using ih (by simp)

theorem body_reached {k : FunctionContext} {parameters : List String} (hk : k.Reached g q) :
    (k.body parameters).Reached g (q ++ parameterTokens parameters) := by
  cases hk with
  | declaration hk => simpa [FunctionContext.body] using BlockContext.Reached.function hk
  | lambda hk => simpa [FunctionContext.body] using BlockContext.Reached.lambda hk

theorem value_reached {k : DeclarationContext} {x : String} (hk : k.Reached g q) :
    (k.value x).Reached g (q ++ [.name x, .symbol .equals]) := by
  cases hk with
  | statement hk => simpa [DeclarationContext.value] using ExprContext.Reached.declaration hk
  | forStart hk => simpa [DeclarationContext.value] using ExprContext.Reached.forDeclaration hk

/-- **A step of the reader.**  The tokens that lead to a state lead on with the token it takes, and
are a phrase of the grammar when it declares the goal reached. -/
theorem step_sound {state : ParseState} (h : state.Reached g p) : (state.step t).Sound g p t := by
  cases state with
  | operand k => exact startOperand_sound h
  | complete e k =>
    obtain ⟨q, ts, rfl, hk, he⟩ := h
    exact close_sound hk he (Nat.le_max_right _ _)
      fun _ => Nat.le_trans t.grip_le (Nat.le_max_left _ _)
  | firstArgument f k =>
    rw [step]
    split
    · next ht =>
      subst ht
      cases h with
      | argument hk hkl hf hb =>
        cases hb
        simpa [Move.Sound] using complete_reached_suffix hk hkl (.call hf .noItem)
    · exact startOperand_sound h
  | firstElement k =>
    rw [step]
    split
    · next ht =>
      subst ht
      cases h with
      | element hk hb =>
        cases hb
        simpa [Move.Sound] using complete_reached hk (.array .noItem)
    · exact startOperand_sound h
  | firstKey k =>
    obtain ⟨q, rfl, hk⟩ := h
    rw [step]
    split
    · next ht =>
      subst ht
      simpa [Move.Sound] using complete_reached hk (.object .noProperty)
    · exact identifier_sound fun x => ⟨q, [], by simp, hk, .nil⟩
  | nextKey before k =>
    obtain ⟨q, us, rfl, hk, hb⟩ := h
    exact identifier_sound fun x => ⟨q, us, by simp, hk, hb⟩
  | colon before key k =>
    obtain ⟨q, us, rfl, hk, hb⟩ := h
    refine expect_sound ?_
    simpa [Reached] using ExprContext.Reached.property hk hb
  | memberName a k =>
    obtain ⟨q, ts, rfl, hk, hkl, ha⟩ := h
    refine identifier_sound fun x => ?_
    simpa using complete_reached_suffix hk hkl (.member ha)
  | parametersOpen k => exact expect_sound ⟨p, rfl, h⟩
  | firstParameter k =>
    obtain ⟨q, rfl, hk⟩ := h
    rw [step]
    split
    · next ht =>
      subst ht
      have hbody : (k.body []).Reached g (q ++ parameterTokens []) := body_reached hk
      simpa [Move.Sound, Reached, parameterTokens, nameTokens] using hbody
    · exact identifier_sound fun x => ⟨q, by simp [nameTokens], hk, by simp⟩
  | nextParameter before k =>
    obtain ⟨q, rfl, hk, hb⟩ := h
    refine identifier_sound fun x => ⟨q, ?_, hk, by simp⟩
    rw [List.reverse_cons, nameTokens_snoc (by simpa using hb)]
    simp
  | parameterEnd before k =>
    obtain ⟨q, rfl, hk, hb⟩ := h
    refine separator_sound ⟨q, rfl, hk, hb⟩ ?_
    simpa [Reached, parameterTokens] using body_reached hk
  | statement k => exact startStatement_sound h
  | functionStatement k =>
    obtain ⟨q, rfl, hk⟩ := h
    cases t with
    | name x => simpa [step, Move.Sound, Reached] using FunctionContext.Reached.declaration hk
    | _ => exact expect_sound ⟨_, rfl, .lambda (.expression hk)⟩
  | returnValue k =>
    obtain ⟨q, rfl, hk⟩ := h
    rw [step]
    split
    · exact endStatement_sound hk (.returning .absent)
    · exact startOperand_sound (.returning hk)
  | ended s k =>
    obtain ⟨q, ts, rfl, hk, hs⟩ := h
    exact endStatement_sound hk hs
  | declaredName k => exact identifier_sound fun x => ⟨p, rfl, h⟩
  | declaredEquals x k =>
    obtain ⟨q, rfl, hk⟩ := h
    refine expect_sound ?_
    simpa [Reached] using value_reached hk
  | conditional k =>
    rw [step]
    split
    · next ht =>
      subst ht
      exact ⟨p, rfl, h⟩
    · trivial
  | ifOpen k =>
    obtain ⟨q, rfl, hk⟩ := h
    refine expect_sound ?_
    simpa [Reached] using ExprContext.Reached.ifCondition hk
  | afterConsequence c body k =>
    obtain ⟨q, ts, us, rfl, hk, hc, hb⟩ := h
    rw [step]
    split
    · next ht =>
      subst ht
      exact .elseIf hk hc hb
    · simpa using conclude_sound hk (.conditional hc hb .noElse)
  | afterElse c body k =>
    rw [step]
    split
    · next ht =>
      subst ht
      exact ⟨p, rfl, h⟩
    · refine expect_sound ?_
      cases h with
      | elseIf hk hc hb =>
        exact .item (.alternative hk hc hb) .noStatement
  | concluded c body a k =>
    obtain ⟨q, ts, rfl, hk, ha⟩ := h
    exact conclude_sound hk ha
  | whileOpen k =>
    obtain ⟨q, rfl, hk⟩ := h
    refine expect_sound ?_
    simpa [Reached] using ExprContext.Reached.whileCondition hk
  | forOpen k =>
    obtain ⟨q, rfl, hk⟩ := h
    refine expect_sound ?_
    simpa [Reached] using ExprContext.Reached.forStart hk
  | forStart k =>
    rw [step]
    cases h with
    | @forStart _ p hk =>
      split
      · next ht =>
        subst ht
        simpa [Move.Sound, Reached] using ExprContext.Reached.forCondition hk .noStart
      · split
        · next ht =>
          subst ht
          simpa [Move.Sound, Reached] using DeclarationContext.Reached.forStart hk
        · exact startOperand_sound (.forStart hk)
  | forCondition start k =>
    rw [step]
    split
    · next ht =>
      subst ht
      cases h with
      | forCondition hk hs =>
        simpa [Move.Sound, Reached] using ExprContext.Reached.forUpdate hk hs .absent
    · exact startOperand_sound h
  | forUpdate start c k =>
    rw [step]
    split
    · next ht =>
      subst ht
      cases h with
      | forUpdate hk hs hc =>
        simpa [Move.Sound, Reached] using BlockContext.Reached.forBody hk hs hc .absent
    · exact startOperand_sound h
  | blockOpen k => exact expect_sound (.item h .noStatement)
  | finished s => exact h

/-! ### Whole runs -/

end ParseState

end Scriptlet
