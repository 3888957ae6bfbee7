import Scriptlet.Proofs.Syntax.Grip

/-!
# The reader reads every phrase of the grammar

A derivation is followed by the reader token by token.  Because a state stands for a phrase in an
arbitrary context, the statement for a phrase speaks about all places where it may stand
(`Phrase.Read`), and about the tokens that may come next: after an expression of level `n` the state
answers a token whose grip is at most `n` as if the expression had just been completed.  The parts
of the expression that are still open are closed by such a token, none of them is extended by it
(`ParseState.close_unary`, `ParseState.close_binary`, `ParseState.close_assign`).

* `ParseState.Takes`, `ParseState.Arrives`: runs of the reader that do not end.
* `ListFrame`: argument lists and arrays are read alike.
* `Derives.read`: **every phrase is read**, by induction on its derivation.
* `Derives.parse_statement`: a statement is read from the front of a token list, whatever follows.
-/

namespace Scriptlet

/-! ### Runs -/

namespace ParseState

/-- The tokens are taken one after the other, from one state to another. -/
inductive Takes : ParseState → List Token → ParseState → Prop where
  | nil (a : ParseState) : Takes a [] a
  | cons {a b c : ParseState} {t : Token} {ts : List Token} :
      a.step t = .shift b → Takes b ts c → Takes a (t :: ts) c

/-- The tokens are taken, and then every token of `follow` is answered by `answer`. -/
def Arrives (a : ParseState) (ts : List Token) (follow : Token → Prop) (answer : Token → Move) :
    Prop :=
  ∃ b, a.Takes ts b ∧ ∀ t, follow t → b.step t = answer t

namespace Takes

variable {a b c : ParseState} {t : Token} {ts us : List Token}

theorem append (h : Takes a ts b) (h' : Takes b us c) : Takes a (ts ++ us) c := by
  induction h with
  | nil => exact h'
  | cons hstep _ ih => exact .cons hstep (ih h')

theorem snoc (h : Takes a ts b) (hstep : b.step t = .shift c) : Takes a (ts ++ [t]) c :=
  h.append (.cons hstep (.nil c))

/-- Two states that answer the first token alike take the same tokens. -/
theorem congr_first (h : Takes a (t :: ts) c) (hstep : b.step t = a.step t) :
    Takes b (t :: ts) c := by
  cases h with
  | cons ha hrest => exact .cons (hstep.trans ha) hrest

theorem run_eq (h : Takes a ts b) :
    ∀ {located : List Located}, located.map Located.token = ts → ∀ rest,
      a.run (located ++ rest) = b.run rest := by
  induction h with
  | nil =>
    intro located hl rest
    rw [List.map_eq_nil_iff.mp hl]
    rfl
  | cons hstep _ ih =>
    intro located hl rest
    obtain ⟨t, after, rfl, rfl, hafter⟩ := List.map_eq_cons_iff.mp hl
    rw [List.cons_append, run, hstep]
    exact ih hafter rest

end Takes

namespace Arrives

variable {a b c : ParseState} {t : Token} {ts us : List Token} {follow follow' : Token → Prop}
  {answer answer' : Token → Move}

theorem takes (h : a.Arrives ts follow answer) (ht : follow t) (hc : answer t = .shift c) :
    a.Takes (ts ++ [t]) c := by
  obtain ⟨b, hb, hstep⟩ := h
  exact hb.snoc ((hstep t ht).trans hc)

theorem mono (h : a.Arrives ts follow answer)
    (h' : ∀ t, follow' t → follow t ∧ answer t = answer' t) : a.Arrives ts follow' answer' := by
  obtain ⟨b, hb, hstep⟩ := h
  exact ⟨b, hb, fun t ht => (hstep t (h' t ht).1).trans (h' t ht).2⟩

theorem of_takes (h : a.Takes ts b) (h' : b.Arrives us follow answer) :
    a.Arrives (ts ++ us) follow answer := by
  obtain ⟨c, hc, hstep⟩ := h'
  exact ⟨c, h.append hc, hstep⟩

end Arrives

/-! ### Tokens that do not extend an expression -/

theorem close_unary {op : UnaryOp} {e : Expr} {k : ExprContext} {t : Token}
    (h : t.grip ≤ Level.unary) : close e (.unary op k) t = close (.unary op e) k t := by
  have hnone : extend? e (.unary op k) t = none :=
    extend?_eq_none (.inl (Nat.lt_of_le_of_ne h t.grip_ne_unary))
  rw [close, hnone]

theorem close_binary {op : BinaryOp} {a b : Expr} {k : ExprContext} {t : Token}
    (h : t.grip ≤ op.level) : close b (.binary a op k) t = close (.binary op a b) k t := by
  have hnone : extend? b (.binary a op k) t = none :=
    extend?_eq_none (.inl (Nat.lt_succ_of_le h))
  rw [close, hnone]

theorem close_assign {x : String} {e : Expr} {k : ExprContext} {t : Token}
    (h : t.grip ≤ Level.assignment) : close e (.assign x k) t = close (.assign x e) k t := by
  have hnone : extend? e (.assign x k) t = none := extend?_eq_none (.inr (Nat.le_zero.mp h))
  rw [close, hnone]

end ParseState

/-! ### First tokens -/

/-- Whether an expression may start with the token. -/
def Token.startsExpression : Token → Bool
  | .number _ | .text _ | .name _ => true
  | .keyword k => k = .trueWord ∨ k = .falseWord ∨ k = .nullWord ∨ k = .fnWord
  | .symbol s =>
    s = .leftBracket ∨ s = .leftBrace ∨ s = .leftParen ∨ s = .minus ∨ s = .bang
  | _ => false

theorem ne_of_startsExpression {t u : Token} (h : t.startsExpression)
    (hu : u.startsExpression = false := by rfl) : t ≠ u := by
  rintro rfl
  rw [hu] at h
  exact Bool.false_ne_true h

/-- The tokens start like an expression; `fn` is followed by its parameter list. -/
def StartsExpression (ts : List Token) : Prop :=
  ∃ t us, ts = t :: us ∧ t.startsExpression ∧
    (t = .keyword .fnWord → ∃ vs, us = .symbol .leftParen :: vs)

theorem StartsExpression.of_startsExpression {t : Token} {us : List Token}
    (ht : t.startsExpression) (hfn : t ≠ .keyword .fnWord) : StartsExpression (t :: us) :=
  ⟨t, us, rfl, ht, fun h => absurd h hfn⟩

theorem StartsExpression.append {ts : List Token} (h : StartsExpression ts) (us : List Token) :
    StartsExpression (ts ++ us) := by
  obtain ⟨t, vs, rfl, ht, hfn⟩ := h
  refine ⟨t, vs ++ us, rfl, ht, fun he => ?_⟩
  obtain ⟨ws, rfl⟩ := hfn he
  exact ⟨ws ++ us, rfl⟩

/-- Two states that start expressions alike read an expression alike. -/
theorem ParseState.Takes.congr_start {a b c : ParseState} {ts : List Token} (h : Takes a ts c)
    (hts : StartsExpression ts) (hstep : ∀ t : Token, t.startsExpression → b.step t = a.step t) :
    Takes b ts c := by
  obtain ⟨t, us, rfl, ht, -⟩ := hts
  exact h.congr_first (hstep t ht)

/-! ### Places of phrases -/

namespace ParseState

/-- Argument lists and arrays: an item stands in `context before`, and the list with all its items
is `result`. -/
structure ListFrame where
  closing : Symbol
  context : List Expr → ExprContext
  result : List Expr → ParseState
  level_context : ∀ before, (context before).level = Level.assignment
  grip_closing : (Token.symbol closing).grip = Level.assignment
  closing_ne_comma : closing ≠ .comma
  close_context : ∀ e before t, extend? e (context before) t = none →
    close e (context before) t =
      separator closing (operand (context (e :: before))) (result (e :: before).reverse) t

def argumentFrame (f : Expr) (k : ExprContext) : ListFrame where
  closing := .rightParen
  context before := .argument f before k
  result es := .complete (.call f es) k
  level_context _ := rfl
  grip_closing := rfl
  closing_ne_comma := by decide
  close_context e before t h := by rw [close, h]

def elementFrame (k : ExprContext) : ListFrame where
  closing := .rightBracket
  context before := .element before k
  result es := .complete (.array es) k
  level_context _ := rfl
  grip_closing := rfl
  closing_ne_comma := by decide
  close_context e before t h := by rw [close, h]

end ParseState

open ParseState

/-- Where reading goes on after a statement with its semicolon. -/
def StatementContext.next (s : Statement) : StatementContext → ParseState
  | .goal => .finished s
  | .item before k => .statement (.item (s :: before) k)

/-- An expression of the level is read in every context that takes the level. -/
def ReadExpr (n : Level) (e : Expr) (ts : List Token) : Prop :=
  StartsExpression ts ∧
    ∀ k : ExprContext, k.level ≤ n → (operand k).Arrives ts (fun t => t.grip ≤ n) (close e k)

/-- The phrase is read wherever it may stand. -/
def Phrase.Read : Phrase → List Token → Prop
  | .expr n e, ts => ReadExpr n e ts
  | .optional none, ts => ts = []
  | .optional (some e), ts => ReadExpr Level.assignment e ts
  | .list [], ts => ts = []
  | .list (e :: es), ts =>
    StartsExpression ts ∧ ∀ (frame : ListFrame) (before : List Expr),
      (operand (frame.context before)).Takes (ts ++ [.symbol frame.closing])
        (frame.result (before.reverse ++ e :: es))
  | .properties [], ts => ts = []
  | .properties (p :: ps), ts =>
    (∃ us, ts = .name p.1 :: us) ∧ ∀ (before : List (String × Expr)) (k : ExprContext),
      (nextKey before k).Takes (ts ++ [.symbol .rightBrace])
        (complete (.object (before.reverse ++ p :: ps)) k)
  | .block body, ts => ∀ k, (blockOpen k).Takes ts (closeBlock body k)
  | .alternative a, ts =>
    ∀ c body k, (afterConsequence c body k).Arrives ts (fun t => t ≠ .keyword .elseWord)
      (conclude c body a k)
  | .conditional c body a, ts =>
    ∀ k, (ParseState.conditional k).Arrives ts (fun t => t ≠ .keyword .elseWord)
      (conclude c body a k)
  | .forStart start, ts =>
    ∀ k, (ParseState.forStart k).Takes (ts ++ [.symbol .semicolon]) (forCondition start k)
  | .form s, ts => ∀ k, (ParseState.statement k).Takes (ts ++ [.symbol .semicolon]) (k.next s)
  | .statement s, ts => ∀ k, (ParseState.statement k).Takes ts (k.next s)
  | .statements body, ts =>
    ∀ before k, (ParseState.statement (.item before k)).Takes (ts ++ [.symbol .rightBrace])
      (closeBlock (before.reverse ++ body) k)

/-! ### Derivations are read -/

namespace Phrase.Read

variable {ts us vs ws : List Token}

theorem loosen {n : Level} {e : Expr} (h : ReadExpr (n + 1) e ts) : ReadExpr n e ts := by
  refine ⟨h.1, fun k hk => ?_⟩
  refine (h.2 k (Nat.le_succ_of_le hk)).mono fun t ht => ?_
  exact ⟨Nat.le_succ_of_le ht, rfl⟩

theorem assign {x : String} {e : Expr} (hx : ReadExpr Level.disjunction (.name x) ts)
    (he : ReadExpr Level.assignment e us) :
    ReadExpr Level.assignment (.assign x e) (ts ++ .symbol .equals :: us) := by
  refine ⟨hx.1.append _, fun k hk => ?_⟩
  have hk0 : k.level = Level.assignment := Nat.le_zero.mp hk
  have htake : (operand k).Takes (ts ++ [.symbol .equals]) (operand (.assign x k)) :=
    (hx.2 k (Nat.le_trans hk (by decide))).takes (Nat.le_refl _)
      (close_of_extend? (if_pos hk0))
  have hvalue := Arrives.of_takes htake (he.2 (.assign x k) (Nat.le_refl _))
  rw [List.append_assoc] at hvalue
  exact hvalue.mono fun t ht => ⟨ht, close_assign ht⟩

theorem binary {op : BinaryOp} {a b : Expr} (ha : ReadExpr op.level a ts)
    (hb : ReadExpr (op.level + 1) b us) :
    ReadExpr op.level (.binary op a b) (ts ++ .symbol op.symbol :: us) := by
  refine ⟨ha.1.append _, fun k hk => ?_⟩
  have htake : (operand k).Takes (ts ++ [.symbol op.symbol]) (operand (.binary a op k)) :=
    (ha.2 k hk).takes (Nat.le_of_eq (Token.grip_symbol op))
      (close_of_extend? (extend?_binary hk))
  have hright := Arrives.of_takes htake (hb.2 (.binary a op k) (Nat.le_refl _))
  rw [List.append_assoc] at hright
  exact hright.mono fun t ht => ⟨Nat.le_succ_of_le ht, close_binary ht⟩

theorem unary {op : UnaryOp} {e : Expr} (he : ReadExpr Level.unary e ts) :
    ReadExpr Level.unary (.unary op e) (.symbol op.symbol :: ts) := by
  refine ⟨.of_startsExpression (by cases op <;> rfl) (by simp), fun k hk => ?_⟩
  · have hstart : (operand k).step (.symbol op.symbol) = .shift (operand (.unary op k)) := by
      cases op <;> simp [step, startOperand, UnaryOp.symbol, UnaryOp.ofToken?, hk]
    have hoperand := Arrives.of_takes (.cons hstart (.nil _)) (he.2 (.unary op k) (Nat.le_refl _))
    exact hoperand.mono fun t ht => ⟨ht, close_unary ht⟩

theorem complete {a : ParseState} {e : Expr} {k : ExprContext} {follow : Token → Prop}
    (h : a.Takes ts (complete e k)) : a.Arrives ts follow (close e k) :=
  ⟨_, h, fun _ _ => rfl⟩

theorem firstArgument {f : Expr} {es : List Expr} (h : Phrase.Read (.list es) ts)
    (k : ExprContext) :
    (firstArgument f k).Takes (ts ++ [.symbol .rightParen]) (.complete (.call f es) k) := by
  cases es with
  | nil =>
    obtain rfl : ts = [] := h
    exact .cons rfl (.nil _)
  | cons e es =>
    exact (h.2 (argumentFrame f k) []).congr_start (h.1.append _) fun t ht =>
      if_neg (ne_of_startsExpression ht)

theorem firstElement {es : List Expr} (h : Phrase.Read (.list es) ts) (k : ExprContext) :
    (firstElement k).Takes (ts ++ [.symbol .rightBracket]) (.complete (.array es) k) := by
  cases es with
  | nil =>
    obtain rfl : ts = [] := h
    exact .cons rfl (.nil _)
  | cons e es =>
    exact (h.2 (elementFrame k) []).congr_start (h.1.append _) fun t ht =>
      if_neg (ne_of_startsExpression ht)

theorem call {f : Expr} {es : List Expr} (hf : ReadExpr Level.suffix f ts)
    (hes : Phrase.Read (.list es) us) :
    ReadExpr Level.suffix (.call f es)
      (ts ++ .symbol .leftParen :: (us ++ [.symbol .rightParen])) := by
  refine ⟨hf.1.append _, fun k hk => complete ?_⟩
  have htake : (operand k).Takes (ts ++ [.symbol .leftParen]) (.firstArgument f k) :=
    (hf.2 k hk).takes (by decide) (close_of_extend? (if_pos hk))
  simpa using htake.append (firstArgument hes k)

theorem index {a i : Expr} (ha : ReadExpr Level.suffix a ts) (hi : ReadExpr Level.assignment i us) :
    ReadExpr Level.suffix (.index a i)
      (ts ++ .symbol .leftBracket :: (us ++ [.symbol .rightBracket])) := by
  refine ⟨ha.1.append _, fun k hk => complete ?_⟩
  have htake : (operand k).Takes (ts ++ [.symbol .leftBracket]) (operand (.index a k)) :=
    (ha.2 k hk).takes (by decide) (close_of_extend? (if_pos hk))
  have hindex : (operand (.index a k)).Takes (us ++ [.symbol .rightBracket])
      (.complete (.index a i) k) :=
    (hi.2 (.index a k) (Nat.le_refl _)).takes (by decide) rfl
  simpa using htake.append hindex

theorem member {a : Expr} {x : String} (ha : ReadExpr Level.suffix a ts) :
    ReadExpr Level.suffix (.member a x) (ts ++ [.symbol .dot, .name x]) := by
  refine ⟨ha.1.append _, fun k hk => complete ?_⟩
  have htake : (operand k).Takes (ts ++ [.symbol .dot]) (memberName a k) :=
    (ha.2 k hk).takes (by decide) (close_of_extend? (if_pos hk))
  have hname : (memberName a k).Takes [.name x] (.complete (.member a x) k) :=
    .cons rfl (.nil _)
  simpa using htake.append hname

theorem literal (l : Literal) : ReadExpr Level.primary (.literal l) [l.token] := by
  cases l with
  | boolean b =>
    cases b <;>
      exact ⟨.of_startsExpression rfl (by simp [Literal.token]),
        fun k _ => complete (.cons rfl (.nil _))⟩
  | _ => exact ⟨.of_startsExpression rfl (by simp [Literal.token]),
      fun k _ => complete (.cons rfl (.nil _))⟩

theorem name (x : String) : ReadExpr Level.primary (.name x) [.name x] := by
  refine ⟨.of_startsExpression rfl (by simp), fun k _ => complete ?_⟩
  exact .cons rfl (.nil _)

theorem array {es : List Expr} (h : Phrase.Read (.list es) ts) :
    ReadExpr Level.primary (.array es)
      (.symbol .leftBracket :: (ts ++ [.symbol .rightBracket])) := by
  refine ⟨.of_startsExpression rfl (by simp), fun k _ => complete ?_⟩
  exact .cons rfl (firstElement h k)

theorem object {ps : List (String × Expr)} (h : Phrase.Read (.properties ps) ts) :
    ReadExpr Level.primary (.object ps) (.symbol .leftBrace :: (ts ++ [.symbol .rightBrace])) := by
  refine ⟨.of_startsExpression rfl (by simp), fun k _ => complete (.cons rfl ?_)⟩
  cases ps with
  | nil =>
    obtain rfl : ts = [] := h
    exact .cons rfl (.nil _)
  | cons p ps =>
    obtain ⟨⟨us, rfl⟩, hps⟩ := h
    exact (hps [] k).congr_first rfl

theorem group {e : Expr} (h : ReadExpr Level.assignment e ts) :
    ReadExpr Level.primary e (.symbol .leftParen :: (ts ++ [.symbol .rightParen])) := by
  refine ⟨.of_startsExpression rfl (by simp), fun k _ => complete (.cons rfl ?_)⟩
  exact (h.2 (.group k) (Nat.le_refl _)).takes (by decide) rfl

/-! ### Lists -/

theorem lastItem {e : Expr} (h : ReadExpr Level.assignment e ts) : Phrase.Read (.list [e]) ts := by
  refine ⟨h.1, fun frame before => ?_⟩
  have hnone : extend? e (frame.context before) (.symbol frame.closing) = none :=
    extend?_eq_none (.inr frame.grip_closing)
  refine (h.2 (frame.context before) (Nat.le_of_eq (frame.level_context before))).takes
    (Nat.le_of_eq frame.grip_closing) ?_
  rw [frame.close_context e before _ hnone, List.reverse_cons, separator, if_neg, if_pos rfl]
  simpa using frame.closing_ne_comma

theorem moreItems {e f : Expr} {es : List Expr} (he : ReadExpr Level.assignment e ts)
    (hes : Phrase.Read (.list (f :: es)) us) :
    Phrase.Read (.list (e :: f :: es)) (ts ++ .symbol .comma :: us) := by
  refine ⟨he.1.append _, fun frame before => ?_⟩
  have hnone : extend? e (frame.context before) (.symbol .comma) = none :=
    extend?_eq_none (.inr rfl)
  have htake : (operand (frame.context before)).Takes (ts ++ [.symbol .comma])
      (operand (frame.context (e :: before))) :=
    (he.2 (frame.context before) (Nat.le_of_eq (frame.level_context before))).takes (by decide)
      (by rw [frame.close_context e before _ hnone]; rfl)
  simpa using htake.append (hes.2 frame (e :: before))

theorem lastProperty {key : String} {e : Expr} (h : ReadExpr Level.assignment e ts) :
    Phrase.Read (.properties [(key, e)]) (.name key :: .symbol .colon :: ts) := by
  refine ⟨⟨_, rfl⟩, fun before k => .cons rfl (.cons rfl ?_)⟩
  have htake : (operand (.property before key k)).Takes (ts ++ [.symbol .rightBrace])
      (.complete (.object ((key, e) :: before).reverse) k) :=
    (h.2 (.property before key k) (Nat.le_refl _)).takes (by decide) rfl
  simpa using htake

theorem moreProperties {key : String} {e : Expr} {p : String × Expr} {ps : List (String × Expr)}
    (he : ReadExpr Level.assignment e ts) (hps : Phrase.Read (.properties (p :: ps)) us) :
    Phrase.Read (.properties ((key, e) :: p :: ps))
      (.name key :: .symbol .colon :: (ts ++ .symbol .comma :: us)) := by
  refine ⟨⟨_, rfl⟩, fun before k => .cons rfl (.cons rfl ?_)⟩
  have htake : (operand (.property before key k)).Takes (ts ++ [.symbol .comma])
      (nextKey ((key, e) :: before) k) :=
    (he.2 (.property before key k) (Nat.le_refl _)).takes (by decide) rfl
  simpa using htake.append (hps.2 ((key, e) :: before) k)

/-! ### Functions -/

theorem names {k : FunctionContext} :
    ∀ (xs : List String) (x : String) (before : List String) (a : ParseState),
      (∀ y, a.step (.name y) = .shift (parameterEnd (y :: before) k)) →
      a.Takes (nameTokens (x :: xs) ++ [.symbol .rightParen])
        (blockOpen (k.body (before.reverse ++ x :: xs))) := by
  intro xs
  induction xs with
  | nil =>
    intro x before a ha
    refine .cons (ha x) (.cons ?_ (.nil _))
    simp [step, separator]
  | cons y ys ih =>
    intro x before a ha
    refine .cons (ha x) (.cons rfl ?_)
    simpa [nameTokens] using ih y (x :: before) (nextParameter (x :: before) k) fun _ => rfl

theorem parameters (k : FunctionContext) (xs : List String) :
    (parametersOpen k).Takes (parameterTokens xs) (blockOpen (k.body xs)) := by
  refine .cons rfl ?_
  cases xs with
  | nil => exact .cons rfl (.nil _)
  | cons x xs => exact names xs x [] (firstParameter k) fun _ => rfl

theorem lambda {xs : List String} {body : Block} (h : Phrase.Read (.block body) ts) :
    ReadExpr Level.primary (.function xs body)
      (.keyword .fnWord :: (parameterTokens xs ++ ts)) := by
  refine ⟨⟨_, _, rfl, rfl, fun _ => ⟨_, rfl⟩⟩, fun k _ => complete (.cons rfl ?_)⟩
  exact (parameters (.lambda k) xs).append (h (.lambda xs k))

/-! ### Statements -/

theorem block {body : Block} (h : Phrase.Read (.statements body) ts) :
    Phrase.Read (.block body) (.symbol .leftBrace :: (ts ++ [.symbol .rightBrace])) := by
  intro k
  exact .cons rfl (h [] k)

theorem noElse : Phrase.Read (.alternative .absent) [] := by
  intro c body k
  exact ⟨_, .nil _, fun t ht => if_neg ht⟩

theorem otherwise {body : Block} (h : Phrase.Read (.block body) ts)
    (hts : ∃ us, ts = .symbol .leftBrace :: us) :
    Phrase.Read (.alternative (.block body)) (.keyword .elseWord :: ts) := by
  intro c first k
  obtain ⟨us, rfl⟩ := hts
  refine ⟨_, .cons rfl ((h (.alternative c first k)).congr_first rfl), fun t _ => rfl⟩

theorem elseIf {c : Expr} {body : Block} {a : Alternative}
    (h : Phrase.Read (.conditional c body a) ts) (hts : ∃ us, ts = .keyword .ifWord :: us) :
    Phrase.Read (.alternative (.elseIf c body a)) (.keyword .elseWord :: ts) := by
  intro c' first k
  obtain ⟨us, rfl⟩ := hts
  obtain ⟨b, hb, hstep⟩ := h (.elseIf c' first k)
  exact ⟨b, .cons rfl (hb.congr_first rfl), hstep⟩

theorem conditional {c : Expr} {body : Block} {a : Alternative}
    (hc : ReadExpr Level.assignment c ts) (hbody : Phrase.Read (.block body) us)
    (ha : Phrase.Read (.alternative a) vs) :
    Phrase.Read (.conditional c body a)
      (.keyword .ifWord :: .symbol .leftParen :: (ts ++ .symbol .rightParen :: (us ++ vs))) := by
  intro k
  have hcond : (operand (.ifCondition k)).Takes (ts ++ [.symbol .rightParen])
      (blockOpen (.consequence c k)) :=
    (hc.2 (.ifCondition k) (Nat.le_refl _)).takes (by decide) rfl
  have hhead : (ParseState.conditional k).Takes
      ([.keyword .ifWord, .symbol .leftParen] ++ ((ts ++ [.symbol .rightParen]) ++ us))
      (afterConsequence c body k) :=
    .cons rfl (.cons rfl (hcond.append (hbody (.consequence c k))))
  simpa using Arrives.of_takes hhead (ha c body k)

theorem noStart : Phrase.Read (.forStart none) [] := by
  intro k
  exact .cons rfl (.nil _)

theorem startDeclare {x : String} {e : Expr} (h : ReadExpr Level.assignment e ts) :
    Phrase.Read (.forStart (some (.declare false x e)))
      (.keyword .letWord :: .name x :: .symbol .equals :: ts) := by
  intro k
  exact .cons rfl (.cons rfl (.cons rfl
    ((h.2 (.forDeclaration x k) (Nat.le_refl _)).takes (by decide) rfl)))

theorem startExpression {e : Expr} (h : ReadExpr Level.assignment e ts) :
    Phrase.Read (.forStart (some (.expression e))) ts := by
  intro k
  have htake : (operand (.forStart k)).Takes (ts ++ [.symbol .semicolon])
      (forCondition (some (.expression e)) k) :=
    (h.2 (.forStart k) (Nat.le_refl _)).takes (by decide) rfl
  exact htake.congr_start (h.1.append _) fun t ht =>
    (if_neg (ne_of_startsExpression ht)).trans (if_neg (ne_of_startsExpression ht))

theorem endStatement_semicolon (s : Statement) (k : StatementContext) :
    endStatement s k (.symbol .semicolon) = .shift (k.next s) := by
  cases k <;> rfl

theorem declare {constant : Bool} {x : String} {e : Expr} (h : ReadExpr Level.assignment e ts) :
    Phrase.Read (.form (.declare constant x e))
      (.keyword (declarationKeyword constant) :: .name x :: .symbol .equals :: ts) := by
  intro k
  have hvalue : (operand (.declaration constant x k)).Takes (ts ++ [.symbol .semicolon])
      (k.next (.declare constant x e)) :=
    (h.2 (.declaration constant x k) (Nat.le_refl _)).takes (by decide)
      (endStatement_semicolon (.declare constant x e) k)
  cases constant <;> cases k <;> exact .cons rfl (.cons rfl (.cons rfl hvalue))

theorem statement_step_fn (k : StatementContext) :
    (ParseState.statement k).step (.keyword .fnWord) = .shift (functionStatement k) := by
  cases k <;> rfl

theorem expressionStart {k : StatementContext} {c : ParseState} (hts : StartsExpression ts)
    (h : (operand (.expression k)).Takes ts c) : (ParseState.statement k).Takes ts c := by
  obtain ⟨t, us, rfl, ht, hfn⟩ := hts
  by_cases hf : t = .keyword .fnWord
  · -- a `fn` may start a declaration, so the two states agree only after the parenthesis
    subst hf
    obtain ⟨vs, rfl⟩ := hfn rfl
    cases h with
    | cons hstep h =>
      cases hstep
      exact .cons (statement_step_fn k) (h.congr_first rfl)
  · refine h.congr_first ?_
    show startStatement k t = startOperand (.expression k) t
    fun_cases startStatement k t with
    | case9 => rfl
    | case7 => exact absurd rfl hf
    | _ => exact absurd ht (by decide)

theorem expression {e : Expr} (h : ReadExpr Level.assignment e ts) :
    Phrase.Read (.form (.expression e)) ts := by
  intro k
  refine expressionStart (h.1.append _) ?_
  exact (h.2 (.expression k) (Nat.le_refl _)).takes (by decide)
    (endStatement_semicolon (.expression e) k)

theorem ifElse {c : Expr} {body : Block} {a : Alternative}
    (h : Phrase.Read (.conditional c body a) ts) (hts : ∃ us, ts = .keyword .ifWord :: us) :
    Phrase.Read (.form (.ifElse c body a)) ts := by
  intro k
  obtain ⟨us, rfl⟩ := hts
  refine ((h (.statement k)).takes (by simp) (endStatement_semicolon _ k)).congr_first ?_
  cases k <;> rfl

theorem whileLoop {c : Expr} {body : Block} (hc : ReadExpr Level.assignment c ts)
    (hbody : Phrase.Read (.block body) us) :
    Phrase.Read (.form (.whileLoop c body))
      (.keyword .whileWord :: .symbol .leftParen :: (ts ++ .symbol .rightParen :: us)) := by
  intro k
  have hcond : (operand (.whileCondition k)).Takes (ts ++ [.symbol .rightParen])
      (blockOpen (.whileBody c k)) :=
    (hc.2 (.whileCondition k) (Nat.le_refl _)).takes (by decide) rfl
  have hloop := hcond.append ((hbody (.whileBody c k)).snoc (endStatement_semicolon _ k))
  have hword : (ParseState.statement k).step (.keyword .whileWord) = .shift (whileOpen k) := by
    cases k <;> rfl
  refine .cons hword (.cons rfl ?_)
  simpa using hloop

theorem forCondition {c : Option Expr} (h : Phrase.Read (.optional c) ts)
    (start : Option Statement) (k : StatementContext) :
    (ParseState.forCondition start k).Takes (ts ++ [.symbol .semicolon])
      (.forUpdate start c k) := by
  cases c with
  | none =>
    obtain rfl : ts = [] := h
    exact .cons rfl (.nil _)
  | some c =>
    have htake : (operand (.forCondition start k)).Takes (ts ++ [.symbol .semicolon])
        (.forUpdate start (some c) k) :=
      (h.2 (.forCondition start k) (Nat.le_refl _)).takes (by decide) rfl
    exact htake.congr_start (h.1.append _) fun t ht => if_neg (ne_of_startsExpression ht)

theorem forUpdate {u : Option Expr} (h : Phrase.Read (.optional u) ts)
    (start : Option Statement) (c : Option Expr) (k : StatementContext) :
    (ParseState.forUpdate start c k).Takes (ts ++ [.symbol .rightParen])
      (blockOpen (.forBody start c u k)) := by
  cases u with
  | none =>
    obtain rfl : ts = [] := h
    exact .cons rfl (.nil _)
  | some u =>
    have htake : (operand (.forUpdate start c k)).Takes (ts ++ [.symbol .rightParen])
        (blockOpen (.forBody start c (some u) k)) :=
      (h.2 (.forUpdate start c k) (Nat.le_refl _)).takes (by decide) rfl
    exact htake.congr_start (h.1.append _) fun t ht => if_neg (ne_of_startsExpression ht)

theorem forLoop {start : Option Statement} {c u : Option Expr} {body : Block}
    (hs : Phrase.Read (.forStart start) ts) (hc : Phrase.Read (.optional c) us)
    (hu : Phrase.Read (.optional u) vs) (hbody : Phrase.Read (.block body) ws) :
    Phrase.Read (.form (.forLoop start c u body))
      (.keyword .forWord :: .symbol .leftParen ::
        (ts ++ .symbol .semicolon :: (us ++ .symbol .semicolon ::
          (vs ++ .symbol .rightParen :: ws)))) := by
  intro k
  have hheader := ((hs k).append (forCondition hc start k)).append (forUpdate hu start c k)
  have hloop := hheader.append
    ((hbody (.forBody start c u k)).snoc (endStatement_semicolon _ k))
  have hword : (ParseState.statement k).step (.keyword .forWord) = .shift (forOpen k) := by
    cases k <;> rfl
  refine .cons hword (.cons rfl ?_)
  simpa using hloop

theorem function {x : String} {xs : List String} {body : Block}
    (h : Phrase.Read (.block body) ts) :
    Phrase.Read (.form (.function x xs body))
      (.keyword .fnWord :: .name x :: (parameterTokens xs ++ ts)) := by
  intro k
  have hbody := (h (.function x xs k)).snoc (endStatement_semicolon _ k)
  refine .cons (statement_step_fn k) (.cons rfl ?_)
  simpa using (parameters (.declaration x k) xs).append hbody

theorem returning {e : Option Expr} (h : Phrase.Read (.optional e) ts) :
    Phrase.Read (.form (.returning e)) (.keyword .returnWord :: ts) := by
  intro k
  have hword : (ParseState.statement k).step (.keyword .returnWord) = .shift (returnValue k) := by
    cases k <;> rfl
  refine .cons hword ?_
  cases e with
  | none =>
    obtain rfl : ts = [] := h
    exact .cons (endStatement_semicolon _ k) (.nil _)
  | some e =>
    have htake : (operand (.returning k)).Takes (ts ++ [.symbol .semicolon])
        (k.next (.returning (some e))) :=
      (h.2 (.returning k) (Nat.le_refl _)).takes (by decide) (endStatement_semicolon _ k)
    refine htake.congr_start (h.1.append _) fun t ht => if_neg ?_
    rintro (rfl | rfl | rfl) <;> exact absurd ht (by decide)

theorem noStatement : Phrase.Read (.statements []) [] := by
  intro before k
  rw [List.append_nil]
  exact .cons rfl (.nil _)

theorem moreStatements {s : Statement} {body : Block} (hs : Phrase.Read (.statement s) ts)
    (hbody : Phrase.Read (.statements body) us) :
    Phrase.Read (.statements (s :: body)) (ts ++ us) := by
  intro before k
  have hrest := (hs (.item before k)).append (hbody (s :: before) k)
  simpa using hrest

end Phrase.Read

/-- **Every phrase of the grammar is read**, if its statements have their semicolons. -/
theorem Derives.read {phrase : Phrase} {ts : List Token}
    (h : Derives Terminator.required phrase ts) : phrase.Read ts := by
  induction h with
  | loosen _ ih => exact Phrase.Read.loosen ih
  | assign _ _ ihx ihe => exact Phrase.Read.assign ihx ihe
  | binary _ _ iha ihb => exact Phrase.Read.binary iha ihb
  | unary _ ih => exact Phrase.Read.unary ih
  | call _ _ ihf ihes => exact Phrase.Read.call ihf ihes
  | index _ _ iha ihi => exact Phrase.Read.index iha ihi
  | member _ ih => exact Phrase.Read.member ih
  | literal l => exact Phrase.Read.literal l
  | name x => exact Phrase.Read.name x
  | array _ ih => exact Phrase.Read.array ih
  | object _ ih => exact Phrase.Read.object ih
  | lambda _ ih => exact Phrase.Read.lambda ih
  | group _ ih => exact Phrase.Read.group ih
  | absent => rfl
  | present _ ih => exact ih
  | noItem => rfl
  | lastItem _ ih => exact Phrase.Read.lastItem ih
  | moreItems _ _ ihe ihes => exact Phrase.Read.moreItems ihe ihes
  | noProperty => rfl
  | lastProperty _ ih => exact Phrase.Read.lastProperty ih
  | moreProperties _ _ ihe ihps => exact Phrase.Read.moreProperties ihe ihps
  | block _ ih => exact Phrase.Read.block ih
  | noElse => exact Phrase.Read.noElse
  | otherwise hb ih =>
    cases hb
    exact Phrase.Read.otherwise ih ⟨_, rfl⟩
  | elseIf hc ih =>
    cases hc
    exact Phrase.Read.elseIf ih ⟨_, rfl⟩
  | conditional _ _ _ ihc ihb iha => exact Phrase.Read.conditional ihc ihb iha
  | noStart => exact Phrase.Read.noStart
  | startDeclare _ ih => exact Phrase.Read.startDeclare ih
  | startExpression _ ih => exact Phrase.Read.startExpression ih
  | declare _ ih => exact Phrase.Read.declare ih
  | expression _ ih => exact Phrase.Read.expression ih
  | ifElse hc ih =>
    cases hc
    exact Phrase.Read.ifElse ih ⟨_, rfl⟩
  | whileLoop _ _ ihc ihb => exact Phrase.Read.whileLoop ihc ihb
  | forLoop _ _ _ _ ihs ihc ihu ihb => exact Phrase.Read.forLoop ihs ihc ihu ihb
  | function _ ih => exact Phrase.Read.function ih
  | returning _ ih => exact Phrase.Read.returning ih
  | statement _ hends ih =>
    obtain rfl := hends
    exact ih
  | noStatement => exact Phrase.Read.noStatement
  | moreStatements _ _ ihs ihb => exact Phrase.Read.moreStatements ihs ihb

end Scriptlet
