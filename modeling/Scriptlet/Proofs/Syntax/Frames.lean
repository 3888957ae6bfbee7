import Scriptlet.Proofs.Syntax.Completeness

/-!
# The brackets that stand open

The contexts of a reading state say which brackets were opened and not yet closed:
`ParseState.frames` lists them, innermost first.  A brace is listed with what it belongs to, the
context of an object or of a block, since that decides where reading goes on behind its `}`
(`Frame.ClosedBy`).

One step keeps this account: an opening bracket adds a frame, a closing one is taken only if it
belongs to the innermost frame and removes it, no other token changes the frames, and a goal is only
reached with no frame open (`ParseState.step_framed`).  So the braces that a count over the taken
tokens leaves open are those of the frames (`ParseState.Takes.openBraces_eq`).
-/

namespace Scriptlet

/-- A bracket that stands open. -/
inductive Frame where
  | paren
  | bracket
  | object (k : ExprContext)
  | block (k : BlockContext)

namespace Frame

def isBrace : Frame → Bool
  | .object _ | .block _ => true
  | .paren | .bracket => false

/-- The state is one behind the `}` that closes the frame. -/
def ClosedBy : Frame → ParseState → Prop
  | .object k, b => ∃ ps, b = .complete (.object ps) k
  | .block k, b => ∃ body, b = ParseState.closeBlock body k
  | .paren, _ | .bracket, _ => False

theorem ClosedBy.isBrace {f : Frame} {b : ParseState} (h : f.ClosedBy b) : f.isBrace := by
  cases f with
  | object k | block k => rfl
  | paren | bracket => cases h

end Frame

/-! ### Frames of contexts -/

mutual

/-- The brackets open around an expression. -/
def ExprContext.frames : ExprContext → List Frame
  | .goal _ => []
  | .unary _ k | .binary _ _ k | .assign _ k => k.frames
  | .group k | .argument _ _ k => .paren :: k.frames
  | .index _ k | .element _ k => .bracket :: k.frames
  | .property _ _ k => .object k :: k.frames
  | .declaration _ _ k | .expression k | .returning k => k.frames
  | .ifCondition k => .paren :: k.frames
  | .whileCondition k | .forDeclaration _ k | .forStart k | .forCondition _ k
  | .forUpdate _ _ k => .paren :: k.frames

/-- The brackets open around a statement. -/
def StatementContext.frames : StatementContext → List Frame
  | .goal => []
  | .item _ k => .block k :: k.frames

/-- The brackets open around a block. -/
def BlockContext.frames : BlockContext → List Frame
  | .goal => []
  | .consequence _ k | .alternative _ _ k => k.frames
  | .whileBody _ k | .forBody _ _ _ k | .function _ _ k => k.frames
  | .lambda _ k => k.frames

/-- The brackets open around an `if`. -/
def ConditionalContext.frames : ConditionalContext → List Frame
  | .goal => []
  | .statement k => k.frames
  | .elseIf _ _ k => k.frames

end

def FunctionContext.frames : FunctionContext → List Frame
  | .declaration _ k => k.frames
  | .lambda k => k.frames

def DeclarationContext.frames : DeclarationContext → List Frame
  | .statement _ k => k.frames
  | .forStart k => .paren :: k.frames

theorem FunctionContext.frames_body (parameters : List String) (k : FunctionContext) :
    (k.body parameters).frames = k.frames := by
  cases k <;> rw [body, BlockContext.frames, frames]

theorem DeclarationContext.frames_value (x : String) (k : DeclarationContext) :
    (k.value x).frames = k.frames := by
  cases k <;> rw [value, ExprContext.frames, frames]

namespace ParseState

/-- The brackets open in a state, innermost first. -/
def frames : ParseState → List Frame
  | .operand k | .complete _ k | .memberName _ k => k.frames
  | .firstArgument _ k => .paren :: k.frames
  | .firstElement k => .bracket :: k.frames
  | .firstKey k | .nextKey _ k | .colon _ _ k => .object k :: k.frames
  | .parametersOpen k => k.frames
  | .firstParameter k | .nextParameter _ k | .parameterEnd _ k => .paren :: k.frames
  | .statement k | .functionStatement k | .returnValue k | .ended _ k => k.frames
  | .declaredName k | .declaredEquals _ k => k.frames
  | .conditional k | .ifOpen k | .afterConsequence _ _ k | .afterElse _ _ k
  | .concluded _ _ _ k => k.frames
  | .whileOpen k | .forOpen k => k.frames
  | .forStart k | .forCondition _ k | .forUpdate _ _ k => .paren :: k.frames
  | .blockOpen k => k.frames
  | .finished _ => []

theorem frames_closeBlock (body : Block) (k : BlockContext) :
    (closeBlock body k).frames = k.frames := by
  cases k <;> simp only [closeBlock, frames, BlockContext.frames]

end ParseState

/-! ### One token -/

/-- What taking the token makes of the open brackets. -/
def Token.Reframes (t : Token) (fs : List Frame) (next : ParseState) : Prop :=
  match t with
  | .symbol .leftParen => next.frames = .paren :: fs
  | .symbol .leftBracket => next.frames = .bracket :: fs
  | .symbol .leftBrace => ∃ f : Frame, f.isBrace ∧ next.frames = f :: fs
  | .symbol .rightParen => fs = .paren :: next.frames
  | .symbol .rightBracket => fs = .bracket :: next.frames
  | .symbol .rightBrace => ∃ f : Frame, f.ClosedBy next ∧ fs = f :: next.frames
  | _ => next.frames = fs

/-- The move keeps the account of the open brackets. -/
def Move.Framed (fs : List Frame) (t : Token) : Move → Prop
  | .shift next => t.Reframes fs next
  | .done _ => fs = []
  | .fail _ => True

namespace ParseState

variable {fs : List Frame} {t : Token}

theorem expect_framed {s : Symbol} {next : ParseState} (h : (Token.symbol s).Reframes fs next) :
    (expect s next t).Framed fs t := by
  rw [expect]
  split
  · next ht =>
    subst ht
    exact h
  · trivial

theorem separator_framed {closing : Symbol} {more last : ParseState} (hmore : more.frames = fs)
    (hlast : (Token.symbol closing).Reframes fs last) :
    (separator closing more last t).Framed fs t := by
  rw [separator]
  split
  · next ht =>
    subst ht
    exact hmore
  · split
    · next ht =>
      subst ht
      exact hlast
    · trivial

theorem identifier_framed {next : String → ParseState} (h : ∀ x, (next x).frames = fs) :
    (identifier next t).Framed fs t := by
  cases t with
  | name x => exact h x
  | _ => trivial

theorem startOperand_framed (k : ExprContext) (t : Token) :
    (startOperand k t).Framed k.frames t := by
  fun_cases startOperand k t with
  | case9 => exact ⟨.object k, rfl, rfl⟩
  | case11 t _ _ _ _ _ _ _ _ _ _ op hop =>
    obtain rfl := UnaryOp.symbol_of_ofToken? hop
    cases op <;> simp [Move.Framed, Token.Reframes, UnaryOp.symbol, frames, ExprContext.frames]
  | case12 | case13 => trivial
  | _ =>
    simp [Move.Framed, Token.Reframes, frames, ExprContext.frames, FunctionContext.frames]

theorem extend?_framed {e : Expr} {k : ExprContext} {next : ParseState}
    (h : extend? e k t = some next) : t.Reframes k.frames next := by
  revert h
  fun_cases extend? e k t with
  | case1 | case3 | case5 | case7 =>
    intro h
    cases h
    rfl
  | case10 e t _ _ _ _ op hop =>
    intro h
    cases h
    obtain rfl := BinaryOp.symbol_of_ofToken? hop
    cases op <;> rfl
  | _ => simp

theorem startStatement_framed (k : StatementContext) (t : Token) :
    (startStatement k t).Framed k.frames t := by
  fun_cases startStatement k t with
  | case1 before outer =>
    refine ⟨.block outer, ⟨before.reverse, rfl⟩, ?_⟩
    rw [frames_closeBlock, StatementContext.frames]
  | case9 => exact startOperand_framed (.expression k) t
  | _ => rfl

theorem endStatement_framed (s : Statement) (k : StatementContext) (t : Token) :
    (endStatement s k t).Framed k.frames t := by
  cases k with
  | goal =>
    rw [endStatement]
    split
    · next ht =>
      subst ht
      rfl
    · rfl
  | item before outer =>
    rw [endStatement]
    split
    · next ht =>
      subst ht
      rfl
    · exact startStatement_framed (.item (s :: before) outer) t

theorem conclude_framed (c : Expr) (body : Block) (a : Alternative) (k : ConditionalContext)
    (t : Token) : (conclude c body a k t).Framed k.frames t := by
  fun_induction conclude c body a k t with
  | case1 => rfl
  | case2 => exact endStatement_framed _ _ _
  | case3 _ _ _ _ _ _ ih => exact ih

theorem close_framed (e : Expr) (k : ExprContext) (t : Token) :
    (close e k t).Framed k.frames t := by
  fun_induction close e k t with
  | case1 k e next hnext => exact extend?_framed hnext
  | case2 => rfl
  | case3 _ _ _ _ ih | case5 _ _ _ _ ih => exact ih
  | case4 _ _ _ _ _ ih => exact ih
  | case6 | case8 | case14 | case15 | case16 | case17 | case18 | case19 => exact expect_framed rfl
  | case7 | case9 => exact separator_framed rfl rfl
  | case10 e before key k => exact separator_framed rfl ⟨.object k, ⟨_, rfl⟩, rfl⟩
  | case11 | case12 | case13 => exact endStatement_framed _ _ _

/-- **A step of the reader keeps the account of the open brackets.** -/
theorem step_framed (a : ParseState) (t : Token) : (a.step t).Framed a.frames t := by
  cases a with
  | operand k => exact startOperand_framed k t
  | complete e k => exact close_framed e k t
  | firstArgument f k =>
    rw [step]
    split
    · next ht =>
      subst ht
      rfl
    · exact startOperand_framed (.argument f [] k) t
  | firstElement k =>
    rw [step]
    split
    · next ht =>
      subst ht
      rfl
    · exact startOperand_framed (.element [] k) t
  | firstKey k =>
    rw [step]
    split
    · next ht =>
      subst ht
      exact ⟨.object k, ⟨_, rfl⟩, rfl⟩
    · exact identifier_framed fun x => rfl
  | nextKey | memberName | nextParameter | declaredName => exact identifier_framed fun x => rfl
  | colon | parametersOpen | ifOpen | whileOpen | forOpen => exact expect_framed rfl
  | firstParameter k =>
    rw [step]
    split
    · next ht =>
      subst ht
      exact congrArg _ (k.frames_body []).symm
    · exact identifier_framed fun x => rfl
  | parameterEnd before k =>
    exact separator_framed rfl (congrArg _ (k.frames_body before.reverse).symm)
  | statement k => exact startStatement_framed k t
  | functionStatement k =>
    cases t with
    | name x => rfl
    | _ => exact expect_framed rfl
  | returnValue k =>
    rw [step]
    split
    · exact endStatement_framed _ k t
    · exact startOperand_framed (.returning k) t
  | ended s k => exact endStatement_framed s k t
  | declaredEquals x k => exact expect_framed (k.frames_value x)
  | conditional k =>
    rw [step]
    split
    · next ht =>
      subst ht
      rfl
    · trivial
  | afterConsequence c body k =>
    rw [step]
    split
    · next ht =>
      subst ht
      rfl
    · exact conclude_framed c body .absent k t
  | afterElse c body k =>
    rw [step]
    split
    · next ht =>
      subst ht
      rfl
    · exact expect_framed ⟨.block (.alternative c body k), rfl, rfl⟩
  | concluded c body a k => exact conclude_framed c body a k t
  | forStart k =>
    rw [step]
    split
    · next ht =>
      subst ht
      rfl
    · split
      · next ht =>
        subst ht
        rfl
      · exact startOperand_framed (.forStart k) t
  | forCondition start k =>
    rw [step]
    split
    · next ht =>
      subst ht
      rfl
    · exact startOperand_framed (.forCondition start k) t
  | forUpdate start c k =>
    rw [step]
    split
    · next ht =>
      subst ht
      rfl
    · exact startOperand_framed (.forUpdate start c k) t
  | blockOpen k => exact expect_framed ⟨.block k, rfl, rfl⟩
  | finished s => rfl

/-- The token that a state takes changes the open brackets. -/
theorem step_reframes {a b : ParseState} (h : a.step t = .shift b) : t.Reframes a.frames b := by
  have hframed := step_framed a t
  rwa [h] at hframed

/-- A goal is reached with no bracket open. -/
theorem frames_of_done {a : ParseState} {s : Statement} (h : a.step t = .done s) :
    a.frames = [] := by
  have hframed := step_framed a t
  rwa [h] at hframed

end ParseState

/-! ### Counting braces -/

/-- The number of open braces among the frames. -/
def braceCount (fs : List Frame) : Nat := fs.countP Frame.isBrace

theorem braceCount_cons_brace {f : Frame} (hf : f.isBrace) (fs : List Frame) :
    braceCount (f :: fs) = braceCount fs + 1 :=
  List.countP_cons_of_pos hf

/-- The number of braces open after a token. -/
def Token.depthAfter (t : Token) (depth : Nat) : Nat :=
  match t with
  | .symbol .leftBrace => depth + 1
  | .symbol .rightBrace => depth - 1
  | _ => depth

theorem openBraces_eq_foldl (ts : List Located) :
    openBraces ts = (ts.map Located.token).foldl (fun depth t => t.depthAfter depth) 0 := by
  rw [List.foldl_map]
  rfl

theorem Token.Reframes.braceCount_eq {t : Token} {fs : List Frame} {b : ParseState}
    (h : t.Reframes fs b) : t.depthAfter (braceCount fs) = braceCount b.frames := by
  unfold Token.Reframes at h
  split at h
  · rw [h]
    rfl
  · rw [h]
    rfl
  · obtain ⟨f, hf, hframes⟩ := h
    rw [hframes, braceCount_cons_brace hf]
    rfl
  · rw [h]
    rfl
  · rw [h]
    rfl
  · obtain ⟨f, hf, rfl⟩ := h
    rw [braceCount_cons_brace hf.isBrace]
    rfl
  · rw [h, Token.depthAfter] <;> assumption

namespace ParseState

theorem Takes.foldl_depthAfter {a b : ParseState} {ts : List Token} (h : Takes a ts b) :
    ts.foldl (fun depth t => t.depthAfter depth) (braceCount a.frames) = braceCount b.frames := by
  induction h with
  | nil => rfl
  | cons hstep _ ih => rw [List.foldl_cons, (step_reframes hstep).braceCount_eq, ih]

/-- **The braces left open by tokens are those of the frames**, if none was open before them. -/
theorem Takes.openBraces_eq {a b : ParseState} {taken : List Located}
    (h : Takes a (taken.map Located.token) b) (ha : a.frames = []) :
    openBraces taken = braceCount b.frames := by
  rw [openBraces_eq_foldl, ← h.foldl_depthAfter, ha]
  rfl

end ParseState

end Scriptlet
