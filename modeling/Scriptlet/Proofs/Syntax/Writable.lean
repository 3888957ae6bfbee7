import Scriptlet.Proofs.Syntax.Grip

/-!
# Trees that can be written

A tree can be written in the language unless it holds a block that stands by itself as a statement,
or a `for` that starts with something else than a `let` or an expression (`Writable`).  With
parentheses around every expression that is not primary, the rules of the grammar spell any other
tree, whatever its names and literals are (`Statement.AllWritable.written`).
-/

namespace Scriptlet

/-! ### Trees without blocks as statements -/

mutual

def Expr.Writable : Expr → Prop
  | .literal _ => True
  | .name _ => True
  | .binary _ a b => a.Writable ∧ b.Writable
  | .unary _ e => e.Writable
  | .call f es => f.Writable ∧ Expr.AllWritable es
  | .member a _ => a.Writable
  | .index a i => a.Writable ∧ i.Writable
  | .assign _ e => e.Writable
  | .array es => Expr.AllWritable es
  | .object ps => Expr.PropertiesWritable ps
  | .function _ body => Statement.AllWritable body
termination_by structural e => e

def Expr.AllWritable : List Expr → Prop
  | [] => True
  | e :: es => e.Writable ∧ Expr.AllWritable es
termination_by structural es => es

def Expr.PropertyWritable : String × Expr → Prop
  | (_, e) => e.Writable
termination_by structural p => p

def Expr.PropertiesWritable : List (String × Expr) → Prop
  | [] => True
  | p :: ps => Expr.PropertyWritable p ∧ Expr.PropertiesWritable ps
termination_by structural ps => ps

def Expr.OptionWritable : Option Expr → Prop
  | none => True
  | some e => e.Writable
termination_by structural e => e

def Statement.Writable : Statement → Prop
  | .declare _ _ e => e.Writable
  | .expression e => e.Writable
  | .block _ => False
  | .ifElse c body a => c.Writable ∧ Statement.AllWritable body ∧ a.Writable
  | .whileLoop c body => c.Writable ∧ Statement.AllWritable body
  | .forLoop start c u body =>
    Statement.StartWritable start ∧ Expr.OptionWritable c ∧ Expr.OptionWritable u ∧
      Statement.AllWritable body
  | .function _ _ body => Statement.AllWritable body
  | .returning e => Expr.OptionWritable e
termination_by structural s => s

/-- A `for` starts with a `let`, an expression or nothing. -/
def Statement.StartWritable : Option Statement → Prop
  | none => True
  | some (.declare false _ e) => e.Writable
  | some (.expression e) => e.Writable
  | some _ => False
termination_by structural s => s

def Alternative.Writable : Alternative → Prop
  | .absent => True
  | .block body => Statement.AllWritable body
  | .elseIf c body a => c.Writable ∧ Statement.AllWritable body ∧ a.Writable
termination_by structural a => a

def Statement.AllWritable : List Statement → Prop
  | [] => True
  | s :: body => s.Writable ∧ Statement.AllWritable body
termination_by structural body => body

end

/-! ### Their written forms -/

/-- The tree has a written form in which all statements have their semicolons. -/
def Written (phrase : Phrase) : Prop := ∃ ts, Derives Terminator.required phrase ts

/-- In parentheses an expression may stand anywhere. -/
theorem Written.primary {e : Expr} (h : Written (.expr Level.assignment e)) :
    Written (.expr Level.primary e) := by
  obtain ⟨ts, h⟩ := h
  exact ⟨_, .group h⟩

theorem Written.loosen {m n : Level} {e : Expr} (hmn : m ≤ n) (h : Written (.expr n e)) :
    Written (.expr m e) := by
  obtain ⟨ts, h⟩ := h
  exact ⟨ts, h.loosen_le hmn⟩

/-- Any level will do, with parentheses if need be. -/
theorem Written.level {e : Expr} (h : Written (.expr Level.assignment e)) (n : Level)
    (hn : n ≤ Level.primary := by decide) : Written (.expr n e) :=
  h.primary.loosen hn

mutual

theorem Expr.Writable.written : ∀ {e : Expr}, e.Writable → Written (.expr Level.assignment e)
  | .literal l, _ => Written.loosen (by decide) ⟨_, .literal l⟩
  | .name x, _ => Written.loosen (by decide) ⟨_, .name x⟩
  | .binary op a b, h => by
    obtain ⟨ts, ha⟩ := (Expr.Writable.written h.1).level op.level
      (Nat.le_trans (Nat.le_of_lt op.level_lt) (by decide))
    obtain ⟨us, hb⟩ := (Expr.Writable.written h.2).level (op.level + 1)
      (Nat.le_trans (Nat.succ_le_of_lt op.level_lt) (by decide))
    exact Written.loosen (Nat.zero_le _) ⟨_, .binary ha hb⟩
  | .unary op e, h => by
    obtain ⟨ts, he⟩ := (Expr.Writable.written (e := e) h).level Level.unary
    exact Written.loosen (by decide) ⟨_, .unary he⟩
  | .call f es, h => by
    obtain ⟨ts, hf⟩ := (Expr.Writable.written h.1).level Level.suffix
    obtain ⟨us, hes⟩ := Expr.AllWritable.written h.2
    exact Written.loosen (by decide) ⟨_, .call hf hes⟩
  | .member a x, h => by
    obtain ⟨ts, ha⟩ := (Expr.Writable.written (e := a) h).level Level.suffix
    exact Written.loosen (by decide) ⟨_, .member ha⟩
  | .index a i, h => by
    obtain ⟨ts, ha⟩ := (Expr.Writable.written h.1).level Level.suffix
    obtain ⟨us, hi⟩ := Expr.Writable.written h.2
    exact Written.loosen (by decide) ⟨_, .index ha hi⟩
  | .assign x e, h => by
    obtain ⟨ts, he⟩ := Expr.Writable.written (e := e) h
    exact ⟨_, .assign ((Derives.name x).loosen_le (by decide)) he⟩
  | .array es, h => by
    obtain ⟨ts, hes⟩ := Expr.AllWritable.written (l := es) h
    exact Written.loosen (by decide) ⟨_, .array hes⟩
  | .object ps, h => by
    obtain ⟨ts, hps⟩ := Expr.PropertiesWritable.written (l := ps) h
    exact Written.loosen (by decide) ⟨_, .object hps⟩
  | .function xs body, h => by
    obtain ⟨ts, hbody⟩ := Statement.AllWritable.written (b := body) h
    exact Written.loosen (by decide) ⟨_, .lambda (.block hbody)⟩

theorem Expr.AllWritable.written : ∀ {l : List Expr}, Expr.AllWritable l → Written (.list l)
  | [], _ => ⟨_, .noItem⟩
  | [e], h => by
    obtain ⟨ts, he⟩ := Expr.Writable.written h.1
    exact ⟨_, .lastItem he⟩
  | e :: f :: es, h => by
    obtain ⟨ts, he⟩ := Expr.Writable.written h.1
    obtain ⟨us, hes⟩ := Expr.AllWritable.written h.2
    exact ⟨_, .moreItems he hes⟩

theorem Expr.PropertiesWritable.written :
    ∀ {l : List (String × Expr)}, Expr.PropertiesWritable l → Written (.properties l)
  | [], _ => ⟨_, .noProperty⟩
  | [(key, e)], h => by
    obtain ⟨ts, he⟩ := Expr.Writable.written (e := e) h.1
    exact ⟨_, .lastProperty he⟩
  | (key, e) :: q :: ps, h => by
    obtain ⟨ts, he⟩ := Expr.Writable.written (e := e) h.1
    obtain ⟨us, hps⟩ := Expr.PropertiesWritable.written h.2
    exact ⟨_, .moreProperties he hps⟩

theorem Expr.OptionWritable.written :
    ∀ {e : Option Expr}, Expr.OptionWritable e → Written (.optional e)
  | none, _ => ⟨_, .absent⟩
  | some e, h => by
    obtain ⟨ts, he⟩ := Expr.Writable.written (e := e) h
    exact ⟨_, .present he⟩

theorem Statement.Writable.written : ∀ {s : Statement}, s.Writable → Written (.form s)
  | .declare constant x e, h => by
    obtain ⟨ts, he⟩ := Expr.Writable.written (e := e) h
    exact ⟨_, .declare he⟩
  | .expression e, h => by
    obtain ⟨ts, he⟩ := Expr.Writable.written (e := e) h
    exact ⟨_, .expression he⟩
  | .block _, h => h.elim
  | .ifElse c body a, h => by
    obtain ⟨ts, hc⟩ := Expr.Writable.written h.1
    obtain ⟨us, hbody⟩ := Statement.AllWritable.written h.2.1
    obtain ⟨vs, ha⟩ := Alternative.Writable.written h.2.2
    exact ⟨_, .ifElse (.conditional hc (.block hbody) ha)⟩
  | .whileLoop c body, h => by
    obtain ⟨ts, hc⟩ := Expr.Writable.written h.1
    obtain ⟨us, hbody⟩ := Statement.AllWritable.written h.2
    exact ⟨_, .whileLoop hc (.block hbody)⟩
  | .forLoop start c u body, h => by
    obtain ⟨ts, hs⟩ := Statement.StartWritable.written h.1
    obtain ⟨us, hc⟩ := Expr.OptionWritable.written h.2.1
    obtain ⟨vs, hu⟩ := Expr.OptionWritable.written h.2.2.1
    obtain ⟨ws, hbody⟩ := Statement.AllWritable.written h.2.2.2
    exact ⟨_, .forLoop hs hc hu (.block hbody)⟩
  | .function x xs body, h => by
    obtain ⟨ts, hbody⟩ := Statement.AllWritable.written (b := body) h
    exact ⟨_, .function (.block hbody)⟩
  | .returning e, h => by
    obtain ⟨ts, he⟩ := Expr.OptionWritable.written (e := e) h
    exact ⟨_, .returning he⟩

theorem Statement.StartWritable.written :
    ∀ {s : Option Statement}, Statement.StartWritable s → Written (.forStart s)
  | none, _ => ⟨_, .noStart⟩
  | some (.declare false x e), h => by
    obtain ⟨ts, he⟩ := Expr.Writable.written (e := e) h
    exact ⟨_, .startDeclare he⟩
  | some (.expression e), h => by
    obtain ⟨ts, he⟩ := Expr.Writable.written (e := e) h
    exact ⟨_, .startExpression he⟩

theorem Alternative.Writable.written : ∀ {a : Alternative}, a.Writable → Written (.alternative a)
  | .absent, _ => ⟨_, .noElse⟩
  | .block body, h => by
    obtain ⟨ts, hbody⟩ := Statement.AllWritable.written (b := body) h
    exact ⟨_, .otherwise (.block hbody)⟩
  | .elseIf c body a, h => by
    obtain ⟨ts, hc⟩ := Expr.Writable.written h.1
    obtain ⟨us, hbody⟩ := Statement.AllWritable.written h.2.1
    obtain ⟨vs, ha⟩ := Alternative.Writable.written h.2.2
    exact ⟨_, .elseIf (.conditional hc (.block hbody) ha)⟩

/-- **Every program that can be written has a written form.** -/
theorem Statement.AllWritable.written :
    ∀ {b : List Statement}, Statement.AllWritable b → Written (.statements b)
  | [], _ => ⟨_, .noStatement⟩
  | s :: b, h => by
    obtain ⟨ts, hs⟩ := Statement.Writable.written h.1
    obtain ⟨us, hb⟩ := Statement.AllWritable.written h.2
    exact ⟨_, .moreStatements (.statement hs rfl) hb⟩

end

end Scriptlet
