import Scriptlet.Eval.State

/-!
# Well-scoped programs

A program is well scoped if it can be seen from its text that every name it uses will be there and
that no scope will bind a name twice.

* A name may be used after the statement that declares it, in the rest of that list of statements
  and in everything inside that rest; in a function, the parameters may be used, and in the body of
  a declared function its own name; in the condition, update and body of a `for`, the name that its
  start declares.  The builtin functions may be used everywhere.
* A list of statements declares a name once at most, the outermost one declares no name of a builtin
  function, and the parameters of a function differ.

The judgement is a recursion over the tree with the names that may be used (`Expr.Scoped`,
`Statement.Scoped`); it does not look at values, so a use that is never reached counts as well.
-/

namespace Scriptlet

namespace Statement

/-- The names that a statement declares in the list it stands in. -/
def declares : Statement → List String
  | .declare _ x _ => [x]
  | .function x _ _ => [x]
  | _ => []

/-- The names that a `for` declares for its condition, update and body. -/
def startDeclares : Option Statement → List String
  | none => []
  | some st => st.declares

/-- The names that a list of statements declares. -/
def allDeclare (body : Block) : List String := body.flatMap declares

end Statement

mutual

def Expr.Scoped (names : List String) : Expr → Prop
  | .literal _ => True
  | .name x => x ∈ names
  | .binary _ a b => a.Scoped names ∧ b.Scoped names
  | .unary _ e => e.Scoped names
  | .call f es => f.Scoped names ∧ Expr.AllScoped names es
  | .member a _ => a.Scoped names
  | .index a i => a.Scoped names ∧ i.Scoped names
  | .assign x e => x ∈ names ∧ e.Scoped names
  | .array es => Expr.AllScoped names es
  | .object ps => Expr.PropertiesScoped names ps
  | .function parameters body =>
    parameters.Nodup ∧ Statement.AllScoped (parameters ++ names) body
termination_by structural e => e

def Expr.AllScoped (names : List String) : List Expr → Prop
  | [] => True
  | e :: es => e.Scoped names ∧ Expr.AllScoped names es
termination_by structural es => es

def Expr.PropertyScoped (names : List String) : String × Expr → Prop
  | (_, e) => e.Scoped names
termination_by structural p => p

def Expr.PropertiesScoped (names : List String) : List (String × Expr) → Prop
  | [] => True
  | p :: ps => Expr.PropertyScoped names p ∧ Expr.PropertiesScoped names ps
termination_by structural ps => ps

def Expr.OptionScoped (names : List String) : Option Expr → Prop
  | none => True
  | some e => e.Scoped names
termination_by structural e => e

def Statement.Scoped (names : List String) : Statement → Prop
  | .declare _ _ e => e.Scoped names
  | .expression e => e.Scoped names
  | .block body => Statement.AllScoped names body
  | .ifElse c body a => c.Scoped names ∧ Statement.AllScoped names body ∧ a.Scoped names
  | .whileLoop c body => c.Scoped names ∧ Statement.AllScoped names body
  | .forLoop start c u body =>
    Statement.StartScoped names start ∧
      Expr.OptionScoped (Statement.startDeclares start ++ names) c ∧
      Expr.OptionScoped (Statement.startDeclares start ++ names) u ∧
      Statement.AllScoped (Statement.startDeclares start ++ names) body
  -- A declared function may call itself.
  | .function f parameters body =>
    parameters.Nodup ∧ Statement.AllScoped (parameters ++ f :: names) body
  | .returning e => Expr.OptionScoped names e
termination_by structural st => st

/-- A `for` starts with a `let`, an expression or nothing. -/
def Statement.StartScoped (names : List String) : Option Statement → Prop
  | none => True
  | some (.declare false _ e) => e.Scoped names
  | some (.expression e) => e.Scoped names
  | some _ => False
termination_by structural st => st

def Alternative.Scoped (names : List String) : Alternative → Prop
  | .absent => True
  | .block body => Statement.AllScoped names body
  | .elseIf c body a => c.Scoped names ∧ Statement.AllScoped names body ∧ a.Scoped names
termination_by structural a => a

/-- Each statement may use what stands before it, and declares nothing that the rest declares. -/
def Statement.AllScoped (names : List String) : List Statement → Prop
  | [] => True
  | st :: rest =>
    st.Scoped names ∧ (∀ x ∈ st.declares, x ∉ Statement.allDeclare rest) ∧
      Statement.AllScoped (st.declares ++ names) rest
termination_by structural body => body

end

/-- The names that every program may use. -/
def Builtin.names : List String := Builtin.all.map Builtin.name

/-- A program is well scoped and leaves the names of the builtin functions alone. -/
def WellScoped (program : Block) : Prop :=
  Statement.AllScoped Builtin.names program ∧
    ∀ x ∈ Statement.allDeclare program, x ∉ Builtin.names

theorem Expr.OptionScoped.of_eq_some {names : List String} {item : Option Expr} {e : Expr}
    (h : Expr.OptionScoped names item) (he : item = some e) : e.Scoped names := by
  subst he
  exact h

theorem Statement.StartScoped.of_eq_some {names : List String} {start : Option Statement}
    {st : Statement} (h : Statement.StartScoped names start) (hst : start = some st) :
    st.Scoped names := by
  subst hst
  cases st with
  | declare constant x e =>
    cases constant with
    | false => exact h
    | true => exact h.elim
  | expression e => exact h
  | block | ifElse | whileLoop | forLoop | function | returning => exact h.elim

theorem Expr.PropertiesScoped.values {names : List String} {ps : List (String × Expr)}
    (h : Expr.PropertiesScoped names ps) : Expr.AllScoped names (ps.map Prod.snd) := by
  induction ps with
  | nil => trivial
  | cons p ps ih =>
    obtain ⟨key, e⟩ := p
    exact ⟨h.1, ih h.2⟩

end Scriptlet
