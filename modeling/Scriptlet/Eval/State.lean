import Scriptlet.Value.Basic

/-!
# Scopes

All scopes of a running program stand in one table and are known by their place in it.  A scope
has a parent, made before it, unless it is global, and two tables of its own: the values of its
names, and those of its names that are constants.  The two are written and emptied apart; that each
constant has a value is kept by the operations (`State.ConstantsBound`), not by the type.

A name is looked up in a scope and then in its ancestors; `State.owner?` finds the scope that binds
it.  Scopes are only ever added, so a closure can keep the number of the scope it was made in.  None
is freed: a scope that nothing refers to any more can be emptied, but keeps its place.

The state also holds the lines printed so far.
-/

namespace Scriptlet

structure Scope where
  parent : Option ScopeId
  values : Fields Value
  /-- A set of names, in no particular order. -/
  constants : List String

namespace Scope

/-- A scope without a parent. -/
def global : Scope := ⟨none, [], []⟩

/-- A scope without a parent that binds names from the start, none of them as a constant.  Of
several values of a name the last one counts. -/
def globalWith (bindings : List (String × Value)) : Scope := ⟨none, Fields.ofList bindings, []⟩

/-- A new scope inside another one. -/
def child (parent : ScopeId) : Scope := ⟨some parent, [], []⟩

/-- Gives the name a value and, if it is to be a constant, adds it to the constants.  It is never
taken out of them here. -/
def write (scope : Scope) (x : String) (v : Value) (constant : Bool) : Scope :=
  { scope with
    values := scope.values.insert x v
    constants := if constant then scope.constants.insert x else scope.constants }

/-- Empties both tables. -/
def clear (scope : Scope) : Scope := { scope with values := [], constants := [] }

variable {scope : Scope} {x y : String} {v : Value} {constant : Bool}

theorem get?_write : (scope.write x v constant).values.get? y =
    if y = x then some v else scope.values.get? y :=
  Fields.get?_insert ..

theorem mem_constants_write : y ∈ (scope.write x v constant).constants ↔
    constant ∧ y = x ∨ y ∈ scope.constants := by
  cases constant <;> simp [write]

end Scope

/-- The scopes and the lines printed. -/
structure State where
  scopes : Array Scope
  output : Array String

namespace State

def empty : State := ⟨#[], #[]⟩

/-- Adds a scope; its number is the number of scopes before. -/
def addScope (s : State) (scope : Scope) : State := { s with scopes := s.scopes.push scope }

/-- The value of `x` in the scope itself. -/
def ownValue? (s : State) (id : ScopeId) (x : String) : Option Value :=
  s.scopes[id]?.bind fun scope => scope.values.get? x

/-- Whether the scope itself binds `x`. -/
def binds (s : State) (id : ScopeId) (x : String) : Bool := (s.ownValue? id x).isSome

/-- Whether `x` is among the constants of the scope itself. -/
def isConstant (s : State) (id : ScopeId) (x : String) : Bool :=
  s.scopes[id]?.any fun scope => scope.constants.contains x

/-- The scope that binds `x`, from `id` on outwards. -/
def owner? (s : State) (id : ScopeId) (x : String) : Option ScopeId :=
  match s.scopes[id]? with
  | none => none
  | some scope =>
    if (scope.values.get? x).isSome then some id
    else
      match scope.parent with
      | none => none
      | some p => if p < id then s.owner? p x else none
termination_by id

/-- The value that `x` means in a scope. -/
def value? (s : State) (id : ScopeId) (x : String) : Option Value :=
  (s.owner? id x).bind fun owner => s.ownValue? owner x

/-- Writes `x` in the scope itself. -/
def write (s : State) (id : ScopeId) (x : String) (v : Value) (constant : Bool) : State :=
  { s with scopes := s.scopes.modify id (·.write x v constant) }

/-- Removes all bindings of a scope. -/
def clearScope (s : State) (id : ScopeId) : State :=
  { s with scopes := s.scopes.modify id Scope.clear }

/-- Prints a line. -/
def print (s : State) (line : String) : State := { s with output := s.output.push line }

/-! ## Own names -/

section

variable {s : State} {id u : ScopeId} {x y : String} {v : Value} {constant : Bool} {scope : Scope}

theorem ownValue?_of_getElem? (h : s.scopes[id]? = some scope) :
    s.ownValue? id x = scope.values.get? x := by
  rw [ownValue?, h, Option.bind_some]

theorem isConstant_of_getElem? (h : s.scopes[id]? = some scope) :
    s.isConstant id x = scope.constants.contains x := by
  rw [isConstant, h, Option.any_some]

theorem ownValue?_addScope : (s.addScope scope).ownValue? u y =
    if u = s.scopes.size then scope.values.get? y else s.ownValue? u y := by
  simp only [ownValue?, addScope, Array.getElem?_push]
  split <;> rfl

theorem isConstant_addScope : (s.addScope scope).isConstant u y =
    if u = s.scopes.size then scope.constants.contains y else s.isConstant u y := by
  simp only [isConstant, addScope, Array.getElem?_push]
  split <;> rfl

theorem getElem?_write_self (h : s.scopes[id]? = some scope) :
    (s.write id x v constant).scopes[id]? = some (scope.write x v constant) := by
  simp only [write, Array.getElem?_modify, h, if_pos, Option.map_some]

theorem getElem?_write_ne (h : u ≠ id ∨ s.scopes.size ≤ id) :
    (s.write id x v constant).scopes[u]? = s.scopes[u]? := by
  simp only [write, Array.getElem?_modify]
  split
  · next hid =>
    subst hid
    rw [Array.getElem?_eq_none (h.resolve_left (absurd rfl))]
    rfl
  · rfl

/-- Writing a name changes its value in that scope, and no other value. -/
theorem ownValue?_write : (s.write id x v constant).ownValue? u y =
    if u = id ∧ y = x ∧ id < s.scopes.size then some v else s.ownValue? u y := by
  by_cases h : u = id ∧ id < s.scopes.size
  · obtain ⟨rfl, hlt⟩ := h
    have hscope := Array.getElem?_eq_getElem hlt
    rw [ownValue?_of_getElem? (getElem?_write_self hscope), ownValue?_of_getElem? hscope,
      Scope.get?_write]
    simp [hlt]
  · have hne : u ≠ id ∨ s.scopes.size ≤ id :=
      (Classical.not_and_iff_not_or_not.mp h).imp_right Nat.le_of_not_lt
    rw [ownValue?, getElem?_write_ne hne, ← ownValue?, if_neg fun hu => h ⟨hu.1, hu.2.2⟩]

/-- A name becomes a constant by being written as one. -/
theorem isConstant_write : (s.write id x v constant).isConstant u y ↔
    constant ∧ u = id ∧ y = x ∧ id < s.scopes.size ∨ s.isConstant u y := by
  by_cases h : u = id ∧ id < s.scopes.size
  · obtain ⟨rfl, hlt⟩ := h
    have hscope := Array.getElem?_eq_getElem hlt
    rw [isConstant_of_getElem? (getElem?_write_self hscope), isConstant_of_getElem? hscope,
      List.contains_iff_mem, List.contains_iff_mem, Scope.mem_constants_write]
    simp [hlt]
  · have hne : u ≠ id ∨ s.scopes.size ≤ id :=
      (Classical.not_and_iff_not_or_not.mp h).imp_right Nat.le_of_not_lt
    rw [isConstant, getElem?_write_ne hne, ← isConstant]
    exact ⟨Or.inr, fun hu => hu.resolve_left fun hw => h ⟨hw.2.1, hw.2.2.2⟩⟩

theorem getElem?_clearScope_ne (h : u ≠ id) : (s.clearScope id).scopes[u]? = s.scopes[u]? := by
  simp only [clearScope, Array.getElem?_modify, if_neg h.symm]

theorem ownValue?_clearScope :
    (s.clearScope id).ownValue? u y = if u = id then none else s.ownValue? u y := by
  by_cases h : u = id
  · subst h
    cases hu : s.scopes[u]? <;>
      simp [ownValue?, clearScope, Array.getElem?_modify, hu, Fields.get?, Scope.clear]
  · rw [if_neg h, ownValue?, ownValue?, getElem?_clearScope_ne h]

theorem isConstant_clearScope :
    (s.clearScope id).isConstant u y ↔ u ≠ id ∧ s.isConstant u y := by
  by_cases h : u = id
  · subst h
    cases hu : s.scopes[u]? <;>
      simp [isConstant, clearScope, Array.getElem?_modify, hu, Scope.clear]
  · rw [isConstant, getElem?_clearScope_ne h, ← isConstant]
    exact (and_iff_right h).symm

end

/-! ## Sessions -/

/-- The global scope of a new session. -/
def globalId : ScopeId := 0

/-- The state of a new session: a global scope that binds the builtin functions. -/
def initial : State :=
  empty.addScope (.globalWith (Builtin.all.map fun b => (b.name, .builtin b)))

end State

end Scriptlet
