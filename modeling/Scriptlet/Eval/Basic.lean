import Scriptlet.Eval.Builtin
import Scriptlet.Eval.Operator
import Scriptlet.Eval.State

/-!
# Running

A run reads and changes the `State` and ends in a value, in a fault, or without an answer because
its fuel was used up.  A fault keeps the state reached: what was printed and assigned before it
stays.  This file has the steps that touch the state: reading, defining and assigning names,
entering scopes, and printing.
-/

namespace Scriptlet

/-- Why a run ended without a value. -/
inductive Halt where
  | fault (f : Fault)
  | outOfFuel
  deriving DecidableEq

namespace Halt

def message : Halt → String
  | .fault f => f.message
  | .outOfFuel => "Out of fuel"

end Halt

/-- A computation on the state that may halt. -/
abbrev Eval := EStateM Halt State

namespace Eval

variable {α : Type}

def fault (f : Fault) : Eval α := throw (.fault f)

def ofExcept : Except Fault α → Eval α
  | .ok a => pure a
  | .error f => fault f

/-- The value of a name in a scope. -/
def read (id : ScopeId) (x : String) : Eval Value := fun s =>
  match s.value? id x with
  | some v => .ok v s
  | none => .error (.fault (.undefinedVariable x)) s

/-- Binds a name that the scope itself does not bind yet. -/
def define (id : ScopeId) (x : String) (v : Value) (constant : Bool) : Eval Unit := fun s =>
  if s.binds id x then .error (.fault (.duplicateDefinition x)) s
  else .ok () (s.write id x v constant)

/-- Changes the value of a name in the scope that binds it.  The constants of the scope stay the
same. -/
def assign (id : ScopeId) (x : String) (v : Value) : Eval Unit := fun s =>
  match s.owner? id x with
  | none => .error (.fault (.undefinedVariable x)) s
  | some owner =>
    if s.isConstant owner x then .error (.fault (.constantReassignment x)) s
    else .ok () (s.write owner x v false)

/-- Makes a new scope inside another one. -/
def enter (parent : ScopeId) : Eval ScopeId := fun s =>
  .ok s.scopes.size (s.addScope (.child parent))

def emit (line : String) : Eval Unit := fun s => .ok () (s.print line)

/-- Binds parameters to arguments, one after the other. -/
def defineAll (id : ScopeId) : List (String × Value) → Eval Unit
  | [] => pure ()
  | (x, v) :: rest => do
    define id x v false
    defineAll id rest

/-- Does something with an item that may be missing, for its effect. -/
def optionally {β : Type} (action : α → Eval β) : Option α → Eval Unit
  | some a => discard (action a)
  | none => pure ()

/-- Whether a condition that may be missing holds; a missing one does. -/
def holds (value : α → Eval Value) : Option α → Eval Bool
  | some a => do
    let v ← value a
    pure v.truthy
  | none => pure true

end Eval

namespace Builtin

/-- Runs a builtin function without checking the number of arguments. -/
def run (b : Builtin) (arguments : List Value) : Eval Value :=
  match b with
  | .print => do
    Eval.emit (printedLine arguments)
    pure .null
  | _ => Eval.ofExcept (b.apply arguments)

/-- Calls a builtin function. -/
def call (b : Builtin) (arguments : List Value) : Eval Value :=
  match b.arity? with
  | some n =>
    if arguments.length = n then b.run arguments else Eval.fault (.arity n arguments.length)
  | none => b.run arguments

end Builtin

end Scriptlet
