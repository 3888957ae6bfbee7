import Scriptlet.Program.Tree

/-!
# Values

What an expression evaluates to: numbers, texts, booleans, null, arrays, objects and functions.  A
function is a builtin, or a closure that remembers the scope it was made in by its number.  An
object is a list of fields in the order in which their keys first appeared; `Fields.insert` keeps
each key once.
-/

namespace Scriptlet

/-! ## Fields -/

/-- Named items in order of first appearance. -/
abbrev Fields (α : Type) := List (String × α)

namespace Fields

variable {α : Type}

/-- A key that is present keeps its place and takes the new item; another key goes last. -/
def insert (key : String) (item : α) : Fields α → Fields α
  | [] => [(key, item)]
  | (k, old) :: fs => if k = key then (k, item) :: fs else (k, old) :: insert key item fs

def get? (key : String) (fs : Fields α) : Option α := fs.lookup key

/-- The fields after inserting the items in order. -/
def ofList (items : List (String × α)) : Fields α :=
  items.foldl (fun fs p => fs.insert p.1 p.2) []

theorem get?_insert (key k : String) (item : α) (fs : Fields α) :
    (fs.insert key item).get? k = if k = key then some item else fs.get? k := by
  induction fs with
  | nil => by_cases h : k = key <;> simp [insert, get?, h]
  | cons f fs ih =>
    obtain ⟨k', old⟩ := f
    simp only [get?] at ih
    simp only [insert, get?]
    split
    · next h =>
      subst h
      simp only [List.lookup_cons]
      by_cases hk : k = k' <;> simp [hk, beq_false_of_ne]
    · next h =>
      simp only [List.lookup_cons, ih]
      by_cases hk : k = k'
      · subst hk
        simp [h]
      · simp [beq_false_of_ne hk]

end Fields

/-! ## Values -/

/-- The functions that are part of the language. -/
inductive Builtin where
  | print
  | len
  | type
  | push
  | pop
  | first
  | last
  | rest
  deriving DecidableEq

namespace Builtin

def name : Builtin → String
  | .print => "print"
  | .len => "len"
  | .type => "type"
  | .push => "push"
  | .pop => "pop"
  | .first => "first"
  | .last => "last"
  | .rest => "rest"

def all : List Builtin := [.print, .len, .type, .push, .pop, .first, .last, .rest]

/-- The number of arguments a call must have, if it is fixed. -/
def arity? : Builtin → Option Nat
  | .print | .push => none
  | _ => some 1

end Builtin

/-- The number of a scope. -/
abbrev ScopeId := Nat

inductive Value where
  | number (n : Binary64)
  | text (s : String)
  | boolean (b : Bool)
  | null
  | array (elements : List Value)
  | object (fields : List (String × Value))
  | closure (parameters : List String) (body : Block) (scope : ScopeId)
  | builtin (b : Builtin)

/-- The sorts of values, as far as a program can tell them apart. -/
inductive Kind where
  | number
  | text
  | boolean
  | null
  | array
  | object
  | function
  | builtin
  deriving DecidableEq

namespace Kind

def name : Kind → String
  | .number => "number"
  | .text => "string"
  | .boolean => "boolean"
  | .null => "null"
  | .array => "array"
  | .object => "object"
  | .function => "function"
  | .builtin => "builtin"

end Kind

namespace Value

def kind : Value → Kind
  | .number _ => .number
  | .text _ => .text
  | .boolean _ => .boolean
  | .null => .null
  | .array _ => .array
  | .object _ => .object
  | .closure .. => .function
  | .builtin _ => .builtin

def ofLiteral : Literal → Value
  | .number n => .number n
  | .text s => .text s
  | .boolean b => .boolean b
  | .null => .null

/-- False, null, the zeros, the empty text and the empty array do not hold; all else does. -/
def truthy : Value → Bool
  | .boolean b => b
  | .null => false
  | .number n => !n.isZero
  | .text s => !s.isEmpty
  | .array elements => !elements.isEmpty
  | _ => true

end Value

end Scriptlet
