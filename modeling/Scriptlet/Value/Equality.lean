import Scriptlet.Value.Basic

/-!
# Equality of values

Two values are equal when they have the same kind and the same content: numbers by value, so a NaN
is equal to nothing and the zeros are equal; arrays by position; objects by key, in any order;
builtins when they are the same.  A closure is equal to nothing: which of two closures is which is
not part of a value here, so a host that compares closures by identity sees more than this.
-/

namespace Scriptlet

namespace Value

mutual

def equals : Value → Value → Bool
  | .number a, .number b => a.equals b
  | .text a, .text b => a == b
  | .boolean a, .boolean b => a == b
  | .null, .null => true
  | .array a, .array b => equalsList a b
  | .object a, .object b => a.length == b.length && fieldsIn a b
  | .builtin a, .builtin b => a == b
  | _, _ => false
termination_by structural v => v

def equalsList : List Value → List Value → Bool
  | [], [] => true
  | a :: as, b :: bs => equals a b && equalsList as bs
  | _, _ => false
termination_by structural vs => vs

/-- The second object has an equal item under the key of the field. -/
def fieldIn : String × Value → List (String × Value) → Bool
  | (key, a), fs =>
    match Fields.get? key fs with
    | some b => equals a b
    | none => false
termination_by structural f => f

/-- Every field of the first object is in the second one. -/
def fieldsIn : List (String × Value) → List (String × Value) → Bool
  | [], _ => true
  | f :: fs, gs => fieldIn f gs && fieldsIn fs gs
termination_by structural fs => fs

end

variable {w : Value}

theorem equals_number_iff {x : Binary64} :
    (number x).equals w ↔ ∃ y, w = number y ∧ x.equals y := by
  cases w <;> simp [equals]

theorem equals_text_iff {s : String} : (text s).equals w ↔ text s = w := by
  cases w <;> simp [equals]

theorem equals_boolean_iff {b : Bool} : (boolean b).equals w ↔ boolean b = w := by
  cases w <;> simp [equals]

theorem equals_null_iff : null.equals w ↔ null = w := by
  cases w <;> simp [equals]

theorem equals_builtin_iff {b : Builtin} : (builtin b).equals w ↔ builtin b = w := by
  cases w <;> simp [equals]

end Value

end Scriptlet
