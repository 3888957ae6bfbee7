import Scriptlet.Eval.Fault
import Scriptlet.Value.Text

/-!
# Builtin functions

What the builtin functions answer for their arguments.  A call checks the number of arguments
first; the answers below hold for any number.
-/

namespace Scriptlet

namespace Builtin

/-- The elements of the one argument of `b`, which must be an array. -/
def arrayArgument (b : Builtin) : List Value → Except Fault (List Value)
  | [.array elements] => .ok elements
  | _ => .error (.type (.arrayArgument b))

/-- The number of characters of a text or of elements of an array. -/
def length : List Value → Except Fault Value
  | [.text s] => .ok (.number (.ofNat s.length))
  | [.array elements] => .ok (.number (.ofNat elements.length))
  | v :: _ => .error (.type (.length v.kind))
  | [] => .error (.arity 1 0)

/-- The answer of a builtin function. -/
def apply (b : Builtin) (arguments : List Value) : Except Fault Value :=
  match b with
  | .print => .ok .null
  | .len => length arguments
  | .type =>
    match arguments with
    | v :: _ => .ok (.text v.kind.name)
    | [] => .error (.arity 1 0)
  | .push =>
    match arguments with
    | .array elements :: items => .ok (.array (elements ++ items))
    | _ => .error (.type .pushTarget)
  | .pop => (arrayArgument .pop arguments).map (fun elements => elements.getLast?.getD .null)
  | .first => (arrayArgument .first arguments).map (fun elements => elements.head?.getD .null)
  | .last => (arrayArgument .last arguments).map (fun elements => elements.getLast?.getD .null)
  | .rest =>
    (arrayArgument .rest arguments).map fun elements =>
      match elements with
      | [] => .null
      | _ :: others => .array others

/-- The line that `print` prints. -/
def printedLine (arguments : List Value) : String :=
  String.intercalate " " (arguments.map Value.render)

end Builtin

end Scriptlet
