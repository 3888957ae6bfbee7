import Scriptlet.Value.Basic

/-!
# The text of a value

How a value is printed.  Texts appear as they are, without quotes, at every depth.
-/

namespace Scriptlet

namespace Value

mutual

def render : Value → String
  | .number n => n.text
  | .text s => s
  | .boolean true => "true"
  | .boolean false => "false"
  | .null => "null"
  | .array elements => "[" ++ String.intercalate ", " (renderList elements) ++ "]"
  | .object [] => "\x7b\x7d"
  | .object (f :: fs) =>
    "\x7b " ++ String.intercalate ", " (renderField f :: renderFields fs) ++ " \x7d"
  | .closure parameters _ _ => "<function(" ++ String.intercalate ", " parameters ++ ")>"
  | .builtin _ => "<builtin function>"

def renderList : List Value → List String
  | [] => []
  | v :: vs => render v :: renderList vs

def renderField : String × Value → String
  | (key, v) => key ++ ": " ++ render v

def renderFields : List (String × Value) → List String
  | [] => []
  | f :: fs => renderField f :: renderFields fs

end

theorem renderList_eq_map (vs : List Value) : renderList vs = vs.map render := by
  induction vs with
  | nil => simp [renderList]
  | cons v vs ih => simp [renderList, ih]

theorem renderFields_eq_map (fs : List (String × Value)) :
    renderFields fs = fs.map renderField := by
  induction fs with
  | nil => simp [renderFields]
  | cons f fs ih => simp [renderFields, ih]

end Value

end Scriptlet
