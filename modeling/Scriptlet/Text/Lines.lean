/-!
# Lines of bytes

A stream of bytes is cut into lines after each line feed; a last line may lack its line feed.  A
line is read as UTF-8 text, which may fail.
-/

namespace Scriptlet

/-- The lines of a stream, without their line feeds; `current` is the line so far, last byte
first. -/
def byteLinesFrom (current : List UInt8) : List UInt8 → List (List UInt8)
  | [] => if current.isEmpty then [] else [current.reverse]
  | b :: bs =>
    if b = 10 then current.reverse :: byteLinesFrom [] bs else byteLinesFrom (b :: current) bs

/-- The text of some bytes, if they are valid UTF-8. -/
def decodeText? (bytes : List UInt8) : Option String := String.fromUTF8? ⟨bytes.toArray⟩

/-- The lines of a stream as texts, `none` where a line is not valid UTF-8. -/
def textLines (bytes : List UInt8) : List (Option String) :=
  (byteLinesFrom [] bytes).map decodeText?

end Scriptlet
