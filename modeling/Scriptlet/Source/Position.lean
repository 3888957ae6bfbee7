/-!
# Positions in a text

A position is a line and a column, both counted from one; only a line feed ends a line, and columns
count characters.  Places in a text are given by **offsets**, which count bytes of its encoding in
UTF-8, so an offset stands between two characters or inside of one.

The `LineTable` of a text lists the offsets at which its lines start.  `LineTable.position` finds
the line of an offset by bisection and counts the characters from the start of that line.
-/

namespace Scriptlet

/-- A line and a column, counted from one. -/
structure Position where
  line : Nat
  column : Nat
  deriving DecidableEq

namespace Position

def text (p : Position) : String := toString p.line ++ ":" ++ toString p.column

end Position

/-! ## Offsets -/

/-- The number of bytes that encode a text. -/
def byteLength : List Char → Nat
  | [] => 0
  | c :: cs => c.utf8Size + byteLength cs

/-- The text behind its first `n` bytes, if they end with a character. -/
def dropBytes? : Nat → List Char → Option (List Char)
  | 0, cs => some cs
  | _ + 1, [] => none
  | n + 1, c :: cs =>
    if c.utf8Size ≤ n + 1 then dropBytes? (n + 1 - c.utf8Size) cs else none

/-- The text of the first `n` bytes, if they end with a character. -/
def takeBytes? : Nat → List Char → Option (List Char)
  | 0, _ => some []
  | _ + 1, [] => none
  | n + 1, c :: cs =>
    if c.utf8Size ≤ n + 1 then (takeBytes? (n + 1 - c.utf8Size) cs).map (c :: ·) else none

/-- The text from one offset to another, if both stand between characters. -/
def slice? (source : List Char) (start stop : Nat) : Option (List Char) :=
  if start ≤ stop then (dropBytes? start source).bind (takeBytes? (stop - start)) else none

/-! ## Lines -/

/-- A text and the offsets at which its lines start, in increasing order. -/
structure LineTable where
  source : List Char
  starts : Array Nat

namespace LineTable

/-- The offsets just after the line feeds of a text that itself starts at `offset`. -/
def breaks (offset : Nat) : List Char → List Nat
  | [] => []
  | c :: cs =>
    if c = '\n' then (offset + 1) :: breaks (offset + 1) cs else breaks (offset + c.utf8Size) cs

def ofText (source : List Char) : LineTable := ⟨source, (0 :: breaks 0 source).toArray⟩

/-- The least index from `lo` to `hi` whose entry lies after `offset`, or `hi` if there is none;
entries below `lo` are at most `offset` and those from `hi` on lie after it. -/
def bisect (starts : Array Nat) (offset lo hi : Nat) (bound : hi ≤ starts.size) : Nat :=
  if h : lo < hi then
    have middle : (lo + hi) / 2 < starts.size := by omega
    if starts[(lo + hi) / 2] ≤ offset then bisect starts offset ((lo + hi) / 2 + 1) hi bound
    else bisect starts offset lo ((lo + hi) / 2) (by omega)
  else lo
termination_by hi - lo

/-- The number of lines that start at or before `offset`. -/
def linesUpTo (t : LineTable) (offset : Nat) : Nat :=
  bisect t.starts offset 0 t.starts.size (Nat.le_refl _)

/-- The position of the character at `offset`, or of the end of the text. -/
def position (t : LineTable) (offset : Nat) : Position :=
  let line := t.linesUpTo offset
  let start := t.starts.getD (line - 1) 0
  ⟨line, (slice? t.source start offset).elim 0 List.length + 1⟩

end LineTable

end Scriptlet
