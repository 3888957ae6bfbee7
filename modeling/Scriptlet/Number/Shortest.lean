import Scriptlet.Number.Decimal

/-!
# The shortest numeral of a number

A number is written with the fewest digits that read back as the same number.  The search counts in
units of `10 ^ -1074`: a magnitude of `n` quanta is exactly `n * 5 ^ 1074` of them.  The multiples
of `10 ^ j` units form the `j`-th grid.  From the coarsest grid down, the two neighbours of the
exact value on the grid are tried (`gridHit?`); the first grid with a neighbour that reads back
gives the numeral, the nearer of two such neighbours wins, and an exact tie goes to the larger.  On
the last grid the exact value itself is a point, so the search always ends in a numeral that reads
back.
-/

namespace Scriptlet

namespace Decimal

/-- The number of units of `10 ^ -1074` in a quantum. -/
@[irreducible] def quantumUnits : Nat := Nat.pow 5 1074

/-- The magnitude of `n` quanta in units of `10 ^ -1074`. -/
def exactUnits (n : Nat) : Nat := n * quantumUnits

/-- The `d`-th point of the `j`-th grid. -/
def onGrid (d j : Nat) : Decimal :=
  if 1074 ≤ j then ⟨d * Nat.pow 10 (j - 1074), 0⟩ else ⟨d, 1074 - j⟩

/-- Of two numerals the one that reads back as `n` quanta; if both do, `below` says whether it is
the lower one. -/
def readingBack? (n : Nat) (low high : Decimal) (below : Bool) : Option Decimal :=
  if low.quanta = n then
    if below then some low else if high.quanta = n then some high else some low
  else if high.quanta = n then some high
  else none

/-- The neighbour of `n` quanta on the `j`-th grid that reads back as `n` quanta. -/
def gridHit? (n j : Nat) : Option Decimal :=
  let exact := exactUnits n
  let low := exact / Nat.pow 10 j
  readingBack? n (onGrid low j) (onGrid (low + 1) j)
    (2 * (exact % Nat.pow 10 j) < Nat.pow 10 j)

/-- The first hit on the grids from the `j`-th down, the exact value on the last one. -/
def shortestFrom (n : Nat) : Nat → Decimal
  | 0 => onGrid (exactUnits n) 0
  | j + 1 => (gridHit? n (j + 1)).getD (shortestFrom n j)

/-- A numeral of fewest digits that reads back as `n` quanta.  The first grid tried is as coarse as
the value is large, since `30103 / 100000` is just above the decimal logarithm of two. -/
def shortest (n : Nat) : Decimal :=
  shortestFrom n ((exactUnits n).log2 * 30103 / 100000 + 2)

end Decimal

namespace Binary64

/-- The magnitude in digits; zero is the single digit `0`. -/
def magnitudeText (quanta : Nat) : List Char :=
  if quanta = 0 then ['0'] else (Decimal.shortest quanta).text

/-- The text of a number: shortest digits without exponent, both zeros alike. -/
def text : Binary64 → String
  | .nan => "NaN"
  | .infinite true => "-Infinity"
  | .infinite false => "Infinity"
  | .finite s n _ =>
    String.ofList (if s && n != 0 then '-' :: magnitudeText n else magnitudeText n)

end Binary64

end Scriptlet
