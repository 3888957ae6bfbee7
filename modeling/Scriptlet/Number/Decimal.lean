import Scriptlet.Number.Binary64

/-!
# Decimal numerals

A decimal numeral is a natural number divided by a power of ten: `⟨1250, 3⟩` is `1.250`.  A numeral
is read from its digits before and after the point, rounds to a number (`Decimal.toBinary64`), and
is written in positional notation (`Decimal.text`), without an exponent however large or small it
is.
-/

namespace Scriptlet

/-- The value `digits / 10 ^ places`. -/
structure Decimal where
  digits : Nat
  places : Nat
  deriving DecidableEq

namespace Decimal

/-- The numeral with the given digits before and after the point. -/
def ofDigits (whole fraction : List Char) : Decimal :=
  ⟨Nat.ofDigitChars 10 (whole ++ fraction) 0, fraction.length⟩

/-- The magnitude nearest to the numeral, in quanta. -/
def quanta (d : Decimal) : Nat := roundQuanta (d.digits * Binary64.unit) (Nat.pow 10 d.places)

/-- The number nearest to the numeral, a half going to the even neighbour. -/
def toBinary64 (d : Decimal) : Binary64 :=
  Binary64.ofQuotient false (d.digits * Binary64.unit) (Nat.pow 10 d.places)

/-- Positional notation; the point is left out when no digit follows it. -/
def text (d : Decimal) : List Char :=
  let whole := Nat.toDigits 10 (d.digits / Nat.pow 10 d.places)
  if d.places = 0 then whole
  else whole ++ '.' :: (Nat.toDigits 10 (d.digits % Nat.pow 10 d.places)).leftpad d.places '0'

end Decimal

end Scriptlet
