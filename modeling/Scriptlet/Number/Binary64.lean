/-!
# Double precision numbers

A number is a NaN, an infinity with its sign, or a finite number with its sign.  Finite magnitudes
are counted in **quanta** of `2 ^ -1074`, the least positive magnitude, so every finite number is a
sign and a natural number and the arithmetic below is exact `Nat` arithmetic followed by one
rounding.

* `Representable n`: the magnitude of `n` quanta is below `2 ^ 1024` and has at most 53 significant
  bits (its last bit is at or above `spacing n`).
* `roundQuanta num den`: the quotient `num / den` rounded to the nearest magnitude, a half to the
  even one.  `spacing_dvd_roundQuanta`: the result has at most 53 significant bits, so
  `ofQuotient` needs no further check than the one for overflow.
* `add`, `sub`, `mul`, `div`: the exact result, rounded once.  `rem` is exact, with the sign of the
  dividend.
* `less`, `atMost`, `equals`: comparison of values; a NaN compares to nothing and the two zeros are
  equal.
-/

namespace Scriptlet

/-! ## Rounding -/

/-- The quotient `num / den` rounded to the nearest natural number, a half to the even one. -/
def roundHalfEven (num den : Nat) : Nat :=
  let low := num / den
  let twice := 2 * (num % den)
  if twice < den then low
  else if twice = den then low + low % 2
  else low + 1

theorem roundHalfEven_le (num den : Nat) : roundHalfEven num den ≤ num / den + 1 := by
  simp only [roundHalfEven]
  split
  · omega
  · split <;> omega

/-- The distance, in quanta, between neighbouring magnitudes near `n` quanta. -/
def spacing (n : Nat) : Nat := Nat.pow 2 (n.log2 - 52)

/-- The number of quanta in `2 ^ 1024`, above every finite magnitude. -/
@[irreducible] def quantaLimit : Nat := Nat.pow 2 2098

/-- Some double has the magnitude of `n` quanta. -/
def Representable (n : Nat) : Prop := n < quantaLimit ∧ spacing n ∣ n

instance (n : Nat) : Decidable (Representable n) := inferInstanceAs (Decidable (_ ∧ _))

/-- The quotient `num / den`, counted in quanta, rounded to the nearest magnitude. -/
def roundQuanta (num den : Nat) : Nat :=
  roundHalfEven num (den * spacing (num / den)) * spacing (num / den)

theorem lt_two_pow_log2 (n : Nat) : n < Nat.pow 2 (n.log2 + 1) := Nat.lt_log2_self

theorem log2_le_of_lt {n k : Nat} (h : n < Nat.pow 2 (k + 1)) : n.log2 ≤ k := by
  by_cases hn : n = 0
  · subst hn; simp
  · have := (Nat.log2_lt hn).mpr h
    omega

theorem spacing_dvd_two_pow {n k : Nat} (h : n < Nat.pow 2 (53 + k)) :
    spacing n ∣ Nat.pow 2 k := by
  have hl : n.log2 ≤ 52 + k := log2_le_of_lt (by rwa [show 52 + k + 1 = 53 + k by omega])
  exact Nat.pow_dvd_pow 2 (by omega)

theorem spacing_dvd_spacing {m n : Nat} (h : m ≤ n) : spacing m ∣ spacing n := by
  have hl : m.log2 ≤ n.log2 := log2_le_of_lt (Nat.lt_of_le_of_lt h (lt_two_pow_log2 n))
  exact Nat.pow_dvd_pow 2 (by omega)

/-- A magnitude of at most 53 bits above the bit `2 ^ k` is a whole number of its spacings. -/
theorem spacing_dvd_mul {r k : Nat} (h : r ≤ Nat.pow 2 53) :
    spacing (r * Nat.pow 2 k) ∣ r * Nat.pow 2 k := by
  by_cases hr : r = Nat.pow 2 53
  · subst hr
    have hadd : Nat.pow 2 53 * Nat.pow 2 k = Nat.pow 2 (53 + k) := (Nat.pow_add 2 53 k).symm
    rw [hadd]
    have : spacing (Nat.pow 2 (53 + k)) ∣ Nat.pow 2 (k + 1) :=
      spacing_dvd_two_pow (Nat.pow_lt_pow_right (by omega) (by omega))
    exact Nat.dvd_trans this (Nat.pow_dvd_pow 2 (by omega))
  · have hlt : r * Nat.pow 2 k < Nat.pow 2 (53 + k) :=
      calc
        r * Nat.pow 2 k < Nat.pow 2 53 * Nat.pow 2 k :=
          Nat.mul_lt_mul_of_pos_right (Nat.lt_of_le_of_ne h hr) (Nat.two_pow_pos k)
        _ = Nat.pow 2 (53 + k) := (Nat.pow_add 2 53 k).symm
    exact Nat.dvd_trans (spacing_dvd_two_pow hlt) (Nat.dvd_mul_left _ _)

theorem two_pow_pos (k : Nat) : 0 < Nat.pow 2 k := Nat.two_pow_pos k

theorem spacing_pos (n : Nat) : 0 < spacing n := two_pow_pos _

theorem div_spacing_lt (n : Nat) : n / spacing n < Nat.pow 2 53 := by
  rw [Nat.div_lt_iff_lt_mul (spacing_pos n)]
  calc
    n < Nat.pow 2 (n.log2 + 1) := lt_two_pow_log2 n
    _ ≤ Nat.pow 2 (53 + (n.log2 - 52)) := Nat.pow_le_pow_right (by omega) (by omega)
    _ = Nat.pow 2 53 * spacing n := Nat.pow_add 2 53 _

/-- **Rounding keeps at most 53 significant bits.** -/
theorem spacing_dvd_roundQuanta (num den : Nat) :
    spacing (roundQuanta num den) ∣ roundQuanta num den := by
  refine spacing_dvd_mul ?_
  have h := roundHalfEven_le num (den * spacing (num / den))
  have hlt := div_spacing_lt (num / den)
  rw [Nat.div_div_eq_div_mul] at hlt
  omega

theorem quantaLimit_pos : 0 < quantaLimit := by
  unfold quantaLimit
  apply two_pow_pos

theorem Representable.zero : Representable 0 := ⟨quantaLimit_pos, Nat.dvd_zero _⟩

theorem Representable.mod {m n : Nat} (hm : Representable m) (hn : Representable n)
    (h0 : n ≠ 0) : Representable (m % n) := by
  refine ⟨Nat.lt_of_le_of_lt (Nat.mod_le m n) hm.1, ?_⟩
  by_cases h : m < n
  · rw [Nat.mod_eq_of_lt h]
    exact hm.2
  · have hr : m % n ≤ n := Nat.le_of_lt (Nat.mod_lt m (by omega))
    have hdvd : spacing n ∣ m := Nat.dvd_trans (spacing_dvd_spacing (by omega)) hm.2
    exact Nat.dvd_trans (spacing_dvd_spacing hr) ((Nat.dvd_mod_iff hn.2).mpr hdvd)

/-! ## Numbers -/

/-- A double precision number; `finite s n` is `n` quanta, negated when `s` is set. -/
inductive Binary64 where
  | nan
  | infinite (negative : Bool)
  | finite (negative : Bool) (quanta : Nat) (representable : Representable quanta)
  deriving DecidableEq

namespace Binary64

/-- The number of quanta in one. -/
@[irreducible] def unit : Nat := Nat.pow 2 1074

def zero (negative : Bool) : Binary64 := .finite negative 0 .zero

/-- The quotient `num / den`, counted in quanta, as the nearest number of the given sign.  From
`2 ^ 1024` on the result is infinite. -/
def ofQuotient (negative : Bool) (num den : Nat) : Binary64 :=
  if h : roundQuanta num den < quantaLimit then
    .finite negative (roundQuanta num den) ⟨h, spacing_dvd_roundQuanta num den⟩
  else .infinite negative

def ofNat (n : Nat) : Binary64 := ofQuotient false (n * unit) 1

/-- A signed count of quanta. -/
def signed (negative : Bool) (quanta : Nat) : Int := if negative then -quanta else quanta

/-- A signed count of quanta as the nearest number; a zero gets the sign `zeroSign`. -/
def ofSigned (zeroSign : Bool) (quanta : Int) : Binary64 :=
  if quanta = 0 then zero zeroSign else ofQuotient (decide (quanta < 0)) quanta.natAbs 1

/-! ## Arithmetic -/

def neg : Binary64 → Binary64
  | .nan => .nan
  | .infinite s => .infinite (!s)
  | .finite s n h => .finite (!s) n h

/-- A sum that cancels is a positive zero, unless both terms are negative zeros. -/
def add : Binary64 → Binary64 → Binary64
  | .nan, _ => .nan
  | _, .nan => .nan
  | .infinite s, .infinite t => if s = t then .infinite s else .nan
  | .infinite s, .finite .. => .infinite s
  | .finite .., .infinite t => .infinite t
  | .finite s m _, .finite t n _ => ofSigned (s && t) (signed s m + signed t n)

def sub (x y : Binary64) : Binary64 := x.add y.neg

def mul : Binary64 → Binary64 → Binary64
  | .nan, _ => .nan
  | _, .nan => .nan
  | .infinite s, .infinite t => .infinite (s ^^ t)
  | .infinite s, .finite t n _ => if n = 0 then .nan else .infinite (s ^^ t)
  | .finite s m _, .infinite t => if m = 0 then .nan else .infinite (s ^^ t)
  | .finite s m _, .finite t n _ => ofQuotient (s ^^ t) (m * n) unit

def div : Binary64 → Binary64 → Binary64
  | .nan, _ => .nan
  | _, .nan => .nan
  | .infinite _, .infinite _ => .nan
  | .infinite s, .finite t _ _ => .infinite (s ^^ t)
  | .finite s _ _, .infinite t => zero (s ^^ t)
  | .finite s m _, .finite t n _ =>
    if n = 0 then (if m = 0 then .nan else .infinite (s ^^ t))
    else ofQuotient (s ^^ t) (m * unit) n

/-- The exact remainder of the division toward zero; it has the sign of the dividend. -/
def rem : Binary64 → Binary64 → Binary64
  | .nan, _ => .nan
  | _, .nan => .nan
  | .infinite _, _ => .nan
  | .finite s m h, .infinite _ => .finite s m h
  | .finite s m hm, .finite _ n hn =>
    if h : n = 0 then .nan else .finite s (m % n) (hm.mod hn h)

/-! ## Order -/

/-- The value as a whole number of quanta; the infinities stand beyond every finite number, and a
NaN has no place in the order. -/
def key : Binary64 → Option Int
  | .nan => none
  | .infinite s => some (signed s quantaLimit)
  | .finite s n _ => some (signed s n)

def less (x y : Binary64) : Bool :=
  match x.key, y.key with
  | some a, some b => decide (a < b)
  | _, _ => false

def atMost (x y : Binary64) : Bool :=
  match x.key, y.key with
  | some a, some b => decide (a ≤ b)
  | _, _ => false

def equals (x y : Binary64) : Bool :=
  match x.key, y.key with
  | some a, some b => decide (a = b)
  | _, _ => false

def isZero : Binary64 → Bool
  | .finite _ n _ => n == 0
  | _ => false

/-! ## Indices -/

/-- The largest number that counts as an index. -/
def maxIndex : Nat := Nat.pow 2 53 - 1

/-- The floor of a number as an index; negative, infinite and oversized numbers have none. -/
def toIndex? : Binary64 → Option Nat
  | .finite s n _ =>
    if s && n != 0 then none
    else if n / unit ≤ maxIndex then some (n / unit)
    else none
  | _ => none

end Binary64

end Scriptlet
