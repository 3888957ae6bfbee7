import Mathlib.Data.Rat.Floor
import Scriptlet.Proofs.Number.Faithful
import Scriptlet.Proofs.Number.Rounding

/-!
# Whole numbers

The whole numbers up to `2 ^ 53` are numbers themselves (`Binary64.ofNat_eq`), so that adding and
comparing them is exact (`Binary64.add_ofNat`, `Binary64.less_ofNat`).  A number is turned into a
position by its floor, taken of the exact value (`Binary64.toIndex?_eq_some_iff`), and a whole
number of less than 53 bits is its own position (`Binary64.toIndex?_ofNat`); larger ones are rounded
but never below `2 ^ 53`, so they are no position at all.
-/

namespace Scriptlet

namespace Binary64

/-! ## Exact values -/

/-- The exact value of a finite number. -/
def toRat? : Binary64 → Option ℚ
  | .finite s n _ => some (signed s n / unit)
  | _ => none

/-- The largest whole number that is not above a finite number. -/
def floor? (x : Binary64) : Option ℤ := x.toRat?.map Int.floor

theorem unit_pos : 0 < unit := by
  unfold unit
  apply two_pow_pos

theorem floor?_finite (s : Bool) {n : Nat} (h : Representable n) :
    (finite s n h).floor? = some (signed s n / unit) := by
  rw [floor?, toRat?, Option.map_some, Rat.floor_intCast_div_natCast]

/-- **A number is turned into a position by its floor.** -/
theorem toIndex?_eq_some_iff {x : Binary64} {k : Nat} :
    x.toIndex? = some k ↔ x.floor? = some (k : ℤ) ∧ k ≤ maxIndex := by
  cases x with
  | nan => simp [toIndex?, floor?, toRat?]
  | infinite s => simp [toIndex?, floor?, toRat?]
  | finite s n h =>
    rw [floor?_finite, Option.some_inj, toIndex?]
    by_cases hneg : (s && n != 0) = true
    · rw [if_pos hneg]
      have hlt : signed s n < 0 := by
        rw [← decide_eq_true_eq (p := signed s n < 0), signed_neg, hneg]
      have hfloor : signed s n / (unit : ℤ) < 0 :=
        Int.ediv_neg_of_neg_of_pos hlt (by exact_mod_cast unit_pos)
      constructor
      · intro hnone
        cases hnone
      · rintro ⟨hk, -⟩
        omega
    · rw [if_neg hneg]
      have hsigned : signed s n = n := by
        cases s with
        | false => rfl
        | true =>
          have hn : n = 0 := by simpa using hneg
          subst hn
          rfl
      have hdiv : (n : ℤ) / (unit : ℤ) = ((n / unit : Nat) : ℤ) := by push_cast; rfl
      rw [hsigned, hdiv, Int.natCast_inj]
      split
      · next hle =>
        rw [Option.some_inj]
        constructor
        · rintro rfl
          exact ⟨rfl, hle⟩
        · exact fun hk => hk.1
      · next hle =>
        constructor
        · intro hnone
          cases hnone
        · rintro ⟨rfl, hk⟩
          exact absurd hk hle

/-! ## Natural numbers -/

theorem maxIndex_add_one : maxIndex + 1 = 2 ^ 53 := rfl

theorem representable_whole {n : Nat} (h : n ≤ 2 ^ 53) : Representable (n * unit) := by
  unfold Representable unit quantaLimit
  -- All that counts is that the two exponents are more than 53 apart.
  have hapart : 53 + 1074 < 2098 := by decide
  generalize 1074 = k at hapart ⊢
  generalize 2098 = l at hapart ⊢
  refine ⟨?_, spacing_dvd_mul h⟩
  calc
    n * Nat.pow 2 k ≤ Nat.pow 2 53 * Nat.pow 2 k := Nat.mul_le_mul_right _ h
    _ = Nat.pow 2 (53 + k) := (Nat.pow_add 2 53 k).symm
    _ < Nat.pow 2 l := Nat.pow_lt_pow_right (by decide) hapart

/-- **The whole numbers up to `2 ^ 53` are numbers themselves.** -/
theorem ofNat_eq {n : Nat} (h : n ≤ 2 ^ 53) :
    ofNat n = .finite false (n * unit) (representable_whole h) := by
  have hround : roundQuanta (n * unit) 1 = n * unit := by
    have hexact := roundQuanta_exact (representable_whole h).2 Nat.one_pos
    rwa [Nat.mul_one] at hexact
  rw [ofNat, ofQuotient]
  simp only [hround, dif_pos (representable_whole h).1]

theorem toRat?_ofNat {n : Nat} (h : n ≤ 2 ^ 53) : (ofNat n).toRat? = some (n : ℚ) := by
  have hunit : (unit : ℚ) ≠ 0 := by exact_mod_cast unit_pos.ne'
  rw [ofNat_eq h, toRat?, signed, if_neg Bool.false_ne_true]
  push_cast
  rw [mul_div_assoc, div_self hunit, mul_one]

theorem floor?_ofNat {n : Nat} (h : n ≤ 2 ^ 53) : (ofNat n).floor? = some (n : ℤ) := by
  rw [floor?, toRat?_ofNat h, Option.map_some, Int.floor_natCast]

/-- Rounding does not cross the limit of the exact whole numbers. -/
theorem le_roundQuanta {m : Nat} (h : 2 ^ 53 ≤ m) : 2 ^ 53 * unit ≤ roundQuanta (m * unit) 1 := by
  have hnearest := (roundQuanta_nearest (m * unit) Nat.one_pos).nearest (2 ^ 53 * unit)
    (representable_whole (Nat.le_refl _)).2
  generalize roundQuanta (m * unit) 1 = n at hnearest ⊢
  by_contra hlt
  have hn : (n : ℚ) < (2 ^ 53 * unit : Nat) := by exact_mod_cast Nat.lt_of_not_le hlt
  have hm : ((2 ^ 53 * unit : Nat) : ℚ) ≤ (m * unit : Nat) := by
    exact_mod_cast Nat.mul_le_mul_right unit h
  rw [Nat.cast_one, div_one, abs_of_nonneg (by linarith), abs_of_nonneg (by linarith)] at hnearest
  linarith

theorem toIndex?_of_lt {n : Nat} (h : Representable n) (hlarge : maxIndex < n / unit) :
    (finite false n h).toIndex? = none := by
  simp only [toIndex?, Bool.false_and, if_neg (Nat.not_le_of_lt hlarge), reduceIte,
    Bool.false_eq_true]

/-- A whole number is a position if it has at most 53 bits. -/
theorem toIndex?_ofNat (m : Nat) :
    (ofNat m).toIndex? = if m ≤ maxIndex then some m else none := by
  split
  · next h =>
    have hle : m ≤ 2 ^ 53 := by
      rw [← maxIndex_add_one]
      omega
    exact toIndex?_eq_some_iff.mpr ⟨floor?_ofNat hle, h⟩
  · next h =>
    have hle : 2 ^ 53 ≤ m := by
      rw [← maxIndex_add_one]
      omega
    have hdiv : maxIndex < roundQuanta (m * unit) 1 / unit := by
      rw [← Nat.succ_le_iff, Nat.succ_eq_add_one, maxIndex_add_one]
      exact (Nat.le_div_iff_mul_le unit_pos).mpr (le_roundQuanta hle)
    rw [ofNat, ofQuotient]
    split
    · exact toIndex?_of_lt _ hdiv
    · rfl

/-! ## Counting -/

theorem key_ofNat {n : Nat} (h : n ≤ 2 ^ 53) : (ofNat n).key = some ((n * unit : Nat) : ℤ) := by
  rw [ofNat_eq h]
  rfl

theorem add_ofNat {m n : Nat} (h : m + n ≤ 2 ^ 53) : (ofNat m).add (ofNat n) = ofNat (m + n) := by
  have hm : m ≤ 2 ^ 53 := Nat.le_trans (Nat.le_add_right m n) h
  have hn : n ≤ 2 ^ 53 := Nat.le_trans (Nat.le_add_left n m) h
  have hsum : ((m * unit : Nat) : ℤ) + ((n * unit : Nat) : ℤ) = (((m + n) * unit : Nat) : ℤ) := by
    rw [Nat.add_mul]
    push_cast
    rfl
  rw [ofNat_eq hm, ofNat_eq hn, add]
  show ofSigned false (((m * unit : Nat) : ℤ) + ((n * unit : Nat) : ℤ)) = ofNat (m + n)
  rw [hsum, ofSigned]
  split
  · next hzero =>
    have hzero : (m + n) * unit = 0 := by exact_mod_cast hzero
    rw [ofNat_eq h]
    simp only [hzero]
    rfl
  · have hsign : ¬ ((((m + n) * unit : Nat) : ℤ) < 0) := by omega
    rw [decide_eq_false hsign, Int.natAbs_natCast]
    rfl

theorem less_ofNat {m n : Nat} (hm : m ≤ 2 ^ 53) (hn : n ≤ 2 ^ 53) :
    (ofNat m).less (ofNat n) = decide (m < n) := by
  rw [less, key_ofNat hm, key_ofNat hn, decide_eq_decide, Int.ofNat_lt]
  exact Nat.mul_lt_mul_right unit_pos

/-- A number with a whole value is equal to that whole number and to no other. -/
theorem equals_of_toRat? {x : Binary64} {k m : Nat} (h : x.toRat? = some (k : ℚ))
    (hm : m ≤ 2 ^ 53) : (ofNat m).equals x = decide (m = k) := by
  cases x with
  | nan => cases h
  | infinite s => cases h
  | finite s n hn =>
    have hunit : (unit : ℚ) ≠ 0 := by exact_mod_cast unit_pos.ne'
    have hsigned : signed s n = ((k * unit : Nat) : ℤ) := by
      have hvalue : (signed s n : ℚ) / unit = k := Option.some.inj h
      rw [div_eq_iff hunit] at hvalue
      exact_mod_cast hvalue
    rw [ofNat_eq hm, equals_finite, hsigned, decide_eq_decide]
    show ((m * unit : Nat) : ℤ) = ((k * unit : Nat) : ℤ) ↔ m = k
    rw [Int.natCast_inj]
    exact Nat.mul_left_inj unit_pos.ne'

end Binary64

end Scriptlet
