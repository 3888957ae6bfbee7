import Mathlib.Algebra.Order.Field.Basic
import Mathlib.Algebra.Order.Field.Rat
import Mathlib.Tactic.Linarith
import Mathlib.Tactic.FieldSimp
import Mathlib.Tactic.Ring
import Scriptlet.Number.Decimal

/-!
# Rounding goes to the nearest magnitude

A quotient between two neighbouring magnitudes is rounded to the nearer one, and from the middle to
the one with the even significand (`roundQuanta_nearest`).  Neighbours are one `spacing` apart and
no magnitude lies between them (`spacing_gap`), so comparing with the two neighbours is enough.

`Decimal.RoundsTo` says which number a numeral stands for, and `Decimal.toBinary64_roundsTo` that
this is the number it is read as.
-/

namespace Scriptlet

/-- Among the magnitudes of at most 53 significant bits, `n` quanta are nearest to `x` quanta; if
another one is as near, then the significand of `n` is even. -/
structure Nearest (x : ℚ) (n : Nat) : Prop where
  fits : spacing n ∣ n
  nearest : ∀ m : Nat, spacing m ∣ m → |x - n| ≤ |x - m|
  even : ∀ m : Nat, spacing m ∣ m → m ≠ n → |x - m| = |x - n| → 2 ∣ n / spacing n

/-! ## Neighbours -/

/-- Cutting off the bits below the spacing does not change the spacing. -/
theorem spacing_floor (n : Nat) : spacing (n / spacing n * spacing n) = spacing n := by
  by_cases hsmall : n.log2 ≤ 52
  · have hone : spacing n = 1 := by rw [spacing, Nat.sub_eq_zero_of_le hsmall]
    rw [hone, Nat.div_one, Nat.mul_one, hone]
  · have hn : n ≠ 0 := by
      rintro rfl
      exact hsmall (by decide)
    -- The leading bit of `n` is a multiple of the spacing, so it stays.
    have hlead : Nat.pow 2 n.log2 ≤ n / spacing n * spacing n := by
      have hsplit : Nat.pow 2 n.log2 = Nat.pow 2 52 * spacing n :=
        calc
          Nat.pow 2 n.log2 = Nat.pow 2 (52 + (n.log2 - 52)) := by congr 1; omega
          _ = Nat.pow 2 52 * spacing n := Nat.pow_add 2 52 _
      rw [hsplit]
      refine Nat.mul_le_mul_right _ ((Nat.le_div_iff_mul_le (spacing_pos n)).mpr ?_)
      rw [← hsplit]
      exact Nat.log2_self_le hn
    have hle : n / spacing n * spacing n ≤ n := Nat.div_mul_le_self n (spacing n)
    have hpos : n / spacing n * spacing n ≠ 0 := by
      have := two_pow_pos n.log2
      omega
    have hlog : (n / spacing n * spacing n).log2 = n.log2 := by
      refine Nat.le_antisymm ?_ ((Nat.le_log2 hpos).mpr hlead)
      exact log2_le_of_lt (Nat.lt_of_le_of_lt hle (lt_two_pow_log2 n))
    rw [spacing, hlog, spacing]

/-- No magnitude lies between two neighbours. -/
theorem spacing_gap {n m : Nat} (hm : spacing m ∣ m) :
    m ≤ n / spacing n * spacing n ∨ (n / spacing n + 1) * spacing n ≤ m := by
  by_cases h : m ≤ n / spacing n * spacing n
  · exact Or.inl h
  · have hdvd : spacing n ∣ m := by
      have := spacing_dvd_spacing (Nat.le_of_not_le h)
      rw [spacing_floor] at this
      exact Nat.dvd_trans this hm
    obtain ⟨k, rfl⟩ := hdvd
    rw [Nat.mul_comm (spacing n) k] at h ⊢
    refine Or.inr (Nat.mul_le_mul_right _ ?_)
    by_contra hlt
    exact h (Nat.mul_le_mul_right _ (by omega))

theorem even_significand {r k : Nat} (hr : r ≤ Nat.pow 2 53) (heven : 2 ∣ r) :
    2 ∣ r * Nat.pow 2 k / spacing (r * Nat.pow 2 k) := by
  rcases Nat.lt_or_eq_of_le hr with hlt | rfl
  · have hdvd : spacing (r * Nat.pow 2 k) ∣ Nat.pow 2 k := by
      refine spacing_dvd_two_pow ?_
      calc
        r * Nat.pow 2 k < Nat.pow 2 53 * Nat.pow 2 k :=
          Nat.mul_lt_mul_of_pos_right hlt (two_pow_pos k)
        _ = Nat.pow 2 (53 + k) := (Nat.pow_add 2 53 k).symm
    rw [Nat.mul_div_assoc r hdvd]
    exact Nat.dvd_mul_right_of_dvd heven _
  · -- The next power of two: its significand is `2 ^ 52`.
    have hdvd : spacing (Nat.pow 2 53 * Nat.pow 2 k) ∣ Nat.pow 2 (k + 1) := by
      refine spacing_dvd_two_pow ?_
      calc
        Nat.pow 2 53 * Nat.pow 2 k = Nat.pow 2 (53 + k) := (Nat.pow_add 2 53 k).symm
        _ < Nat.pow 2 (53 + (k + 1)) := Nat.pow_lt_pow_right (by omega) (by omega)
    have hsplit : Nat.pow 2 53 * Nat.pow 2 k = Nat.pow 2 52 * Nat.pow 2 (k + 1) :=
      calc
        Nat.pow 2 53 * Nat.pow 2 k = Nat.pow 2 (53 + k) := (Nat.pow_add 2 53 k).symm
        _ = Nat.pow 2 (52 + (k + 1)) := by congr 1; omega
        _ = Nat.pow 2 52 * Nat.pow 2 (k + 1) := Nat.pow_add 2 52 (k + 1)
    rw [hsplit] at hdvd ⊢
    rw [Nat.mul_div_assoc _ hdvd]
    exact Nat.dvd_mul_right_of_dvd (by decide) _

/-! ## Between two neighbours -/

section

variable {x : ℚ} {low high : Nat}

theorem Nearest.ofLow (fits : spacing low ∣ low) (hlow : low ≤ x)
    (gap : ∀ m : Nat, spacing m ∣ m → m ≤ low ∨ high ≤ m) (near : 2 * x ≤ low + high)
    (tie : 2 * x = low + high → 2 ∣ low / spacing low) : Nearest x low := by
  refine ⟨fits, fun m hm => ?_, fun m hm hne heq => ?_⟩
  · rw [abs_of_nonneg (sub_nonneg.mpr hlow)]
    rcases gap m hm with h | h
    · have h : (m : ℚ) ≤ low := by exact_mod_cast h
      rw [abs_of_nonneg (by linarith)]
      linarith
    · have h : (high : ℚ) ≤ m := by exact_mod_cast h
      rw [abs_of_nonpos (by linarith)]
      linarith
  · rw [abs_of_nonneg (sub_nonneg.mpr hlow)] at heq
    rcases gap m hm with h | h
    · have h : (m : ℚ) < low := by exact_mod_cast Nat.lt_of_le_of_ne h hne
      rw [abs_of_nonneg (by linarith)] at heq
      linarith
    · have h : (high : ℚ) ≤ m := by exact_mod_cast h
      rw [abs_of_nonpos (by linarith)] at heq
      exact tie (by linarith)

theorem Nearest.ofHigh (fits : spacing high ∣ high) (hhigh : x ≤ high)
    (gap : ∀ m : Nat, spacing m ∣ m → m ≤ low ∨ high ≤ m) (near : low + high ≤ 2 * x)
    (tie : 2 * x = low + high → 2 ∣ high / spacing high) : Nearest x high := by
  have habs : |x - high| = high - x := by rw [abs_of_nonpos (by linarith), neg_sub]
  refine ⟨fits, fun m hm => ?_, fun m hm hne heq => ?_⟩
  · rw [habs]
    rcases gap m hm with h | h
    · have h : (m : ℚ) ≤ low := by exact_mod_cast h
      rw [abs_of_nonneg (by linarith)]
      linarith
    · have h : (high : ℚ) ≤ m := by exact_mod_cast h
      rw [abs_of_nonpos (by linarith)]
      linarith
  · rw [habs] at heq
    rcases gap m hm with h | h
    · have h : (m : ℚ) ≤ low := by exact_mod_cast h
      rw [abs_of_nonneg (by linarith)] at heq
      exact tie (by linarith)
    · have h : (high : ℚ) < m := by exact_mod_cast Nat.lt_of_le_of_ne h (Ne.symm hne)
      rw [abs_of_nonpos (by linarith)] at heq
      linarith

end

/-! ## Rounding -/

theorem roundHalfEven_cases (num den : Nat) :
    2 * (num % den) < den ∧ roundHalfEven num den = num / den ∨
      2 * (num % den) = den ∧ 2 ∣ roundHalfEven num den ∧
        (roundHalfEven num den = num / den ∨ roundHalfEven num den = num / den + 1) ∨
      den < 2 * (num % den) ∧ roundHalfEven num den = num / den + 1 := by
  simp only [roundHalfEven]
  split
  · omega
  · split <;> omega

/-- A quotient of `q` spacings and a rest lies between two neighbours, and the rest says on which
side of their middle. -/
theorem quotient_between {den : Nat} (s q r : Nat) (hden : 0 < den) (hrest : r < den * s) :
    ((q * s : Nat) : ℚ) ≤ (den * s * q + r : Nat) / den ∧
      ((den * s * q + r : Nat) : ℚ) / den ≤ ((q + 1) * s : Nat) ∧
      ((q * s : Nat) : ℚ) + ((q + 1) * s : Nat) - 2 * ((den * s * q + r : Nat) / den)
        = ((den * s : Nat) - (2 * r : Nat)) / den := by
  have hden' : (0 : ℚ) < den := by exact_mod_cast hden
  refine ⟨?_, ?_, ?_⟩
  · rw [le_div_iff₀ hden']
    exact_mod_cast (by nlinarith : q * s * den ≤ den * s * q + r)
  · rw [div_le_iff₀ hden']
    exact_mod_cast (by nlinarith : den * s * q + r ≤ (q + 1) * s * den)
  · push_cast
    field_simp
    ring

/-- **Rounding goes to the nearest magnitude, from the middle to the even one.** -/
theorem roundQuanta_nearest (num : Nat) {den : Nat} (hden : 0 < den) :
    Nearest (num / den) (roundQuanta num den) := by
  have hgap := fun m hm => @spacing_gap (num / den) m hm
  have hbound := div_spacing_lt (num / den)
  have hfits := spacing_dvd_roundQuanta num den
  have hcases := roundHalfEven_cases num (den * spacing (num / den))
  rw [roundQuanta] at hfits ⊢
  rw [Nat.div_div_eq_div_mul] at hbound
  simp only [Nat.div_div_eq_div_mul] at hgap
  obtain ⟨k, hk⟩ : ∃ k, spacing (num / den) = Nat.pow 2 k := ⟨_, rfl⟩
  simp only [hk] at hgap hbound hfits hcases ⊢
  generalize roundHalfEven num (den * Nat.pow 2 k) = n at *
  have heven : n ≤ Nat.pow 2 53 → 2 ∣ n → 2 ∣ n * Nat.pow 2 k / spacing (n * Nat.pow 2 k) :=
    even_significand
  obtain ⟨hlow, hhigh, hmiddle⟩ := quotient_between (Nat.pow 2 k) (num / (den * Nat.pow 2 k)) _
    hden (Nat.mod_lt num (Nat.mul_pos hden (two_pow_pos k)))
  rw [Nat.div_add_mod] at hlow hhigh hmiddle
  have hden' : (0 : ℚ) < den := by exact_mod_cast hden
  rcases hcases with ⟨hr, rfl⟩ | ⟨hr, htwo, hn⟩ | ⟨hr, rfl⟩
  · have hpos := div_pos (sub_pos.mpr (Nat.cast_lt.mpr hr : (_ : ℚ) < _)) hden'
    exact .ofLow hfits hlow hgap (by linarith) fun htie => by linarith
  · rw [hr, sub_self, zero_div] at hmiddle
    rcases hn with rfl | rfl
    · exact .ofLow hfits hlow hgap (by linarith) fun _ => heven (by omega) htwo
    · exact .ofHigh hfits hhigh hgap (by linarith) fun _ => heven (by omega) htwo
  · have hneg := div_neg_of_neg_of_pos (sub_neg.mpr (Nat.cast_lt.mpr hr : (_ : ℚ) < _)) hden'
    exact .ofHigh hfits hhigh hgap (by linarith) fun htie => by linarith

/-! ## Numerals -/

namespace Decimal

/-- The exact value of a numeral, in quanta. -/
def exact (d : Decimal) : ℚ := (d.digits * Binary64.unit : Nat) / (Nat.pow 10 d.places : Nat)

/-- The number that a numeral stands for: of the magnitudes of at most 53 significant bits the
nearest one, or infinity if that one is `2 ^ 1024` or more. -/
inductive RoundsTo (d : Decimal) : Binary64 → Prop
  | finite {n : Nat} (nearest : Nearest d.exact n) (bounded : Representable n) :
      RoundsTo d (.finite false n bounded)
  | infinite {n : Nat} (nearest : Nearest d.exact n) (beyond : quantaLimit ≤ n) :
      RoundsTo d (.infinite false)

theorem toBinary64_roundsTo (d : Decimal) : d.RoundsTo d.toBinary64 := by
  have hnearest := roundQuanta_nearest (d.digits * Binary64.unit)
    (Nat.pow_pos (n := d.places) (by decide : 0 < 10))
  rw [toBinary64, Binary64.ofQuotient]
  split
  · exact .finite hnearest _
  · next h => exact .infinite hnearest (Nat.le_of_not_lt h)

end Decimal

end Scriptlet
