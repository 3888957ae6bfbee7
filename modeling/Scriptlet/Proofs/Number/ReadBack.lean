import Mathlib.Algebra.Group.Nat.Defs
import Mathlib.Data.List.TakeWhile
import Scriptlet.Proofs.Source.Joining

/-!
# Numerals read back

The text of a numeral is scanned as one number, and its digits are those of the numeral
(`Decimal.numberPiece_text`).  The numeral that a magnitude is written with rounds to that
magnitude: the search tries each candidate, and the last one is exact (`Decimal.quanta_shortest`).
So the text of a magnitude is scanned as the number of that magnitude
(`Binary64.numberPiece_magnitudeText`).
-/

namespace Scriptlet

/-! ## Exact quotients -/

/-- A magnitude with at most 53 significant bits is rounded to itself. -/
theorem roundQuanta_exact {n den : Nat} (h : spacing n ∣ n) (hden : 0 < den) :
    roundQuanta (n * den) den = n := by
  obtain ⟨a, ha⟩ := h
  have hpos : 0 < den * spacing n := Nat.mul_pos hden (spacing_pos n)
  have hnum : n * den = a * (den * spacing n) := by
    conv => lhs; rw [ha]
    rw [Nat.mul_comm (spacing n) a, Nat.mul_assoc, Nat.mul_comm (spacing n) den]
  have hround : roundHalfEven (n * den) (den * spacing n) = a := by
    rw [hnum, roundHalfEven, Nat.mul_mod_left, Nat.mul_div_cancel _ hpos,
      if_pos (by simpa using hpos)]
  rw [roundQuanta, Nat.mul_div_cancel _ hden, hround, Nat.mul_comm]
  exact ha.symm

namespace Decimal

/-! ## Digits -/

theorem five_mul_two_pow (k : Nat) : Nat.pow 5 k * Nat.pow 2 k = Nat.pow 10 k :=
  (Nat.mul_pow 5 2 k).symm

theorem ten_pow_pos (k : Nat) : 0 < Nat.pow 10 k := Nat.pow_pos (by decide)

theorem isDigit_toDigits (n : Nat) : ∀ c ∈ Nat.toDigits 10 n, c.isDigit :=
  fun _ hc => Nat.isDigit_of_mem_toDigits (by decide) (by decide) hc

/-- The digits after the point, filled up with zeros in front. -/
theorem ofDigitChars_leftpad (n k init : Nat) :
    Nat.ofDigitChars 10 ((Nat.toDigits 10 n).leftpad k '0') init =
      10 ^ ((Nat.toDigits 10 n).leftpad k '0').length * init + n := by
  rw [Nat.ofDigitChars_eq_ofDigitChars_zero, List.leftpad, Nat.ofDigitChars_append,
    Nat.ofDigitChars_replicate_zero, Nat.mul_zero, Nat.ofDigitChars_ten_toDigits]

theorem length_leftpad_toDigits {n k : Nat} (hk : 0 < k) (h : n < Nat.pow 10 k) :
    ((Nat.toDigits 10 n).leftpad k '0').length = k := by
  rw [List.length_leftpad]
  exact Nat.max_eq_left ((Nat.length_toDigits_le_iff (by decide) hk).mpr h)

theorem ofDigits_leftpad {d : Decimal}
    (hlength : ((Nat.toDigits 10 (d.digits % Nat.pow 10 d.places)).leftpad d.places '0').length =
      d.places) :
    ofDigits (Nat.toDigits 10 (d.digits / Nat.pow 10 d.places))
      ((Nat.toDigits 10 (d.digits % Nat.pow 10 d.places)).leftpad d.places '0') = d := by
  rw [ofDigits, Nat.ofDigitChars_append, Nat.ofDigitChars_ten_toDigits, ofDigitChars_leftpad,
    hlength]
  show (⟨Nat.pow 10 d.places * (d.digits / Nat.pow 10 d.places) +
    d.digits % Nat.pow 10 d.places, d.places⟩ : Decimal) = d
  rw [Nat.div_add_mod]

/-- The text of a numeral: digits, and perhaps a point and more digits, which are together read as
the numeral. -/
theorem text_eq (d : Decimal) :
    ∃ part, d.text = Nat.toDigits 10 (d.digits / Nat.pow 10 d.places) ++ part ∧
      (part = [] ∨ ∃ e es, part = '.' :: e :: es ∧ ∀ c ∈ e :: es, c.isDigit) ∧
      ofDigits (Nat.toDigits 10 (d.digits / Nat.pow 10 d.places)) part.tail = d := by
  by_cases hplaces : d.places = 0
  · refine ⟨[], ?_, Or.inl rfl, ?_⟩
    · rw [text, if_pos hplaces, List.append_nil]
    · obtain ⟨digits, places⟩ := d
      subst hplaces
      rw [ofDigits, List.tail_nil, List.append_nil, Nat.ofDigitChars_ten_toDigits]
      show (⟨digits / 1, 0⟩ : Decimal) = ⟨digits, 0⟩
      rw [Nat.div_one]
  · have hlength := length_leftpad_toDigits (Nat.pos_of_ne_zero hplaces)
      (Nat.mod_lt d.digits (ten_pow_pos d.places))
    obtain ⟨e, es, hes⟩ := List.exists_cons_of_length_pos
      (hlength ▸ Nat.pos_of_ne_zero hplaces)
    refine ⟨'.' :: (Nat.toDigits 10 (d.digits % Nat.pow 10 d.places)).leftpad d.places '0',
      if_neg hplaces, Or.inr ⟨e, es, by rw [hes], ?_⟩, ofDigits_leftpad hlength⟩
    rw [← hes]
    intro c hc
    rcases List.mem_append.mp hc with hc | hc
    · rw [(List.mem_replicate.mp hc).2]
      rfl
    · exact isDigit_toDigits _ c hc

/-! ## Scanning -/

theorem fraction_digits {ds : List Char} (hne : ds ≠ []) (h : ∀ c ∈ ds, c.isDigit) :
    Piece.fraction ('.' :: ds) = '.' :: ds := by
  have htake : ds.takeWhile Char.isDigit = ds := List.takeWhile_eq_self_iff.mpr h
  rw [Piece.fraction, htake, if_neg (by simpa using hne)]

/-- Digits, and perhaps a point and more digits, are one number. -/
theorem numberPiece_digits {c : Char} {ds es : List Char} (hds : ∀ d ∈ ds, d.isDigit)
    (hes : es = [] ∨ ∃ e fs, es = '.' :: e :: fs ∧ ∀ f ∈ e :: fs, f.isDigit) :
    Piece.numberPiece c (ds ++ es) =
      ⟨.token (.number (ofDigits (c :: ds) es.tail).toBinary64), c, ds ++ es⟩ := by
  have hhead : ∀ d ∈ es.head?, ¬ d.isDigit := by
    rcases hes with rfl | ⟨e, fs, rfl, _⟩
    · exact nofun
    · rintro _ ⟨⟩
      decide
  have hpart : Piece.fraction es = es := by
    rcases hes with rfl | ⟨e, fs, rfl, hfs⟩
    · rfl
    · exact fraction_digits (List.cons_ne_nil e fs) hfs
  have hdrop : ds.dropWhile Char.isDigit = [] := List.dropWhile_eq_nil_iff.mpr hds
  rw [Piece.numberPiece, Piece.takeWhile_append_of_head hhead, Piece.dropWhile_append_of_head hhead,
    List.takeWhile_eq_self_iff.mpr hds, hdrop, List.nil_append, hpart]

/-- **The text of a numeral is scanned as one number**, the one it rounds to. -/
theorem numberPiece_text (d : Decimal) :
    ∃ c cs, d.text = c :: cs ∧ c.isDigit ∧
      Piece.numberPiece c cs = ⟨.token (.number d.toBinary64), c, cs⟩ := by
  obtain ⟨part, htext, hpart, hread⟩ := d.text_eq
  have hwhole := isDigit_toDigits (d.digits / Nat.pow 10 d.places)
  obtain ⟨c, ds, hcs⟩ := List.exists_cons_of_ne_nil
    (Nat.toDigits_ne_nil (n := d.digits / Nat.pow 10 d.places) (b := 10))
  rw [hcs] at hwhole htext hread
  obtain ⟨hc, hds⟩ := List.forall_mem_cons.mp hwhole
  refine ⟨c, ds ++ part, htext, hc, ?_⟩
  rw [numberPiece_digits hds hpart, hread]

/-! ## The shortest numeral -/

theorem quanta_of_readingBack? {n : Nat} {low high d : Decimal} {below : Bool}
    (h : readingBack? n low high below = some d) : d.quanta = n := by
  rw [readingBack?] at h
  split at h
  · next hlow =>
    split at h
    · cases h
      exact hlow
    · split at h
      · next hhigh =>
        cases h
        exact hhigh
      · cases h
        exact hlow
  · split at h
    · next hhigh =>
      cases h
      exact hhigh
    · cases h

/-- The exact value is a point of the last grid. -/
theorem quanta_exact {n : Nat} (h : spacing n ∣ n) : (onGrid (exactUnits n) 0).quanta = n := by
  unfold onGrid quanta exactUnits quantumUnits Binary64.unit
  rw [if_neg (by decide), Nat.mul_assoc, Nat.sub_zero]
  generalize 1074 = k
  rw [five_mul_two_pow]
  exact roundQuanta_exact h (ten_pow_pos k)

theorem quanta_shortestFrom {n : Nat} (h : spacing n ∣ n) (j : Nat) :
    (shortestFrom n j).quanta = n := by
  induction j with
  | zero => exact quanta_exact h
  | succ j ih =>
    rw [shortestFrom]
    cases hhit : gridHit? n (j + 1) with
    | none => exact ih
    | some d => exact quanta_of_readingBack? hhit

theorem quanta_shortest {n : Nat} (h : spacing n ∣ n) : (shortest n).quanta = n :=
  quanta_shortestFrom h _

theorem toBinary64_of_quanta {d : Decimal} {n : Nat} (hn : d.quanta = n) (h : Representable n) :
    d.toBinary64 = .finite false n h := by
  subst hn
  exact dif_pos h.1

end Decimal

/-- A magnitude is written as a numeral that rounds to it. -/
theorem Binary64.exists_numeral {n : Nat} (h : spacing n ∣ n) :
    ∃ d : Decimal, magnitudeText n = d.text ∧ d.quanta = n := by
  by_cases hzero : n = 0
  · subst hzero
    refine ⟨⟨0, 0⟩, if_pos rfl, ?_⟩
    rw [Decimal.quanta, Nat.zero_mul, ← Nat.zero_mul (Nat.pow 10 0)]
    exact roundQuanta_exact (Nat.dvd_zero _) (by decide)
  · exact ⟨Decimal.shortest n, if_neg hzero, Decimal.quanta_shortest h⟩

/-- **The text of a magnitude is scanned as the number of that magnitude.** -/
theorem Binary64.numberPiece_magnitudeText {n : Nat} (h : Representable n) :
    ∃ c cs, magnitudeText n = c :: cs ∧ c.isDigit ∧
      Piece.numberPiece c cs = ⟨.token (.number (.finite false n h)), c, cs⟩ := by
  obtain ⟨d, htext, hquanta⟩ := exists_numeral h.2
  rw [htext, ← Decimal.toBinary64_of_quanta hquanta h]
  exact d.numberPiece_text

end Scriptlet
