import Scriptlet.Proofs.Source.Spelling

/-!
# The text of a number tells the number

A number is written as a sign and the text of its magnitude (`Binary64.text_eq_sign`), and only
numbers below zero have the sign.  A finite magnitude is written as a numeral of the language
(`Binary64.magnitudeText_mem_number`), the other two as names.  So the text is scanned without
errors as the tokens `Binary64.reading`, and these tell the sign and the magnitude again: two
numbers have the same text exactly if they have the same place in the order
(`Binary64.text_eq_iff_key`).  The main statement is `Binary64.text_faithful`.
-/

namespace Scriptlet

open Piece (Spells)

/-! ## Numerals -/

/-- The text of a numeral has the form of the numerals of the language. -/
theorem Decimal.text_mem_number (d : Decimal) : d.text ∈ Rule.number.language := by
  obtain ⟨part, htext, hpart, -⟩ := d.text_eq
  have hwhole := isDigit_toDigits (d.digits / Nat.pow 10 d.places)
  obtain ⟨c, cs, hcs⟩ := List.exists_cons_of_ne_nil
    (Nat.toDigits_ne_nil (n := d.digits / Nat.pow 10 d.places) (b := 10))
  rw [hcs] at hwhole htext
  obtain ⟨hc, hrest⟩ := List.forall_mem_cons.mp hwhole
  refine Rule.mem_number.mpr
    ⟨c, cs, isDigit_iff.mp hc, fun d hd => isDigit_iff.mp (hrest d hd), ?_⟩
  rcases hpart with rfl | ⟨e, es, rfl, hes⟩
  · left
    rw [htext, List.append_nil]
  · obtain ⟨he, hes⟩ := List.forall_mem_cons.mp hes
    exact Or.inr ⟨e, es, isDigit_iff.mp he, fun d hd => isDigit_iff.mp (hes d hd), htext⟩

theorem Rule.minus_notMem_number {w : List Char} (h : w ∈ number.language) : '-' ∉ w := by
  have hminus : ¬ IsDigit '-' := by simp [IsDigit]
  obtain ⟨d, ds, hd, hds, rfl | ⟨e, es, he, hes, rfl⟩⟩ := mem_number.mp h
  · intro hmem
    rcases List.mem_cons.mp hmem with rfl | hmem
    · exact hminus hd
    · exact hminus (hds _ hmem)
  · intro hmem
    simp only [List.mem_cons, List.mem_append] at hmem
    rcases hmem with rfl | hmem | hmem | rfl | hmem
    · exact hminus hd
    · exact hminus (hds _ hmem)
    · exact absurd hmem (by decide)
    · exact hminus he
    · exact hminus (hes _ hmem)

/-- A minus in front of a text is a token of its own. -/
theorem Piece.Spells.negated {a : List Char} {ts : List Token} (h : Spells a ts) :
    Spells ('-' :: a) (.symbol .minus :: ts) := by
  intro rest hrest
  have hminus := Piece.kinds_alone (s := .minus) rfl (a ++ rest)
  exact hminus.trans (congrArg _ (h rest hrest))

namespace Binary64

theorem magnitudeText_mem_number {n : Nat} (h : Representable n) :
    magnitudeText n ∈ Rule.number.language := by
  obtain ⟨d, htext, -⟩ := exists_numeral h.2
  rw [htext]
  exact d.text_mem_number

/-! ## Sign and magnitude -/

def isFinite : Binary64 → Bool
  | .finite .. => true
  | _ => false

/-- The number without its sign. -/
def magnitude : Binary64 → Binary64
  | .nan => .nan
  | .infinite _ => .infinite false
  | .finite _ n h => .finite false n h

def isNegative (v : Binary64) : Bool := v.less (zero false)

theorem natAbs_signed (s : Bool) (n : Nat) : (signed s n).natAbs = n := by
  cases s <;> simp [signed]

theorem signed_neg {s : Bool} {n : Nat} : decide (signed s n < 0) = (s && n != 0) := by
  rw [Bool.eq_iff_iff, decide_eq_true_eq, Bool.and_eq_true, bne_iff_ne]
  cases s with
  | false => simp [signed]
  | true => simp [signed, Nat.pos_iff_ne_zero]

theorem equals_finite {s t : Bool} {m n : Nat} (hm : Representable m) (hn : Representable n) :
    (finite s m hm).equals (finite t n hn) = decide (signed s m = signed t n) := rfl

theorem isNegative_infinite (s : Bool) : (infinite s).isNegative = s := by
  have hlimit : (quantaLimit != 0) = true := bne_iff_ne.mpr quantaLimit_pos.ne'
  have hsigned := signed_neg (s := s) (n := quantaLimit)
  rwa [hlimit, Bool.and_true] at hsigned

theorem isNegative_finite {s : Bool} {n : Nat} (h : Representable n) :
    (finite s n h).isNegative = (s && n != 0) := signed_neg

theorem atMost_iff_not_isNegative {v : Binary64} (h : v.isFinite) :
    (zero false).atMost v ↔ v.isNegative = false := by
  cases v with
  | nan => cases h
  | infinite => cases h
  | finite s n hn =>
    show decide (0 ≤ signed s n) = true ↔ decide (signed s n < 0) = false
    simp

/-- Sign and magnitude tell the place of a number in the order. -/
theorem key_eq_sign (v : Binary64) :
    v.key = v.magnitude.key.map fun k => if v.isNegative then -k else k := by
  cases v with
  | nan => rfl
  | infinite s =>
    rw [isNegative_infinite]
    cases s <;> rfl
  | finite s n h =>
    rw [isNegative_finite]
    by_cases hn : n = 0
    · subst hn
      cases s <;> rfl
    · cases s <;> simp [key, magnitude, signed, hn]

theorem isNegative_of_key {a b : Binary64} (h : a.key = b.key) : a.isNegative = b.isNegative := by
  rw [isNegative, isNegative, less, less, h]

theorem magnitude_of_key {a b : Binary64} (h : a.key = b.key) : a.magnitude = b.magnitude := by
  -- An infinity is never level with a finite number, whose quanta stay below the limit.
  have hquanta : ∀ {s t : Bool} {m n : Nat}, some (signed s m) = some (signed t n) → m = n := by
    intro s t m n hsigned
    rw [← natAbs_signed s m, ← natAbs_signed t n, Option.some.inj hsigned]
  cases a with
  | nan =>
    cases b with
    | nan => rfl
    | infinite | finite => cases h
  | infinite s =>
    cases b with
    | nan => cases h
    | infinite => rfl
    | finite t n hn => exact absurd (hquanta h) hn.1.ne'
  | finite s m hm =>
    cases b with
    | nan => cases h
    | infinite => exact absurd (hquanta h) hm.1.ne
    | finite t n hn =>
      obtain rfl := hquanta h
      rfl

/-- Numbers with the same place in the order are equal, and only a NaN has no place. -/
theorem key_eq_iff {a b : Binary64} :
    a.key = b.key ↔ a.equals b = true ∨ a = .nan ∧ b = .nan := by
  have hnone : ∀ {v : Binary64}, v.key = none ↔ v = .nan := by
    intro v
    cases v <;> simp [key]
  rw [equals]
  cases ha : a.key with
  | none =>
    rw [hnone] at ha
    subst ha
    rw [eq_comm, hnone]
    simp
  | some i =>
    have hnan : a ≠ .nan := by
      rintro rfl
      cases ha
    cases b.key <;> simp [hnan]

/-! ## Texts -/

theorem text_finite (s : Bool) {n : Nat} (h : Representable n) :
    (finite s n h).text.toList =
      if s && n != 0 then '-' :: magnitudeText n else magnitudeText n := by
  rw [text, String.toList_ofList]

theorem text_unsigned {n : Nat} (h : Representable n) :
    (finite false n h).text.toList = magnitudeText n := by
  rw [text_finite, Bool.false_and, if_neg Bool.false_ne_true]

/-- **A number is its magnitude with a sign in front**, if it is below zero. -/
theorem text_eq_sign (v : Binary64) :
    v.text.toList = (if v.isNegative then ['-'] else []) ++ v.magnitude.text.toList := by
  cases v with
  | nan => rfl
  | infinite s =>
    rw [isNegative_infinite]
    cases s <;> rfl
  | finite s n h =>
    rw [isNegative_finite, magnitude, text_unsigned, text_finite]
    cases s && n != 0 with
    | false => rw [if_neg Bool.false_ne_true, if_neg Bool.false_ne_true, List.nil_append]
    | true => rw [if_pos rfl, if_pos rfl, List.singleton_append]

/-- The token that the magnitude is scanned as. -/
def word : Binary64 → Token
  | .nan => .name "NaN"
  | .infinite _ => .name "Infinity"
  | .finite _ n h => .number (.finite false n h)

/-- The tokens that the text is scanned as. -/
def reading (v : Binary64) : List Token :=
  (if v.isNegative then [.symbol .minus] else []) ++ [v.word]

theorem spells_unsigned (v : Binary64) : Spells v.magnitude.text.toList [v.word] := by
  have hname : ∀ x : String, x = "NaN" ∨ x = "Infinity" → Spells x.toList [.name x] := by
    rintro x (rfl | rfl)
    · exact Piece.spells_name ⟨Rule.mem_name rfl rfl, fun k => by cases k <;> decide⟩
    · exact Piece.spells_name ⟨Rule.mem_name rfl rfl, fun k => by cases k <;> decide⟩
  cases v with
  | nan => exact hname "NaN" (.inl rfl)
  | infinite => exact hname "Infinity" (.inr rfl)
  | finite s n h =>
    rw [magnitude, text_unsigned]
    exact Piece.spells_magnitude h

/-- **The text of a number is scanned as its sign and its magnitude.** -/
theorem spells_text (v : Binary64) : Spells v.text.toList v.reading := by
  rw [text_eq_sign, reading]
  split
  · exact v.spells_unsigned.negated
  · exact v.spells_unsigned

theorem key_of_reading {a b : Binary64} (h : a.reading = b.reading) : a.key = b.key := by
  obtain ⟨hsign, hword⟩ := List.append_inj' h rfl
  have hnegative : a.isNegative = b.isNegative := by
    cases ha : a.isNegative <;> cases hb : b.isNegative <;> simp_all
  have hmagnitude : a.magnitude = b.magnitude := by
    cases a <;> cases b <;> simp_all [word, magnitude]
  rw [a.key_eq_sign, b.key_eq_sign, hnegative, hmagnitude]

theorem text_eq_iff_key {a b : Binary64} : a.text = b.text ↔ a.key = b.key := by
  constructor
  · intro h
    have hreading : a.reading = b.reading := by
      rw [← a.spells_text.words_eq, ← b.spells_text.words_eq, h]
    exact key_of_reading hreading
  · intro h
    rw [← String.toList_inj, a.text_eq_sign, b.text_eq_sign, isNegative_of_key h,
      magnitude_of_key h]

theorem text_mem (v : Binary64) (h : v.isFinite) :
    v.text.toList ∈ (1 + {['-']}) * Rule.number.language := by
  cases v with
  | nan | infinite => cases h
  | finite s n hn =>
    rw [text_eq_sign, magnitude, text_unsigned]
    refine Language.mem_mul.mpr ⟨_, ?_, _, magnitudeText_mem_number hn, rfl⟩
    split
    · exact (Language.mem_add _ _ _).mpr (Or.inr rfl)
    · exact (Language.mem_add _ _ _).mpr (Or.inl rfl)

theorem minus_mem_text (v : Binary64) (h : v.isFinite) :
    '-' ∈ v.text.toList ↔ v.isNegative := by
  cases v with
  | nan | infinite => cases h
  | finite s n hn =>
    have hnone := Rule.minus_notMem_number (magnitudeText_mem_number hn)
    rw [text_eq_sign, magnitude, text_unsigned, List.mem_append, or_iff_left hnone]
    split
    · next hsign => simp [hsign]
    · next hsign => simp [hsign]

/-- **The text of a number is faithful.**  A finite number is written as a numeral, behind a minus
if it is below zero; the text is scanned without errors as a number equal to its magnitude, behind
a minus again.  So two numbers have the same text exactly if they are equal or both are NaN. -/
theorem text_faithful :
    (∀ v : Binary64, v.isFinite →
      v.text.toList ∈ (1 + {['-']}) * Rule.number.language ∧
      ('-' ∈ v.text.toList ↔ v.less (zero false)) ∧
      (tokenize v.text.toList).errors = [] ∧
      ∃ w, w.equals v.magnitude ∧
        ((zero false).atMost v →
          (tokenize v.text.toList).tokens.map Located.token = [.number w, .endOfInput]) ∧
        (v.less (zero false) →
          (tokenize v.text.toList).tokens.map Located.token =
            [.symbol .minus, .number w, .endOfInput])) ∧
      ∀ a b : Binary64, a.text = b.text ↔ a.equals b ∨ a = .nan ∧ b = .nan := by
  refine ⟨fun v hv => ?_, fun a b => text_eq_iff_key.trans key_eq_iff⟩
  have hspells := v.spells_text
  rw [atMost_iff_not_isNegative hv, tokenize_errors_eq_nil_iff, tokenize_tokens, hspells.words_eq]
  refine ⟨v.text_mem hv, v.minus_mem_text hv, hspells.clean, ?_⟩
  cases v with
  | nan | infinite => cases hv
  | finite s n h =>
    refine ⟨finite false n h, decide_eq_true rfl, ?_, ?_⟩
    · intro hsign
      rw [reading, hsign]
      rfl
    · intro hsign
      rw [reading, isNegative, hsign]
      rfl

theorem representable_one : Representable 1 := by
  refine ⟨?_, Nat.one_dvd 1⟩
  unfold quantaLimit
  apply Nat.one_lt_two_pow
  decide

/-- The number next to zero on the negative side. -/
def leastNegative : Binary64 := .finite true 1 representable_one

theorem text_faithful_leastNegative :
    leastNegative.isFinite ∧ leastNegative.less (zero false) ∧ '-' ∈ leastNegative.text.toList ∧
      (tokenize leastNegative.text.toList).errors = [] ∧
      (∃ w, w.equals leastNegative.magnitude ∧
        (tokenize leastNegative.text.toList).tokens.map Located.token =
          [.symbol .minus, .number w, .endOfInput]) ∧
      leastNegative.text ≠ (zero true).text := by
  have hless : leastNegative.less (zero false) := isNegative_finite representable_one
  obtain ⟨hfinite, htexts⟩ := text_faithful
  obtain ⟨-, hminus, herrors, w, hw, -, htokens⟩ := hfinite leastNegative rfl
  refine ⟨rfl, hless, hminus.mpr hless, herrors, ⟨w, hw, htokens hless⟩, ?_⟩
  rw [Ne, htexts]
  rintro (hequal | ⟨hnan, -⟩)
  · exact absurd hequal (by decide)
  · cases hnan

end Binary64

end Scriptlet
