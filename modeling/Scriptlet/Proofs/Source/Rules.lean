import Mathlib.Computability.Language
import Scriptlet.Proofs.Number.Rounding
import Scriptlet.Source.Lexed

/-!
# The rules of the scanner

What the scanner looks for, said without the scanner: each rule is a regular language.

    blanks   [ \t\r\n\f]+
    comment  //[^\n]*
    number   [0-9]+(\.[0-9]+)?
    text     "([^"\\]|\\[^\n])*"  or the same with single quotes
    name     [a-zA-Z_][a-zA-Z0-9_]*

Keywords and symbols are the texts they are spelt by.  The words of a rule all start with
characters of one class (`Rule.Opens`), and these classes hardly overlap, so the first character of
a text leaves few rules to try (`Rule.opens_of_blank`, `Rule.opens_of_letter`, …).

* `Rule.Longest`: no rule matches more of a text.
* `Rule.Wins`: of the rules that match a word, a keyword comes before a name.
* `Rule.Makes`: what a rule makes of its word.
* `Scans`: what the next piece of a text has to be.
-/

namespace Scriptlet

open Computability

/-! ## Characters -/

/-- The words of one character with the property `p`. -/
def oneOf (p : Char → Prop) : Language Char := fun w => ∃ c, p c ∧ w = [c]

def IsBlank (c : Char) : Prop := c = ' ' ∨ c = '\t' ∨ c = '\r' ∨ c = '\n' ∨ c = '\x0c'

def IsDigit (c : Char) : Prop := '0' ≤ c ∧ c ≤ '9'

def IsLetter (c : Char) : Prop := 'a' ≤ c ∧ c ≤ 'z' ∨ 'A' ≤ c ∧ c ≤ 'Z' ∨ c = '_'

def IsQuote (c : Char) : Prop := c = '\x22' ∨ c = '\x27'

instance (c : Char) : Decidable (IsBlank c) := inferInstanceAs (Decidable (_ ∨ _))

instance (c : Char) : Decidable (IsDigit c) := inferInstanceAs (Decidable (_ ∧ _))

instance (c : Char) : Decidable (IsLetter c) := inferInstanceAs (Decidable (_ ∨ _))

instance (c : Char) : Decidable (IsQuote c) := inferInstanceAs (Decidable (_ ∨ _))

theorem isBlank_iff {c : Char} : Piece.isBlank c ↔ IsBlank c := by
  simp [Piece.isBlank, IsBlank, or_assoc]

theorem isDigit_iff {c : Char} : c.isDigit ↔ IsDigit c := by
  simp [Char.isDigit, IsDigit, Char.le_def]

theorem isNameStart_iff {c : Char} : Piece.isNameStart c ↔ IsLetter c := by
  have halpha : c.isAlpha = (decide (c.val ≥ 'A'.val ∧ c.val ≤ 'Z'.val) ||
      (decide (c.val ≥ 'a'.val) && decide (c.val ≤ 'z'.val))) := rfl
  simp only [Piece.isNameStart, IsLetter, halpha, Char.le_def, Bool.or_eq_true, Bool.and_eq_true,
    decide_eq_true_eq, beq_iff_eq, ge_iff_le]
  tauto

theorem isNameChar_iff {c : Char} : Piece.isNameChar c ↔ IsLetter c ∨ IsDigit c := by
  rw [← isNameStart_iff, ← isDigit_iff]
  simp only [Piece.isNameChar, Piece.isNameStart, Char.isAlphanum, Bool.or_eq_true]
  tauto

theorem isQuote_iff {c : Char} : Piece.isQuote c ↔ IsQuote c := by
  simp [Piece.isQuote, IsQuote]

/-! ## Rules -/

inductive Rule where
  | blanks
  | comment
  | keyword (k : Keyword)
  | symbol (s : Symbol)
  | number
  | text
  | name

/-- What may stand between quotes: a plain character, or a backslash and the character it takes
along. -/
def quotable (q : Char) : Language Char :=
  oneOf (fun c => c ≠ q ∧ c ≠ '\\') + {['\\']} * oneOf (· ≠ '\n')

def quoted (q : Char) : Language Char := {[q]} * (quotable q)∗ * {[q]}

namespace Rule

def language : Rule → Language Char
  | .blanks => oneOf IsBlank * (oneOf IsBlank)∗
  | .comment => {['/', '/']} * (oneOf (· ≠ '\n'))∗
  | .keyword k => {k.spelling.toList}
  | .symbol s => {s.spelling}
  | .number => oneOf IsDigit * (oneOf IsDigit)∗ * (1 + {['.']} * oneOf IsDigit * (oneOf IsDigit)∗)
  | .text => quoted '\x22' + quoted '\x27'
  | .name => oneOf IsLetter * (oneOf fun c => IsLetter c ∨ IsDigit c)∗

/-- The word stands at the front of the text, some rule matches it, and none matches more. -/
structure Longest (rest word : List Char) : Prop where
  front : word <+: rest
  matched : ∃ rule : Rule, word ∈ rule.language
  longest : ∀ (rule : Rule) (w : List Char), w ∈ rule.language → w <+: rest →
    w.length ≤ word.length

/-- The rule matches the word, and no keyword does unless it is the rule. -/
def Wins (rule : Rule) (word : List Char) : Prop :=
  word ∈ rule.language ∧ ∀ k : Keyword, word ∈ (keyword k).language → rule = keyword k

/-- What the rule makes of its word: nothing, a token of its kind, a token with the word, with the
text between the quotes, or with the number nearest to the numeral. -/
inductive Makes : Rule → List Char → PieceKind → Prop
  | blanks (word : List Char) : Makes .blanks word .skipped
  | comment (word : List Char) : Makes .comment word .skipped
  | keyword (k : Keyword) (word : List Char) : Makes (.keyword k) word (.token (.keyword k))
  | symbol (s : Symbol) (word : List Char) : Makes (.symbol s) word (.token (.symbol s))
  | name (word : List Char) : Makes .name word (.token (.name (String.ofList word)))
  | text {q : Char} {body : List Char} (quote : IsQuote q) (inside : body ∈ (quotable q)∗) :
      Makes .text (q :: (body ++ [q])) (.token (.text (String.ofList body)))
  | whole {ds : List Char} {x : Binary64} (digits : ∀ c ∈ ds, IsDigit c)
      (rounds : (Decimal.ofDigits ds []).RoundsTo x) : Makes .number ds (.token (.number x))
  | fraction {ds es : List Char} {x : Binary64} (digits : ∀ c ∈ ds, IsDigit c)
      (rounds : (Decimal.ofDigits ds es).RoundsTo x) :
      Makes .number (ds ++ '.' :: es) (.token (.number x))

/-- No rule matches a front part of the text. -/
def NoneMatches (rest : List Char) : Prop :=
  ∀ (rule : Rule) (w : List Char), w ∈ rule.language → ¬ w <+: rest

end Rule

/-- How far a quote that is never closed reaches into the text after it: up to and including a
backslash that stands before a line feed and is not itself taken along, or else to the end. -/
def OpenEnd (q : Char) (rest covered : List Char) : Prop :=
  (∃ front ∈ (quotable q)∗, front ++ ['\\', '\n'] <+: rest ∧ covered = front ++ ['\\']) ∨
    covered = rest ∧ ∀ front ∈ (quotable q)∗, ¬ front ++ ['\\', '\n'] <+: rest

/-- `Scans rest p`: where `rest` is left of the text, the next piece has to be `p`. -/
inductive Scans (rest : List Char) : Piece → Prop
  | matched {p : Piece} (rule : Rule) (longest : Rule.Longest rest p.text)
      (wins : rule.Wins p.text) (makes : rule.Makes p.text p.kind) : Scans rest p
  | unexpected {c : Char} (front : [c] <+: rest) (plain : ¬ IsQuote c)
      (unmatched : Rule.NoneMatches rest) : Scans rest ⟨.unexpected, c, []⟩
  | unterminated {q : Char} {cs covered : List Char} (front : rest = q :: cs) (quote : IsQuote q)
      (unmatched : Rule.NoneMatches rest) (reach : OpenEnd q cs covered) :
      Scans rest ⟨.unterminated, q, covered⟩

/-! ## Words -/

theorem mem_oneOf_kstar {p : Char → Prop} {w : List Char} :
    w ∈ (oneOf p)∗ ↔ ∀ c ∈ w, p c := by
  rw [Language.mem_kstar]
  constructor
  · rintro ⟨parts, rfl, hparts⟩ c hc
    obtain ⟨part, hpart, hc⟩ := List.mem_flatten.mp hc
    obtain ⟨d, hd, rfl⟩ := hparts part hpart
    rw [List.mem_singleton.mp hc]
    exact hd
  · intro h
    refine ⟨w.map fun c => [c], ?_, ?_⟩
    · induction w with
      | nil => rfl
      | cons c w ih => simpa using ih fun d hd => h d (List.mem_cons_of_mem _ hd)
    · intro part hpart
      obtain ⟨c, hc, rfl⟩ := List.mem_map.mp hpart
      exact ⟨c, h c hc, rfl⟩

/-- One character of one class, then any number of another. -/
theorem mem_oneOf_mul_kstar {p r : Char → Prop} {w : List Char} :
    w ∈ oneOf p * (oneOf r)∗ ↔ ∃ c cs, w = c :: cs ∧ p c ∧ ∀ d ∈ cs, r d := by
  rw [Language.mem_mul]
  constructor
  · rintro ⟨_, ⟨c, hc, rfl⟩, cs, hcs, rfl⟩
    exact ⟨c, cs, rfl, hc, mem_oneOf_kstar.mp hcs⟩
  · rintro ⟨c, cs, rfl, hc, hcs⟩
    exact ⟨[c], ⟨c, hc, rfl⟩, cs, mem_oneOf_kstar.mpr hcs, rfl⟩

theorem mem_singleton_mul {u w : List Char} {l : Language Char} :
    w ∈ ({u} : Language Char) * l ↔ ∃ v ∈ l, w = u ++ v := by
  rw [Language.mem_mul]
  constructor
  · rintro ⟨_, rfl, v, hv, rfl⟩
    exact ⟨v, hv, rfl⟩
  · rintro ⟨v, hv, rfl⟩
    exact ⟨u, rfl, v, hv, rfl⟩

theorem mem_quoted {q : Char} {w : List Char} :
    w ∈ quoted q ↔ ∃ body ∈ (quotable q)∗, w = q :: (body ++ [q]) := by
  rw [quoted, Language.mem_mul]
  constructor
  · rintro ⟨front, hfront, _, rfl, rfl⟩
    obtain ⟨body, hbody, rfl⟩ := mem_singleton_mul.mp hfront
    exact ⟨body, hbody, rfl⟩
  · rintro ⟨body, hbody, rfl⟩
    exact ⟨q :: body, mem_singleton_mul.mpr ⟨body, hbody, rfl⟩, [q], rfl, rfl⟩

/-- A numeral is a run of digits, or two such runs with a point between them. -/
theorem Rule.mem_number {w : List Char} :
    w ∈ number.language ↔ ∃ d ds, IsDigit d ∧ (∀ c ∈ ds, IsDigit c) ∧
      (w = d :: ds ∨
        ∃ e es, IsDigit e ∧ (∀ c ∈ es, IsDigit c) ∧ w = d :: (ds ++ '.' :: e :: es)) := by
  rw [language, Language.mem_mul]
  constructor
  · rintro ⟨_, hwhole, part, hpart, rfl⟩
    obtain ⟨d, ds, rfl, hd, hds⟩ := mem_oneOf_mul_kstar.mp hwhole
    refine ⟨d, ds, hd, hds, ?_⟩
    rcases (Language.mem_add _ _ _).mp hpart with hpart | hpart
    · rw [(Language.mem_one _).mp hpart, List.append_nil]
      exact Or.inl rfl
    · rw [mul_assoc, mem_singleton_mul] at hpart
      obtain ⟨_, hdigits, rfl⟩ := hpart
      obtain ⟨e, es, rfl, he, hes⟩ := mem_oneOf_mul_kstar.mp hdigits
      exact Or.inr ⟨e, es, he, hes, rfl⟩
  · rintro ⟨d, ds, hd, hds, rfl | ⟨e, es, he, hes, rfl⟩⟩
    · refine ⟨d :: ds, mem_oneOf_mul_kstar.mpr ⟨d, ds, rfl, hd, hds⟩, [], ?_, List.append_nil _⟩
      exact (Language.mem_add _ _ _).mpr (Or.inl rfl)
    · refine ⟨d :: ds, mem_oneOf_mul_kstar.mpr ⟨d, ds, rfl, hd, hds⟩, '.' :: e :: es, ?_, rfl⟩
      refine (Language.mem_add _ _ _).mpr (Or.inr ?_)
      rw [mul_assoc, mem_singleton_mul]
      exact ⟨e :: es, mem_oneOf_mul_kstar.mpr ⟨e, es, rfl, he, hes⟩, rfl⟩

/-! ## First characters -/

namespace Rule

/-- The characters that words of the rule start with. -/
def Opens : Rule → Char → Prop
  | .blanks => IsBlank
  | .comment => (· = '/')
  | .keyword _ => IsLetter
  | .symbol s => fun c => s.spelling.head? = some c
  | .number => IsDigit
  | .text => IsQuote
  | .name => IsLetter

/-- The characters that the scanner takes in for a name. -/
theorem mem_name {c : Char} {cs : List Char} (hc : Piece.isNameStart c)
    (hcs : cs.all Piece.isNameChar) : c :: cs ∈ name.language := by
  rw [language, mem_oneOf_mul_kstar]
  exact ⟨c, cs, rfl, isNameStart_iff.mp hc,
    fun d hd => isNameChar_iff.mp (List.all_eq_true.mp hcs d hd)⟩

/-- A keyword is spelt like a name. -/
theorem keyword_le_name (k : Keyword) : k.spelling.toList ∈ name.language := by
  cases k <;> exact mem_name rfl rfl

theorem exists_opens {rule : Rule} {w : List Char} (h : w ∈ rule.language) :
    ∃ c cs, w = c :: cs ∧ rule.Opens c := by
  have hname : ∀ {w : List Char}, w ∈ name.language → ∃ c cs, w = c :: cs ∧ IsLetter c := by
    intro w h
    obtain ⟨c, cs, rfl, hc, _⟩ := mem_oneOf_mul_kstar.mp h
    exact ⟨c, cs, rfl, hc⟩
  cases rule with
  | blanks =>
    obtain ⟨c, cs, rfl, hc, _⟩ := mem_oneOf_mul_kstar.mp h
    exact ⟨c, cs, rfl, hc⟩
  | comment =>
    obtain ⟨cs, _, rfl⟩ := mem_singleton_mul.mp h
    exact ⟨'/', '/' :: cs, rfl, rfl⟩
  | keyword k =>
    cases h
    exact hname (keyword_le_name k)
  | symbol s =>
    cases h
    cases s <;> exact ⟨_, _, rfl, rfl⟩
  | number =>
    obtain ⟨d, ds, hd, _, rfl | ⟨e, es, _, _, rfl⟩⟩ := mem_number.mp h
    · exact ⟨d, ds, rfl, hd⟩
    · exact ⟨d, _, rfl, hd⟩
  | text =>
    rcases (Language.mem_add _ _ _).mp h with h | h
    · obtain ⟨body, _, rfl⟩ := mem_quoted.mp h
      exact ⟨_, _, rfl, Or.inl rfl⟩
    · obtain ⟨body, _, rfl⟩ := mem_quoted.mp h
      exact ⟨_, _, rfl, Or.inr rfl⟩
  | name => exact hname h

/-- Words that stand at the front of a text start with its first character. -/
theorem opens_of_front {rule : Rule} {w cs : List Char} {c : Char} (h : w ∈ rule.language)
    (hw : w <+: c :: cs) : rule.Opens c ∧ ∃ t, w = c :: t ∧ t <+: cs := by
  obtain ⟨d, t, rfl, hd⟩ := exists_opens h
  obtain ⟨rfl, ht⟩ := List.cons_prefix_cons.mp hw
  exact ⟨hd, t, rfl, ht⟩

/-! ### Classes of characters do not overlap -/

theorem symbol_opens {s : Symbol} {c : Char} (h : (symbol s).Opens c) :
    ¬ IsBlank c ∧ ¬ IsLetter c ∧ ¬ IsDigit c ∧ ¬ IsQuote c := by
  cases s <;> cases h <;> decide

theorem blank_plain {c : Char} (h : IsBlank c) :
    ¬ IsLetter c ∧ ¬ IsDigit c ∧ ¬ IsQuote c ∧ c ≠ '/' := by
  rcases h with rfl | rfl | rfl | rfl | rfl <;> decide

theorem quote_plain {c : Char} (h : IsQuote c) :
    ¬ IsBlank c ∧ ¬ IsLetter c ∧ ¬ IsDigit c ∧ c ≠ '/' := by
  rcases h with rfl | rfl <;> decide

theorem letter_ne_digit {c : Char} (hl : IsLetter c) : ¬ IsDigit c := by
  intro hd
  have hle := UInt32.le_iff_toNat_le.mp hd.2
  rcases hl with hl | hl | rfl
  · have := UInt32.le_iff_toNat_le.mp hl.1
    exact absurd (Nat.le_trans this hle) (by decide)
  · have := UInt32.le_iff_toNat_le.mp hl.1
    exact absurd (Nat.le_trans this hle) (by decide)
  · exact absurd hd (by decide)

theorem opens_of_blank {rule : Rule} {c : Char} (hc : IsBlank c) (h : rule.Opens c) :
    rule = .blanks := by
  obtain ⟨hletter, hdigit, hquote, hslash⟩ := blank_plain hc
  cases rule with
  | blanks => rfl
  | comment => exact absurd h hslash
  | keyword k => exact absurd h hletter
  | symbol s => exact absurd hc (symbol_opens h).1
  | number => exact absurd h hdigit
  | text => exact absurd h hquote
  | name => exact absurd h hletter

theorem opens_of_letter {rule : Rule} {c : Char} (hc : IsLetter c) (h : rule.Opens c) :
    rule = .name ∨ ∃ k, rule = .keyword k := by
  cases rule with
  | blanks => exact absurd hc (blank_plain h).1
  | comment =>
    cases h
    exact absurd hc (by decide)
  | keyword k => exact Or.inr ⟨k, rfl⟩
  | symbol s => exact absurd hc (symbol_opens h).2.1
  | number => exact absurd h (letter_ne_digit hc)
  | text => exact absurd hc (quote_plain h).2.1
  | name => exact Or.inl rfl

theorem opens_of_digit {rule : Rule} {c : Char} (hc : IsDigit c) (h : rule.Opens c) :
    rule = .number := by
  cases rule with
  | blanks => exact absurd hc (blank_plain h).2.1
  | comment =>
    cases h
    exact absurd hc (by decide)
  | keyword k => exact absurd hc (letter_ne_digit h)
  | symbol s => exact absurd hc (symbol_opens h).2.2.1
  | number => rfl
  | text => exact absurd hc (quote_plain h).2.2.1
  | name => exact absurd hc (letter_ne_digit h)

theorem opens_of_quote {rule : Rule} {c : Char} (hc : IsQuote c) (h : rule.Opens c) :
    rule = .text := by
  obtain ⟨hblank, hletter, hdigit, hslash⟩ := quote_plain hc
  cases rule with
  | blanks => exact absurd h hblank
  | comment => exact absurd h hslash
  | keyword k => exact absurd h hletter
  | symbol s => exact absurd hc (symbol_opens h).2.2.2
  | number => exact absurd h hdigit
  | text => rfl
  | name => exact absurd h hletter

theorem opens_of_other {rule : Rule} {c : Char} (hb : ¬ IsBlank c) (hl : ¬ IsLetter c)
    (hd : ¬ IsDigit c) (hq : ¬ IsQuote c) (h : rule.Opens c) :
    rule = .comment ∨ ∃ s, rule = .symbol s := by
  cases rule with
  | blanks => exact absurd h hb
  | comment => exact Or.inl rfl
  | keyword k => exact absurd h hl
  | symbol s => exact Or.inr ⟨s, rfl⟩
  | number => exact absurd h hd
  | text => exact absurd h hq
  | name => exact absurd h hl

end Rule

end Scriptlet
