import Scriptlet.Proofs.Eval.Counting
import Scriptlet.Proofs.Front.Agreement
import Scriptlet.Proofs.Front.Parts
import Scriptlet.Proofs.Source.Lexemes

/-!
# Counting loops as texts

The programs of `Counting` are written as texts,

    let out = []; for (let i = 0; i < len(xs); i = i + 1) { out = push(out, xs[i]); } out
    let out = []; for (let i = 0; i < len(xs); i = i + 1) { if (i == key) { return xs[i]; } } out

and read back (`parse_collecting`, `parse_searching_name`, `parse_searching_numeral`).  The key of a
search may be any text that is one token: the name `k` or a numeral.  In a new session that binds
`xs` to an array, the first program evaluates to the elements of the array in order and the second
one to the element at the key (`counting_loop_visits_all`).
-/

namespace Scriptlet

open Piece (Spells)

namespace Counting

/-! ## Texts -/

def opening : String := "let out = []; for (let i = 0; i < len(xs); i = i + 1) \x7b"

def closing : String := "\x7d out"

def text (body : String) : String := opening ++ " " ++ body ++ " " ++ closing

def collectingText : String := text "out = push(out, xs[i]);"

def searchingText (key : String) : String :=
  text ("if (i ==" ++ " " ++ key ++ ") \x7b return xs[i]; \x7d")

/-- The tokens in front of the body. -/
def front : List Token :=
  [.keyword .letWord, .name "out", .symbol .equals, .symbol .leftBracket, .symbol .rightBracket,
    .symbol .semicolon, .keyword .forWord, .symbol .leftParen, .keyword .letWord, .name "i",
    .symbol .equals, .number (.ofNat 0), .symbol .semicolon, .name "i", .symbol .less, .name "len",
    .symbol .leftParen, .name "xs", .symbol .rightParen, .symbol .semicolon, .name "i",
    .symbol .equals, .name "i", .symbol .plus, .number (.ofNat 1), .symbol .rightParen,
    .symbol .leftBrace]

def itemTokens : List Token :=
  [.name "xs", .symbol .leftBracket, .name "i", .symbol .rightBracket]

/-- The tokens of the body that collects. -/
def collectingTokens : List Token :=
  [.name "out", .symbol .equals, .name "push", .symbol .leftParen, .name "out", .symbol .comma] ++
    itemTokens ++ [.symbol .rightParen, .symbol .semicolon]

/-- The tokens of the body that searches, for a key of one token. -/
def searchingTokens (key : Token) : List Token :=
  [.keyword .ifWord, .symbol .leftParen, .name "i", .symbol .equalEqual, key, .symbol .rightParen,
    .symbol .leftBrace, .keyword .returnWord] ++ itemTokens ++
    [.symbol .semicolon, .symbol .rightBrace]

theorem spells_of_words {source : String} {ts : List Token}
    (hclean : (tokenize source.toList).errors = []) (hslash : '/' ∉ source.toList)
    (hwords : Piece.words source.toList = ts) : Spells source.toList ts := by
  rw [← hwords]
  exact Piece.spells_words (tokenize_errors_eq_nil_iff.mp hclean) hslash

theorem spells_text {body : String} {ts : List Token} (h : Spells body.toList ts) :
    Spells (text body).toList (front ++ (ts ++ [.symbol .rightBrace, .name "out"])) := by
  have hopening : Spells opening.toList front :=
    spells_of_words (by decide +kernel) (by decide +kernel) (by decide +kernel)
  have hclosing : Spells closing.toList [.symbol .rightBrace, .name "out"] :=
    spells_of_words (by decide +kernel) (by decide +kernel) (by decide +kernel)
  have hall := hopening.append_gap Piece.space_mem_gap (h.append_gap Piece.space_mem_gap hclosing)
  have htext : (text body).toList =
      opening.toList ++ (" ".toList ++ (body.toList ++ (" ".toList ++ closing.toList))) := by
    simp only [text, String.toList_append, List.append_assoc]
  rw [htext]
  exact hall

theorem spells_collectingText : Spells collectingText.toList
    (front ++ (collectingTokens ++ [.symbol .rightBrace, .name "out"])) :=
  spells_text (spells_of_words (by decide +kernel) (by decide +kernel) (by decide +kernel))

theorem spells_searchingText {key : String} {t : Token} (h : Spells key.toList [t]) :
    Spells (searchingText key).toList
      (front ++ (searchingTokens t ++ [.symbol .rightBrace, .name "out"])) := by
  have htest : Spells "if (i ==".toList
      [.keyword .ifWord, .symbol .leftParen, .name "i", .symbol .equalEqual] :=
    spells_of_words (by decide +kernel) (by decide +kernel) (by decide +kernel)
  have hreturn : Spells ") \x7b return xs[i]; \x7d".toList
      ([.symbol .rightParen, .symbol .leftBrace, .keyword .returnWord] ++ itemTokens ++
        [.symbol .semicolon, .symbol .rightBrace]) :=
    spells_of_words (by decide +kernel) (by decide +kernel) (by decide +kernel)
  have hbody := htest.append_gap Piece.space_mem_gap
    (h.append hreturn (Piece.breaks_cons (by decide) _) (by decide))
  refine spells_text ?_
  have htext : ("if (i ==" ++ " " ++ key ++ ") \x7b return xs[i]; \x7d").toList =
      "if (i ==".toList ++ (" ".toList ++ (key.toList ++ ") \x7b return xs[i]; \x7d".toList)) := by
    simp only [String.toList_append, List.append_assoc]
  rw [htext]
  exact hbody

/-! ## Trees -/

def located (ts : List Token) : List Located := ts.map fun t => ⟨t, ⟨1, 1⟩⟩

def final : Located := ⟨.endOfInput, ⟨1, 1⟩⟩

theorem map_token_located (ts : List Token) : (located ts).map Located.token = ts := by
  rw [located, List.map_map]
  exact List.map_id ts

/-- The positions of the tokens do not matter. -/
theorem parse_of_spells {source : String} {ts : List Token} {body : Block}
    (h : Spells source.toList ts) (hread : parseProgram (located ts ++ [final]) = ⟨body, []⟩) :
    Script.parse source = ⟨body, []⟩ := by
  obtain ⟨us, e, htokens, he, hus⟩ := Script.tokens_eq source.toList
  rw [h.words_eq] at hus
  have hnone : ∀ t ∈ located ts, t.token ≠ .endOfInput := by
    intro t ht hend
    have hmem := List.mem_map_of_mem (f := Located.token) ht
    rw [map_token_located, hend, ← h.words_eq] at hmem
    exact Piece.endOfInput_notMem_words _ hmem
  have hlast : MayPrecede (located ts) [e] := Or.inl he
  have hagain := parseProgram_append_of_clean rfl hnone (congrArg Parsed.errors hread)
    (hus.trans (map_token_located ts).symm) hlast
  rw [Script.parse_of_clean h.clean, htokens, hagain, hread, parseProgram, dif_pos he]
  simp [Parsed.after, Parsed.empty]

theorem parseProgram_of_parsed {ts rest : List Located} {s : Statement}
    (h : Goal.statement.parse ts = .parsed s rest) (hstart : ParseState.peek ts ≠ .endOfInput) :
    parseProgram ts = (parseProgram rest).withStatement s := by
  cases ts with
  | nil => exact absurd rfl hstart
  | cons t ts => exact parseProgram_parsed hstart h

/-- Around the body the program is read alike for all bodies. -/
theorem parse_program {source : String} {ts : List Token} {body : Block}
    (hspells : Spells source.toList (front ++ (ts ++ [.symbol .rightBrace, .name "out"])))
    (hloop : Goal.statement.parse
      (located (front.drop 6 ++ (ts ++ [.symbol .rightBrace, .name "out"])) ++ [final]) =
        .parsed (counting body) (located [.name "out"] ++ [final])) :
    Script.parse source = ⟨program body, []⟩ := by
  have hout : Goal.statement.parse
      (located (front ++ (ts ++ [.symbol .rightBrace, .name "out"])) ++ [final]) =
      .parsed (.declare false "out" (.array []))
        (located (front.drop 6 ++ (ts ++ [.symbol .rightBrace, .name "out"])) ++ [final]) := rfl
  have hname : Goal.statement.parse (located [.name "out"] ++ [final]) =
      .parsed (.expression (.name "out")) [final] := rfl
  have hlet : Token.keyword .letWord ≠ .endOfInput := nofun
  have hfor : Token.keyword .forWord ≠ .endOfInput := nofun
  have hword : Token.name "out" ≠ .endOfInput := nofun
  have hfinal : final.token = .endOfInput := rfl
  refine parse_of_spells hspells ?_
  rw [parseProgram_of_parsed hout hlet, parseProgram_of_parsed hloop hfor,
    parseProgram_of_parsed hname hword, parseProgram, dif_pos hfinal]
  rfl

theorem parse_collecting : Script.parse collectingText = ⟨program collecting, []⟩ :=
  parse_program spells_collectingText rfl

theorem parse_searching_name :
    Script.parse (searchingText "k") = ⟨program (searching (.name "k")), []⟩ := by
  have hname : Piece.IsName "k" := ⟨Rule.mem_name rfl rfl, fun k => by cases k <;> decide⟩
  exact parse_program (spells_searchingText (Piece.spells_name hname)) rfl

theorem parse_searching_numeral {numeral : String} {k : Binary64}
    (h : Spells numeral.toList [.number k]) :
    Script.parse (searchingText numeral) = ⟨program (searching (.literal (.number k))), []⟩ :=
  parse_program (spells_searchingText h) rfl

/-! ## New sessions -/

open State

variable {s t : State} {xs : List Value} {x : String} {v : Value} {constant : Bool}

theorem ownSlot?_initial (b : Builtin) :
    State.initial.ownSlot? globalId b.name = some ⟨.builtin b, false⟩ := by
  cases b <;> rfl

theorem ready_initial (hsize : xs.length < 2 ^ 53) (constant : Bool) :
    Ready (State.initial.write globalId "xs" (.array xs) constant) xs where
  size := hsize
  bound := ConstantsBound.initial.write
  outer := (sameTree_write _ _ _ _ _).2 _
  array := rfl
  len := rfl
  push := rfl

/-- Another global name does not matter. -/
theorem Ready.write (h : Ready s xs) (hx : x ∉ ["xs", "len", "push"]) :
    Ready (s.write globalId x v constant) xs := by
  have hother : ∀ y ∈ ["xs", "len", "push"],
      (s.write globalId x v constant).ownSlot? globalId y = s.ownSlot? globalId y := by
    intro y hy
    rw [ownSlot?_write, if_neg]
    rintro ⟨-, rfl, -⟩
    exact hx hy
  exact {
    size := h.size
    bound := h.bound.write
    outer := by rw [(sameTree_write _ _ _ _ _).2, h.outer]
    array := by rw [hother _ (by decide), h.array]
    len := by rw [hother _ (by decide), h.len]
    push := by rw [hother _ (by decide), h.push] }

theorem means_name {k : Binary64}
    (h : (s.ownSlot? globalId "k").map Slot.value = some (.number k)) : Means s (.name "k") k := by
  intro n b u hu
  exact Eval.expr_name (by rw [hu, h])

theorem means_literal (s : State) (k : Binary64) : Means s (.literal (.number k)) k :=
  fun _ _ _ _ => rfl

theorem evaluateText_of_parse {fuel : Nat} {source : String} {body : Block}
    (hparse : Script.parse source = ⟨body, []⟩) (hrun : Eval.program fuel body s = .ok v t) :
    evaluateText fuel source s = (.ok v, t) := by
  rw [evaluateText_of_sound (by rw [hparse]), hparse, hrun]

/-- With enough fuel the search ends with the value `v` in the round in which the counter, in the
scope of the loop, is `j`; and it prints nothing. -/
def FindsAt (s : State) (key : String) (j : Nat) (v : Value) : Prop :=
  ∃ t, (∀ fuel, j + 13 ≤ fuel → evaluateText fuel (searchingText key) s = (.ok v, t)) ∧
    t.ownSlot? s.scopes.size "i" = some ⟨.count j, false⟩ ∧ t.output = s.output

theorem findsAt {key : String} {e : Expr} {k : Binary64} {j : Nat}
    (hparse : Script.parse (searchingText key) = ⟨program (searching e), []⟩) (hs : Ready s xs)
    (hfree : s.ownSlot? globalId "out" = none) (he : Means s e k) (hk : k.toRat? = some (j : ℚ))
    (hj : j < xs.length) : FindsAt s key j xs[j] := by
  obtain ⟨t, ht, hrun⟩ := searching_ends hs hfree he hk hj
  exact ⟨t, fun fuel hfuel => evaluateText_of_parse hparse (hrun fuel hfuel), ht.counter "i",
    ht.output⟩

end Counting

/-! ## All elements, once and in order -/

open Counting State

/-- **The counting loop visits all elements once and in order.**  In a new session that binds `xs`
to an array, the collecting loop ends with the elements of the array and has printed nothing; the
array and the builtin functions are bound as before, and the counter is no global name.  A search
for a number that is a position of the array ends with the element there in the round in which the
counter is that position, be the number written as a numeral or bound to the name `k`. -/
theorem counting_loop_visits_all (xs : List Value) (constant : Bool)
    (hsize : xs.length < 2 ^ 53) :
    ∃ s, Eval.define globalId "xs" (.array xs) constant .initial = .ok () s ∧
      (∃ t, (∀ fuel, xs.length + 13 ≤ fuel →
          evaluateText fuel collectingText s = (.ok (.array xs), t)) ∧
        t.output = #[] ∧ t.ownSlot? globalId "xs" = some ⟨.array xs, constant⟩ ∧
        (∀ b : Builtin, t.ownSlot? globalId b.name = some ⟨.builtin b, false⟩) ∧
        t.binds globalId "i" = false) ∧
      ∀ (k : Binary64) (j : Nat), k.toRat? = some (j : ℚ) → ∀ hj : j < xs.length,
        (∀ numeral : String, Spells numeral.toList [.number k] →
          FindsAt s numeral j xs[j]) ∧
        ∀ constant', ∃ u, Eval.define globalId "k" (.number k) constant' s = .ok () u ∧
          FindsAt u "k" j xs[j] := by
  have hready := ready_initial hsize constant
  refine ⟨_, rfl, ?_, fun k j hk hj => ⟨fun numeral hnumeral => ?_, fun constant' => ?_⟩⟩
  · obtain ⟨t, ht, hrun⟩ := collecting_ends hready rfl
    refine ⟨t, fun fuel hfuel => evaluateText_of_parse parse_collecting (hrun fuel hfuel),
      ht.output, ?_, fun b => ?_, ?_⟩
    · rw [ht.global]
      cases constant <;> rfl
    · have hout : b.name ≠ "out" := by cases b <;> decide
      have hxs : b.name ≠ "xs" := by cases b <;> decide
      rw [ht.global, if_neg hout, ownSlot?_write, if_neg fun h => hxs h.2.1, ownSlot?_initial]
    · rw [binds_eq_isSome, ht.global]
      rfl
  · exact findsAt (parse_searching_numeral hnumeral) hready rfl (means_literal _ k) hk hj
  · refine ⟨_, rfl, ?_⟩
    exact findsAt parse_searching_name (hready.write (by decide)) rfl (means_name rfl) hk hj

/-- Two elements, the second found at `1.0` and the first at a negative zero. -/
theorem counting_loop_visits_all_twoElements :
    ∃ s t u, Eval.define globalId "xs" (.array [.null, .text "é"]) true .initial = .ok () s ∧
      evaluateText Eval.ample collectingText s = (.ok (.array [.null, .text "é"]), t) ∧
      FindsAt s "1.0" 1 (.text "é") ∧
      Eval.define globalId "k" (.number (.zero true)) false s = .ok () u ∧
      FindsAt u "k" 0 .null := by
  have hsize : [Value.null, .text "é"].length < 2 ^ 53 := by decide
  obtain ⟨s, hs, ⟨t, hrun, -⟩, hfind⟩ := counting_loop_visits_all [.null, .text "é"] true hsize
  have hone : Spells "1.0".toList [.number (.ofNat 1)] :=
    spells_of_words (by decide +kernel) (by decide) (by decide +kernel)
  have hzero : (Binary64.zero true).toRat? = some ((0 : Nat) : ℚ) := by
    rw [Binary64.zero, Binary64.toRat?, show Binary64.signed true 0 = 0 from rfl]
    simp
  obtain ⟨u, hu, hfirst⟩ := (hfind (.zero true) 0 hzero (by decide)).2 false
  refine ⟨s, t, u, hs, hrun _ (by decide +kernel), ?_, hu, hfirst⟩
  exact (hfind (.ofNat 1) 1 (Binary64.toRat?_ofNat (by decide)) (by decide)).1 "1.0" hone

end Scriptlet
