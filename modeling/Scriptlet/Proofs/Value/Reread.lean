import Scriptlet.Proofs.Front.Parts
import Scriptlet.Proofs.Number.Faithful
import Scriptlet.Value.Equality

/-!
# Rendered data evaluates to itself

Numbers, booleans, null, arrays and objects with names for keys (`Value.IsData`) are rendered as
expressions of the language.  The text is scanned piece by piece, is an expression of the grammar,
and evaluates without any effect to an equal value of the same shape and text
(`Value.render_evaluates`); only a negative zero comes back as a positive one.

`Rereads v e w` says all this of one value: the text of `v` writes the expression `e`, and `e`
denotes `w`, which is equal to `v`.  `AllReread` is the same for lists of values; elements and
fields are read back one by one, so each step from values to arrays and objects is an induction on
it.
-/

namespace Scriptlet

open Piece (Spells)

/-! ## Data -/

namespace Value

/-- Finite numbers, booleans, null, arrays of data, and objects of data with names for keys. -/
inductive IsData : Value → Prop
  | number (negative : Bool) {n : Nat} (h : Representable n) :
      IsData (.number (.finite negative n h))
  | boolean (b : Bool) : IsData (.boolean b)
  | null : IsData .null
  | array {elements : List Value} (items : ∀ v ∈ elements, IsData v) : IsData (.array elements)
  | object {fields : List (String × Value)} (distinct : (fields.map Prod.fst).Nodup)
      (names : ∀ f ∈ fields, Piece.IsName f.1) (items : ∀ f ∈ fields, IsData f.2) :
      IsData (.object fields)

/-- The same arrays and objects up to their numbers, with the same keys in the same order at every
level. -/
inductive SameShape : Value → Value → Prop
  | number (x y : Binary64) : SameShape (.number x) (.number y)
  | boolean (b : Bool) : SameShape (.boolean b) (.boolean b)
  | null : SameShape .null .null
  | array {vs ws : List Value} (items : List.Forall₂ SameShape vs ws) :
      SameShape (.array vs) (.array ws)
  | object {fs gs : List (String × Value)} (keys : fs.map Prod.fst = gs.map Prod.fst)
      (items : List.Forall₂ SameShape (fs.map Prod.snd) (gs.map Prod.snd)) :
      SameShape (.object fs) (.object gs)

end Value

/-- The expression has the value in every scope and every state, and leaves the state as it is. -/
def Expr.Denotes (e : Expr) (w : Value) : Prop := ∃ n, ∀ id s, Eval.expr n id e s = .ok w s

/-- The text of `v` is an expression `e` with a value `w` that is equal to `v`, of the same shape
and with the same text. -/
structure Rereads (v : Value) (e : Expr) (w : Value) : Prop where
  written : ∃ ts, Spells v.render.toList ts ∧
    Derives Terminator.required (.expr Level.assignment e) ts
  denotes : e.Denotes w
  equal : v.equals w
  shape : v.SameShape w
  text : w.render = v.render

/-- The values of a list are read back one by one. -/
inductive AllReread : List Value → List Expr → List Value → Prop
  | nil : AllReread [] [] []
  | cons {v w : Value} {e : Expr} {vs ws : List Value} {es : List Expr} (head : Rereads v e w)
      (tail : AllReread vs es ws) : AllReread (v :: vs) (e :: es) (w :: ws)

namespace AllReread

variable {vs ws : List Value} {es : List Expr}

theorem of_forall (h : ∀ v ∈ vs, ∃ e w, Rereads v e w) : ∃ es ws, AllReread vs es ws := by
  induction vs with
  | nil => exact ⟨[], [], .nil⟩
  | cons v vs ih =>
    obtain ⟨⟨e, w, hv⟩, hvs⟩ := List.forall_mem_cons.mp h
    obtain ⟨es, ws, htail⟩ := ih hvs
    exact ⟨e :: es, w :: ws, .cons hv htail⟩

theorem length_exprs (h : AllReread vs es ws) : es.length = vs.length := by
  induction h with
  | nil => rfl
  | cons _ _ ih => rw [List.length_cons, List.length_cons, ih]

theorem length_values (h : AllReread vs es ws) : ws.length = vs.length := by
  induction h with
  | nil => rfl
  | cons _ _ ih => rw [List.length_cons, List.length_cons, ih]

/-! ## Values -/

theorem denotes (h : AllReread vs es ws) : ∃ n, ∀ id s, Eval.exprs n id es s = .ok ws s := by
  induction h with
  | nil => exact ⟨1, fun _ _ => rfl⟩
  | @cons v w e vs ws es head _ ih =>
    obtain ⟨m, hm⟩ := head.denotes
    obtain ⟨n, hn⟩ := ih
    refine ⟨max m n + 1, fun id s => ?_⟩
    have hexpr : Eval.expr (max m n) id e s = .ok w s :=
      (Eval.expr_of_le (Nat.le_max_left m n) id e s (hm id s ▸ trivial)).trans (hm id s)
    have hexprs : Eval.exprs (max m n) id es s = .ok ws s :=
      (Eval.exprs_of_le (Nat.le_max_right m n) id es s (hn id s ▸ trivial)).trans (hn id s)
    exact (Eval.bind_ok hexpr).trans (Eval.bind_ok hexprs)

theorem equal (h : AllReread vs es ws) : Value.equalsList vs ws := by
  induction h with
  | nil => rfl
  | cons head _ ih => rw [Value.equalsList, head.equal, ih]; rfl

theorem shape (h : AllReread vs es ws) : List.Forall₂ Value.SameShape vs ws := by
  induction h with
  | nil => exact .nil
  | cons head _ ih => exact .cons head.shape ih

theorem texts (h : AllReread vs es ws) : ws.map Value.render = vs.map Value.render := by
  induction h with
  | nil => rfl
  | cons head _ ih => rw [List.map_cons, List.map_cons, head.text, ih]

/-! ## Texts -/

/-- The elements of an array, with commas between them. -/
theorem written (h : AllReread vs es ws) :
    ∃ ts, Spells ([',', ' '].intercalate (vs.map fun v => v.render.toList)) ts ∧
      Derives Terminator.required (.list es) ts := by
  induction h with
  | nil => exact ⟨[], Piece.spells_nil, .noItem⟩
  | @cons v w e vs ws es head tail ih =>
    obtain ⟨ts, hspells, hderives⟩ := head.written
    obtain ⟨us, hspells', hderives'⟩ := ih
    cases tail with
    | nil =>
      refine ⟨ts, ?_, .lastItem hderives⟩
      rwa [List.map_singleton, List.intercalate_singleton]
    | cons head' tail' =>
      refine ⟨ts ++ .symbol .comma :: us, ?_, .moreItems hderives hderives'⟩
      rw [List.map_cons] at hspells'
      rw [List.map_cons, List.map_cons, List.intercalate_cons_cons, List.append_assoc]
      exact hspells.separated hspells' .comma rfl (Piece.breaks_cons (by decide) _)

/-- The fields of an object, with commas between them. -/
theorem written_fields {keys : List String} (h : AllReread vs es ws)
    (hkeys : ∀ key ∈ keys, Piece.IsName key) (hlength : keys.length = vs.length) :
    ∃ ts, Spells ([',', ' '].intercalate
        ((keys.zip vs).map fun f => (Value.renderField f).toList)) ts ∧
      Derives Terminator.required (.properties (keys.zip es)) ts := by
  induction h generalizing keys with
  | nil =>
    rw [List.length_eq_zero_iff.mp hlength]
    exact ⟨[], Piece.spells_nil, .noProperty⟩
  | @cons v w e vs ws es head tail ih =>
    obtain ⟨key, keys, rfl⟩ := List.exists_cons_of_length_eq_add_one hlength
    obtain ⟨hkey, hkeys⟩ := List.forall_mem_cons.mp hkeys
    obtain ⟨ts, hspells, hderives⟩ := head.written
    obtain ⟨us, hspells', hderives'⟩ := ih hkeys (Nat.succ.inj hlength)
    have hfield : Spells (Value.renderField (key, v)).toList
        (.name key :: .symbol .colon :: ts) := by
      rw [Value.renderField, String.toList_append, String.toList_append, List.append_assoc]
      exact (Piece.spells_name hkey).separated hspells .colon rfl (Piece.breaks_cons (by decide) _)
    cases tail with
    | nil =>
      obtain rfl := List.length_eq_zero_iff.mp (Nat.succ.inj hlength)
      refine ⟨.name key :: .symbol .colon :: ts, ?_, .lastProperty hderives⟩
      rwa [List.zip_cons_cons, List.zip_nil_left, List.map_singleton, List.intercalate_singleton]
    | cons head' tail' =>
      obtain ⟨key', keys, rfl⟩ := List.exists_cons_of_length_eq_add_one (Nat.succ.inj hlength)
      refine ⟨.name key :: .symbol .colon :: (ts ++ .symbol .comma :: us), ?_,
        .moreProperties hderives hderives'⟩
      rw [List.zip_cons_cons, List.map_cons] at hspells'
      rw [List.zip_cons_cons, List.zip_cons_cons, List.map_cons, List.map_cons,
        List.intercalate_cons_cons, List.append_assoc]
      exact hfield.separated hspells' .comma rfl (Piece.breaks_cons (by decide) _)

end AllReread

/-! ## Objects -/

namespace Fields

variable {α : Type}

theorem insert_of_notMem {key : String} {fs : Fields α} (h : key ∉ fs.map Prod.fst) (item : α) :
    fs.insert key item = fs ++ [(key, item)] := by
  induction fs with
  | nil => rfl
  | cons f fs ih =>
    rw [List.map_cons, List.mem_cons, not_or] at h
    rw [insert, if_neg fun hk => h.1 hk.symm, ih h.2, List.cons_append]

/-- Fields with different keys stay as they are. -/
theorem ofList_of_nodup {items : List (String × α)} (h : (items.map Prod.fst).Nodup) :
    ofList items = items := by
  -- The items inserted so far stand in front.
  have aux : ∀ before : Fields α, ((before ++ items).map Prod.fst).Nodup →
      items.foldl (fun fs p => fs.insert p.1 p.2) before = before ++ items := by
    clear h
    induction items with
    | nil => exact fun before _ => (List.append_nil before).symm
    | cons i items ih =>
      intro before hnodup
      have hfresh : i.1 ∉ before.map Prod.fst := by
        rw [List.map_append, List.map_cons] at hnodup
        exact fun hmem => (List.nodup_append.mp hnodup).2.2 _ hmem _ List.mem_cons_self rfl
      rw [List.append_cons] at hnodup
      rw [List.foldl_cons, insert_of_notMem hfresh, ih _ hnodup, ← List.append_cons]
  exact aux [] h

theorem get?_append_of_notMem {key : String} {before fs : Fields α}
    (h : key ∉ before.map Prod.fst) : (before ++ fs).get? key = fs.get? key := by
  induction before with
  | nil => rfl
  | cons f before ih =>
    rw [List.map_cons, List.mem_cons, not_or] at h
    rw [get?, List.cons_append, List.lookup_cons, beq_false_of_ne h.1]
    exact ih h.2

end Fields

namespace Value

/-- Fields with equal items under the same keys in the same order are all found, also behind fields
with other keys. -/
theorem fieldsIn_append_zip {keys : List String} {vs ws : List Value} (before : Fields Value)
    (hnodup : (before.map Prod.fst ++ keys).Nodup) (hequal : equalsList vs ws)
    (hlength : keys.length = vs.length) :
    fieldsIn (keys.zip vs) (before ++ keys.zip ws) := by
  induction keys generalizing vs ws before with
  | nil => rfl
  | cons key keys ih =>
    obtain ⟨v, vs, rfl⟩ := List.exists_cons_of_length_eq_add_one hlength.symm
    cases ws with
    | nil => cases hequal
    | cons w ws =>
      rw [equalsList, Bool.and_eq_true] at hequal
      have hfresh : key ∉ before.map Prod.fst :=
        fun hmem => (List.nodup_append.mp hnodup).2.2 _ hmem _ List.mem_cons_self rfl
      have hfound : Fields.get? key (before ++ (key, w) :: keys.zip ws) = some w := by
        rw [Fields.get?_append_of_notMem hfresh, Fields.get?, List.lookup_cons_self]
      rw [List.zip_cons_cons, List.zip_cons_cons, fieldsIn, fieldIn, hfound, Bool.and_eq_true]
      refine ⟨hequal.1, ?_⟩
      rw [List.append_cons]
      refine ih _ ?_ hequal.2 (Nat.succ.inj hlength)
      rwa [List.map_append, List.append_assoc]

end Value

namespace Value

/-- The text of an object with the given texts of fields. -/
def bracedText : List String → String
  | [] => "\x7b\x7d"
  | t :: ts => "\x7b " ++ String.intercalate ", " (t :: ts) ++ " \x7d"

theorem render_object (fields : List (String × Value)) :
    (object fields).render = bracedText (fields.map renderField) := by
  cases fields with
  | nil => rw [render]; rfl
  | cons f fields => rw [render, renderFields_eq_map]; rfl

theorem map_renderField_zip {keys : List String} {vs ws : List Value}
    (h : ws.map render = vs.map render) :
    (keys.zip ws).map renderField = (keys.zip vs).map renderField := by
  induction keys generalizing vs ws with
  | nil => rfl
  | cons key keys ih =>
    cases vs with
    | nil => rw [List.map_eq_nil_iff.mp h]
    | cons v vs =>
      obtain ⟨w, ws, rfl, hw, hws⟩ := List.map_eq_cons_iff.mp h
      rw [List.zip_cons_cons, List.zip_cons_cons, List.map_cons, List.map_cons, renderField,
        renderField, hw, ih hws]

/-- The braces stand together if there is nothing between them; else a space stands inside each. -/
theorem spells_bracedText {texts : List String} {ts : List Token}
    (h : Spells ([',', ' '].intercalate (texts.map String.toList)) ts) :
    Spells (bracedText texts).toList (.symbol .leftBrace :: (ts ++ [.symbol .rightBrace])) := by
  cases texts with
  | nil =>
    exact h.enclosed .leftBrace .rightBrace [] nofun rfl rfl
      (Piece.breaks_cons (by decide) _)
  | cons t texts =>
    have htext : (bracedText (t :: texts)).toList = Symbol.leftBrace.spelling ++ ([' '] ++
        ([',', ' '].intercalate ((t :: texts).map String.toList) ++
          ([' '] ++ Symbol.rightBrace.spelling))) := by
      rw [bracedText, String.toList_append, String.toList_append, String.toList_intercalate,
        List.append_assoc]
      rfl
    rw [htext]
    exact h.enclosed .leftBrace .rightBrace [' '] (List.forall_mem_singleton.mpr rfl) rfl rfl
      (Piece.breaks_cons (by decide) _)

end Value

/-! ## One value -/

namespace Rereads

theorem literal {v : Value} {l : Literal} (hspells : Spells v.render.toList [l.token])
    (hequal : v.equals (.ofLiteral l)) (hshape : v.SameShape (.ofLiteral l))
    (htext : (Value.ofLiteral l).render = v.render) : Rereads v (.literal l) (.ofLiteral l) where
  written := ⟨_, hspells, (Derives.literal l).loosen_le (by decide)⟩
  denotes := ⟨1, fun _ _ => rfl⟩
  equal := hequal
  shape := hshape
  text := htext

theorem null : Rereads .null (.literal .null) .null :=
  literal (Piece.spells_keyword .nullWord) rfl .null rfl

theorem boolean (b : Bool) : Rereads (.boolean b) (.literal (.boolean b)) (.boolean b) := by
  cases b with
  | true => exact literal (Piece.spells_keyword .trueWord) rfl (.boolean true) rfl
  | false => exact literal (Piece.spells_keyword .falseWord) rfl (.boolean false) rfl

/-- A number without a sign is a literal; so is a negative zero, which has no sign in its text. -/
theorem unsigned {negative : Bool} {n : Nat} (h : Representable n)
    (hsign : (negative && n != 0) = false) :
    Rereads (.number (.finite negative n h)) (.literal (.number (.finite false n h)))
      (.number (.finite false n h)) := by
  have hequal : (Binary64.finite negative n h).equals (.finite false n h) := by
    rw [Binary64.equals_finite, decide_eq_true_eq]
    cases negative with
    | false => rfl
    | true =>
      have hn : n = 0 := by simpa using hsign
      subst hn
      rfl
  refine literal ?_ hequal (.number _ _) ?_
  · have hspells := (Binary64.finite negative n h).spells_text
    rwa [Binary64.reading, Binary64.isNegative_finite, hsign] at hspells
  · exact (Binary64.text_eq_iff_key.mpr (Binary64.key_eq_iff.mpr (.inl hequal))).symm

/-- A sign makes a number the operand of a negation. -/
theorem negative {n : Nat} (h : Representable n) (hn : n ≠ 0) :
    Rereads (.number (.finite true n h)) (.unary .negate (.literal (.number (.finite false n h))))
      (.number (.finite true n h)) where
  written := by
    refine ⟨[.symbol .minus, .number (.finite false n h)], ?_, ?_⟩
    · have hspells := (Binary64.finite true n h).spells_text
      rwa [Binary64.reading, Binary64.isNegative_finite, Bool.true_and,
        bne_iff_ne.mpr hn] at hspells
    · exact (Derives.unary ((Derives.literal (.number (.finite false n h))).loosen_le
        (by decide))).loosen_le (by decide)
  denotes := ⟨2, fun _ _ => rfl⟩
  equal := by
    exact decide_eq_true rfl
  shape := .number _ _
  text := rfl

theorem array {vs ws : List Value} {es : List Expr} (h : AllReread vs es ws) :
    Rereads (.array vs) (.array es) (.array ws) where
  written := by
    obtain ⟨ts, hspells, hderives⟩ := h.written
    refine ⟨_, ?_, (Derives.array hderives).loosen_le (by decide)⟩
    have htext : (Value.array vs).render.toList = Symbol.leftBracket.spelling ++ ([] ++
        ([',', ' '].intercalate (vs.map fun v => v.render.toList) ++
          ([] ++ Symbol.rightBracket.spelling))) := by
      rw [Value.render, Value.renderList_eq_map, String.toList_append, String.toList_append,
        String.toList_intercalate, List.map_map, List.append_assoc]
      rfl
    rw [htext]
    exact hspells.enclosed .leftBracket .rightBracket [] nofun rfl rfl
      (Piece.breaks_cons (by decide) _)
  denotes := by
    obtain ⟨n, hn⟩ := h.denotes
    exact ⟨n + 1, fun id s => Eval.bind_ok (hn id s)⟩
  equal := h.equal
  shape := .array h.shape
  text := by
    rw [Value.render, Value.render, Value.renderList_eq_map, Value.renderList_eq_map, h.texts]

theorem object {keys : List String} {vs ws : List Value} {es : List Expr} (h : AllReread vs es ws)
    (hnodup : keys.Nodup) (hkeys : ∀ key ∈ keys, Piece.IsName key)
    (hlength : keys.length = vs.length) :
    Rereads (.object (keys.zip vs)) (.object (keys.zip es)) (.object (keys.zip ws)) := by
  have hes : es.length = keys.length := h.length_exprs.trans hlength.symm
  have hws : ws.length = keys.length := h.length_values.trans hlength.symm
  have hnodup' : ((keys.zip ws).map Prod.fst).Nodup := by
    rwa [List.map_fst_zip (Nat.le_of_eq hws.symm)]
  refine ⟨?_, ?_, ?_, ?_, ?_⟩
  · obtain ⟨ts, hspells, hderives⟩ := h.written_fields hkeys hlength
    refine ⟨_, ?_, (Derives.object hderives).loosen_le (by decide)⟩
    rw [Value.render_object]
    refine Value.spells_bracedText ?_
    rwa [List.map_map]
  · obtain ⟨n, hn⟩ := h.denotes
    refine ⟨n + 1, fun id s => ?_⟩
    have hrun : Eval.exprs n id ((keys.zip es).map Prod.snd) s = .ok ws s := by
      rw [List.map_snd_zip (Nat.le_of_eq hes)]
      exact hn id s
    refine (Eval.bind_ok hrun).trans ?_
    rw [List.map_fst_zip (Nat.le_of_eq hes.symm), Fields.ofList_of_nodup hnodup']
    rfl
  · rw [Value.equals, Bool.and_eq_true]
    refine ⟨?_, Value.fieldsIn_append_zip [] hnodup h.equal hlength⟩
    rw [List.length_zip, List.length_zip, hws, hlength]
    exact beq_self_eq_true _
  · refine .object ?_ ?_
    · rw [List.map_fst_zip (Nat.le_of_eq hlength), List.map_fst_zip (Nat.le_of_eq hws.symm)]
    · rw [List.map_snd_zip (Nat.le_of_eq hlength.symm), List.map_snd_zip (Nat.le_of_eq hws)]
      exact h.shape
  · rw [Value.render_object, Value.render_object, Value.map_renderField_zip h.texts]

end Rereads

theorem Value.IsData.rereads {v : Value} (h : v.IsData) : ∃ e w, Rereads v e w := by
  induction h with
  | @number negative n h =>
    cases hsign : negative && n != 0 with
    | false => exact ⟨_, _, .unsigned h hsign⟩
    | true =>
      rw [Bool.and_eq_true, bne_iff_ne] at hsign
      obtain ⟨rfl, hn⟩ := hsign
      exact ⟨_, _, .negative h hn⟩
  | boolean b => exact ⟨_, _, .boolean b⟩
  | null => exact ⟨_, _, .null⟩
  | array _ ih =>
    obtain ⟨es, ws, h⟩ := AllReread.of_forall ih
    exact ⟨_, _, .array h⟩
  | @object fields distinct names _ ih =>
    have hitems : ∀ v ∈ fields.map Prod.snd, ∃ e w, Rereads v e w := by
      intro v hv
      obtain ⟨f, hf, rfl⟩ := List.mem_map.mp hv
      exact ih f hf
    obtain ⟨es, ws, h⟩ := AllReread.of_forall hitems
    have hkeys : ∀ key ∈ fields.map Prod.fst, Piece.IsName key := by
      intro key hkey
      obtain ⟨f, hf, rfl⟩ := List.mem_map.mp hkey
      exact names f hf
    have hzip : (fields.map Prod.fst).zip (fields.map Prod.snd) = fields := by
      rw [← List.unzip_fst, ← List.unzip_snd, List.zip_unzip]
    have hobject := Rereads.object h distinct hkeys (by rw [List.length_map, List.length_map])
    rw [hzip] at hobject
    exact ⟨_, _, hobject⟩

/-! ## Scripts -/

/-- An expression alone is a program of one statement. -/
theorem parseProgram_expression {e : Expr} {located : List Located} {final : Located}
    (h : Derives Terminator.required (.expr Level.assignment e) (located.map Located.token))
    (hfinal : final.token = .endOfInput) :
    parseProgram (located ++ [final]) = ⟨[.expression e], []⟩ := by
  obtain ⟨hstarts, hread⟩ := h.read
  obtain ⟨b, htakes, hanswer⟩ := hread (.expression .goal) (Nat.le_refl _)
  have htakes := Phrase.Read.expressionStart hstarts htakes
  have hdone : b.step (ParseState.peek [final]) = .done (.expression e) := by
    rw [ParseState.peek, hfinal, hanswer _ (by decide)]
    rfl
  have hparse : Goal.statement.parse (located ++ [final]) = .parsed (.expression e) [final] :=
    htakes.run_parsed hdone
  cases located with
  | nil =>
    obtain ⟨t, ts, hnil, _⟩ := hstarts
    cases hnil
  | cons t located =>
    have hne : t.token ≠ .endOfInput := htakes.ne_endOfInput _ List.mem_cons_self
    have hprogram : parseProgram (t :: located ++ [final]) =
        (parseProgram [final]).withStatement (.expression e) := parseProgram_parsed hne hparse
    rw [hprogram, parseProgram, dif_pos hfinal]
    rfl

theorem Script.parse_expression {source : String} {ts : List Token} {e : Expr}
    (hspells : Spells source.toList ts)
    (hderives : Derives Terminator.required (.expr Level.assignment e) ts) :
    parse source = ⟨[.expression e], []⟩ := by
  obtain ⟨located, final, htokens, hfinal, hlocated⟩ := tokens_eq source.toList
  rw [hspells.words_eq] at hlocated
  rw [parse_of_clean hspells.clean, htokens, parseProgram_expression (hlocated ▸ hderives) hfinal]
  rfl

theorem Expr.Denotes.program {e : Expr} {w : Value} (h : e.Denotes w) :
    ∃ N, ∀ fuel, N ≤ fuel → ∀ s, Eval.program fuel [.expression e] s = .ok w s := by
  obtain ⟨n, hn⟩ := h
  refine ⟨n + 2, fun fuel hfuel s => ?_⟩
  have hrun : Eval.program (n + 2) [.expression e] s = .ok w s := by
    have hstatement : Eval.statement (n + 1) State.globalId (.expression e) s = .ok (.normal w) s :=
      Eval.bind_ok (hn State.globalId s)
    have hstatements : Eval.statements (n + 2) State.globalId .null [.expression e] s =
        .ok (.normal w) s := by
      rw [Eval.statements_cons, hstatement]
      rfl
    exact Eval.bind_ok hstatements
  exact (Eval.program_of_le hfuel _ s (hrun ▸ trivial)).trans hrun

/-- **Rendered data evaluates to itself.**  The text of data is a script of one expression without
diagnostics.  In every state it evaluates, and leaves the state as it is, to a value that is equal
to the data, has the same keys in the same order at every level, and has the same text. -/
theorem Value.render_evaluates (v : Value) (h : v.IsData) :
    ∃ e w, Script.parse v.render = ⟨[.expression e], []⟩ ∧
      (∃ N, ∀ fuel, N ≤ fuel → ∀ s, Eval.program fuel [.expression e] s = .ok w s) ∧
      v.equals w ∧ v.SameShape w ∧ w.render = v.render := by
  obtain ⟨e, w, hv⟩ := h.rereads
  obtain ⟨ts, hspells, hderives⟩ := hv.written
  exact ⟨e, w, Script.parse_expression hspells hderives, hv.denotes.program, hv.equal, hv.shape,
    hv.text⟩

/-- An object with a negative zero, an empty object and an array in it. -/
def sampleData : Value :=
  .object [("minus", .array [.number (.zero true), .boolean true, .null]), ("_2", .object [])]

theorem Value.render_evaluates_sampleData :
    sampleData.IsData ∧ ∃ e w, Script.parse sampleData.render = ⟨[.expression e], []⟩ ∧
      (∃ N, ∀ fuel, N ≤ fuel → ∀ s, Eval.program fuel [.expression e] s = .ok w s) ∧
      sampleData.equals w ∧ sampleData.SameShape w ∧ w.render = sampleData.render := by
  have hminus : Piece.IsName "minus" :=
    ⟨Rule.mem_name rfl rfl, fun k => by cases k <;> decide⟩
  have htwo : Piece.IsName "_2" :=
    ⟨Rule.mem_name rfl rfl, fun k => by cases k <;> decide⟩
  have hdata : sampleData.IsData := by
    refine .object (by decide) ?_ ?_
    · simp [hminus, htwo]
    · rintro f hf
      rcases List.mem_pair.mp hf with rfl | rfl
      · refine .array ?_
        simp [IsData.boolean, IsData.null, Binary64.zero, IsData.number]
      · exact .object List.nodup_nil (List.forall_mem_nil _) (List.forall_mem_nil _)
  exact ⟨hdata, Value.render_evaluates sampleData hdata⟩

end Scriptlet
