import Mathlib.Data.List.Forall2
import Scriptlet.Eval.Basic

/-!
# Values that differ in their closures

Two programs that do the same may still make different closures: with another body, captured in
another scope.  Two values are **alike** when they are the same apart from that: their closures
stand in the same places and have the same parameters, related bodies and related scopes
(`Value.Like`).  Which bodies and which scopes are related is left open.

A program cannot tell like values apart, except by calling them.  Operators, indexing, members and
builtin functions make like values of like operands, or the same fault; and like values are printed
alike.

* `Value.Like.render_eq`: like values have the same text.
* `BinaryOp.apply_like`, `Value.index_like`, `Builtin.apply_like`, …: like answers.
-/

namespace Scriptlet

/-! ## Fields -/

namespace Fields

variable {α β : Type} {R : α → β → Prop}

/-- Related items under the same key. -/
inductive Entry (R : α → β → Prop) : String × α → String × β → Prop where
  | mk (key : String) {a : α} {b : β} : R a b → Entry R (key, a) (key, b)

/-- Fields with the same keys in the same order and related items. -/
abbrev Like (R : α → β → Prop) : Fields α → Fields β → Prop := List.Forall₂ (Entry R)

namespace Like

variable {fs : Fields α} {gs : Fields β}

theorem get? (h : Like R fs gs) (key : String) : Option.Rel R (fs.get? key) (gs.get? key) := by
  induction h with
  | nil => exact .none
  | cons hp _ ih =>
    obtain ⟨k, hab⟩ := hp
    simp only [Fields.get?, List.lookup_cons]
    split
    · exact .some hab
    · exact ih

theorem insert (h : Like R fs gs) (key : String) {a : α} {b : β} (hab : R a b) :
    Like R (fs.insert key a) (gs.insert key b) := by
  induction h with
  | nil => exact .cons (.mk key hab) .nil
  | cons hp hrest ih =>
    obtain ⟨k, hold⟩ := hp
    rw [Fields.insert, Fields.insert]
    split
    · exact .cons (.mk k hab) hrest
    · exact .cons (.mk k hold) ih

theorem ofList {ps : List (String × α)} {qs : List (String × β)} (h : Like R ps qs) :
    Like R (Fields.ofList ps) (Fields.ofList qs) := by
  have aux : ∀ {fs : Fields α} {gs : Fields β}, Like R fs gs →
      Like R (ps.foldl (fun fs p => fs.insert p.1 p.2) fs)
        (qs.foldl (fun fs p => fs.insert p.1 p.2) gs) := by
    induction h with
    | nil => exact fun hfs => hfs
    | cons hp _ ih =>
      intro fs gs hfs
      obtain ⟨k, hab⟩ := hp
      exact ih (hfs.insert k hab)
  exact aux .nil

theorem zip {as : List α} {bs : List β} (h : List.Forall₂ R as bs) (keys : List String) :
    Like R (keys.zip as) (keys.zip bs) := by
  induction h generalizing keys with
  | nil =>
    rw [List.zip_nil_right, List.zip_nil_right]
    exact .nil
  | cons hab _ ih =>
    cases keys with
    | nil => exact .nil
    | cons key keys => exact .cons (.mk key hab) (ih keys)

theorem keys_eq (h : Like R fs gs) : gs.map Prod.fst = fs.map Prod.fst := by
  induction h with
  | nil => rfl
  | cons hp _ ih =>
    obtain ⟨key, _⟩ := hp
    rw [List.map_cons, List.map_cons, ih]

theorem items (h : Like R fs gs) : List.Forall₂ R (fs.map Prod.snd) (gs.map Prod.snd) := by
  induction h with
  | nil => exact .nil
  | cons hp _ ih =>
    obtain ⟨_, hab⟩ := hp
    exact .cons hab ih

end Like

end Fields

/-! ## Values -/

/-- The values are the same apart from the bodies and the scopes of their closures. -/
inductive Value.Like (bodies : Block → Block → Prop) (scopes : ScopeId → ScopeId → Prop) :
    Value → Value → Prop where
  | number (n : Binary64) : Value.Like bodies scopes (.number n) (.number n)
  | text (s : String) : Value.Like bodies scopes (.text s) (.text s)
  | boolean (b : Bool) : Value.Like bodies scopes (.boolean b) (.boolean b)
  | null : Value.Like bodies scopes .null .null
  | builtin (b : Builtin) : Value.Like bodies scopes (.builtin b) (.builtin b)
  | array {vs vs' : List Value} :
      List.Forall₂ (Value.Like bodies scopes) vs vs' →
      Value.Like bodies scopes (.array vs) (.array vs')
  | object {fs fs' : List (String × Value)} :
      List.Forall₂ (Fields.Entry (Value.Like bodies scopes)) fs fs' →
      Value.Like bodies scopes (.object fs) (.object fs')
  | closure (parameters : List String) {body body' : Block} {id id' : ScopeId} :
      bodies body body' → scopes id id' →
      Value.Like bodies scopes (.closure parameters body id) (.closure parameters body' id')

/-- A relation between lists may use that the items stand in the first one. -/
theorem forall₂_imp_of_mem {α β : Type} {R S : α → β → Prop} {as : List α} {bs : List β}
    (h : List.Forall₂ R as bs) (himp : ∀ a ∈ as, ∀ b, R a b → S a b) : List.Forall₂ S as bs := by
  induction h with
  | nil => exact .nil
  | cons hab _ ih =>
    obtain ⟨hhead, htail⟩ := List.forall_mem_cons.mp himp
    exact .cons (hhead _ hab) (ih htail)

theorem map_eq_of_forall₂ {α β γ : Type} {R : α → β → Prop} {f : α → γ} {g : β → γ} {as : List α}
    {bs : List β} (h : List.Forall₂ R as bs) (hfg : ∀ a ∈ as, ∀ b, R a b → g b = f a) :
    bs.map g = as.map f := by
  induction h with
  | nil => rfl
  | cons hab _ ih =>
    obtain ⟨hhead, htail⟩ := List.forall_mem_cons.mp hfg
    rw [List.map_cons, List.map_cons, hhead _ hab, ih htail]

namespace Value.Like

variable {bodies : Block → Block → Prop} {scopes scopes' : ScopeId → ScopeId → Prop}
  {v v' : Value}

theorem imp (hscopes : ∀ id id', scopes id id' → scopes' id id') :
    ∀ {v v' : Value}, v.Like bodies scopes v' → v.Like bodies scopes' v'
  | _, _, .number n => .number n
  | _, _, .text s => .text s
  | _, _, .boolean b => .boolean b
  | _, _, .null => .null
  | _, _, .builtin b => .builtin b
  | _, _, .array h => .array (forall₂_imp_of_mem h fun _ _ _ hlike => imp hscopes hlike)
  | _, _, .object h => .object (forall₂_imp_of_mem h fun _ hp _ ⟨key, hlike⟩ =>
      have := List.sizeOf_lt_of_mem hp
      .mk key (imp hscopes hlike))
  | _, _, .closure parameters hbody hid => .closure parameters hbody (hscopes _ _ hid)
termination_by v => sizeOf v
decreasing_by
  · decreasing_tactic
  · simp only [Prod.mk.sizeOf_spec, Value.object.sizeOf_spec] at this ⊢
    omega

theorem kind_eq (h : v.Like bodies scopes v') : v'.kind = v.kind := by
  cases h <;> rfl

theorem truthy_eq (h : v.Like bodies scopes v') : v'.truthy = v.truthy := by
  cases h with
  | array h =>
    cases h with
    | nil => rfl
    | cons => rfl
  | _ => rfl

/-- **Like values have the same text.** -/
theorem render_eq : ∀ {v v' : Value}, v.Like bodies scopes v' → v'.render = v.render
  | _, _, .number _ | _, _, .text _ | _, _, .boolean _ | _, _, .null | _, _, .builtin _ => rfl
  | _, _, .array h => by
      rw [render, render, renderList_eq_map, renderList_eq_map,
        map_eq_of_forall₂ h fun _ _ _ hlike => render_eq hlike]
  | _, _, .object .nil => rfl
  | _, _, .object (.cons hf hfs) => by
      have hfields := map_eq_of_forall₂ (f := renderField) (g := renderField)
        (List.Forall₂.cons hf hfs) fun p hp _ ⟨key, hlike⟩ => by
          have := List.sizeOf_lt_of_mem hp
          rw [renderField, renderField, render_eq hlike]
      rw [List.map_cons, List.map_cons, ← renderFields_eq_map, ← renderFields_eq_map] at hfields
      rw [render, render, hfields]
  | _, _, .closure _ _ _ => by rw [render, render]
termination_by v => sizeOf v
decreasing_by
  · decreasing_tactic
  · simp only [Prod.mk.sizeOf_spec, Value.object.sizeOf_spec] at this ⊢
    omega

/-- Values without parts are like themselves. -/
theorem ofLiteral (l : Literal) : (Value.ofLiteral l).Like bodies scopes (.ofLiteral l) := by
  cases l <;> constructor

theorem getD {found found' : Option Value}
    (h : Option.Rel (Value.Like bodies scopes) found found') :
    (found.getD .null).Like bodies scopes (found'.getD .null) := by
  cases h with
  | none => exact .null
  | some h => exact h

end Value.Like

/-! ## Answers -/

/-- Both answers are related values, or the same fault. -/
inductive AnswersAlike {α β : Type} (R : α → β → Prop) :
    Except Fault α → Except Fault β → Prop where
  | ok {a : α} {b : β} : R a b → AnswersAlike R (.ok a) (.ok b)
  | error (f : Fault) : AnswersAlike R (.error f) (.error f)

section Answers

variable {bodies : Block → Block → Prop} {scopes : ScopeId → ScopeId → Prop} {v v' w w' : Value}

theorem BinaryOp.onNumbers_like (op : BinaryOp) (a b : Binary64) :
    AnswersAlike (Value.Like bodies scopes) (op.onNumbers a b) (op.onNumbers a b) := by
  cases op with
  | div =>
    rw [onNumbers]
    split
    · exact .error _
    · exact .ok (.number _)
  | and | or => exact .error _
  | add | sub | mul | rem => exact .ok (.number _)
  | _ => exact .ok (.boolean _)

theorem BinaryOp.onTexts_like (op : BinaryOp) (a b : String) :
    AnswersAlike (Value.Like bodies scopes) (op.onTexts a b) (op.onTexts a b) := by
  cases op with
  | add => exact .ok (.text _)
  | equal | notEqual => exact .ok (.boolean _)
  | _ => exact .error _

theorem BinaryOp.sameSimple?_like (hv : v.Like bodies scopes v') (hw : w.Like bodies scopes w') :
    sameSimple? v' w' = sameSimple? v w := by
  unfold sameSimple?
  rw [hv.kind_eq, hw.kind_eq]
  cases hv <;> cases hw <;> rfl

theorem BinaryOp.onOthers_like (op : BinaryOp) (hv : v.Like bodies scopes v')
    (hw : w.Like bodies scopes w') :
    AnswersAlike (Value.Like bodies scopes) (op.onOthers v w) (op.onOthers v' w') := by
  unfold onOthers unsupported
  rw [sameSimple?_like hv hw, hv.kind_eq, hw.kind_eq]
  split
  · exact .ok (.boolean _)
  · exact .ok (.boolean _)
  · exact .error _

theorem BinaryOp.apply_like (op : BinaryOp) (hv : v.Like bodies scopes v')
    (hw : w.Like bodies scopes w') :
    AnswersAlike (Value.Like bodies scopes) (op.apply v w) (op.apply v' w') := by
  have hothers := onOthers_like op hv hw
  cases op with
  | and | or =>
    rw [apply, apply, hv.truthy_eq, hw.truthy_eq]
    exact .ok (.boolean _)
  | _ =>
    cases hv with
    | number a =>
      cases hw with
      | number b => rw [apply] <;> first | exact onNumbers_like _ a b | exact nofun
      | _ => exact hothers
    | text a =>
      cases hw with
      | text b => rw [apply] <;> first | exact onTexts_like _ a b | exact nofun
      | _ => exact hothers
    | _ => exact hothers

theorem UnaryOp.apply_like (op : UnaryOp) (hv : v.Like bodies scopes v') :
    AnswersAlike (Value.Like bodies scopes) (op.apply v) (op.apply v') := by
  cases op with
  | not =>
    rw [apply, apply, hv.truthy_eq]
    exact .ok (.boolean _)
  | negate =>
    cases hv with
    | number n => exact .ok (.number _)
    | _ => exact .error _

theorem Value.member_like (hv : v.Like bodies scopes v') (key : String) :
    AnswersAlike (Value.Like bodies scopes) (v.member key) (v'.member key) := by
  cases hv with
  | object h => exact .ok (.getD (Fields.Like.get? h key))
  | _ => exact .error _

theorem rel_getElem? {α β : Type} {R : α → β → Prop} {as : List α} {bs : List β}
    (h : List.Forall₂ R as bs) (i : Nat) : Option.Rel R as[i]? bs[i]? := by
  induction h generalizing i with
  | nil => exact .none
  | cons hab _ ih =>
    cases i with
    | zero => exact .some hab
    | succ i => exact ih i

theorem Value.index_like (hv : v.Like bodies scopes v') (hw : w.Like bodies scopes w') :
    AnswersAlike (Value.Like bodies scopes) (v.index w) (v'.index w') := by
  cases hv with
  | array h =>
    cases hw with
    | number n =>
      refine .ok (.getD ?_)
      cases n.toIndex? with
      | none => exact .none
      | some i => exact rel_getElem? h i
    | _ => exact .error _
  | text s =>
    cases hw with
    | number n =>
      refine .ok (.getD ?_)
      cases n.toIndex?.bind (s.toList[·]?) with
      | none => exact .none
      | some c => exact .some (.text _)
    | _ => exact .error _
  | object h =>
    cases hw with
    | text key => exact .ok (.getD (Fields.Like.get? h key))
    | _ => exact .error _
  | _ => cases hw <;> exact .error _

theorem AnswersAlike.map {α β γ δ : Type} {R : α → β → Prop} {S : γ → δ → Prop}
    {r : Except Fault α} {r' : Except Fault β} (h : AnswersAlike R r r') {f : α → γ} {g : β → δ}
    (hfg : ∀ a b, R a b → S (f a) (g b)) : AnswersAlike S (r.map f) (r'.map g) := by
  cases h with
  | ok hab => exact .ok (hfg _ _ hab)
  | error f => exact .error f

namespace Builtin

variable {arguments arguments' : List Value}

theorem arrayArgument_like (b : Builtin)
    (h : List.Forall₂ (Value.Like bodies scopes) arguments arguments') :
    AnswersAlike (List.Forall₂ (Value.Like bodies scopes)) (b.arrayArgument arguments)
      (b.arrayArgument arguments') := by
  cases h with
  | nil => exact .error _
  | cons hv hrest =>
    cases hrest with
    | nil =>
      cases hv with
      | array h => exact .ok h
      | _ => exact .error _
    | cons => cases hv <;> exact .error _

theorem length_like (h : List.Forall₂ (Value.Like bodies scopes) arguments arguments') :
    AnswersAlike (Value.Like bodies scopes) (length arguments) (length arguments') := by
  cases h with
  | nil => exact .error _
  | cons hv hrest =>
    cases hrest with
    | nil =>
      cases hv with
      | text s => exact .ok (.number _)
      | array h =>
        rw [length, length, h.length_eq]
        exact .ok (.number _)
      | _ => exact .error _
    | cons => cases hv <;> exact .error _

theorem rel_head? {α β : Type} {R : α → β → Prop} {as : List α} {bs : List β}
    (h : List.Forall₂ R as bs) : Option.Rel R as.head? bs.head? := by
  cases h with
  | nil => exact .none
  | cons hab _ => exact .some hab

theorem rel_getLast? {α β : Type} {R : α → β → Prop} {as : List α} {bs : List β}
    (h : List.Forall₂ R as bs) : Option.Rel R as.getLast? bs.getLast? := by
  rw [List.getLast?_eq_getElem?, List.getLast?_eq_getElem?, h.length_eq]
  exact rel_getElem? h _

/-- **Builtin functions answer like arguments alike.** -/
theorem apply_like (b : Builtin)
    (h : List.Forall₂ (Value.Like bodies scopes) arguments arguments') :
    AnswersAlike (Value.Like bodies scopes) (b.apply arguments) (b.apply arguments') := by
  cases b with
  | print => exact .ok .null
  | len => exact length_like h
  | type =>
    cases h with
    | nil => exact .error _
    | cons hv _ =>
      rw [apply, apply, hv.kind_eq]
      exact .ok (.text _)
  | push =>
    cases h with
    | nil => exact .error _
    | cons hv hrest =>
      cases hv with
      | array h => exact .ok (.array (List.rel_append h hrest))
      | _ => exact .error _
  | pop => exact (arrayArgument_like .pop h).map fun _ _ h => .getD (rel_getLast? h)
  | first => exact (arrayArgument_like .first h).map fun _ _ h => .getD (rel_head? h)
  | last => exact (arrayArgument_like .last h).map fun _ _ h => .getD (rel_getLast? h)
  | rest =>
    refine (arrayArgument_like .rest h).map fun elements elements' h => ?_
    cases h with
    | nil => exact .null
    | cons _ hrest => exact .array hrest

theorem printedLine_eq (h : List.Forall₂ (Value.Like bodies scopes) arguments arguments') :
    printedLine arguments' = printedLine arguments := by
  rw [printedLine, printedLine, map_eq_of_forall₂ h fun _ _ _ hlike => hlike.render_eq]

end Builtin

end Answers

end Scriptlet
