import Scriptlet.Eval.Basic

/-!
# Closures inside values

A closure can stand in an array or an object, at any depth, and among the values of a scope.
Operators and builtin functions compute with values but make no closures: whatever closure stands in
a result already stood in an operand.  So a property of closures alone passes from operands to
results, and that is all the evaluation of an expression needs to know about them.

* `Value.Inside`: one value stands in another.
* `Value.AllClosures`: a property holds of all closures inside a value.
* `BinaryOp.apply_allClosures`, `Value.index_allClosures`, `Builtin.apply_allClosures`, …: results
  have no closures of their own.
-/

namespace Scriptlet

/-! ## Fields -/

namespace Fields

variable {α : Type}

theorem mem_insert {key : String} {item : α} {fs : Fields α} {p : String × α}
    (h : p ∈ fs.insert key item) : p = (key, item) ∨ p ∈ fs := by
  induction fs with
  | nil => exact Or.inl (List.mem_singleton.mp h)
  | cons f fs ih =>
    obtain ⟨k, old⟩ := f
    rw [insert] at h
    split at h
    · next hk =>
      subst hk
      rcases List.mem_cons.mp h with h | h
      · exact Or.inl h
      · exact Or.inr (List.mem_cons_of_mem _ h)
    · rcases List.mem_cons.mp h with h | h
      · exact Or.inr (List.mem_cons.mpr (Or.inl h))
      · rcases ih h with h | h
        · exact Or.inl h
        · exact Or.inr (List.mem_cons_of_mem _ h)

theorem mem_ofList {items : List (String × α)} {p : String × α} (h : p ∈ ofList items) :
    p ∈ items := by
  -- The fields inserted so far are a part of what the fold starts from.
  have aux : ∀ fs : Fields α,
      p ∈ items.foldl (fun fs p => fs.insert p.1 p.2) fs → p ∈ fs ∨ p ∈ items := by
    clear h
    induction items with
    | nil => exact fun fs h => Or.inl h
    | cons i items ih =>
      intro fs h
      rcases ih _ h with h | h
      · rcases mem_insert h with h | h
        · exact Or.inr (List.mem_cons.mpr (Or.inl h))
        · exact Or.inl h
      · exact Or.inr (List.mem_cons_of_mem _ h)
  rcases aux [] h with h | h
  · exact absurd h List.not_mem_nil
  · exact h

theorem mem_of_get? {key : String} {item : α} {fs : Fields α} (h : fs.get? key = some item) :
    (key, item) ∈ fs := by
  obtain ⟨before, after, he, _⟩ := List.lookup_eq_some_iff.mp h
  rw [he]
  exact List.mem_append_right _ List.mem_cons_self

end Fields

/-! ## Values inside values -/

namespace Value

/-- `v.Inside w`: the value `v` is `w` or stands in it, at any depth of arrays and objects. -/
inductive Inside (v : Value) : Value → Prop
  | here : Inside v v
  | element {elements : List Value} {w : Value} (member : w ∈ elements) (inner : Inside v w) :
      Inside v (.array elements)
  | field {fields : List (String × Value)} {key : String} {w : Value} (member : (key, w) ∈ fields)
      (inner : Inside v w) : Inside v (.object fields)

/-- All closures inside a value satisfy `P`. -/
def AllClosures (P : List String → Block → ScopeId → Prop) (v : Value) : Prop :=
  ∀ parameters body id, (closure parameters body id).Inside v → P parameters body id

section AllClosures

variable {P Q : List String → Block → ScopeId → Prop}

theorem AllClosures.imp {v : Value} (h : v.AllClosures P)
    (hPQ : ∀ parameters body id, P parameters body id → Q parameters body id) :
    v.AllClosures Q :=
  fun parameters body id hi => hPQ parameters body id (h parameters body id hi)

@[simp] theorem allClosures_number (n : Binary64) : (number n).AllClosures P := nofun

@[simp] theorem allClosures_text (s : String) : (text s).AllClosures P := nofun

@[simp] theorem allClosures_boolean (b : Bool) : (boolean b).AllClosures P := nofun

@[simp] theorem allClosures_null : null.AllClosures P := nofun

@[simp] theorem allClosures_builtin (b : Builtin) : (builtin b).AllClosures P := nofun

@[simp] theorem allClosures_ofLiteral (l : Literal) : (ofLiteral l).AllClosures P := by
  cases l <;> simp [ofLiteral]

@[simp] theorem allClosures_closure {parameters : List String} {body : Block} {id : ScopeId} :
    (closure parameters body id).AllClosures P ↔ P parameters body id := by
  constructor
  · intro h
    exact h _ _ _ .here
  · rintro h _ _ _ ⟨⟩
    exact h

@[simp] theorem allClosures_array {elements : List Value} :
    (array elements).AllClosures P ↔ ∀ v ∈ elements, v.AllClosures P := by
  constructor
  · intro h v hv parameters body id hi
    exact h _ _ _ (.element hv hi)
  · intro h parameters body id hi
    cases hi with
    | element hv hi => exact h _ hv _ _ _ hi

@[simp] theorem allClosures_object {fields : List (String × Value)} :
    (object fields).AllClosures P ↔ ∀ p ∈ fields, p.2.AllClosures P := by
  constructor
  · intro h p hp parameters body id hi
    exact h _ _ _ (.field hp hi)
  · intro h parameters body id hi
    cases hi with
    | field hp hi => exact h _ hp _ _ _ hi

theorem allClosures_getD {found : Option Value} (h : ∀ v, found = some v → v.AllClosures P) :
    (found.getD .null).AllClosures P := by
  cases found with
  | none => exact allClosures_null
  | some v => exact h v rfl

end AllClosures

end Value

/-! ## Results -/

section Results

variable {P : List String → Block → ScopeId → Prop}

theorem BinaryOp.onNumbers_allClosures {op : BinaryOp} {a b : Binary64} {v : Value}
    (h : op.onNumbers a b = .ok v) : v.AllClosures P := by
  revert h
  fun_cases BinaryOp.onNumbers op a b <;> intro h <;> cases h <;> simp

theorem BinaryOp.onTexts_allClosures {op : BinaryOp} {a b : String} {v : Value}
    (h : op.onTexts a b = .ok v) : v.AllClosures P := by
  revert h
  fun_cases BinaryOp.onTexts op a b <;> intro h <;> cases h <;> simp

theorem BinaryOp.onOthers_allClosures {op : BinaryOp} {a b v : Value}
    (h : op.onOthers a b = .ok v) : v.AllClosures P := by
  revert h
  fun_cases BinaryOp.onOthers op a b <;> intro h <;> cases h <;> simp

theorem BinaryOp.apply_allClosures {op : BinaryOp} {a b v : Value} (h : op.apply a b = .ok v) :
    v.AllClosures P := by
  revert h
  fun_cases BinaryOp.apply op a b <;> intro h
  · cases h
    simp
  · cases h
    simp
  · exact onNumbers_allClosures h
  · exact onTexts_allClosures h
  · exact onOthers_allClosures h

theorem UnaryOp.apply_allClosures {op : UnaryOp} {a v : Value} (h : op.apply a = .ok v) :
    v.AllClosures P := by
  revert h
  fun_cases UnaryOp.apply op a <;> intro h <;> cases h <;> simp

theorem Value.member_allClosures {target v : Value} {key : String}
    (h : target.member key = .ok v) (ht : target.AllClosures P) : v.AllClosures P := by
  revert h
  fun_cases Value.member target key with
  | case1 fields =>
    intro h
    cases h
    refine allClosures_getD fun w hw => ?_
    exact allClosures_object.mp ht _ (Fields.mem_of_get? hw)
  | case2 =>
    intro h
    cases h

theorem Value.index_allClosures {target place v : Value} (h : target.index place = .ok v)
    (ht : target.AllClosures P) : v.AllClosures P := by
  revert h
  fun_cases Value.index target place with
  | case1 elements n =>
    intro h
    cases h
    refine allClosures_getD fun w hw => ?_
    obtain ⟨i, _, hi⟩ := Option.bind_eq_some_iff.mp hw
    exact allClosures_array.mp ht w (List.mem_of_getElem? hi)
  | case2 s n =>
    intro h
    cases h
    refine allClosures_getD fun w hw => ?_
    obtain ⟨c, _, rfl⟩ := Option.map_eq_some_iff.mp hw
    exact allClosures_text _
  | case3 fields key =>
    intro h
    cases h
    refine allClosures_getD fun w hw => ?_
    exact allClosures_object.mp ht _ (Fields.mem_of_get? hw)
  | case4 =>
    intro h
    cases h

namespace Builtin

theorem arrayArgument_mem {b : Builtin} {arguments elements : List Value}
    (h : b.arrayArgument arguments = .ok elements) : .array elements ∈ arguments := by
  revert h
  fun_cases arrayArgument b arguments <;> intro h <;> cases h
  exact List.mem_cons_self

theorem map_arrayArgument_allClosures {b : Builtin} {arguments : List Value}
    {answer : List Value → Value} {v : Value}
    (h : (b.arrayArgument arguments).map answer = .ok v)
    (ha : ∀ w ∈ arguments, w.AllClosures P)
    (hanswer : ∀ elements, (∀ w ∈ elements, w.AllClosures P) → (answer elements).AllClosures P) :
    v.AllClosures P := by
  cases he : b.arrayArgument arguments with
  | error f =>
    rw [he] at h
    cases h
  | ok elements =>
    rw [he] at h
    cases h
    exact hanswer elements (Value.allClosures_array.mp (ha _ (arrayArgument_mem he)))

theorem length_allClosures {arguments : List Value} {v : Value} (h : length arguments = .ok v) :
    v.AllClosures P := by
  revert h
  fun_cases length arguments <;> intro h <;> cases h <;> simp

/-- **Builtin functions make no closures.** -/
theorem apply_allClosures {b : Builtin} {arguments : List Value} {v : Value}
    (h : b.apply arguments = .ok v) (ha : ∀ w ∈ arguments, w.AllClosures P) :
    v.AllClosures P := by
  have hget : ∀ (pick : List Value → Option Value),
      (∀ elements w, pick elements = some w → w ∈ elements) →
      ∀ elements, (∀ w ∈ elements, w.AllClosures P) →
        ((pick elements).getD .null).AllClosures P := by
    intro pick hpick elements he
    exact Value.allClosures_getD fun w hw => he w (hpick elements w hw)
  have hlast : ∀ (elements : List Value) w, elements.getLast? = some w → w ∈ elements :=
    fun _ _ => List.mem_of_getLast?
  have hhead : ∀ (elements : List Value) w, elements.head? = some w → w ∈ elements :=
    fun _ _ => List.mem_of_head?
  cases b with
  | print =>
    cases h
    simp
  | len => exact length_allClosures h
  | type =>
    cases arguments with
    | nil => cases h
    | cons w ws =>
      cases h
      simp
  | push =>
    simp only [apply.eq_def] at h
    split at h
    · next elements items =>
      cases h
      refine Value.allClosures_array.mpr fun w hw => ?_
      rcases List.mem_append.mp hw with hw | hw
      · exact Value.allClosures_array.mp (ha _ List.mem_cons_self) w hw
      · exact ha w (List.mem_cons_of_mem _ hw)
    · cases h
  | pop => exact map_arrayArgument_allClosures h ha (hget _ hlast)
  | first => exact map_arrayArgument_allClosures h ha (hget _ hhead)
  | last => exact map_arrayArgument_allClosures h ha (hget _ hlast)
  | rest =>
    refine map_arrayArgument_allClosures h ha fun elements he => ?_
    cases elements with
    | nil => exact Value.allClosures_null
    | cons w ws => exact Value.allClosures_array.mpr fun u hu => he u (List.mem_cons_of_mem _ hu)

end Builtin

end Results

end Scriptlet
