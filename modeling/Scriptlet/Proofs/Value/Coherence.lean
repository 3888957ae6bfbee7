import Mathlib.Data.List.Forall2
import Mathlib.Data.List.Perm.Subperm
import Scriptlet.Eval.Operator
import Scriptlet.Proofs.Number.Faithful
import Scriptlet.Proofs.Scopes.Closures
import Scriptlet.Value.Equality

/-!
# Equality is coherent

Equality is defined by recursion on the first value, and objects are compared by looking up the
fields of the first in the second.  On values without closures, whose objects have each key once
(`Value.IsPlain`), this is a symmetric and transitive relation, and a value is equal to itself
unless a NaN stands in it.

What a value is equal to is said once for each kind of value (`Value.equals_number_iff`, …).  For
objects the lookup in one direction together with the number of fields amounts to the same items
under the same keys (`Value.equals_object_iff_sameItems`), and this form is symmetric and does not
mention the order of the fields.

The operators `==` and `!=` answer for all pairs but two arrays, two objects or two builtin
functions, and what they answer is this equality (`BinaryOp.equal_apply`,
`BinaryOp.notEqual_apply`).
-/

namespace Scriptlet

/-! ## Numbers -/

namespace Binary64

variable {x y z : Binary64}

theorem equals_iff : x.equals y ↔ ∃ a, x.key = some a ∧ y.key = some a := by
  rw [equals]
  cases x.key with
  | none => simp
  | some a =>
    cases y.key with
    | none => simp
    | some b => simp [eq_comm]

theorem equals_symm (h : x.equals y) : y.equals x := by
  obtain ⟨a, hx, hy⟩ := equals_iff.mp h
  exact equals_iff.mpr ⟨a, hy, hx⟩

theorem equals_trans (hxy : x.equals y) (hyz : y.equals z) : x.equals z := by
  obtain ⟨a, hx, hy⟩ := equals_iff.mp hxy
  obtain ⟨b, hy', hz⟩ := equals_iff.mp hyz
  obtain rfl : a = b := Option.some.inj (hy.symm.trans hy')
  exact equals_iff.mpr ⟨a, hx, hz⟩

/-- Only a NaN is not equal to itself. -/
theorem equals_self_iff : x.equals x ↔ x ≠ .nan := by
  cases x with
  | nan => simp [equals, key]
  | infinite s => simp [equals, key]
  | finite s n h => simp [equals, key]

end Binary64

/-! ## Fields -/

namespace Fields

variable {α : Type} {fs gs : Fields α}

theorem get?_of_mem {key : String} {item : α} (h : (fs.map Prod.fst).Nodup)
    (hmem : (key, item) ∈ fs) : fs.get? key = some item := by
  induction fs with
  | nil => cases hmem
  | cons f fs ih =>
    obtain ⟨k, first⟩ := f
    rw [List.map_cons, List.nodup_cons] at h
    rw [get?, List.lookup_cons]
    rcases List.mem_cons.mp hmem with hfirst | hlater
    · cases hfirst
      rw [beq_self_eq_true]
    · have hne : key ≠ k := by
        rintro rfl
        exact h.1 (List.mem_map.mpr ⟨_, hlater, rfl⟩)
      rw [beq_false_of_ne hne]
      exact ih h.2 hlater

theorem mem_iff_get? {key : String} {item : α} (h : (fs.map Prod.fst).Nodup) :
    (key, item) ∈ fs ↔ fs.get? key = some item :=
  ⟨get?_of_mem h, mem_of_get?⟩

theorem mem_keys_iff {key : String} : key ∈ fs.map Prod.fst ↔ (fs.get? key).isSome := by
  constructor
  · intro h
    induction fs with
    | nil => cases h
    | cons f fs ih =>
      rw [get?, List.lookup_cons]
      by_cases hkey : key = f.1
      · rw [hkey, beq_self_eq_true]
        rfl
      · rw [beq_false_of_ne hkey]
        exact ih ((List.mem_cons.mp h).resolve_left hkey)
  · intro h
    obtain ⟨item, hitem⟩ := Option.isSome_iff_exists.mp h
    exact List.mem_map_of_mem (f := Prod.fst) (mem_of_get? hitem)

/-- The order of the fields does not matter to a lookup. -/
theorem get?_of_perm (h : fs.Perm gs) (hnodup : (fs.map Prod.fst).Nodup) (key : String) :
    fs.get? key = gs.get? key := by
  have hnodup' : (gs.map Prod.fst).Nodup := (h.map Prod.fst).nodup_iff.mp hnodup
  ext item
  rw [← mem_iff_get? hnodup, ← mem_iff_get? hnodup', h.mem_iff]

end Fields

/-! ## What a value is equal to -/

namespace Value

variable {u v w : Value}

theorem equalsList_iff {vs ws : List Value} :
    equalsList vs ws ↔ List.Forall₂ (fun v w => v.equals w) vs ws := by
  induction vs generalizing ws with
  | nil => cases ws <;> simp [equalsList]
  | cons v vs ih => cases ws <;> simp [equalsList, ih]

theorem equals_array_iff {vs : List Value} : (array vs).equals w ↔
    ∃ ws, w = array ws ∧ List.Forall₂ (fun v w => v.equals w) vs ws := by
  cases w <;> simp [equals, equalsList_iff]

theorem fieldsIn_iff {fs gs : List (String × Value)} :
    fieldsIn fs gs ↔ ∀ f ∈ fs, ∃ w, Fields.get? f.1 gs = some w ∧ f.2.equals w := by
  induction fs with
  | nil => simp [fieldsIn]
  | cons f fs ih =>
    rw [fieldsIn, Bool.and_eq_true, ih, List.forall_mem_cons, fieldIn]
    refine and_congr_left fun _ => ?_
    cases Fields.get? f.1 gs <;> simp

theorem equals_object_iff {fs : List (String × Value)} : (object fs).equals w ↔
    ∃ gs, w = object gs ∧ fs.length = gs.length ∧ fieldsIn fs gs := by
  cases w <;> simp [equals]

/-- Every item of one object has an equal item under the same key in the other. -/
structure SameItems (fs gs : List (String × Value)) : Prop where
  forth : ∀ {key v}, Fields.get? key fs = some v → ∃ w, Fields.get? key gs = some w ∧ v.equals w
  back : ∀ {key w}, Fields.get? key gs = some w → ∃ v, Fields.get? key fs = some v ∧ v.equals w

theorem SameItems.mem_keys_iff {fs gs : List (String × Value)} (h : SameItems fs gs)
    (key : String) : key ∈ fs.map Prod.fst ↔ key ∈ gs.map Prod.fst := by
  rw [Fields.mem_keys_iff, Fields.mem_keys_iff, Option.isSome_iff_exists, Option.isSome_iff_exists]
  constructor
  · rintro ⟨v, hv⟩
    obtain ⟨w, hw, -⟩ := h.forth hv
    exact ⟨w, hw⟩
  · rintro ⟨w, hw⟩
    obtain ⟨v, hv, -⟩ := h.back hw
    exact ⟨v, hv⟩

/-- If all keys of the first object are found in the second, which has as many fields, then all keys
of the second are found in the first. -/
theorem keys_subset {fs gs : List (String × Value)} (hfs : (fs.map Prod.fst).Nodup)
    (hlength : fs.length = gs.length) (hin : fieldsIn fs gs) :
    gs.map Prod.fst ⊆ fs.map Prod.fst := by
  have hsubset : fs.map Prod.fst ⊆ gs.map Prod.fst := by
    intro key hkey
    obtain ⟨f, hf, rfl⟩ := List.mem_map.mp hkey
    obtain ⟨w, hw, -⟩ := fieldsIn_iff.mp hin f hf
    exact Fields.mem_keys_iff.mpr (Option.isSome_of_eq_some hw)
  have hperm : (fs.map Prod.fst).Perm (gs.map Prod.fst) :=
    (List.subperm_of_subset hfs hsubset).perm_of_length_le (by simp [hlength])
  exact hperm.symm.subset

/-- **Objects are equal if they have equal items under the same keys**, in any order. -/
theorem equals_object_iff_sameItems {fs gs : List (String × Value)}
    (hfs : (fs.map Prod.fst).Nodup) (hgs : (gs.map Prod.fst).Nodup) :
    (object fs).equals (object gs) ↔ SameItems fs gs := by
  rw [equals, Bool.and_eq_true, beq_iff_eq]
  constructor
  · rintro ⟨hlength, hin⟩
    have hforth := fieldsIn_iff.mp hin
    refine ⟨fun hv => hforth _ (Fields.mem_of_get? hv), fun {key w} hw => ?_⟩
    have hkey : key ∈ gs.map Prod.fst := Fields.mem_keys_iff.mpr (Option.isSome_of_eq_some hw)
    have hfound := Fields.mem_keys_iff.mp (keys_subset hfs hlength hin hkey)
    obtain ⟨v, hv⟩ := Option.isSome_iff_exists.mp hfound
    obtain ⟨w', hw', hequal⟩ := hforth _ (Fields.mem_of_get? hv)
    obtain rfl : w = w' := Option.some.inj (hw.symm.trans hw')
    exact ⟨v, hv, hequal⟩
  · intro hsame
    have hperm := (List.perm_ext_iff_of_nodup hfs hgs).mpr hsame.mem_keys_iff
    refine ⟨by simpa using hperm.length_eq, fieldsIn_iff.mpr fun f hf => ?_⟩
    exact hsame.forth (Fields.get?_of_mem hfs hf)

/-! ## Plain values -/

/-- Values without closures; the objects have each key once. -/
inductive IsPlain : Value → Prop
  | number (x : Binary64) : IsPlain (.number x)
  | text (s : String) : IsPlain (.text s)
  | boolean (b : Bool) : IsPlain (.boolean b)
  | null : IsPlain .null
  | array {elements : List Value} (items : ∀ v ∈ elements, IsPlain v) : IsPlain (.array elements)
  | object {fields : List (String × Value)} (distinct : (fields.map Prod.fst).Nodup)
      (items : ∀ f ∈ fields, IsPlain f.2) : IsPlain (.object fields)
  | builtin (b : Builtin) : IsPlain (.builtin b)

theorem IsPlain.elements {vs : List Value} (h : (Value.array vs).IsPlain) :
    ∀ v ∈ vs, v.IsPlain := by
  cases h with
  | array items => exact items

theorem IsPlain.keys_nodup {fs : List (String × Value)} (h : (Value.object fs).IsPlain) :
    (fs.map Prod.fst).Nodup := by
  cases h with
  | object distinct => exact distinct

theorem IsPlain.of_get? {fs : List (String × Value)} (h : (Value.object fs).IsPlain) {key : String}
    (hv : Fields.get? key fs = some v) : v.IsPlain := by
  cases h with
  | object _ items => exact items _ (Fields.mem_of_get? hv)

/-- **Equality is symmetric.** -/
theorem equals_symm (hv : v.IsPlain) (hw : w.IsPlain) (h : v.equals w) : w.equals v := by
  induction hv generalizing w with
  | number x =>
    obtain ⟨y, rfl, hxy⟩ := equals_number_iff.mp h
    exact equals_number_iff.mpr ⟨x, rfl, Binary64.equals_symm hxy⟩
  | text s =>
    obtain rfl := equals_text_iff.mp h
    exact h
  | boolean b =>
    obtain rfl := equals_boolean_iff.mp h
    exact h
  | null =>
    obtain rfl := equals_null_iff.mp h
    exact h
  | @array vs _ ih =>
    obtain ⟨ws, rfl, hvs⟩ := equals_array_iff.mp h
    refine equals_array_iff.mpr ⟨vs, rfl, ?_⟩
    rw [List.forall₂_iff_get] at hvs ⊢
    refine ⟨hvs.1.symm, fun i hi hi' => ?_⟩
    exact ih _ (List.get_mem vs ⟨i, hi'⟩) (hw.elements _ (List.get_mem ws ⟨i, hi⟩)) (hvs.2 i hi' hi)
  | @object fs distinct _ ih =>
    obtain ⟨gs, rfl, -⟩ := equals_object_iff.mp h
    rw [equals_object_iff_sameItems distinct hw.keys_nodup] at h
    rw [equals_object_iff_sameItems hw.keys_nodup distinct]
    refine ⟨fun hy => ?_, fun hx => ?_⟩
    · obtain ⟨x, hx, hxy⟩ := h.back hy
      exact ⟨x, hx, ih _ (Fields.mem_of_get? hx) (hw.of_get? hy) hxy⟩
    · obtain ⟨y, hy, hxy⟩ := h.forth hx
      exact ⟨y, hy, ih _ (Fields.mem_of_get? hx) (hw.of_get? hy) hxy⟩
  | builtin b =>
    obtain rfl := equals_builtin_iff.mp h
    exact h

theorem equals_comm (hv : v.IsPlain) (hw : w.IsPlain) : v.equals w = w.equals v :=
  Bool.eq_iff_iff.mpr ⟨equals_symm hv hw, equals_symm hw hv⟩

/-- **Equality is transitive.** -/
theorem equals_trans (hu : u.IsPlain) (hv : v.IsPlain) (hw : w.IsPlain) (huv : u.equals v)
    (hvw : v.equals w) : u.equals w := by
  induction hu generalizing v w with
  | number x =>
    obtain ⟨y, rfl, hxy⟩ := equals_number_iff.mp huv
    obtain ⟨z, rfl, hyz⟩ := equals_number_iff.mp hvw
    exact equals_number_iff.mpr ⟨z, rfl, Binary64.equals_trans hxy hyz⟩
  | text s =>
    obtain rfl := equals_text_iff.mp huv
    exact hvw
  | boolean b =>
    obtain rfl := equals_boolean_iff.mp huv
    exact hvw
  | null =>
    obtain rfl := equals_null_iff.mp huv
    exact hvw
  | @array us _ ih =>
    obtain ⟨vs, rfl, huvs⟩ := equals_array_iff.mp huv
    obtain ⟨ws, rfl, hvws⟩ := equals_array_iff.mp hvw
    refine equals_array_iff.mpr ⟨ws, rfl, ?_⟩
    rw [List.forall₂_iff_get] at huvs hvws ⊢
    refine ⟨huvs.1.trans hvws.1, fun i hi hi' => ?_⟩
    have hi'' : i < vs.length := huvs.1 ▸ hi
    exact ih _ (List.get_mem us ⟨i, hi⟩) (hv.elements _ (List.get_mem vs ⟨i, hi''⟩))
      (hw.elements _ (List.get_mem ws ⟨i, hi'⟩)) (huvs.2 i hi hi'') (hvws.2 i hi'' hi')
  | @object fs distinct _ ih =>
    obtain ⟨gs, rfl, -⟩ := equals_object_iff.mp huv
    obtain ⟨hs, rfl, -⟩ := equals_object_iff.mp hvw
    rw [equals_object_iff_sameItems distinct hv.keys_nodup] at huv
    rw [equals_object_iff_sameItems hv.keys_nodup hw.keys_nodup] at hvw
    rw [equals_object_iff_sameItems distinct hw.keys_nodup]
    refine ⟨fun hx => ?_, fun hz => ?_⟩
    · obtain ⟨y, hy, hxy⟩ := huv.forth hx
      obtain ⟨z, hz, hyz⟩ := hvw.forth hy
      exact ⟨z, hz, ih _ (Fields.mem_of_get? hx) (hv.of_get? hy) (hw.of_get? hz) hxy hyz⟩
    · obtain ⟨y, hy, hyz⟩ := hvw.back hz
      obtain ⟨x, hx, hxy⟩ := huv.back hy
      exact ⟨x, hx, ih _ (Fields.mem_of_get? hx) (hv.of_get? hy) (hw.of_get? hz) hxy hyz⟩
  | builtin b =>
    obtain rfl := equals_builtin_iff.mp huv
    exact hvw

/-- **A plain value is equal to itself unless a NaN stands in it.** -/
theorem equals_self_iff (hv : v.IsPlain) : v.equals v ↔ ¬ (number .nan).Inside v := by
  induction hv with
  | number x =>
    have hnumber : (number x).equals (number x) ↔ x ≠ .nan := by
      rw [equals]
      exact Binary64.equals_self_iff
    rw [hnumber]
    refine not_congr ⟨?_, ?_⟩
    · rintro rfl
      exact .here
    · rintro ⟨⟩
      rfl
  | text s =>
    refine iff_of_true (equals_text_iff.mpr rfl) fun hnan => ?_
    cases hnan
  | boolean b =>
    refine iff_of_true (equals_boolean_iff.mpr rfl) fun hnan => ?_
    cases hnan
  | null =>
    refine iff_of_true (equals_null_iff.mpr rfl) fun hnan => ?_
    cases hnan
  | @array vs _ ih =>
    rw [equals, equalsList_iff, List.forall₂_same]
    constructor
    · intro h hnan
      cases hnan with
      | element hmem hinner => exact (ih _ hmem).mp (h _ hmem) hinner
    · intro h w hmem
      exact (ih w hmem).mpr fun hnan => h (.element hmem hnan)
  | @object fs distinct _ ih =>
    rw [equals_object_iff_sameItems distinct distinct]
    constructor
    · intro h hnan
      cases hnan with
      | field hmem hinner =>
        have hfound := Fields.get?_of_mem distinct hmem
        obtain ⟨x, hx, hequal⟩ := h.forth hfound
        obtain rfl := Option.some.inj (hfound.symm.trans hx)
        exact (ih _ hmem).mp hequal hinner
    · intro h
      have hself : ∀ {key x}, Fields.get? key fs = some x → x.equals x := by
        intro key x hx
        have hmem := Fields.mem_of_get? hx
        exact (ih _ hmem).mpr fun hnan => h (.field hmem hnan)
      exact ⟨fun hx => ⟨_, hx, hself hx⟩, fun hx => ⟨_, hx, hself hx⟩⟩
  | builtin b =>
    refine iff_of_true (equals_builtin_iff.mpr rfl) fun hnan => ?_
    cases hnan

/-- The order of the fields does not matter to equality. -/
theorem equals_of_perm {fs gs : List (String × Value)} (h : fs.Perm gs)
    (hfs : (object fs).IsPlain) (hgs : (object gs).IsPlain) (hv : v.IsPlain) :
    (object fs).equals v = (object gs).equals v := by
  rw [Bool.eq_iff_iff]
  cases hv with
  | object distinct =>
    rw [equals_object_iff_sameItems hfs.keys_nodup distinct,
      equals_object_iff_sameItems hgs.keys_nodup distinct]
    have hget := Fields.get?_of_perm h hfs.keys_nodup
    constructor
    · intro hsame
      exact ⟨fun hx => hsame.forth ((hget _).trans hx), fun hy => hget _ ▸ hsame.back hy⟩
    · intro hsame
      exact ⟨fun hx => hsame.forth ((hget _).symm.trans hx),
        fun hy => (hget _).symm ▸ hsame.back hy⟩
  | number | text | boolean | null | array | builtin => simp [equals]

theorem kind_eq_of_equals (h : v.equals w) : v.kind = w.kind := by
  cases v <;> cases w <;> simp_all [equals, kind]

end Value

/-! ## Operators -/

namespace BinaryOp

variable {l r : Value}

/-- The kinds of which two values cannot be compared by an operator. -/
def incomparable : List Kind := [.array, .object, .builtin]

/-- Values of different kinds are left to the general rule, which finds them different. -/
theorem apply_of_kind_ne (h : l.kind ≠ r.kind) :
    BinaryOp.equal.apply l r = .ok (.boolean (l.equals r)) ∧
      BinaryOp.notEqual.apply l r = .ok (.boolean (!l.equals r)) := by
  have hequals : l.equals r = false := by
    rw [← Bool.not_eq_true]
    exact mt Value.kind_eq_of_equals h
  have hsame : sameSimple? l r = some false := if_pos h
  simp only [apply, hequals]
  split
  · exact absurd rfl h
  · exact absurd rfl h
  · simp [onOthers, hsame]

/-- **What `==` answers is equality**, if it answers. -/
theorem equal_apply (hl : l.IsPlain) : BinaryOp.equal.apply l r =
    if l.kind = r.kind ∧ l.kind ∈ incomparable then .error (BinaryOp.equal.unsupported l r)
    else .ok (.boolean (l.equals r)) := by
  by_cases hkind : l.kind = r.kind
  · cases hl <;> cases r <;> cases hkind <;> rfl
  · rw [if_neg fun h => hkind h.1, (apply_of_kind_ne hkind).1]

/-- **What `!=` answers is inequality**, if it answers. -/
theorem notEqual_apply (hl : l.IsPlain) : BinaryOp.notEqual.apply l r =
    if l.kind = r.kind ∧ l.kind ∈ incomparable then .error (BinaryOp.notEqual.unsupported l r)
    else .ok (.boolean (!l.equals r)) := by
  by_cases hkind : l.kind = r.kind
  · cases hl <;> cases r <;> cases hkind <;> rfl
  · rw [if_neg fun h => hkind h.1, (apply_of_kind_ne hkind).2]

end BinaryOp

namespace Value

/-- **Equality is coherent.**  On plain values it is symmetric and transitive, and reflexive exactly
where no NaN stands inside; arrays are compared by position, objects by their keys in any order.
The operators `==` and `!=` answer for the same pairs, all but two arrays, two objects or two
builtin functions; what they answer is equality and its negation, and neither depends on the order
of its operands. -/
theorem equality_is_coherent :
    (∀ v w : Value, v.IsPlain → w.IsPlain → v.equals w = w.equals v) ∧
    (∀ u v w : Value, u.IsPlain → v.IsPlain → w.IsPlain →
      u.equals v → v.equals w → u.equals w) ∧
    (∀ v : Value, v.IsPlain → (v.equals v ↔ ¬ (number .nan).Inside v)) ∧
    (∀ vs ws : List Value,
      (array vs).equals (array ws) ↔ List.Forall₂ (fun v w => v.equals w) vs ws) ∧
    (∀ fs gs : List (String × Value), (object fs).IsPlain → (object gs).IsPlain →
      ((object fs).equals (object gs) ↔ SameItems fs gs) ∧
      (fs.Perm gs → ∀ v : Value, v.IsPlain →
        (object fs).equals v = (object gs).equals v ∧
        v.equals (object fs) = v.equals (object gs))) ∧
    ∀ l r : Value, l.IsPlain → r.IsPlain →
      ((∃ v, BinaryOp.equal.apply l r = .ok v) ↔
        ¬ (l.kind = r.kind ∧ l.kind ∈ BinaryOp.incomparable)) ∧
      (∀ v, BinaryOp.equal.apply l r = .ok v → v = .boolean (l.equals r)) ∧
      ((∃ v, BinaryOp.notEqual.apply l r = .ok v) ↔ ∃ v, BinaryOp.equal.apply l r = .ok v) ∧
      (∀ v, BinaryOp.notEqual.apply l r = .ok v → v = .boolean (!l.equals r)) ∧
      BinaryOp.equal.apply l r = BinaryOp.equal.apply r l ∧
      BinaryOp.notEqual.apply l r = BinaryOp.notEqual.apply r l := by
  refine ⟨fun v w => equals_comm, fun u v w => equals_trans, fun v => equals_self_iff,
    fun vs ws => by rw [equals, equalsList_iff], fun fs gs hfs hgs => ⟨?_, ?_⟩,
    fun l r hl hr => ?_⟩
  · exact equals_object_iff_sameItems hfs.keys_nodup hgs.keys_nodup
  · intro hperm v hv
    have hleft := equals_of_perm hperm hfs hgs hv
    refine ⟨hleft, ?_⟩
    rw [equals_comm hv hfs, hleft, equals_comm hgs hv]
  · rw [BinaryOp.equal_apply hl, BinaryOp.notEqual_apply hl, BinaryOp.equal_apply hr,
      BinaryOp.notEqual_apply hr]
    by_cases h : l.kind = r.kind ∧ l.kind ∈ BinaryOp.incomparable
    · have h' : r.kind = l.kind ∧ r.kind ∈ BinaryOp.incomparable := ⟨h.1.symm, h.1 ▸ h.2⟩
      rw [if_pos h, if_pos h, if_pos h', if_pos h']
      simp [h, h'.2, BinaryOp.unsupported]
    · have h' : ¬ (r.kind = l.kind ∧ r.kind ∈ BinaryOp.incomparable) :=
        fun hr => h ⟨hr.1.symm, hr.1 ▸ hr.2⟩
      rw [if_neg h, if_neg h, if_neg h', if_neg h', ← equals_comm hl hr]
      simp [h]

/-- An object with a zero in an array. -/
def zeroFirst : Value := .object [("a", .array [.number (.zero false)]), ("b", .null)]

/-- The same fields in the other order, with the other zero. -/
def zeroLast : Value := .object [("b", .null), ("a", .array [.number (.zero true)])]

theorem equality_is_coherent_zeros :
    zeroFirst.IsPlain ∧ zeroLast.IsPlain ∧ zeroFirst.equals zeroLast ∧ zeroLast.equals zeroFirst ∧
      zeroFirst.equals zeroFirst ∧
      ¬ (array [null, number .nan]).equals (array [null, number .nan]) ∧
      BinaryOp.equal.apply zeroFirst null = BinaryOp.equal.apply null zeroFirst ∧
      (∃ v, BinaryOp.notEqual.apply zeroFirst null = .ok v) ∧
      ¬ ∃ v, BinaryOp.equal.apply zeroFirst zeroLast = .ok v := by
  have harray : ∀ x, (array [number x]).IsPlain := fun x =>
    .array (List.forall_mem_singleton.mpr (.number x))
  have hfirst : zeroFirst.IsPlain := by
    refine .object (by decide) fun f hf => ?_
    rcases List.mem_pair.mp hf with rfl | rfl
    · exact harray _
    · exact .null
  have hlast : zeroLast.IsPlain := by
    refine .object (by decide) fun f hf => ?_
    rcases List.mem_pair.mp hf with rfl | rfl
    · exact .null
    · exact harray _
  have hnan : (array [null, number .nan]).IsPlain := by
    refine .array fun v hv => ?_
    rcases List.mem_pair.mp hv with rfl | rfl
    · exact .null
    · exact .number _
  have hequal : zeroFirst.equals zeroLast := by decide
  obtain ⟨hcomm, htrans, hself, -, -, hoperators⟩ := equality_is_coherent
  have hequal' : zeroLast.equals zeroFirst := hcomm _ _ hfirst hlast ▸ hequal
  obtain ⟨hanswers, -, hanswers', -, hswap, -⟩ := hoperators zeroFirst null hfirst .null
  refine ⟨hfirst, hlast, hequal, hequal', htrans _ _ _ hfirst hlast hfirst hequal hequal', ?_,
    hswap, hanswers'.mpr (hanswers.mpr (by decide)), ?_⟩
  · rw [hself _ hnan, not_not]
    exact .element (List.mem_cons_of_mem _ List.mem_cons_self) .here
  · rw [(hoperators zeroFirst zeroLast hfirst hlast).1, not_not]
    decide

end Value

end Scriptlet
