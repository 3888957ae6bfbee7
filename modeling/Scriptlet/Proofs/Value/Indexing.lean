import Scriptlet.Eval.Builtin
import Scriptlet.Eval.Operator
import Scriptlet.Proofs.Number.Whole

/-!
# Positions in arrays and texts

Arrays and texts have items: elements, or characters as texts of their own (`Value.items?`).  Every
number is a place in them.  The item at its floor is found there, and null if there is none
(`Value.index_of_floor`, `Value.index_of_no_floor`), so nothing depends on how the number is
converted.  At a whole number the item is the one the list of items has there (`Value.index_count`),
and with this what builtin functions and `+` make of arrays and texts is said by positions.  The
main statement is `Value.positions_agree`; lengths are below `2 ^ 53`, where whole numbers are
exact.
-/

namespace Scriptlet

namespace Value

/-- The elements of an array, or the characters of a text. -/
def items? : Value → Option (List Value)
  | .array elements => some elements
  | .text s => some (s.toList.map fun c => .text (String.singleton c))
  | _ => none

/-- A whole number as a value. -/
def count (n : Nat) : Value := .number (.ofNat n)

/-! ## Items -/

section Items

variable {v : Value} {items : List Value}

theorem index_number (h : v.items? = some items) (x : Binary64) :
    v.index (.number x) = .ok ((x.toIndex?.bind (items[·]?)).getD .null) := by
  cases v with
  | array elements =>
    cases h
    rfl
  | text s =>
    cases h
    rw [index]
    cases x.toIndex? with
    | none => rfl
    | some k => simp only [Option.bind_some, List.getElem?_map]
  | number | boolean | null | object | closure | builtin => cases h

theorem length_of_items? (h : v.items? = some items) :
    Builtin.len.apply [v] = .ok (count items.length) := by
  cases v with
  | array elements =>
    cases h
    rfl
  | text s =>
    cases h
    rw [List.length_map, String.length_toList]
    rfl
  | number | boolean | null | object | closure | builtin => cases h

theorem le_maxIndex {k : Nat} (hsize : items.length < 2 ^ 53) (hk : k < items.length) :
    k ≤ Binary64.maxIndex := by
  rw [← Binary64.maxIndex_add_one] at hsize
  omega

/-- **The item at the floor of a number is found.** -/
theorem index_of_floor (h : v.items? = some items) (hsize : items.length < 2 ^ 53) {x : Binary64}
    {k : Nat} (hx : x.floor? = some (k : ℤ)) (hk : k < items.length) :
    v.index (.number x) = .ok items[k] := by
  have hplace : x.toIndex? = some k :=
    Binary64.toIndex?_eq_some_iff.mpr ⟨hx, le_maxIndex hsize hk⟩
  rw [index_number h, hplace, Option.bind_some, List.getElem?_eq_getElem hk, Option.getD_some]

/-- A number whose floor is not a place in the items gives null. -/
theorem index_of_no_floor (h : v.items? = some items) {x : Binary64}
    (hx : ∀ k : Nat, x.floor? = some (k : ℤ) → items.length ≤ k) :
    v.index (.number x) = .ok .null := by
  rw [index_number h]
  cases hplace : x.toIndex? with
  | none => rfl
  | some k =>
    have hk := hx k (Binary64.toIndex?_eq_some_iff.mp hplace).1
    rw [Option.bind_some, List.getElem?_eq_none hk, Option.getD_none]

theorem index_count (h : v.items? = some items) (hsize : items.length < 2 ^ 53) (k : Nat) :
    v.index (count k) = .ok (items[k]?.getD .null) := by
  rw [count, index_number h, Binary64.toIndex?_ofNat]
  split
  · rfl
  · next hlarge =>
    have hk : items.length ≤ k := by
      rw [← Binary64.maxIndex_add_one] at hsize
      omega
    rw [Option.bind_none, List.getElem?_eq_none hk]

theorem toRat?_length (h : v.items? = some items) (hsize : items.length < 2 ^ 53) :
    ∃ w : Binary64, Builtin.len.apply [v] = .ok (.number w) ∧
      w.toRat? = some (items.length : ℚ) :=
  ⟨.ofNat items.length, length_of_items? h, Binary64.toRat?_ofNat (Nat.le_of_lt hsize)⟩

end Items

/-! ## Building -/

/-- If the items of a value are those of two others laid end to end, then so are its places. -/
theorem index_of_append {v w u : Value} {a b : List Value} (hv : v.items? = some a)
    (hw : w.items? = some b) (hu : u.items? = some (a ++ b)) (hsize : a.length + b.length < 2 ^ 53)
    (k : Nat) : u.index (count k) =
      if k < a.length then v.index (count k) else w.index (count (k - a.length)) := by
  have hsize' : (a ++ b).length < 2 ^ 53 := by rwa [List.length_append]
  rw [index_count hu hsize', index_count hv (by omega), index_count hw (by omega),
    List.getElem?_append]
  split <;> rfl

theorem items?_append_text (s t : String) : (text (s ++ t)).items? =
    some (s.toList.map (fun c => text (String.singleton c)) ++
      t.toList.map fun c => text (String.singleton c)) := by
  rw [items?, String.toList_append, List.map_append]

/-- **Indexing and length agree.**  In an array or a text of less than `2 ^ 53` items, every number
gives the item at its floor, or null if there is none, and the length is the number of items.  A
whole number below `2 ^ 53` is its own place.  So what is pushed stands behind the elements that
were there, the rest is one place further on, first and last element are those at the two ends, and
of two texts put together the second stands behind the first. -/
theorem positions_agree :
    (∀ (v : Value) (items : List Value), v.items? = some items → items.length < 2 ^ 53 →
      (∀ (x : Binary64) (k : Nat), x.floor? = some (k : ℤ) → ∀ h : k < items.length,
        v.index (.number x) = .ok items[k]) ∧
      (∀ x : Binary64, (∀ k : Nat, x.floor? = some (k : ℤ) → items.length ≤ k) →
        v.index (.number x) = .ok .null) ∧
      ∃ w : Binary64, Builtin.len.apply [v] = .ok (.number w) ∧
        w.toRat? = some (items.length : ℚ)) ∧
    (∀ m : Nat, m ≤ 2 ^ 53 - 1 → (Binary64.ofNat m).toIndex? = some m) ∧
    (∀ a b : List Value, a.length + b.length < 2 ^ 53 →
      ∃ c, Builtin.push.apply (.array a :: b) = .ok c ∧
        (∃ w : Binary64, Builtin.len.apply [c] = .ok (.number w) ∧
          w.toRat? = some ((a.length + b.length : Nat) : ℚ)) ∧
        ∀ k : Nat, c.index (count k) =
          if k < a.length then (array a).index (count k)
          else (array b).index (count (k - a.length))) ∧
    (∀ a : List Value, a ≠ [] → a.length < 2 ^ 53 →
      (∃ c, Builtin.rest.apply [.array a] = .ok c ∧
        ∀ k : Nat, c.index (count k) = (array a).index (count (k + 1))) ∧
      Builtin.first.apply [.array a] = (array a).index (count 0) ∧
      Builtin.last.apply [.array a] = (array a).index (count (a.length - 1)) ∧
      Builtin.pop.apply [.array a] = (array a).index (count (a.length - 1))) ∧
    ∀ s t : String, s.length + t.length < 2 ^ 53 →
      ∃ u, BinaryOp.add.apply (.text s) (.text t) = .ok u ∧
        ∀ k : Nat, u.index (count k) =
          if k < s.length then (text s).index (count k)
          else (text t).index (count (k - s.length)) := by
  refine ⟨fun v items h hsize => ?_, fun m hm => ?_, fun a b hsize => ?_, fun a hne hsize => ?_,
    fun s t hsize => ?_⟩
  · exact ⟨fun x k hx hk => index_of_floor h hsize hx hk, fun x hx => index_of_no_floor h hx,
      toRat?_length h hsize⟩
  · have hplace : m ≤ Binary64.maxIndex := by
      have := Binary64.maxIndex_add_one
      omega
    rw [Binary64.toIndex?_ofNat, if_pos hplace]
  · refine ⟨.array (a ++ b), rfl, ?_, index_of_append rfl rfl rfl hsize⟩
    rw [← List.length_append] at hsize ⊢
    exact toRat?_length rfl hsize
  · have hlast : (array a).index (count (a.length - 1)) = .ok (a.getLast?.getD .null) := by
      rw [index_count rfl hsize, List.getLast?_eq_getElem?]
    refine ⟨?_, ?_, hlast.symm, hlast.symm⟩
    · cases a with
      | nil => exact absurd rfl hne
      | cons e others =>
        refine ⟨.array others, rfl, fun k => ?_⟩
        have hothers : others.length < 2 ^ 53 := by
          rw [List.length_cons] at hsize
          omega
        rw [index_count rfl hothers, index_count rfl hsize, List.getElem?_cons_succ]
    · rw [index_count rfl hsize, ← List.head?_eq_getElem?]
      rfl
  · refine ⟨.text (s ++ t), rfl, ?_⟩
    have hplaces := index_of_append (v := text s) (w := text t) rfl rfl (items?_append_text s t)
    simp only [List.length_map, String.length_toList] at hplaces
    exact hplaces hsize

/-- A negative zero is the first place, and the number next to it no place at all; characters of two
bytes are one item. -/
theorem positions_agree_accentedText :
    (text "hé").index (.number (.zero true)) = .ok (text "h") ∧
      (text "hé").index (.number .leastNegative) = .ok null ∧
      (∃ u, BinaryOp.add.apply (text "hé") (text "llo") = .ok u ∧
        u.index (count 1) = (text "hé").index (count 1) ∧
        u.index (count 4) = (text "llo").index (count 2)) ∧
      (∃ c, Builtin.push.apply [array [null], boolean true] = .ok c ∧
        c.index (count 1) = (array [boolean true]).index (count 0)) ∧
      ∃ c, Builtin.rest.apply [array [null, boolean true]] = .ok c ∧
        c.index (count 0) = (array [null, boolean true]).index (count 1) := by
  obtain ⟨hitems, -, hpush, hends, htexts⟩ := positions_agree
  obtain ⟨hfound, hnone, -⟩ := hitems (text "hé") [text "h", text "é"] rfl (by decide)
  refine ⟨?_, ?_, ?_, ?_, ?_⟩
  · refine hfound (.zero true) 0 ?_ (by decide)
    rw [Binary64.zero, Binary64.floor?_finite, show Binary64.signed true 0 = 0 from rfl,
      Int.zero_ediv]
    rfl
  · refine hnone .leastNegative fun k hk => ?_
    have hfloor : Binary64.signed true 1 / (Binary64.unit : ℤ) < 0 :=
      Int.ediv_neg_of_neg_of_pos (by decide) (by exact_mod_cast Binary64.unit_pos)
    rw [Binary64.leastNegative, Binary64.floor?_finite, Option.some_inj] at hk
    omega
  · obtain ⟨u, hu, hplaces⟩ := htexts "hé" "llo" (by decide)
    exact ⟨u, hu, hplaces 1, hplaces 4⟩
  · obtain ⟨c, hc, -, hplaces⟩ := hpush [null] [boolean true] (by decide)
    exact ⟨c, hc, hplaces 1⟩
  · obtain ⟨⟨c, hc, hplaces⟩, -⟩ := hends [null, boolean true] (List.cons_ne_nil _ _) (by decide)
    exact ⟨c, hc, hplaces 0⟩

end Value

end Scriptlet
