import Scriptlet.Eval.State

/-!
# The two tables of a scope

A scope keeps the values of its names in one table and its constants in another.  Both are written
and emptied by hand, so nothing but the operations sees to it that they fit: every constant is bound
(`State.ConstantsBound`), since a write gives a value to whatever it makes a constant, and clearing
a scope empties both tables.

Of a name that is bound the two tables say together what it is bound to, its slot: a value, and
whether it is a constant.  Slots are stored nowhere; `State.ownSlot?` reads them off the tables.
-/

namespace Scriptlet

/-- What a name is bound to. -/
structure Slot where
  value : Value
  constant : Bool

namespace State

variable {s t : State} {id u : ScopeId} {x y : String} {v : Value} {constant : Bool}

/-! ## One name -/

theorem ownValue?_eq_none (h : s.scopes.size ≤ u) : s.ownValue? u y = none := by
  rw [ownValue?, Array.getElem?_eq_none h]
  rfl

theorem isConstant_eq_false (h : s.scopes.size ≤ u) : s.isConstant u y = false := by
  rw [isConstant, Array.getElem?_eq_none h]
  rfl

theorem lt_size_of_binds (h : s.binds u y) : u < s.scopes.size := by
  refine Nat.lt_of_not_le fun hu => ?_
  rw [binds, ownValue?_eq_none hu] at h
  cases h

/-- Both tables of the scope say the same of the name. -/
structure SameName (s t : State) (u : ScopeId) (y : String) : Prop where
  value : t.ownValue? u y = s.ownValue? u y
  constant : t.isConstant u y ↔ s.isConstant u y

theorem SameName.refl (s : State) (u : ScopeId) (y : String) : s.SameName s u y := ⟨rfl, .rfl⟩

theorem SameName.binds (h : s.SameName t u y) : t.binds u y = s.binds u y := by
  rw [State.binds, State.binds, h.value]

theorem sameName_addScope (h : u ≠ s.scopes.size) (scope : Scope) :
    s.SameName (s.addScope scope) u y where
  value := ownValue?_addScope.trans (if_neg h)
  constant := by rw [isConstant_addScope, if_neg h]

theorem sameName_addScope_of_binds (h : s.binds u y) (scope : Scope) :
    s.SameName (s.addScope scope) u y :=
  sameName_addScope (Nat.ne_of_lt (lt_size_of_binds h)) scope

/-- A new scope without the name changes nothing about it. -/
theorem sameName_addScope_of_free {scope : Scope}
    (hvalue : u = s.scopes.size → scope.values.get? y = none) (hconstants : scope.constants = []) :
    s.SameName (s.addScope scope) u y := by
  by_cases hu : u = s.scopes.size
  · have hle : s.scopes.size ≤ u := Nat.le_of_eq hu.symm
    constructor
    · rw [ownValue?_addScope, if_pos hu, hvalue hu, ownValue?_eq_none hle]
    · rw [isConstant_addScope, if_pos hu, hconstants, isConstant_eq_false hle]
      rfl
  · exact sameName_addScope hu scope

/-- Writing another name changes nothing about this one. -/
theorem sameName_write (h : ¬ (u = id ∧ y = x)) : s.SameName (s.write id x v constant) u y where
  value := by
    rw [ownValue?_write, if_neg]
    exact fun hw => h ⟨hw.1, hw.2.1⟩
  constant := isConstant_write.trans (or_iff_right fun hw => h ⟨hw.2.1, hw.2.2.1⟩)

theorem sameName_clearScope (h : u ≠ id) : s.SameName (s.clearScope id) u y where
  value := ownValue?_clearScope.trans (if_neg h)
  constant := isConstant_clearScope.trans (and_iff_right h)

theorem binds_write : (s.write id x v constant).binds u y ↔
    u = id ∧ y = x ∧ id < s.scopes.size ∨ s.binds u y := by
  rw [binds, ownValue?_write]
  split
  · next h => exact iff_of_true rfl (Or.inl h)
  · next h => exact (or_iff_right h).symm

theorem binds_addScope {scope : Scope} : (s.addScope scope).binds u y =
    if u = s.scopes.size then (scope.values.get? y).isSome else s.binds u y := by
  rw [binds, ownValue?_addScope]
  split <;> rfl

theorem binds_clearScope : (s.clearScope id).binds u y ↔ u ≠ id ∧ s.binds u y := by
  rw [binds, ownValue?_clearScope]
  split
  · next h => simp [h]
  · next h => exact (and_iff_right h).symm

/-! ## Constants are bound -/

/-- Every constant of a scope has a value in it. -/
def ConstantsBound (s : State) : Prop :=
  ∀ (id : ScopeId) (x : String), s.isConstant id x → s.binds id x

namespace ConstantsBound

theorem write (h : s.ConstantsBound) : (s.write id x v constant).ConstantsBound := by
  intro u y hy
  rw [binds_write]
  exact (isConstant_write.mp hy).imp And.right (h u y)

theorem addScope (h : s.ConstantsBound) {scope : Scope}
    (hscope : ∀ x ∈ scope.constants, (scope.values.get? x).isSome) :
    (s.addScope scope).ConstantsBound := by
  intro u y hy
  rw [isConstant_addScope] at hy
  rw [binds_addScope]
  split at hy
  · next hu =>
    rw [if_pos hu]
    exact hscope y (List.contains_iff_mem.mp hy)
  · next hu =>
    rw [if_neg hu]
    exact h u y hy

theorem child (h : s.ConstantsBound) (parent : ScopeId) :
    (s.addScope (.child parent)).ConstantsBound :=
  h.addScope fun _ hx => absurd hx List.not_mem_nil

theorem clearScope (h : s.ConstantsBound) : (s.clearScope id).ConstantsBound := by
  intro u y hy
  rw [binds_clearScope]
  exact (isConstant_clearScope.mp hy).imp_right (h u y)

theorem print (h : s.ConstantsBound) (line : String) : (s.print line).ConstantsBound := h

theorem empty : State.empty.ConstantsBound := by
  intro u y hy
  simp [isConstant, State.empty] at hy

theorem initial : State.initial.ConstantsBound :=
  empty.addScope fun _ hx => absurd hx List.not_mem_nil

end ConstantsBound

/-! ## Slots -/

/-- The slot of `x` in the scope itself. -/
def ownSlot? (s : State) (id : ScopeId) (x : String) : Option Slot :=
  (s.ownValue? id x).map fun v => ⟨v, s.isConstant id x⟩

/-- The slot that `x` means in a scope. -/
def slot? (s : State) (id : ScopeId) (x : String) : Option Slot :=
  (s.owner? id x).bind fun owner => s.ownSlot? owner x

theorem map_value_ownSlot? : (s.ownSlot? id x).map Slot.value = s.ownValue? id x := by
  rw [ownSlot?, Option.map_map]
  exact Option.map_id'

theorem map_value_slot? : (s.slot? id x).map Slot.value = s.value? id x := by
  rw [slot?, value?, Option.map_bind]
  exact Option.bind_congr fun owner _ => map_value_ownSlot?

theorem ownSlot?_eq_some_iff : s.ownSlot? id x = some ⟨v, constant⟩ ↔
    s.ownValue? id x = some v ∧ s.isConstant id x = constant := by
  simp only [ownSlot?, Option.map_eq_some_iff, Slot.mk.injEq]
  exact ⟨fun ⟨w, hw, hv, hc⟩ => ⟨hv ▸ hw, hc⟩, fun ⟨hv, hc⟩ => ⟨v, hv, rfl, hc⟩⟩

theorem binds_eq_isSome : s.binds id x = (s.ownSlot? id x).isSome := by
  rw [binds, ownSlot?, Option.isSome_map]

theorem SameName.ownSlot? (h : s.SameName t u y) : t.ownSlot? u y = s.ownSlot? u y := by
  rw [State.ownSlot?, State.ownSlot?, h.value, Bool.eq_iff_iff.mpr h.constant]

theorem binds_of_ownSlot? {slot : Slot} (h : s.ownSlot? id x = some slot) : s.binds id x := by
  rw [binds_eq_isSome, h]
  rfl

theorem ownSlot?_eq_none (h : s.scopes.size ≤ u) : s.ownSlot? u y = none := by
  rw [ownSlot?, ownValue?_eq_none h]
  rfl

/-- A new scope has no names. -/
theorem ownSlot?_child (parent : ScopeId) :
    (s.addScope (.child parent)).ownSlot? u y = s.ownSlot? u y :=
  (sameName_addScope_of_free (fun _ => rfl) rfl).ownSlot?

/-- Writing a name changes the slot of that name in that scope, and no other slot. -/
theorem ownSlot?_write : (s.write id x v constant).ownSlot? u y =
    if u = id ∧ y = x ∧ id < s.scopes.size then some ⟨v, constant || s.isConstant id x⟩
    else s.ownSlot? u y := by
  rw [ownSlot?, ownValue?_write]
  split
  · next h =>
    have hconstant : (s.write id x v constant).isConstant u y =
        (constant || s.isConstant id x) := by
      rw [Bool.eq_iff_iff, isConstant_write]
      simp [h]
    rw [hconstant]
    rfl
  · next h =>
    have hold : (s.write id x v constant).isConstant u y ↔ s.isConstant u y :=
      isConstant_write.trans (or_iff_right fun hw => h hw.2)
    rw [ownSlot?, Bool.eq_iff_iff.mpr hold]

/-- A name that is no constant gets the slot that is written. -/
theorem ownSlot?_write_of_free (h : s.isConstant id x = false) :
    (s.write id x v constant).ownSlot? u y =
      if u = id ∧ y = x ∧ id < s.scopes.size then some ⟨v, constant⟩ else s.ownSlot? u y := by
  rw [ownSlot?_write, h, Bool.or_false]

/-- A name that is not bound is no constant. -/
theorem ConstantsBound.isConstant_eq_false (h : s.ConstantsBound)
    (hfree : s.ownSlot? id x = none) : s.isConstant id x = false := by
  rw [Bool.eq_false_iff]
  intro hx
  have hbinds := h id x hx
  rw [binds_eq_isSome, hfree] at hbinds
  cases hbinds

end State

end Scriptlet
