import Scriptlet.Proofs.Scopes.Closures
import Scriptlet.Proofs.Scopes.Tables

/-!
# The table of scopes

A table of scopes is well formed if every parent stands before its child, so that the scopes are a
forest, every closure that a scope stores captures a scope of the table, and every constant is
bound.  A state extends another one if nothing of that one was taken back: its scopes are there with
their parents, its names are bound, its constants have their slots and its lines are the first
lines.

The three operations on states that evaluation uses (a scope is added, a name is written, a line is
printed) keep the table well formed and extend the state, a write as long as it does not hit a
constant.

* `State.WellFormed`, `State.Knows`: closures capture scopes of the table.
* `State.Extends`, a preorder on states.
* `State.Extends.visible`: what can be seen from a scope can be seen from it ever after.
-/

namespace Scriptlet

namespace State

/-! ## Well-formed tables -/

/-- A scope has the value `v` for one of its names. -/
def Stores (s : State) (v : Value) : Prop :=
  ∃ (id : ScopeId) (scope : Scope) (x : String),
    s.scopes[id]? = some scope ∧ (x, v) ∈ scope.values

/-- The closures inside `v` capture scopes of `s`. -/
def Knows (s : State) (v : Value) : Prop := v.AllClosures fun _ _ id => id < s.scopes.size

structure WellFormed (s : State) : Prop where
  parent_lt : ∀ {id p : ScopeId} {scope : Scope},
    s.scopes[id]? = some scope → scope.parent = some p → p < id
  knows : ∀ {v : Value}, s.Stores v → s.Knows v
  bound : s.ConstantsBound

/-! ## Extension -/

/-- `s.Extends t`: the state `t` has all that `s` has. -/
structure Extends (s t : State) : Prop where
  scope : ∀ {id : ScopeId} {scope : Scope}, s.scopes[id]? = some scope →
    ∃ later : Scope, t.scopes[id]? = some later ∧ later.parent = scope.parent
  binds : ∀ {id : ScopeId} {x : String}, s.binds id x → t.binds id x
  constant : ∀ {id : ScopeId} {x : String} {slot : Slot}, s.ownSlot? id x = some slot →
    slot.constant → t.ownSlot? id x = some slot
  output : s.output.toList <+: t.output.toList

namespace Extends

variable {s t u : State}

theorem refl (s : State) : s.Extends s where
  scope := fun h => ⟨_, h, rfl⟩
  binds := id
  constant := fun h _ => h
  output := List.prefix_refl _

theorem trans (h : s.Extends t) (g : t.Extends u) : s.Extends u where
  scope := by
    intro id scope hs
    obtain ⟨middle, ht, hp⟩ := h.scope hs
    obtain ⟨later, hu, hp'⟩ := g.scope ht
    exact ⟨later, hu, hp'.trans hp⟩
  binds := fun hs => g.binds (h.binds hs)
  constant := fun hs hc => g.constant (h.constant hs hc) hc
  output := h.output.trans g.output

theorem size_le (h : s.Extends t) : s.scopes.size ≤ t.scopes.size := by
  refine Nat.le_of_not_lt fun hlt => ?_
  obtain ⟨later, ht, _⟩ := h.scope (Array.getElem?_eq_getElem hlt)
  have hsize := (Array.getElem?_eq_some_iff.mp ht).1
  exact absurd hsize (Nat.lt_irrefl _)

theorem exists_lt (h : s.Extends t) {id : ScopeId} (hid : id < s.scopes.size) :
    id < t.scopes.size :=
  Nat.lt_of_lt_of_le hid h.size_le

theorem knows (h : s.Extends t) {v : Value} (hv : s.Knows v) : t.Knows v :=
  hv.imp fun _ _ _ hid => h.exists_lt hid

/-- What can be seen from a scope can be seen from it ever after. -/
theorem visible (h : s.Extends t) {id : ScopeId} {x : String} (hx : (s.owner? id x).isSome) :
    (t.owner? id x).isSome := by
  induction id using Nat.strongRecOn with
  | ind id ih =>
    rw [owner?] at hx ⊢
    cases hs : s.scopes[id]? with
    | none => simp [hs] at hx
    | some scope =>
      obtain ⟨later, ht, hp⟩ := h.scope hs
      rw [ht]
      rw [hs] at hx
      dsimp only at hx ⊢
      split
      · rfl
      · next hlater =>
        -- A name that the later scope does not bind was not bound by the earlier one.
        have hscope : ¬ (scope.values.get? x).isSome := by
          intro hb
          have hown : s.binds id x := by rwa [State.binds, ownValue?_of_getElem? hs]
          have hbinds := h.binds hown
          rw [State.binds, ownValue?_of_getElem? ht] at hbinds
          exact hlater hbinds
        rw [if_neg hscope] at hx
        rw [hp]
        cases hparent : scope.parent with
        | none => simp [hparent] at hx
        | some p =>
          rw [hparent] at hx
          dsimp only at hx ⊢
          split at hx
          · next hlt =>
            rw [if_pos hlt]
            exact ih p hlt hx
          · simp at hx

end Extends

/-! ## Operations -/

variable {s : State} {id : ScopeId} {x : String} {v : Value} {constant : Bool}

theorem size_write : (s.write id x v constant).scopes.size = s.scopes.size := by
  simp [write]

theorem size_addScope {scope : Scope} : (s.addScope scope).scopes.size = s.scopes.size + 1 := by
  simp [addScope]

theorem getElem?_write {i : ScopeId} {scope : Scope}
    (h : (s.write id x v constant).scopes[i]? = some scope) :
    ∃ old, s.scopes[i]? = some old ∧ scope.parent = old.parent ∧
      (scope.values = old.values ∨ scope.values = old.values.insert x v) := by
  simp only [write, Array.getElem?_modify] at h
  split at h
  · obtain ⟨old, hold, rfl⟩ := Option.map_eq_some_iff.mp h
    exact ⟨old, hold, rfl, Or.inr rfl⟩
  · exact ⟨scope, h, rfl, Or.inl rfl⟩

theorem Stores.of_write {w : Value} (h : (s.write id x v constant).Stores w) :
    w = v ∨ s.Stores w := by
  obtain ⟨i, scope, y, hscope, hy⟩ := h
  obtain ⟨old, hold, _, hb | hb⟩ := getElem?_write hscope
  · rw [hb] at hy
    exact Or.inr ⟨i, old, y, hold, hy⟩
  · rw [hb] at hy
    rcases Fields.mem_insert hy with he | hy
    · exact Or.inl (congrArg Prod.snd he)
    · exact Or.inr ⟨i, old, y, hold, hy⟩

theorem stores_of_value? (h : s.value? id x = some v) : s.Stores v := by
  obtain ⟨owner, _, hown⟩ := Option.bind_eq_some_iff.mp h
  obtain ⟨scope, hscope, hget⟩ := Option.bind_eq_some_iff.mp hown
  exact ⟨owner, scope, x, hscope, Fields.mem_of_get? hget⟩

theorem getElem?_addScope {scope added : Scope} {i : ScopeId}
    (h : (s.addScope added).scopes[i]? = some scope) :
    i = s.scopes.size ∧ scope = added ∨ s.scopes[i]? = some scope := by
  simp only [addScope, Array.getElem?_push] at h
  split at h
  · next hi => exact Or.inl ⟨hi, (Option.some.inj h).symm⟩
  · exact Or.inr h

theorem Stores.of_addScope {scope : Scope} (h : (s.addScope scope).Stores v) :
    (∃ y, (y, v) ∈ scope.values) ∨ s.Stores v := by
  obtain ⟨i, scope', y, hscope, hy⟩ := h
  rcases getElem?_addScope hscope with ⟨_, rfl⟩ | hscope
  · exact Or.inl ⟨y, hy⟩
  · exact Or.inr ⟨i, scope', y, hscope, hy⟩

theorem WellFormed.write (h : s.WellFormed) (hv : s.Knows v) :
    (s.write id x v constant).WellFormed where
  parent_lt := by
    intro i p scope hscope hp
    obtain ⟨old, hold, hparent, _⟩ := getElem?_write hscope
    exact h.parent_lt hold (hparent ▸ hp)
  knows := by
    intro w hw
    rw [Knows, size_write]
    rcases hw.of_write with rfl | hw
    · exact hv
    · exact h.knows hw
  bound := h.bound.write

theorem WellFormed.addScope (h : s.WellFormed) {scope : Scope}
    (hparent : ∀ p, scope.parent = some p → p < s.scopes.size)
    (hvalues : ∀ p ∈ scope.values, s.Knows p.2)
    (hconstants : ∀ x ∈ scope.constants, (scope.values.get? x).isSome) :
    (s.addScope scope).WellFormed where
  parent_lt := by
    intro i p scope' hscope hp
    rcases getElem?_addScope hscope with ⟨rfl, rfl⟩ | hscope
    · exact hparent p hp
    · exact h.parent_lt hscope hp
  knows := by
    intro w hw
    have hknown : s.Knows w := by
      rcases hw.of_addScope with ⟨y, hy⟩ | hw
      · exact hvalues _ hy
      · exact h.knows hw
    rw [Knows, size_addScope]
    exact hknown.imp fun _ _ _ hid => Nat.lt_succ_of_lt hid
  bound := h.bound.addScope hconstants

theorem WellFormed.print (h : s.WellFormed) (line : String) : (s.print line).WellFormed :=
  ⟨h.parent_lt, h.knows, h.bound.print line⟩

/-- **Writing a name that is not a constant extends the state.** -/
theorem extends_write (h : s.binds id x → ¬ s.isConstant id x) :
    s.Extends (s.write id x v constant) where
  scope := by
    intro i scope hs
    simp only [write, Array.getElem?_modify]
    split
    · rw [hs]
      exact ⟨_, rfl, rfl⟩
    · exact ⟨scope, hs, rfl⟩
  binds := fun hy => binds_write.mpr (Or.inr hy)
  constant := by
    rintro i y ⟨w, _⟩ hold rfl
    rw [ownSlot?_write]
    split
    · next hiy =>
      obtain ⟨rfl, rfl, _⟩ := hiy
      obtain ⟨hw, hc⟩ := ownSlot?_eq_some_iff.mp hold
      exact absurd hc (h (Option.isSome_iff_exists.mpr ⟨w, hw⟩))
    · exact hold
  output := List.prefix_refl _

theorem extends_addScope (scope : Scope) : s.Extends (s.addScope scope) where
  scope := by
    intro i old hold
    have hi := (Array.getElem?_eq_some_iff.mp hold).1
    refine ⟨old, ?_, rfl⟩
    rw [addScope, Array.getElem?_push, if_neg (Nat.ne_of_lt hi), hold]
  binds := by
    intro i y hy
    rw [(sameName_addScope_of_binds hy scope).binds]
    exact hy
  constant := by
    intro i y slot hold _
    rw [(sameName_addScope_of_binds (binds_of_ownSlot? hold) scope).ownSlot?, hold]
  output := List.prefix_refl _

theorem extends_print (line : String) : s.Extends (s.print line) where
  scope := fun h => ⟨_, h, rfl⟩
  binds := id
  constant := fun h _ => h
  output := by simp [print]

/-! ## New sessions -/

theorem stores_initial (h : initial.Stores v) : ∃ b, v = .builtin b := by
  rcases Stores.of_addScope h with ⟨y, hy⟩ | ⟨i, scope, y, hscope, _⟩
  · obtain ⟨b, _, he⟩ := List.mem_map.mp (Fields.mem_ofList hy)
    cases he
    exact ⟨b, rfl⟩
  · simp [empty] at hscope

theorem wellFormed_initial : initial.WellFormed where
  parent_lt := by
    intro i p scope hscope hp
    rcases getElem?_addScope hscope with ⟨_, rfl⟩ | hscope
    · cases hp
    · simp [empty] at hscope
  knows := by
    intro v hv
    obtain ⟨b, rfl⟩ := stores_initial hv
    exact Value.allClosures_builtin b
  bound := .initial

end State

end Scriptlet
