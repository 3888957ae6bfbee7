import Scriptlet.Proofs.Scopes.Extension

/-!
# Scopes in reach

From a scope one can get to its parent and to the scopes that are captured by closures among its
values.  `State.Reaches` is what can be reached in this way, in any number of steps.

A **region** is a set of scopes.  It is closed in a state if no such step leads out of it.  Two
states that agree on a closed region look names up alike from every scope of the region, and the
scope that is found lies in the region (`State.Linked.owner?_eq`, `State.Linked.owner?_mem`).  The
three operations on states keep the agreement as long as they write nothing but closures over the
region.

* `State.Reaches.region`: a closed region holds all that can be reached from one of its scopes.
* `State.Linked`: two states agree on a closed region, to which all scopes to come belong.
* `State.Agree.linked`: agreement on all that can be reached is enough.
-/

namespace Scriptlet

/-- A set of scopes. -/
abbrev Region := ScopeId → Prop

/-- The closures inside the value capture scopes of the region. -/
def Value.Within (region : Region) (v : Value) : Prop := v.AllClosures fun _ _ id => region id

namespace State

/-- The scope can be reached from `origin` through parents and through closures in values. -/
inductive Reaches (s : State) (origin : ScopeId) : ScopeId → Prop
  | here : Reaches s origin origin
  | parent {id p : ScopeId} {scope : Scope} (reached : Reaches s origin id)
      (stands : s.scopes[id]? = some scope) (parent : scope.parent = some p) : Reaches s origin p
  | captured {id target : ScopeId} {scope : Scope} {x : String} {v : Value}
      {parameters : List String} {body : Block} (reached : Reaches s origin id)
      (stands : s.scopes[id]? = some scope) (bound : (x, v) ∈ scope.values)
      (inside : (Value.closure parameters body target).Inside v) : Reaches s origin target

/-- No parent and no captured scope leads out of the region. -/
structure Encloses (s : State) (region : Region) : Prop where
  parent : ∀ {id p : ScopeId} {scope : Scope}, region id → s.scopes[id]? = some scope →
    scope.parent = some p → region p
  captured : ∀ {id : ScopeId} {scope : Scope} {x : String} {v : Value}, region id →
    s.scopes[id]? = some scope → (x, v) ∈ scope.values → v.Within region

/-- A closed region holds all that can be reached from one of its scopes. -/
theorem Reaches.region {s : State} {origin id : ScopeId} {region : Region}
    (h : s.Reaches origin id) (hclosed : s.Encloses region) (horigin : region origin) :
    region id := by
  induction h with
  | here => exact horigin
  | parent _ stands parent ih => exact hclosed.parent ih stands parent
  | captured _ stands bound inside ih => exact hclosed.captured ih stands bound _ _ _ inside

/-! ## Agreement on a region -/

/-- Two states with the same scopes in a closed region, to which all scopes to come belong. -/
structure Linked (region : Region) (s s' : State) : Prop where
  size : s.scopes.size = s'.scopes.size
  fresh : ∀ {id : ScopeId}, s.scopes.size ≤ id → region id
  same : ∀ {id : ScopeId}, region id → s.scopes[id]? = s'.scopes[id]?
  closed : s.Encloses region

/-- Scopes outside of the region are left as they are. -/
def Spares (region : Region) (s t : State) : Prop :=
  ∀ id, ¬ region id → t.scopes[id]? = s.scopes[id]?

theorem Spares.refl (region : Region) (s : State) : Spares region s s := fun _ _ => rfl

theorem Spares.trans {region : Region} {s t u : State} (h : Spares region s t)
    (g : Spares region t u) : Spares region s u :=
  fun id hid => (g id hid).trans (h id hid)

namespace Linked

variable {region : Region} {s s' : State} {id : ScopeId} {x : String} {v : Value}
  {constant : Bool}

theorem ownValue?_eq (h : Linked region s s') (hid : region id) :
    s.ownValue? id x = s'.ownValue? id x := by
  rw [ownValue?, ownValue?, h.same hid]

theorem binds_eq (h : Linked region s s') (hid : region id) : s.binds id x = s'.binds id x := by
  rw [binds, binds, h.ownValue?_eq hid]

theorem isConstant_eq (h : Linked region s s') (hid : region id) :
    s.isConstant id x = s'.isConstant id x := by
  rw [isConstant, isConstant, h.same hid]

/-- From a scope of the region, names are looked up alike. -/
theorem owner?_eq (h : Linked region s s') (hid : region id) :
    s.owner? id x = s'.owner? id x := by
  induction id using Nat.strongRecOn with
  | ind id ih =>
    rw [owner?, owner?, ← h.same hid]
    cases hs : s.scopes[id]? with
    | none => rfl
    | some scope =>
      dsimp only
      split
      · rfl
      · cases hp : scope.parent with
        | none => rfl
        | some p =>
          dsimp only
          split
          · next hlt => exact ih p hlt (h.closed.parent hid hs hp)
          · rfl

/-- A name is found in the region. -/
theorem owner?_mem (h : Linked region s s') (hid : region id) {owner : ScopeId}
    (howner : s.owner? id x = some owner) : region owner := by
  induction id using Nat.strongRecOn with
  | ind id ih =>
    rw [owner?] at howner
    cases hs : s.scopes[id]? with
    | none => simp [hs] at howner
    | some scope =>
      rw [hs] at howner
      dsimp only at howner
      split at howner
      · cases howner
        exact hid
      · cases hp : scope.parent with
        | none => simp [hp] at howner
        | some p =>
          rw [hp] at howner
          dsimp only at howner
          split at howner
          · next hlt => exact ih p hlt (h.closed.parent hid hs hp) howner
          · cases howner

theorem value?_eq (h : Linked region s s') (hid : region id) : s.value? id x = s'.value? id x := by
  rw [value?, value?, ← h.owner?_eq hid]
  cases howner : s.owner? id x with
  | none => rfl
  | some owner => exact h.ownValue?_eq (h.owner?_mem hid howner)

theorem within_of_value? (h : Linked region s s') (hid : region id)
    (hv : s.value? id x = some v) : v.Within region := by
  obtain ⟨owner, howner, hown⟩ := Option.bind_eq_some_iff.mp hv
  obtain ⟨scope, hscope, hget⟩ := Option.bind_eq_some_iff.mp hown
  exact h.closed.captured (h.owner?_mem hid howner) hscope (Fields.mem_of_get? hget)

/-! ### Operations -/

theorem write (h : Linked region s s') (hv : v.Within region) :
    Linked region (s.write id x v constant) (s'.write id x v constant) where
  size := by rw [size_write, size_write, h.size]
  fresh := by
    intro i hi
    rw [size_write] at hi
    exact h.fresh hi
  same := by
    intro i hi
    simp only [State.write, Array.getElem?_modify, h.same hi]
  closed := {
    parent := by
      intro i p scope hi hscope hp
      obtain ⟨old, hold, hparent, _⟩ := getElem?_write hscope
      exact h.closed.parent hi hold (hparent ▸ hp)
    captured := by
      intro i scope y stored hi hscope hy
      obtain ⟨old, hold, _, hb | hb⟩ := getElem?_write hscope
      · exact h.closed.captured hi hold (hb ▸ hy)
      · rw [hb] at hy
        rcases Fields.mem_insert hy with he | hy
        · cases he
          exact hv
        · exact h.closed.captured hi hold hy }

theorem addScope (h : Linked region s s') (hid : region id) :
    Linked region (s.addScope (.child id)) (s'.addScope (.child id)) where
  size := by rw [size_addScope, size_addScope, h.size]
  fresh := by
    intro i hi
    rw [size_addScope] at hi
    exact h.fresh (Nat.le_of_succ_le hi)
  same := by
    intro i hi
    simp only [State.addScope, Array.getElem?_push, h.size, h.same hi]
  closed := {
    parent := by
      intro i p scope hi hscope hp
      rcases getElem?_addScope hscope with ⟨_, rfl⟩ | hscope
      · cases hp
        exact hid
      · exact h.closed.parent hi hscope hp
    captured := by
      intro i scope y stored hi hscope hy
      rcases getElem?_addScope hscope with ⟨_, rfl⟩ | hscope
      · cases hy
      · exact h.closed.captured hi hscope hy }

theorem print (h : Linked region s s') (line : String) :
    Linked region (s.print line) (s'.print line) :=
  ⟨h.size, h.fresh, h.same, h.closed.parent, h.closed.captured⟩

end Linked

theorem spares_write {region : Region} {s : State} {id : ScopeId} (hid : region id) (x : String)
    (v : Value) (constant : Bool) : Spares region s (s.write id x v constant) := by
  intro i hi
  have hne : i ≠ id := by
    rintro rfl
    exact hi hid
  exact getElem?_write_ne (Or.inl hne)

theorem spares_addScope {region : Region} {s : State} (hfresh : region s.scopes.size)
    (scope : Scope) : Spares region s (s.addScope scope) := by
  intro i hi
  have hne : i ≠ s.scopes.size := by
    rintro rfl
    exact hi hfresh
  simp only [addScope, Array.getElem?_push, if_neg hne]

/-! ## What can be reached -/

/-- The scope can be reached from one of the origins, or is still to come. -/
def InReach (s : State) (origins : Region) (id : ScopeId) : Prop :=
  (∃ origin, origins origin ∧ s.Reaches origin id) ∨ s.scopes.size ≤ id

theorem inReach_origin {s : State} {origins : Region} {origin : ScopeId} (h : origins origin) :
    s.InReach origins origin :=
  Or.inl ⟨origin, h, .here⟩

/-- The states have the same scopes as far as they can be reached from the origins, and the same
number for the next scope. -/
structure Agree (origins : Region) (s s' : State) : Prop where
  size : s.scopes.size = s'.scopes.size
  same : ∀ {origin id : ScopeId}, origins origin → s.Reaches origin id →
    s.scopes[id]? = s'.scopes[id]?

/-- Where the scopes in reach are the same, the same scopes are in reach. -/
theorem Agree.reaches_iff {s s' : State} {origins : Region} {origin id : ScopeId}
    (h : Agree origins s s') (horigin : origins origin) :
    s.Reaches origin id ↔ s'.Reaches origin id := by
  constructor
  · intro hid
    induction hid with
    | here => exact .here
    | parent reached stands parent ih =>
      exact ih.parent ((h.same horigin reached).symm.trans stands) parent
    | captured reached stands bound inside ih =>
      exact ih.captured ((h.same horigin reached).symm.trans stands) bound inside
  · intro hid
    induction hid with
    | here => exact .here
    | parent _ stands parent ih => exact ih.parent ((h.same horigin ih).trans stands) parent
    | captured _ stands bound inside ih =>
      exact ih.captured ((h.same horigin ih).trans stands) bound inside

/-- **Agreement on all that can be reached is agreement on a closed region.** -/
theorem Agree.linked {s s' : State} {origins : Region} (h : Agree origins s s') :
    Linked (s.InReach origins) s s' where
  size := h.size
  fresh := Or.inr
  same := by
    rintro id (⟨origin, horigin, hid⟩ | hid)
    · exact h.same horigin hid
    · rw [Array.getElem?_eq_none hid, Array.getElem?_eq_none (h.size ▸ hid)]
  closed := {
    parent := by
      rintro id p scope (⟨origin, horigin, hid⟩ | hid) hscope hp
      · exact Or.inl ⟨origin, horigin, hid.parent hscope hp⟩
      · rw [Array.getElem?_eq_none hid] at hscope
        cases hscope
    captured := by
      rintro id scope x v (⟨origin, horigin, hid⟩ | hid) hscope hx parameters body target hi
      · exact Or.inl ⟨origin, horigin, hid.captured hscope hx hi⟩
      · rw [Array.getElem?_eq_none hid] at hscope
        cases hscope }

/-! ## Clearing -/

theorem size_clearScope {s : State} {dead : ScopeId} :
    (s.clearScope dead).scopes.size = s.scopes.size := by
  simp only [clearScope, Array.size_modify]

/-- Clearing a scope that cannot be reached leaves all that can be reached. -/
theorem agree_clearScope {s : State} {origins : Region} {dead : ScopeId}
    (h : ∀ origin, origins origin → ¬ s.Reaches origin dead) :
    Agree origins s (s.clearScope dead) where
  size := size_clearScope.symm
  same := by
    intro origin id horigin hid
    have hne : id ≠ dead := by
      rintro rfl
      exact h origin horigin hid
    exact (getElem?_clearScope_ne hne).symm

end State

end Scriptlet
