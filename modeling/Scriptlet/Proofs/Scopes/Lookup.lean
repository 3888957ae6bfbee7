import Scriptlet.Proofs.Scopes.History
import Scriptlet.Proofs.Scopes.Settled

/-!
# Looking names up

The slot of a name is the scope's own if it has one (`State.slot?_of_own`), and that of its parent
otherwise (`State.owner?_of_parent`).  A new scope has no names, so it finds what its parent finds
(`State.slot?_enter`), and for the scopes that were there nothing changes (`State.slot?_addScope`).
-/

namespace Scriptlet

namespace State

variable {s : State} {id p : ScopeId} {x : String} {slot : Slot}

/-! ## From a scope outwards -/

theorem owner?_of_binds (h : s.binds id x) : s.owner? id x = some id := by
  obtain ⟨v, hv⟩ := Option.isSome_iff_exists.mp h
  obtain ⟨scope, hscope, hget⟩ := Option.bind_eq_some_iff.mp hv
  simp [owner?, hscope, hget]

theorem owner?_of_own (h : s.ownSlot? id x = some slot) : s.owner? id x = some id :=
  owner?_of_binds (binds_of_ownSlot? h)

theorem slot?_of_own (h : s.ownSlot? id x = some slot) : s.slot? id x = some slot := by
  rw [slot?, owner?_of_own h, Option.bind_some, h]

theorem get?_of_ownSlot?_eq_none {scope : Scope} (hscope : s.scopes[id]? = some scope)
    (h : s.ownSlot? id x = none) : scope.values.get? x = none := by
  rw [← ownValue?_of_getElem? hscope, ← map_value_ownSlot?, h]
  rfl

theorem owner?_of_parent (hp : s.parent? id = some (some p)) (hlt : p < id)
    (h : s.ownSlot? id x = none) : s.owner? id x = s.owner? p x := by
  obtain ⟨scope, hscope, hparent⟩ := Option.map_eq_some_iff.mp hp
  have hget := get?_of_ownSlot?_eq_none hscope h
  rw [owner?, hscope]
  simp [hget, hparent, hlt]

theorem slot?_of_parent (hp : s.parent? id = some (some p)) (hlt : p < id)
    (h : s.ownSlot? id x = none) : s.slot? id x = s.slot? p x := by
  rw [slot?, slot?, owner?_of_parent hp hlt h]

/-- A global scope has nothing but its own names. -/
theorem slot?_of_root (hp : s.parent? id = some none) : s.slot? id x = s.ownSlot? id x := by
  obtain ⟨scope, hscope, hparent⟩ := Option.map_eq_some_iff.mp hp
  cases hslot : s.ownSlot? id x with
  | some slot => rw [slot?_of_own hslot]
  | none =>
    have hget := get?_of_ownSlot?_eq_none hscope hslot
    rw [slot?, owner?, hscope]
    simp [hget, hparent]

theorem lt_size_of_parent? {parent : Option ScopeId} (hp : s.parent? id = some parent) :
    id < s.scopes.size := by
  obtain ⟨scope, hscope, -⟩ := Option.map_eq_some_iff.mp hp
  exact (Array.getElem?_eq_some_iff.mp hscope).1

/-! ## Past a new scope -/

theorem owner?_addScope {scope : Scope} (hid : id < s.scopes.size) :
    (s.addScope scope).owner? id x = s.owner? id x := by
  induction id using Nat.strongRecOn with
  | ind id ih =>
    have hget : (s.addScope scope).scopes[id]? = s.scopes[id]? := by
      rw [addScope, Array.getElem?_push, if_neg (Nat.ne_of_lt hid)]
    rw [owner?, owner?, hget]
    cases s.scopes[id]? with
    | none => rfl
    | some old =>
      dsimp only
      cases old.parent with
      | none => rfl
      | some p =>
        dsimp only
        by_cases hlt : p < id
        · rw [if_pos hlt, if_pos hlt, ih p hlt (Nat.lt_trans hlt hid)]
        · rw [if_neg hlt, if_neg hlt]

theorem slot?_addScope {scope : Scope} (hid : id < s.scopes.size) :
    (s.addScope scope).slot? id x = s.slot? id x := by
  rw [slot?, slot?, owner?_addScope hid]
  refine Option.bind_congr fun owner howner => ?_
  exact (sameName_addScope_of_binds (binds_of_owner? howner) scope).ownSlot?

theorem owner?_enter (hid : id < s.scopes.size) :
    (s.addScope (.child id)).owner? s.scopes.size x = s.owner? id x := by
  have hparent : (s.addScope (.child id)).parent? s.scopes.size = some (some id) := by
    rw [parent?_addScope, if_pos rfl]
    rfl
  have hown : (s.addScope (.child id)).ownSlot? s.scopes.size x = none := by
    rw [ownSlot?_child, ownSlot?_eq_none (Nat.le_refl _)]
  rw [owner?_of_parent hparent hid hown, owner?_addScope hid]

theorem slot?_enter (hid : id < s.scopes.size) :
    (s.addScope (.child id)).slot? s.scopes.size x = s.slot? id x := by
  rw [← slot?_addScope hid, slot?, slot?, owner?_enter hid, owner?_addScope hid]

end State

end Scriptlet
