import Mathlib.Data.List.Induction
import Scriptlet.Proofs.Scopes.Discipline
import Scriptlet.Proofs.Scopes.Reach

/-!
# Scopes and their history

A history is the list of all that was done to the scopes: global scopes and children made, names
defined and assigned, scopes cleared.  From the history alone one can say which scope a name means,
whether it is a constant, and what was last written to it.  The state forgets the history and keeps
two tables for each scope, one of values and one of constants; they say the same.  In particular no
constant is left behind when a scope is cleared and its names are defined anew.

* `History.Since`: something happened, and nothing ended it later.
* `History.Defined`, `History.Constant`, `History.Latest`: a name of a scope, by its history.
* `History.constantsBound`: after every history all constants have values.
* `History.mirrors`: after every history the tables of the scopes say what the history says.
-/

namespace Scriptlet

/-! ## Operations -/

/-- An operation on `n` scopes; the second number is how many there are afterwards.  A scope is
known by the number of scopes made before it. -/
inductive Operation (n : Nat) : Nat → Type where
  | global : Operation n (n + 1)
  | globalWith (bindings : List (String × Value)) : Operation n (n + 1)
  | child (parent : Fin n) : Operation n (n + 1)
  | define (scope : Fin n) (x : String) (v : Value) (constant : Bool) : Operation n n
  | assign (scope : Fin n) (x : String) (v : Value) : Operation n n
  | clear (scope : Fin n) : Operation n n

namespace Operation

variable {n m : Nat}

def run : Operation n m → Eval Unit
  | .global => modify (·.addScope .global)
  | .globalWith bindings => modify (·.addScope (.globalWith bindings))
  | .child parent => discard (Eval.enter parent)
  | .define scope x v constant => Eval.define scope x v constant
  | .assign scope x v => Eval.assign scope x v
  | .clear scope => modify (·.clearScope scope)

/-- The operation gives `y` to the scope `u`: it defines it there, or makes `u` with it. -/
def Introduces (u : ScopeId) (y : String) : Operation n m → Prop
  | .globalWith bindings => u = n ∧ ∃ v, (y, v) ∈ bindings
  | .define scope x _ _ => u = scope ∧ y = x
  | _ => False

def Clears (u : ScopeId) : Operation n m → Prop
  | .clear scope => u = scope
  | _ => False

/-- The operation is the definition of `y` in `u` as a constant. -/
def Fixes (u : ScopeId) (y : String) (v : Value) : Operation n m → Prop
  | .define scope x w constant => u = scope ∧ y = x ∧ v = w ∧ constant
  | _ => False

end Operation

/-! ## Histories -/

/-- What was done to the scopes, `n` of which were made. -/
inductive History : Nat → Type where
  | start : History 0
  | step {n m : Nat} (before : History n) (op : Operation n m) : History m

namespace History

variable {n m : Nat}

/-- The scopes after a history, whatever its operations answered. -/
def state : {n : Nat} → History n → State
  | _, .start => .empty
  | _, .step before op => op.run.after before.state

/-- A session starts with one global scope, which has the builtin functions. -/
example : (start.step (.globalWith (Builtin.all.map fun b => (b.name, .builtin b)))).state =
    State.initial := rfl

/-- The scopes from `t` outwards to its root. -/
def path : {n : Nat} → History n → ScopeId → List ScopeId
  | _, .start, _ => []
  | _, @step n _ before op, t =>
    match op with
    | .global | .globalWith _ => if t = n then [t] else before.path t
    | .child parent => if t = n then t :: before.path parent else before.path t
    | .define .. | .assign .. | .clear _ => before.path t

/-- An operation that `begins` was done, and none that `ends` after it.  Both are told of an
operation and the history before it. -/
def Since (begins ends : ∀ {n m : Nat}, History n → Operation n m → Prop) :
    {n : Nat} → History n → Prop
  | _, .start => False
  | _, .step before op => begins before op ∨ ¬ ends before op ∧ before.Since begins ends

/-- The name was defined in the scope since the scope was last cleared. -/
def Defined (h : History n) (u : ScopeId) (y : String) : Prop :=
  h.Since (fun _ op => op.Introduces u y) (fun _ op => op.Clears u)

/-- The name is a constant of the scope: it was defined as one, with the value `v`, since the scope
was last cleared. -/
def Constant (h : History n) (u : ScopeId) (y : String) (v : Value) : Prop :=
  h.Since (fun before op => op.Fixes u y v ∧ ¬ before.Defined u y) (fun _ op => op.Clears u)

/-- Of the scopes from `t` outwards, `u` is the first that has the name. -/
def Nearest (h : History n) (t : ScopeId) (y : String) (u : ScopeId) : Prop :=
  ∃ inner outer, h.path t = inner ++ u :: outer ∧ h.Defined u y ∧ ∀ w ∈ inner, ¬ h.Defined w y

theorem Nearest.defined {h : History n} {t u : ScopeId} {y : String} (hu : h.Nearest t y u) :
    h.Defined u y := by
  obtain ⟨_, _, _, hd, _⟩ := hu
  exact hd

/-- Done after the history, the operation writes `v` to the name in the scope.  Of several bindings
of a name the last one counts; a definition writes if the scope does not have the name, an
assignment if the scope is the nearest one that has it, not as a constant. -/
def Writes (h : History n) (op : Operation n m) (u : ScopeId) (y : String) (v : Value) : Prop :=
  match op with
  | .globalWith bindings => u = n ∧
    ∃ earlier later, bindings = earlier ++ (y, v) :: later ∧ ∀ p ∈ later, p.1 ≠ y
  | .define scope x w _ => u = scope ∧ y = x ∧ v = w ∧ ¬ h.Defined u y
  | .assign scope x w => h.Nearest scope y u ∧ y = x ∧ v = w ∧ ∀ c, ¬ h.Constant u y c
  | .global | .child _ | .clear _ => False

/-- The latest write to the name in the scope wrote `v`. -/
def Latest (h : History n) (u : ScopeId) (y : String) (v : Value) : Prop :=
  h.Since (fun before op => before.Writes op u y v) (fun before op => ∃ w, before.Writes op u y w)

end History

/-! ## Bindings and parents -/

namespace Fields

variable {α : Type}

theorem ofList_concat (items : List (String × α)) (p : String × α) :
    ofList (items ++ [p]) = (ofList items).insert p.1 p.2 := by
  simp only [ofList, List.foldl_append, List.foldl_cons, List.foldl_nil]

theorem get?_ofList (items : List (String × α)) (key : String) :
    (ofList items).get? key = items.reverse.lookup key := by
  induction items using List.reverseRecOn with
  | nil => rfl
  | append_singleton items p ih =>
    rw [ofList_concat, get?_insert, ih, List.reverse_append, List.reverse_singleton,
      List.singleton_append, List.lookup_cons]
    by_cases h : key = p.1
    · rw [if_pos h, h, beq_self_eq_true]
    · rw [if_neg h, beq_false_of_ne h]

/-- Of several items of a key the last one counts. -/
theorem get?_ofList_eq_some_iff {items : List (String × α)} {key : String} {item : α} :
    (ofList items).get? key = some item ↔
      ∃ earlier later, items = earlier ++ (key, item) :: later ∧ ∀ p ∈ later, p.1 ≠ key := by
  rw [get?_ofList, List.lookup_eq_some_iff]
  constructor
  · rintro ⟨later, earlier, he, hlater⟩
    refine ⟨earlier.reverse, later.reverse, ?_, fun p hp => ?_⟩
    · rw [← List.reverse_reverse items, he]
      simp
    · have hne := hlater p (List.mem_reverse.mp hp)
      exact Ne.symm (bne_iff_ne.mp hne)
  · rintro ⟨earlier, later, rfl, hlater⟩
    refine ⟨later.reverse, earlier.reverse, by simp, fun p hp => ?_⟩
    exact bne_iff_ne.mpr (hlater p (List.mem_reverse.mp hp)).symm

end Fields

namespace State

variable {s : State} {id : ScopeId}

/-- The parent of a scope, if the scope was made. -/
def parent? (s : State) (id : ScopeId) : Option (Option ScopeId) := s.scopes[id]?.map (·.parent)

theorem parent?_addScope {scope : Scope} : (s.addScope scope).parent? id =
    if id = s.scopes.size then some scope.parent else s.parent? id := by
  simp only [parent?, addScope, Array.getElem?_push]
  split <;> rfl

theorem parent?_eq_none (h : s.scopes.size ≤ id) : s.parent? id = none := by
  rw [parent?, Array.getElem?_eq_none h]
  rfl

/-- The states have the same scopes with the same parents. -/
def SameTree (s t : State) : Prop :=
  t.scopes.size = s.scopes.size ∧ ∀ id, t.parent? id = s.parent? id

theorem sameTree_write (s : State) (u : ScopeId) (x : String) (v : Value) (constant : Bool) :
    s.SameTree (s.write u x v constant) := by
  refine ⟨size_write, fun id => ?_⟩
  simp only [parent?, write, Array.getElem?_modify]
  split
  · cases s.scopes[id]? <;> rfl
  · rfl

theorem sameTree_clearScope (s : State) (u : ScopeId) : s.SameTree (s.clearScope u) := by
  refine ⟨size_clearScope, fun id => ?_⟩
  simp only [parent?, clearScope, Array.getElem?_modify]
  split
  · cases s.scopes[id]? <;> rfl
  · rfl

theorem sameTree_define (s : State) (id : ScopeId) (x : String) (v : Value) (constant : Bool) :
    s.SameTree ((Eval.define id x v constant).after s) := by
  rw [Eval.after, Eval.define]
  cases s.binds id x with
  | true => exact ⟨rfl, fun _ => rfl⟩
  | false => exact s.sameTree_write id x v constant

theorem sameTree_assign (s : State) (id : ScopeId) (x : String) (v : Value) :
    s.SameTree ((Eval.assign id x v).after s) := by
  rw [Eval.after, Eval.assign]
  cases s.owner? id x with
  | none => exact ⟨rfl, fun _ => rfl⟩
  | some owner =>
    dsimp only
    cases s.isConstant owner x with
    | true => exact ⟨rfl, fun _ => rfl⟩
    | false => exact s.sameTree_write owner x v false

end State

/-! ## Constants are bound -/

/-- No operation leaves a constant without a value. -/
theorem Operation.run_constantsBound {n m : Nat} (op : Operation n m) {s : State}
    (h : s.ConstantsBound) : (op.run.after s).ConstantsBound := by
  cases op with
  | global | globalWith => exact h.addScope fun _ hx => absurd hx List.not_mem_nil
  | child parent => exact h.child parent
  | define scope x v constant =>
    show ((Eval.define scope x v constant).after s).ConstantsBound
    rw [Eval.after, Eval.define]
    cases s.binds scope x with
    | true => exact h
    | false => exact h.write
  | assign scope x v =>
    show ((Eval.assign scope x v).after s).ConstantsBound
    rw [Eval.after, Eval.assign]
    cases s.owner? scope x with
    | none => exact h
    | some owner =>
      dsimp only
      cases s.isConstant owner x with
      | true => exact h
      | false => exact h.write
  | clear scope => exact h.clearScope

/-- **After every history all constants are bound.** -/
theorem History.constantsBound {n : Nat} (h : History n) : h.state.ConstantsBound := by
  induction h with
  | start => exact .empty
  | step before op ih => exact op.run_constantsBound ih

/-! ## The tables and the history -/

namespace History

variable {n m : Nat}

/-- The tables of the scopes say what the history says: the values are those of the names defined,
each the latest one written, and the constants are the names defined as such, with the values of
their definitions. -/
structure Mirrors (h : History n) : Prop where
  size : h.state.scopes.size = n
  path : ∀ {id : ScopeId} {parent : Option ScopeId}, h.state.parent? id = some parent →
    h.path id = id :: parent.elim [] h.path ∧ ∀ p ∈ parent, p < id
  defined : ∀ {u : ScopeId} {y : String}, h.state.binds u y ↔ h.Defined u y
  constant : ∀ {u : ScopeId} {y : String}, h.state.isConstant u y ↔ ∃ v, h.Constant u y v
  fixed : ∀ {u : ScopeId} {y : String} {v : Value}, h.Constant u y v →
    h.state.ownValue? u y = some v
  latest : ∀ {u : ScopeId} {y : String} {w : Value}, h.state.ownValue? u y = some w →
    ∀ v, h.Latest u y v ↔ v = w

theorem path_eq_nil (h : History n) {t : ScopeId} (ht : n ≤ t) : h.path t = [] := by
  induction h with
  | start => rfl
  | step before op ih =>
    cases op with
    | global | globalWith | child =>
      rw [path, if_neg (Nat.ne_of_gt ht)]
      exact ih (Nat.le_of_succ_le ht)
    | define | assign | clear => exact ih ht

namespace Mirrors

variable {h : History n} {t u : ScopeId} {y : String} {v : Value}

theorem lt_of_defined (hm : h.Mirrors) (hd : h.Defined u y) : u < n := by
  have hlt := State.lt_size_of_binds (hm.defined.mpr hd)
  rwa [hm.size] at hlt

theorem defined_of_constant (hm : h.Mirrors) (hc : h.Constant u y v) : h.Defined u y := by
  rw [← hm.defined, State.binds, hm.fixed hc]
  rfl

/-- The names that are constants with a value are those that the history says were defined so. -/
theorem constant_iff (hm : h.Mirrors) :
    h.state.isConstant u y ∧ h.state.ownValue? u y = some v ↔ h.Constant u y v := by
  constructor
  · rintro ⟨hy, hv⟩
    obtain ⟨w, hw⟩ := hm.constant.mp hy
    rw [hm.fixed hw] at hv
    cases hv
    exact hw
  · exact fun hv => ⟨hm.constant.mpr ⟨v, hv⟩, hm.fixed hv⟩

/-- Names are looked up along the path. -/
theorem owner?_eq_find? (hm : h.Mirrors) (t : ScopeId) (y : String) :
    h.state.owner? t y = (h.path t).find? (h.state.binds · y) := by
  induction t using Nat.strongRecOn with
  | ind t ih =>
    rw [State.owner?]
    cases ht : h.state.scopes[t]? with
    | none =>
      rw [h.path_eq_nil (by rw [← hm.size]; exact Array.getElem?_eq_none_iff.mp ht)]
      rfl
    | some scope =>
      have hparent : h.state.parent? t = some scope.parent := by rw [State.parent?, ht]; rfl
      obtain ⟨hpath, hlt⟩ := hm.path hparent
      have hbinds : h.state.binds t y = (scope.values.get? y).isSome := by
        rw [State.binds, State.ownValue?_of_getElem? ht]
      rw [hpath, List.find?_cons, hbinds]
      dsimp only
      cases (scope.values.get? y).isSome with
      | true => rfl
      | false =>
        cases hp : scope.parent with
        | none => rfl
        | some p =>
          have hpt : p < t := hlt p (by rw [hp]; rfl)
          simp only [Bool.false_eq_true, if_false, if_pos hpt]
          exact ih p hpt

theorem owner? (hm : h.Mirrors) : h.state.owner? t y = some u ↔ h.Nearest t y u := by
  rw [hm.owner?_eq_find?, List.find?_eq_some_iff_append]
  simp only [Nearest, ← hm.defined]
  constructor
  · rintro ⟨hu, inner, outer, hpath, hinner⟩
    refine ⟨inner, outer, hpath, hu, fun w hw => ?_⟩
    have hfree := hinner w hw
    simpa using hfree
  · rintro ⟨inner, outer, hpath, hu, hinner⟩
    refine ⟨hu, inner, outer, hpath, fun w hw => ?_⟩
    have hfree := hinner w hw
    simpa using hfree

theorem owner?_eq_none (hm : h.Mirrors) (hnone : ∀ u, ¬ h.Nearest t y u) :
    h.state.owner? t y = none := by
  cases ho : h.state.owner? t y with
  | none => rfl
  | some u => exact absurd (hm.owner?.mp ho) (hnone u)

/-! ### Answers -/

theorem exists_latest (hm : h.Mirrors) (hd : h.Defined u y) : ∃ v, h.Latest u y v := by
  obtain ⟨v, hv⟩ := Option.isSome_iff_exists.mp (hm.defined.mpr hd)
  exact ⟨v, (hm.latest hv v).mpr rfl⟩

theorem nearest_iff_eq (hm : h.Mirrors) (hu : h.Nearest t y u) {w : ScopeId} :
    h.Nearest t y w ↔ w = u := by
  rw [← hm.owner?, hm.owner?.mpr hu, Option.some_inj, eq_comm]

theorem read_of_latest (hm : h.Mirrors) (hu : h.Nearest t y u) (hv : h.Latest u y v) :
    Eval.read t y h.state = .ok v h.state := by
  obtain ⟨w, hw⟩ := Option.isSome_iff_exists.mp (hm.defined.mpr hu.defined)
  rw [Eval.read, State.value?, hm.owner?.mpr hu, Option.bind_some, hw, (hm.latest hw v).mp hv]

theorem read_of_free (hm : h.Mirrors) (hnone : ∀ u, ¬ h.Nearest t y u) :
    Eval.read t y h.state = .error (.fault (.undefinedVariable y)) h.state := by
  rw [Eval.read, State.value?, hm.owner?_eq_none hnone]
  rfl

theorem read_ok_iff (hm : h.Mirrors) :
    Eval.read t y h.state = .ok v h.state ↔ ∃ u, h.Nearest t y u ∧ h.Latest u y v := by
  constructor
  · intro hread
    by_cases hn : ∃ u, h.Nearest t y u
    · obtain ⟨u, hu⟩ := hn
      obtain ⟨w, hw⟩ := hm.exists_latest hu.defined
      rw [hm.read_of_latest hu hw] at hread
      cases hread
      exact ⟨u, hu, hw⟩
    · rw [hm.read_of_free fun u hu => hn ⟨u, hu⟩] at hread
      cases hread
  · rintro ⟨u, hu, hv⟩
    exact hm.read_of_latest hu hv

theorem read_error_iff (hm : h.Mirrors) :
    Eval.read t y h.state = .error (.fault (.undefinedVariable y)) h.state ↔
      ¬ ∃ u, h.Nearest t y u := by
  constructor
  · rintro hread ⟨u, hu⟩
    obtain ⟨v, hv⟩ := hm.exists_latest hu.defined
    rw [hm.read_of_latest hu hv] at hread
    cases hread
  · exact fun hn => hm.read_of_free fun u hu => hn ⟨u, hu⟩

theorem define_of_defined (hm : h.Mirrors) (hd : h.Defined t y) (constant : Bool) :
    Eval.define t y v constant h.state = .error (.fault (.duplicateDefinition y)) h.state := by
  rw [Eval.define, if_pos (hm.defined.mpr hd)]

theorem define_of_not_defined (hm : h.Mirrors) (hd : ¬ h.Defined t y) (constant : Bool) :
    Eval.define t y v constant h.state = .ok () (h.state.write t y v constant) := by
  rw [Eval.define, if_neg (fun hb => hd (hm.defined.mp hb))]

theorem assign_of_constant (hm : h.Mirrors) (hu : h.Nearest t y u) {c : Value}
    (hc : h.Constant u y c) :
    Eval.assign t y v h.state = .error (.fault (.constantReassignment y)) h.state := by
  rw [Eval.assign, hm.owner?.mpr hu]
  exact if_pos (hm.constant.mpr ⟨c, hc⟩)

theorem assign_of_not_constant (hm : h.Mirrors) (hu : h.Nearest t y u)
    (hc : ∀ c, ¬ h.Constant u y c) :
    Eval.assign t y v h.state = .ok () (h.state.write u y v false) := by
  rw [Eval.assign, hm.owner?.mpr hu]
  exact if_neg fun hy => absurd (hm.constant.mp hy) (not_exists.mpr hc)

theorem assign_of_free (hm : h.Mirrors) (hnone : ∀ u, ¬ h.Nearest t y u) :
    Eval.assign t y v h.state = .error (.fault (.undefinedVariable y)) h.state := by
  rw [Eval.assign, hm.owner?_eq_none hnone]

/-- The three ways in which an assignment can end. -/
theorem assign_cases (hm : h.Mirrors) (t : ScopeId) (y : String) (v : Value) :
    (∃ u, h.Nearest t y u ∧ (∀ c, ¬ h.Constant u y c) ∧
      Eval.assign t y v h.state = .ok () (h.state.write u y v false)) ∨
    (∃ u c, h.Nearest t y u ∧ h.Constant u y c ∧
      Eval.assign t y v h.state = .error (.fault (.constantReassignment y)) h.state) ∨
    ((∀ u, ¬ h.Nearest t y u) ∧
      Eval.assign t y v h.state = .error (.fault (.undefinedVariable y)) h.state) := by
  by_cases hn : ∃ u, h.Nearest t y u
  · obtain ⟨u, hu⟩ := hn
    by_cases hc : ∃ c, h.Constant u y c
    · obtain ⟨c, hc⟩ := hc
      exact Or.inr (Or.inl ⟨u, c, hu, hc, hm.assign_of_constant hu hc⟩)
    · have hfree : ∀ c, ¬ h.Constant u y c := fun c hfix => hc ⟨c, hfix⟩
      exact Or.inl ⟨u, hu, hfree, hm.assign_of_not_constant hu hfree⟩
  · have hnone : ∀ u, ¬ h.Nearest t y u := fun u hu => hn ⟨u, hu⟩
    exact Or.inr (Or.inr ⟨hnone, hm.assign_of_free hnone⟩)

end Mirrors

/-! ### One operation -/

section Step

variable {before : History n} {op : Operation n m} {u : ScopeId} {y : String} {v : Value}

/-- A constant is not written. -/
theorem not_constant_of_writes (hm : before.Mirrors) (hw : before.Writes op u y v) (c : Value) :
    ¬ before.Constant u y c := by
  intro hfix
  have hd : before.Defined u y := hm.defined_of_constant hfix
  cases op with
  | global | child | clear => exact hw.elim
  | globalWith bindings => exact absurd (hm.lt_of_defined hd) (by rw [hw.1]; exact Nat.lt_irrefl _)
  | define scope x w constant => exact hw.2.2.2 hd
  | assign scope x w => exact hw.2.2.2 c hfix

/-- What an operation writes can be found in the values, and then among the constants if it was
defined as one.  Here it matters that no constant stood there before. -/
theorem written (hm : before.Mirrors) (hw : before.Writes op u y v) :
    (before.step op).state.ownValue? u y = some v ∧
      ((before.step op).state.isConstant u y ↔ op.Fixes u y v) := by
  have hold : ¬ before.state.isConstant u y := fun hy =>
    absurd (hm.constant.mp hy) (not_exists.mpr (not_constant_of_writes hm hw))
  cases op with
  | global | child | clear => exact hw.elim
  | globalWith bindings =>
    obtain ⟨rfl, hlast⟩ := hw
    show (before.state.addScope (.globalWith bindings)).ownValue? _ y = some v ∧
      ((before.state.addScope (.globalWith bindings)).isConstant _ y ↔ False)
    rw [State.ownValue?_addScope, State.isConstant_addScope, if_pos hm.size.symm,
      if_pos hm.size.symm]
    exact ⟨Fields.get?_ofList_eq_some_iff.mpr hlast, iff_of_false nofun id⟩
  | define scope x w constant =>
    obtain ⟨rfl, rfl, rfl, hd⟩ := hw
    have hlt : scope.1 < before.state.scopes.size := hm.size.symm ▸ scope.isLt
    show ((Eval.define scope y v constant).after before.state).ownValue? scope y = some v ∧
      (((Eval.define scope y v constant).after before.state).isConstant scope y ↔ _)
    rw [Eval.after, hm.define_of_not_defined hd]
    dsimp only
    rw [State.ownValue?_write, State.isConstant_write]
    simp [hlt, hold, Operation.Fixes]
  | assign scope x w =>
    obtain ⟨hu, rfl, rfl, hc⟩ := hw
    have hlt : u < before.state.scopes.size := hm.size.symm ▸ hm.lt_of_defined hu.defined
    show ((Eval.assign scope y v).after before.state).ownValue? u y = some v ∧
      (((Eval.assign scope y v).after before.state).isConstant u y ↔ False)
    rw [Eval.after, hm.assign_of_not_constant hu hc]
    dsimp only
    rw [State.ownValue?_write, State.isConstant_write]
    simp [hlt, hold]

theorem cleared (hc : op.Clears u) : (before.step op).state.ownValue? u y = none ∧
    ¬ (before.step op).state.isConstant u y := by
  cases op with
  | clear scope =>
    show (before.state.clearScope scope).ownValue? u y = none ∧
      ¬ (before.state.clearScope scope).isConstant u y
    rw [State.ownValue?_clearScope, State.isConstant_clearScope]
    exact ⟨if_pos hc, fun hy => hy.1 hc⟩
  | _ => exact hc.elim

/-- All other names are left as they are. -/
theorem kept (hm : before.Mirrors) (hc : ¬ op.Clears u) (hw : ∀ v, ¬ before.Writes op u y v) :
    before.state.SameName (before.step op).state u y := by
  cases op with
  | global | child => exact State.sameName_addScope_of_free (fun _ => rfl) rfl
  | globalWith bindings =>
    refine State.sameName_addScope_of_free (fun hu => ?_) rfl
    show (Fields.ofList bindings).get? y = none
    cases hget : (Fields.ofList bindings).get? y with
    | none => rfl
    | some v => exact absurd ⟨hu.trans hm.size, Fields.get?_ofList_eq_some_iff.mp hget⟩ (hw v)
  | define scope x w constant =>
    show before.state.SameName ((Eval.define scope x w constant).after before.state) u y
    by_cases hd : before.Defined scope x
    · rw [Eval.after, hm.define_of_defined hd]
      exact .refl _ u y
    · rw [Eval.after, hm.define_of_not_defined hd]
      refine State.sameName_write ?_
      rintro ⟨rfl, rfl⟩
      exact hw w ⟨rfl, rfl, rfl, hd⟩
  | assign scope x w =>
    show before.state.SameName ((Eval.assign scope x w).after before.state) u y
    rcases hm.assign_cases scope x w with ⟨owner, hn, hfree, hrun⟩ | ⟨_, _, _, _, hrun⟩ | ⟨_, hrun⟩
    · rw [Eval.after, hrun]
      refine State.sameName_write ?_
      rintro ⟨rfl, rfl⟩
      exact hw w ⟨hn, rfl, rfl, hfree⟩
    · rw [Eval.after, hrun]
      exact .refl _ u y
    · rw [Eval.after, hrun]
      exact .refl _ u y
  | clear scope => exact State.sameName_clearScope hc

theorem not_introduces_of_clears (hc : op.Clears u) : ¬ op.Introduces u y := by
  cases op with
  | clear scope => exact id
  | _ => exact hc.elim

theorem introduces_or_defined_of_writes (hw : before.Writes op u y v) :
    op.Introduces u y ∨ before.Defined u y := by
  cases op with
  | global | child | clear => exact hw.elim
  | globalWith bindings =>
    obtain ⟨hu, earlier, later, rfl, _⟩ := hw
    exact Or.inl ⟨hu, v, by simp⟩
  | define scope x w constant => exact Or.inl ⟨hw.1, hw.2.1⟩
  | assign scope x w => exact Or.inr hw.1.defined

/-- A name that an operation introduces is written, unless the scope had it before. -/
theorem writes_or_defined_of_introduces (hi : op.Introduces u y) :
    (∃ v, before.Writes op u y v) ∨ before.Defined u y := by
  cases op with
  | global | child | assign | clear => exact hi.elim
  | globalWith bindings =>
    obtain ⟨hu, v, hv⟩ := hi
    cases hget : (Fields.ofList bindings).get? y with
    | some w => exact Or.inl ⟨w, hu, Fields.get?_ofList_eq_some_iff.mp hget⟩
    | none =>
      rw [Fields.get?_ofList, List.lookup_eq_none_iff] at hget
      have hne := hget _ (List.mem_reverse.mpr hv)
      simp at hne
  | define scope x w constant =>
    by_cases hd : before.Defined u y
    · exact Or.inr hd
    · exact Or.inl ⟨w, hi.1, hi.2, rfl, hd⟩

theorem introduces_of_fixes (hf : op.Fixes u y v) : op.Introduces u y := by
  cases op with
  | define scope x w constant => exact ⟨hf.1, hf.2.1⟩
  | _ => exact hf.elim

theorem writes_of_fixes (hf : op.Fixes u y v) (hd : ¬ before.Defined u y) :
    before.Writes op u y v := by
  cases op with
  | define scope x w constant => exact ⟨hf.1, hf.2.1, hf.2.2.1, hd⟩
  | _ => exact hf.elim

theorem writes_unique {w : Value} (hm : before.Mirrors) (hv : before.Writes op u y v)
    (hw : before.Writes op u y w) : v = w :=
  Option.some.inj ((written hm hv).1.symm.trans (written hm hw).1)

theorem not_defined_of_writes_of_fixes (hw : before.Writes op u y v) (hf : op.Fixes u y v) :
    ¬ before.Defined u y := by
  cases op with
  | define scope x w constant => exact hw.2.2.2
  | _ => exact hf.elim

end Step

/-! ### Histories -/

namespace Mirrors

variable {before : History n} {op : Operation n m} {u : ScopeId} {y : String} {v : Value}

theorem defined_step (hm : before.Mirrors) :
    (before.step op).state.binds u y ↔ (before.step op).Defined u y := by
  show _ ↔ op.Introduces u y ∨ ¬ op.Clears u ∧ before.Defined u y
  -- The name is cleared, or it is written, or it is left as it was.
  by_cases hc : op.Clears u
  · have hi : ¬ op.Introduces u y := not_introduces_of_clears hc
    simp [State.binds, cleared hc, hc, hi]
  by_cases hw : ∃ v, before.Writes op u y v
  · obtain ⟨v, hw⟩ := hw
    have hvalue := (written hm hw).1
    rcases introduces_or_defined_of_writes hw with hi | hd
    · simp [State.binds, hvalue, hi]
    · simp [State.binds, hvalue, hc, hd]
  · have hsame := kept hm hc fun v hv => hw ⟨v, hv⟩
    rw [hsame.binds, hm.defined]
    constructor
    · exact fun hd => Or.inr ⟨hc, hd⟩
    · rintro (hi | ⟨_, hd⟩)
      · exact (writes_or_defined_of_introduces hi).resolve_left hw
      · exact hd

/-- The definition of a constant, told by the operation. -/
theorem constant_step_iff : (before.step op).Constant u y v ↔
    (op.Fixes u y v ∧ ¬ before.Defined u y) ∨ ¬ op.Clears u ∧ before.Constant u y v :=
  .rfl

/-- A name that is neither cleared nor written is a constant after the operation if it was one
before. -/
theorem constant_kept (hc : ¬ op.Clears u) (hw : ∀ v, ¬ before.Writes op u y v) :
    (before.step op).Constant u y v ↔ before.Constant u y v := by
  rw [constant_step_iff]
  constructor
  · rintro (⟨hf, hd⟩ | ⟨_, hconstant⟩)
    · exact absurd (writes_of_fixes hf hd) (hw v)
    · exact hconstant
  · exact fun hconstant => Or.inr ⟨hc, hconstant⟩

/-- A name that is written is a constant if that is its definition as one. -/
theorem constant_written {w : Value} (hm : before.Mirrors) (hw : before.Writes op u y w) :
    (before.step op).Constant u y v ↔ v = w ∧ op.Fixes u y w := by
  rw [constant_step_iff]
  constructor
  · rintro (⟨hf, hd⟩ | ⟨_, hconstant⟩)
    · obtain rfl := writes_unique hm (writes_of_fixes hf hd) hw
      exact ⟨rfl, hf⟩
    · exact absurd hconstant (not_constant_of_writes hm hw v)
  · rintro ⟨rfl, hf⟩
    exact Or.inl ⟨hf, not_defined_of_writes_of_fixes hw hf⟩

theorem not_constant_cleared (hc : op.Clears u) : ¬ (before.step op).Constant u y v := by
  rintro (⟨hf, _⟩ | ⟨hnot, _⟩)
  · exact not_introduces_of_clears hc (introduces_of_fixes hf)
  · exact hnot hc

theorem constant_step (hm : before.Mirrors) :
    (before.step op).state.isConstant u y ↔ ∃ v, (before.step op).Constant u y v := by
  by_cases hc : op.Clears u
  · exact iff_of_false (cleared hc).2 fun ⟨v, hv⟩ => not_constant_cleared hc hv
  by_cases hw : ∃ w, before.Writes op u y w
  · obtain ⟨w, hw⟩ := hw
    simp only [(written hm hw).2, constant_written hm hw, exists_eq_left]
  · have hfree : ∀ w, ¬ before.Writes op u y w := fun w hv => hw ⟨w, hv⟩
    simp only [(kept hm hc hfree).constant, hm.constant, constant_kept hc hfree]

theorem fixed_step (hm : before.Mirrors) (hv : (before.step op).Constant u y v) :
    (before.step op).state.ownValue? u y = some v := by
  by_cases hc : op.Clears u
  · exact absurd hv (not_constant_cleared hc)
  by_cases hw : ∃ w, before.Writes op u y w
  · obtain ⟨w, hw⟩ := hw
    obtain ⟨rfl, _⟩ := (constant_written hm hw).mp hv
    exact (written hm hw).1
  · have hfree : ∀ w, ¬ before.Writes op u y w := fun w hv => hw ⟨w, hv⟩
    rw [(kept hm hc hfree).value]
    exact hm.fixed ((constant_kept hc hfree).mp hv)

theorem latest_step (hm : before.Mirrors) {w : Value}
    (hvalue : (before.step op).state.ownValue? u y = some w) :
    (before.step op).Latest u y v ↔ v = w := by
  show before.Writes op u y v ∨ (¬ ∃ w, before.Writes op u y w) ∧ before.Latest u y v ↔ _
  -- Whatever the operation writes is the value found.
  have hwritten : ∀ v, before.Writes op u y v → v = w := by
    intro v hv
    rw [(written hm hv).1] at hvalue
    exact Option.some.inj hvalue
  by_cases hw : ∃ v, before.Writes op u y v
  · obtain ⟨v', hw⟩ := hw
    obtain rfl := hwritten v' hw
    constructor
    · rintro (hv | ⟨hnone, _⟩)
      · exact hwritten v hv
      · exact absurd ⟨v', hw⟩ hnone
    · rintro rfl
      exact Or.inl hw
  · have hc : ¬ op.Clears u := by
      intro hc
      rw [(cleared hc).1] at hvalue
      cases hvalue
    rw [(kept hm hc fun v hv => hw ⟨v, hv⟩).value] at hvalue
    rw [hm.latest hvalue]
    constructor
    · rintro (hv | ⟨_, hv⟩)
      · exact hwritten v hv
      · exact hv
    · exact fun hv => Or.inr ⟨hw, hv⟩

theorem size_step (hm : before.Mirrors) : (before.step op).state.scopes.size = m := by
  cases op with
  | global | globalWith | child => exact State.size_addScope.trans (congrArg (· + 1) hm.size)
  | define scope x w constant => exact (State.sameTree_define ..).1.trans hm.size
  | assign scope x w => exact (State.sameTree_assign ..).1.trans hm.size
  | clear scope => exact (State.sameTree_clearScope ..).1.trans hm.size

theorem path_step_of_lt {t : ScopeId} (ht : t < n) :
    (before.step op).path t = before.path t := by
  cases op with
  | global | globalWith | child => exact if_neg (Nat.ne_of_lt ht)
  | define | assign | clear => rfl

theorem parent?_step_of_lt (hm : before.Mirrors) {t : ScopeId} (ht : t < n) :
    (before.step op).state.parent? t = before.state.parent? t := by
  cases op with
  | global | globalWith | child =>
    have hne : ¬ t = before.state.scopes.size := by
      rw [hm.size]
      exact Nat.ne_of_lt ht
    exact State.parent?_addScope.trans (if_neg hne)
  | define scope x w constant => exact (State.sameTree_define ..).2 t
  | assign scope x w => exact (State.sameTree_assign ..).2 t
  | clear scope => exact (State.sameTree_clearScope ..).2 t

/-- The path from a scope that an operation makes. -/
theorem path_made (hm : before.Mirrors) {id : ScopeId} (hid : n ≤ id) {parent : Option ScopeId}
    (h : (before.step op).state.parent? id = some parent) :
    (before.step op).path id = id :: parent.elim [] before.path ∧ ∀ p ∈ parent, p < n := by
  have hsize : before.state.scopes.size ≤ id := by
    rw [hm.size]
    exact hid
  have hnone : before.state.parent? id = none := State.parent?_eq_none hsize
  have hsame : ∀ {s : State}, before.state.SameTree s → s.parent? id ≠ some parent := by
    intro s hs hp
    rw [hs.2, hnone] at hp
    cases hp
  -- Where a scope is made, it is the only new one.
  have hmade : ∀ {scope : Scope}, (before.state.addScope scope).parent? id = some parent →
      id = n ∧ parent = scope.parent := by
    intro scope hp
    rw [State.parent?_addScope, hm.size] at hp
    split at hp
    · next he => exact ⟨he, (Option.some.inj hp).symm⟩
    · rw [hnone] at hp
      cases hp
  cases op with
  | global | globalWith =>
    obtain ⟨rfl, rfl⟩ := hmade h
    exact ⟨if_pos rfl, fun p hp => by cases hp⟩
  | child scope =>
    obtain ⟨rfl, rfl⟩ := hmade h
    refine ⟨if_pos rfl, fun p hp => ?_⟩
    cases hp
    exact scope.isLt
  | define scope x w constant => exact absurd h (hsame (State.sameTree_define ..))
  | assign scope x w => exact absurd h (hsame (State.sameTree_assign ..))
  | clear scope => exact absurd h (hsame (State.sameTree_clearScope ..))

theorem path_step (hm : before.Mirrors) {id : ScopeId} {parent : Option ScopeId}
    (h : (before.step op).state.parent? id = some parent) :
    (before.step op).path id = id :: parent.elim [] (before.step op).path ∧
      ∀ p ∈ parent, p < id := by
  -- The parent was made before, so the operation left its path as it was.
  have hold : ∀ p, p < n → before.path p = (before.step op).path p :=
    fun p hp => (path_step_of_lt hp).symm
  by_cases hid : id < n
  · rw [hm.parent?_step_of_lt hid] at h
    obtain ⟨hpath, hlt⟩ := hm.path h
    refine ⟨?_, hlt⟩
    rw [path_step_of_lt hid, hpath]
    cases parent with
    | none => rfl
    | some p => exact congrArg (id :: ·) (hold p (Nat.lt_trans (hlt p rfl) hid))
  · have hn : n ≤ id := Nat.le_of_not_lt hid
    obtain ⟨hpath, hlt⟩ := hm.path_made hn h
    refine ⟨?_, fun p hp => Nat.lt_of_lt_of_le (hlt p hp) hn⟩
    rw [hpath]
    cases parent with
    | none => rfl
    | some p => exact congrArg (id :: ·) (hold p (hlt p rfl))

theorem start : History.start.Mirrors where
  size := rfl
  path := by
    intro id parent h
    simp [History.state, State.empty, State.parent?] at h
  defined := by
    intro u y
    simp [History.state, State.empty, State.binds, State.ownValue?, Defined, Since]
  constant := by
    intro u y
    simp [History.state, State.empty, State.isConstant, Constant, Since]
  fixed := fun hv => hv.elim
  latest := by
    intro u y w h
    simp [History.state, State.empty, State.ownValue?] at h

theorem step (hm : before.Mirrors) (op : Operation n m) : (before.step op).Mirrors where
  size := hm.size_step
  path := hm.path_step
  defined := hm.defined_step
  constant := hm.constant_step
  fixed := hm.fixed_step
  latest := fun hvalue _ => hm.latest_step hvalue

end Mirrors

/-- **After every history the tables of the scopes say what the history says.** -/
theorem mirrors (h : History n) : h.Mirrors := by
  induction h with
  | start => exact .start
  | step before op ih => exact ih.step op

/-- There is a nearest scope with the name as soon as one on the path has it. -/
theorem exists_nearest_iff (h : History n) (t : ScopeId) (y : String) :
    (∃ u, h.Nearest t y u) ↔ ∃ u ∈ h.path t, h.Defined u y := by
  simp only [← h.mirrors.owner?, ← Option.isSome_iff_exists, h.mirrors.owner?_eq_find?,
    List.find?_isSome, h.mirrors.defined]

end History

/-- **The scopes answer by their history.** -/
theorem scopes_answer_by_history {n : Nat} (h : History n) (t : Fin n) (y : String) :
    -- Reading finds the latest write in the nearest scope with the name.
    ((∃ v, Eval.read t y h.state = .ok v h.state) ↔ ∃ u ∈ h.path t, h.Defined u y) ∧
    (∀ v, Eval.read t y h.state = .ok v h.state ↔ ∃ u, h.Nearest t y u ∧ h.Latest u y v) ∧
    (Eval.read t y h.state = .error (.fault (.undefinedVariable y)) h.state ↔
      ¬ ∃ u ∈ h.path t, h.Defined u y) ∧
    -- A definition fails if the scope itself has the name.
    (∀ v constant,
      (Eval.define t y v constant h.state = .ok () (h.step (.define t y v constant)).state ↔
        ¬ h.Defined t y) ∧
      (Eval.define t y v constant h.state = .error (.fault (.duplicateDefinition y)) h.state ↔
        h.Defined t y)) ∧
    -- An assignment fails if the nearest scope has the name as a constant, or none has it.
    (∀ v,
      (Eval.assign t y v h.state = .ok () (h.step (.assign t y v)).state ↔
        ∃ u, h.Nearest t y u ∧ ∀ c, ¬ h.Constant u y c) ∧
      (Eval.assign t y v h.state = .error (.fault (.constantReassignment y)) h.state ↔
        ∃ u, h.Nearest t y u ∧ ∃ c, h.Constant u y c) ∧
      (Eval.assign t y v h.state = .error (.fault (.undefinedVariable y)) h.state ↔
        ¬ ∃ u ∈ h.path t, h.Defined u y)) ∧
    -- The scope binds the names it was given since it was cleared, and no others.
    (h.state.binds t y ↔ h.Defined t y) ∧
    -- The constants are the names defined as such since then.  They are bound, and have the values
    -- of their definitions.
    (h.state.isConstant t y ↔ ∃ v, h.Constant t y v) ∧
    (h.state.isConstant t y → h.state.binds t y) ∧
    (∀ v, h.state.isConstant t y ∧ h.state.ownValue? t y = some v ↔ h.Constant t y v) := by
  have hm := h.mirrors
  rw [← h.exists_nearest_iff]
  refine ⟨?_, ?_, ?_, fun v constant => ?_, fun v => ?_, hm.defined, hm.constant,
    h.constantsBound t y, fun v => hm.constant_iff⟩
  · simp only [hm.read_ok_iff]
    constructor
    · rintro ⟨v, u, hu, _⟩
      exact ⟨u, hu⟩
    · rintro ⟨u, hu⟩
      obtain ⟨v, hv⟩ := hm.exists_latest hu.defined
      exact ⟨v, u, hu, hv⟩
  · exact fun v => hm.read_ok_iff
  · exact hm.read_error_iff
  · by_cases hd : h.Defined t y
    · simp [hm.define_of_defined hd, hd]
    · simp [hm.define_of_not_defined hd, hd, History.state, Operation.run, Eval.after]
  · rcases hm.assign_cases t y v with ⟨u, hu, hfree, hrun⟩ | ⟨u, c, hu, hc, hrun⟩ | ⟨hnone, hrun⟩
    · simp [hrun, hm.nearest_iff_eq hu, hfree, History.state, Operation.run, Eval.after]
    · have hsome : ∃ c, h.Constant u y c := ⟨c, hc⟩
      simp [hrun, hm.nearest_iff_eq hu, hsome]
    · simp [hrun, hnone]

/-- A constant is forgotten when its scope is cleared, and its name can be defined as a variable. -/
example : ((((History.start.step .global).step (.define 0 "x" .null true)).step (.clear 0)).step
    (.define 0 "x" .null false)).state.isConstant 0 "x" = false := by decide

end Scriptlet
