import Scriptlet.Proofs.Eval.Fuel
import Scriptlet.Proofs.Scopes.Discipline
import Scriptlet.Proofs.Scopes.Extension
import Scriptlet.Proofs.Transform.Likeness

/-!
# Two runs that pair their scopes

Two programs that do the same may still number their scopes differently, and one of them may make
scopes that the other does without.  A `World` says what each scope of the second run stands for: a
**twin** has the names of a scope of the first run, with like values, and an **annex** is an
empty scope inside one that stands for the same scope.  Names are looked up through annexes, so a
scope and anything that stands for it mean the same (`Tracks.owner?`).  A world only ever grows.

`Paired` compares two computations.  One of them is known to finish; then the other one does, too,
and they end with related results or in the same fault, with the same lines printed.  It goes
through sequencing (`Paired.bind`) and is shown here for everything that touches the state.

* `Tracks.owner?`: a name is found in a scope and in its twin.
* `exists_observe_iff`: the same is seen of two programs whose runs are paired both ways.
-/

namespace Scriptlet

/-! ## Worlds -/

/-- What a scope of the second run is to the scope `id` of the first one. -/
inductive Role where
  | twin (id : ScopeId)
  | annex (id : ScopeId)

/-- The roles of the scopes of the second run, by number. -/
abbrev World := List Role

namespace World

/-- The second scope is the twin of the first. -/
def Twin (w : World) (id id' : ScopeId) : Prop := w[id']? = some (.twin id)

/-- The second scope is the twin of the first or an annex to it. -/
def Stands (w : World) (id id' : ScopeId) : Prop := Twin w id id' ∨ w[id']? = some (.annex id)

variable {w w' : World} {id id' : ScopeId}

theorem getElem?_mono (hw : w <+: w') {role : Role} (h : w[id']? = some role) :
    w'[id']? = some role := by
  obtain ⟨more, rfl⟩ := hw
  obtain ⟨hlt, _⟩ := List.getElem?_eq_some_iff.mp h
  rw [List.getElem?_append_left hlt, h]

theorem Twin.mono (h : Twin w id id') (hw : w <+: w') : Twin w' id id' := getElem?_mono hw h

theorem Stands.mono (h : Stands w id id') (hw : w <+: w') : Stands w' id id' :=
  h.imp (Twin.mono · hw) (getElem?_mono hw)

theorem Twin.stands (h : Twin w id id') : Stands w id id' := Or.inl h

theorem Stands.lt (h : Stands w id id') : id' < w.length := by
  rcases h with h | h
  · exact (List.getElem?_eq_some_iff.mp h).1
  · exact (List.getElem?_eq_some_iff.mp h).1

/-- A scope that was added stands for what it was added for. -/
theorem getElem?_concat (w : World) (role : Role) : (w ++ [role])[w.length]? = some role := by
  rw [List.getElem?_append_right (Nat.le_refl _), Nat.sub_self]
  rfl

/-- The roles after one was added. -/
theorem getElem?_concat_cases {role role' : Role} (h : (w ++ [role])[id']? = some role') :
    w[id']? = some role' ∨ id' = w.length ∧ role = role' := by
  have hbound := (List.getElem?_eq_some_iff.mp h).1
  rw [List.length_append, List.length_singleton] at hbound
  rcases Nat.lt_or_ge id' w.length with hlt | hge
  · rw [List.getElem?_append_left hlt] at h
    exact Or.inl h
  · obtain rfl : id' = w.length := Nat.le_antisymm (Nat.le_of_lt_succ hbound) hge
    rw [getElem?_concat] at h
    exact Or.inr ⟨rfl, Option.some.inj h⟩

end World

/-! ## Paired states -/

section Likeness

variable (bodies : Block → Block → Prop) (w : World)

/-- Values that are alike, with closures in scopes of which the second stands for the first. -/
abbrev LikeIn (v v' : Value) : Prop := v.Like bodies (World.Stands w) v'

/-- Scopes `id` and `id'` with like values and the same constants, inside scopes of which the second
stands for the first. -/
structure Scope.Like (id id' : ScopeId) (scope scope' : Scope) : Prop where
  parent : Option.Rel (fun p p' => p < id ∧ p' < id' ∧ World.Stands w p p')
    scope.parent scope'.parent
  values : Fields.Like (LikeIn bodies w) scope.values scope'.values
  constants : scope'.constants = scope.constants

/-- The scopes of the second state have the roles that the world gives them. -/
structure Tracks (s s' : State) : Prop where
  length : w.length = s'.scopes.size
  known : ∀ {id id'}, World.Stands w id id' → id < s.scopes.size
  twin : ∀ {id id'}, World.Twin w id id' → ∃ scope scope',
    s.scopes[id]? = some scope ∧ s'.scopes[id']? = some scope' ∧
      Scope.Like bodies w id id' scope scope'
  annex : ∀ {id id'}, w[id']? = some (.annex id) → ∃ p,
    s'.scopes[id']? = some (.child p) ∧ p < id' ∧ World.Stands w id p
  once : ∀ {id i j}, World.Twin w id i → World.Twin w id j → i = j
  output : s'.output = s.output

end Likeness

variable {bodies : Block → Block → Prop} {w w' : World}

theorem LikeIn.mono {v v' : Value} (h : LikeIn bodies w v v') (hw : w <+: w') :
    LikeIn bodies w' v v' :=
  Value.Like.imp (fun _ _ hid => hid.mono hw) h

theorem Scope.Like.mono {id id' : ScopeId} {scope scope' : Scope}
    (h : Scope.Like bodies w id id' scope scope') (hw : w <+: w') :
    Scope.Like bodies w' id id' scope scope' := by
  obtain ⟨hparent, hvalues, hconstants⟩ := h
  refine ⟨?_, ?_, hconstants⟩
  · generalize scope.parent = p, scope'.parent = p' at hparent ⊢
    cases hparent with
    | none => exact .none
    | some hp => exact .some ⟨hp.1, hp.2.1, hp.2.2.mono hw⟩
  · exact hvalues.imp fun _ _ ⟨key, hv⟩ => .mk key (hv.mono hw)

theorem Scope.Like.write {id id' : ScopeId} {scope scope' : Scope} {v v' : Value}
    (h : Scope.Like bodies w id id' scope scope') (x : String) (hv : LikeIn bodies w v v')
    (constant : Bool) :
    Scope.Like bodies w id id' (scope.write x v constant) (scope'.write x v' constant) where
  parent := h.parent
  values := h.values.insert x hv
  constants := by rw [Scope.write, Scope.write, h.constants]

namespace Tracks

variable {s s' : State} {id id' : ScopeId}

/-! ### Looking up names -/

theorem ownValue? (h : Tracks bodies w s s') (hid : World.Twin w id id') (x : String) :
    Option.Rel (LikeIn bodies w) (s.ownValue? id x) (s'.ownValue? id' x) := by
  obtain ⟨scope, scope', hscope, hscope', hlike⟩ := h.twin hid
  rw [State.ownValue?_of_getElem? hscope, State.ownValue?_of_getElem? hscope']
  exact hlike.values.get? x

theorem isConstant_eq (h : Tracks bodies w s s') (hid : World.Twin w id id') (x : String) :
    s'.isConstant id' x = s.isConstant id x := by
  obtain ⟨scope, scope', hscope, hscope', hlike⟩ := h.twin hid
  rw [State.isConstant_of_getElem? hscope, State.isConstant_of_getElem? hscope', hlike.constants]

theorem isSome_eq_of_rel {α β : Type} {R : α → β → Prop} {a : Option α} {b : Option β}
    (h : Option.Rel R a b) : b.isSome = a.isSome := by
  cases h <;> rfl

/-- **A name is found in a scope and in its twin**, also from an annex. -/
theorem owner? (h : Tracks bodies w s s') (hid : World.Stands w id id') (x : String) :
    Option.Rel (World.Twin w) (s.owner? id x) (s'.owner? id' x) := by
  induction id' using Nat.strongRecOn generalizing id with
  | ind id' ih =>
    rcases hid with hid | hid
    · obtain ⟨scope, scope', hscope, hscope', hlike⟩ := h.twin hid
      have hsome := isSome_eq_of_rel (hlike.values.get? x)
      rw [State.owner?, State.owner?, hscope, hscope']
      dsimp only
      rw [hsome]
      split
      · exact .some hid
      · have hparent := hlike.parent
        generalize scope.parent = p, scope'.parent = p' at hparent
        cases hparent with
        | none => exact .none
        | some hp =>
          obtain ⟨hlt, hlt', hstands⟩ := hp
          dsimp only
          rw [if_pos hlt, if_pos hlt']
          exact ih _ hlt' hstands
    · obtain ⟨p, hscope', hlt, hstands⟩ := h.annex hid
      have hthrough : s'.owner? id' x = s'.owner? p x := by
        rw [State.owner?, hscope']
        dsimp only
        rw [if_neg (by simp [Scope.child, Fields.get?])]
        exact if_pos hlt
      rw [hthrough]
      exact ih p hlt hstands

theorem value? (h : Tracks bodies w s s') (hid : World.Stands w id id') (x : String) :
    Option.Rel (LikeIn bodies w) (s.value? id x) (s'.value? id' x) := by
  have howner := h.owner? hid x
  rw [State.value?, State.value?]
  generalize s.owner? id x = o, s'.owner? id' x = o' at howner
  cases howner with
  | none => exact .none
  | some htwin => exact h.ownValue? htwin x

/-! ### Changing the state -/

theorem write (h : Tracks bodies w s s') (hid : World.Twin w id id') (x : String) {v v' : Value}
    (hv : LikeIn bodies w v v') (constant : Bool) :
    Tracks bodies w (s.write id x v constant) (s'.write id' x v' constant) where
  length := by
    rw [State.size_write]
    exact h.length
  known hstands := by
    rw [State.size_write]
    exact h.known hstands
  twin := by
    intro i i' hi
    obtain ⟨scope, scope', hscope, hscope', hlike⟩ := h.twin hi
    by_cases heq : i = id
    · subst heq
      obtain rfl := h.once hi hid
      exact ⟨_, _, State.getElem?_write_self hscope, State.getElem?_write_self hscope',
        hlike.write x hv constant⟩
    · have hne : i' ≠ id' := by
        rintro rfl
        rw [World.Twin, hid] at hi
        cases hi
        exact heq rfl
      exact ⟨scope, scope', (State.getElem?_write_ne (Or.inl heq)).trans hscope,
        (State.getElem?_write_ne (Or.inl hne)).trans hscope', hlike⟩
  annex := by
    intro i i' hi
    obtain ⟨p, hscope', hp⟩ := h.annex hi
    have hne : i' ≠ id' := by
      rintro rfl
      rw [hid] at hi
      cases hi
    exact ⟨p, (State.getElem?_write_ne (Or.inl hne)).trans hscope', hp⟩
  once := h.once
  output := h.output

theorem print (h : Tracks bodies w s s') (line : String) :
    Tracks bodies w (s.print line) (s'.print line) where
  length := h.length
  known := h.known
  twin := h.twin
  annex := h.annex
  once := h.once
  output := congrArg (·.push line) h.output

theorem getElem?_addScope_of_some {added scope : Scope} {i : ScopeId}
    (h : s.scopes[i]? = some scope) : (s.addScope added).scopes[i]? = some scope := by
  have hlt := (Array.getElem?_eq_some_iff.mp h).1
  rw [State.addScope, Array.getElem?_push, if_neg (Nat.ne_of_lt hlt), h]

theorem getElem?_addScope_self (s : State) (added : Scope) :
    (s.addScope added).scopes[s.scopes.size]? = some added := by
  rw [State.addScope, Array.getElem?_push, if_pos rfl]

/-- Both runs enter a scope: the new scopes are twins. -/
theorem addTwin (h : Tracks bodies w s s') (hid : World.Stands w id id') :
    Tracks bodies (w ++ [.twin s.scopes.size]) (s.addScope (.child id))
      (s'.addScope (.child id')) := by
  have hw : w <+: w ++ [.twin s.scopes.size] := List.prefix_append _ _
  have hnew : ∀ {i i' : ScopeId}, World.Twin (w ++ [.twin s.scopes.size]) i i' →
      World.Twin w i i' ∨ i' = w.length ∧ i = s.scopes.size := by
    intro i i' hi
    refine (World.getElem?_concat_cases hi).imp_right fun ⟨hlast, hrole⟩ => ⟨hlast, ?_⟩
    cases hrole
    rfl
  have hold : ∀ {i i' : ScopeId}, (w ++ [.twin s.scopes.size])[i']? = some (.annex i) →
      w[i']? = some (.annex i) := by
    intro i i' hi
    rcases World.getElem?_concat_cases hi with hi | ⟨_, hrole⟩
    · exact hi
    · cases hrole
  refine ⟨?_, ?_, ?_, ?_, ?_, h.output⟩
  · rw [State.size_addScope, List.length_append, h.length]
    rfl
  · intro i i' hi
    rw [State.size_addScope]
    rcases hi with hi | hi
    · rcases hnew hi with hi | ⟨_, rfl⟩
      · exact Nat.lt_succ_of_lt (h.known hi.stands)
      · exact Nat.lt_succ_self _
    · exact Nat.lt_succ_of_lt (h.known (Or.inr (hold hi)))
  · intro i i' hi
    rcases hnew hi with hi | ⟨rfl, rfl⟩
    · obtain ⟨scope, scope', hscope, hscope', hlike⟩ := h.twin hi
      exact ⟨scope, scope', getElem?_addScope_of_some hscope, getElem?_addScope_of_some hscope',
        hlike.mono hw⟩
    · have hparent : Option.Rel (fun p p' => p < s.scopes.size ∧ p' < w.length ∧
          World.Stands (w ++ [.twin s.scopes.size]) p p') (some id) (some id') :=
        .some ⟨h.known hid, hid.lt, hid.mono hw⟩
      exact ⟨.child id, .child id', getElem?_addScope_self s _,
        h.length ▸ getElem?_addScope_self s' _, hparent, .nil, rfl⟩
  · intro i i' hi
    obtain ⟨p, hscope', hp, hstands⟩ := h.annex (hold hi)
    exact ⟨p, getElem?_addScope_of_some hscope', hp, hstands.mono hw⟩
  · intro i j k hj hk
    rcases hnew hj with hj | ⟨rfl, rfl⟩
    · rcases hnew hk with hk | ⟨_, rfl⟩
      · exact h.once hj hk
      · exact absurd (h.known hj.stands) (Nat.lt_irrefl _)
    · rcases hnew hk with hk | ⟨rfl, _⟩
      · exact absurd (h.known hk.stands) (Nat.lt_irrefl _)
      · rfl

/-- The second run enters a scope alone: the new scope is an annex. -/
theorem addAnnex (h : Tracks bodies w s s') (hid : World.Stands w id id') :
    Tracks bodies (w ++ [.annex id]) s (s'.addScope (.child id')) := by
  have hw : w <+: w ++ [.annex id] := List.prefix_append _ _
  have hold : ∀ {i i' : ScopeId}, World.Twin (w ++ [.annex id]) i i' → World.Twin w i i' := by
    intro i i' hi
    rcases World.getElem?_concat_cases hi with hi | ⟨_, hrole⟩
    · exact hi
    · cases hrole
  have hnew : ∀ {i i' : ScopeId}, (w ++ [.annex id])[i']? = some (.annex i) →
      w[i']? = some (.annex i) ∨ i' = w.length ∧ i = id := by
    intro i i' hi
    refine (World.getElem?_concat_cases hi).imp_right fun ⟨hlast, hrole⟩ => ⟨hlast, ?_⟩
    cases hrole
    rfl
  refine ⟨?_, ?_, ?_, ?_, fun hi hj => h.once (hold hi) (hold hj), h.output⟩
  · rw [State.size_addScope, List.length_append, h.length]
    rfl
  · rintro i i' (hi | hi)
    · exact h.known (hold hi).stands
    · rcases hnew hi with hi | ⟨_, rfl⟩
      · exact h.known (Or.inr hi)
      · exact h.known hid
  · intro i i' hi
    obtain ⟨scope, scope', hscope, hscope', hlike⟩ := h.twin (hold hi)
    exact ⟨scope, scope', hscope, getElem?_addScope_of_some hscope', hlike.mono hw⟩
  · intro i i' hi
    rcases hnew hi with hi | ⟨rfl, rfl⟩
    · obtain ⟨p, hscope', hp, hstands⟩ := h.annex hi
      exact ⟨p, getElem?_addScope_of_some hscope', hp, hstands.mono hw⟩
    · exact ⟨id', h.length ▸ getElem?_addScope_self s' _, hid.lt, hid.mono hw⟩

/-- The global scopes of two new sessions are twins. -/
theorem initial : Tracks bodies [.twin State.globalId] .initial .initial := by
  have hrole : ∀ {i' : ScopeId} {role : Role}, ([.twin State.globalId] : World)[i']? = some role →
      i' = State.globalId ∧ role = .twin State.globalId := by
    intro i' role h
    rw [List.getElem?_singleton] at h
    split at h
    · next hzero => exact ⟨hzero, (Option.some.inj h).symm⟩
    · cases h
  have htwin : ∀ {i i' : ScopeId}, World.Twin [.twin State.globalId] i i' →
      i' = State.globalId ∧ i = State.globalId := by
    intro i i' h
    obtain ⟨hi', hi⟩ := hrole h
    exact ⟨hi', Role.twin.inj hi⟩
  have hbuiltins : Fields.Like (LikeIn bodies [.twin State.globalId])
      (Builtin.all.map fun b => (b.name, .builtin b))
      (Builtin.all.map fun b => (b.name, .builtin b)) := by
    refine List.forall₂_same.mpr fun p hp => ?_
    obtain ⟨b, _, rfl⟩ := List.mem_map.mp hp
    exact .mk b.name (.builtin b)
  refine ⟨rfl, ?_, ?_, ?_, ?_, rfl⟩
  · rintro i i' (h | h)
    · obtain ⟨_, rfl⟩ := htwin h
      exact Nat.zero_lt_one
    · cases (hrole h).2
  · intro i i' h
    obtain ⟨rfl, rfl⟩ := htwin h
    exact ⟨_, _, rfl, rfl, .none, .ofList hbuiltins, rfl⟩
  · intro i i' h
    cases (hrole h).2
  · intro i j k hj hk
    rw [(htwin hj).1, (htwin hk).1]

end Tracks

/-! ## Paired runs -/

/-- One of two runs. -/
inductive Side where
  | first
  | second

/-- The run on the side finishes. -/
def Side.Finishes {α β : Type} (side : Side) (r : EStateM.Result Halt State α)
    (r' : EStateM.Result Halt State β) : Prop :=
  match side with
  | .first => Finished r
  | .second => Finished r'

/-- Two runs end with related results in states that a larger world pairs, or in the same fault with
the same lines printed. -/
inductive Meets (bodies : Block → Block → Prop) (w : World) {α β : Type}
    (Q : World → α → β → Prop) :
    EStateM.Result Halt State α → EStateM.Result Halt State β → Prop where
  | ok {a : α} {b : β} {t t' : State} {w' : World} (grows : w <+: w')
      (tracks : Tracks bodies w' t t') (result : Q w' a b) : Meets bodies w Q (.ok a t) (.ok b t')
  | fault (f : Fault) {t t' : State} (output : t'.output = t.output) :
      Meets bodies w Q (.error (.fault f) t) (.error (.fault f) t')

/-- If the run on the side finishes, then both runs do, and they end alike. -/
def Paired (bodies : Block → Block → Prop) (side : Side) (w : World) {α β : Type} (x : Eval α)
    (y : Eval β) (s s' : State) (Q : World → α → β → Prop) : Prop :=
  side.Finishes (x s) (y s') → Meets bodies w Q (x s) (y s')

theorem Eval.bind_eq_ok {α β : Type} {x : Eval α} {f : α → Eval β} {s t : State} {b : β}
    (h : (x >>= f) s = .ok b t) : ∃ a r, x s = .ok a r ∧ f a r = .ok b t := by
  cases hx : x s with
  | ok a r => exact ⟨a, r, rfl, by rwa [bind_ok hx] at h⟩
  | error e r =>
    rw [bind_error e r hx] at h
    cases h

theorem Finished.of_bind {α β : Type} {x : Eval α} {f : α → Eval β} {s : State}
    (h : Finished ((x >>= f) s)) : Finished (x s) := by
  cases hx : x s with
  | ok a t => trivial
  | error e t => rwa [Eval.bind_error e t hx] at h

theorem Meets.mono {α β : Type} {Q : World → α → β → Prop} {r : EStateM.Result Halt State α}
    {r' : EStateM.Result Halt State β} (h : Meets bodies w' Q r r') (hw : w <+: w') :
    Meets bodies w Q r r' := by
  cases h with
  | ok grows tracks result => exact .ok (hw.trans grows) tracks result
  | fault f output => exact .fault f output

namespace Paired

variable {side : Side} {α α' β β' : Type} {x : Eval α} {y : Eval α'} {s s' : State}
  {Q : World → α → α' → Prop} {R : World → β → β' → Prop}

theorem pure {a : α} {b : α'} (hs : Tracks bodies w s s') (hab : Q w a b) :
    Paired bodies side w (pure a) (pure b) s s' Q :=
  fun _ => .ok (List.prefix_refl w) hs hab

theorem fault {f : Fault} (hs : Tracks bodies w s s') :
    Paired bodies side w (Eval.fault f : Eval α) (Eval.fault f : Eval α') s s' Q :=
  fun _ => .fault f hs.output

theorem outOfFuel :
    Paired bodies side w (throw .outOfFuel : Eval α) (throw .outOfFuel : Eval α') s s' Q := by
  intro hend
  cases side with
  | first => exact absurd rfl hend
  | second => exact absurd rfl hend

/-- **A sequence is paired if its parts are.** -/
theorem bind {f : α → Eval β} {g : α' → Eval β'} (hxy : Paired bodies side w x y s s' Q)
    (hfg : ∀ w' a b t t', w <+: w' → Tracks bodies w' t t' → Q w' a b →
      Paired bodies side w' (f a) (g b) t t' R) :
    Paired bodies side w (x >>= f) (y >>= g) s s' R := by
  intro hend
  have hfirst : side.Finishes (x s) (y s') := by
    cases side with
    | first => exact Finished.of_bind hend
    | second => exact Finished.of_bind hend
  have hmeets := hxy hfirst
  generalize hx : x s = r, hy : y s' = r' at hmeets
  cases hmeets with
  | fault e output =>
    rw [Eval.bind_error _ _ hx, Eval.bind_error _ _ hy]
    exact .fault e output
  | ok grows tracks result =>
    rw [Eval.bind_ok hx, Eval.bind_ok hy] at hend ⊢
    exact (hfg _ _ _ _ _ grows tracks result hend).mono grows

theorem ofExcept {P : α → α' → Prop} {r : Except Fault α} {r' : Except Fault α'}
    (hs : Tracks bodies w s s') (h : AnswersAlike P r r') (hP : ∀ a b, P a b → Q w a b) :
    Paired bodies side w (Eval.ofExcept r) (Eval.ofExcept r') s s' Q := by
  cases h with
  | ok hab => exact pure hs (hP _ _ hab)
  | error f => exact fault hs

theorem optionally {ι ι' : Type} {P : ι → ι' → Prop} {action : ι → Eval α} {action' : ι' → Eval α'}
    {item : Option ι} {item' : Option ι'} (hs : Tracks bodies w s s')
    (hitem : Option.Rel P item item')
    (h : ∀ i i', P i i' → Paired bodies side w (action i) (action' i') s s' Q) :
    Paired bodies side w (Eval.optionally action item) (Eval.optionally action' item') s s'
      fun _ _ _ => True := by
  cases hitem with
  | none => exact pure hs trivial
  | some hi => exact (h _ _ hi).bind fun _ _ _ _ _ _ ht _ => pure ht trivial

theorem holds {ι ι' : Type} {P : ι → ι' → Prop} {value : ι → Eval Value} {value' : ι' → Eval Value}
    {item : Option ι} {item' : Option ι'} (hs : Tracks bodies w s s')
    (hitem : Option.Rel P item item')
    (h : ∀ i i', P i i' →
      Paired bodies side w (value i) (value' i') s s' (LikeIn bodies)) :
    Paired bodies side w (Eval.holds value item) (Eval.holds value' item') s s'
      fun _ b b' => b' = b := by
  cases hitem with
  | none => exact pure hs rfl
  | some hi => exact (h _ _ hi).bind fun _ _ _ _ _ _ ht hv => pure ht hv.truthy_eq

/-! ### The steps that touch the state -/

variable {id id' : ScopeId} {v v' : Value}

theorem read (hs : Tracks bodies w s s') (hid : World.Stands w id id') (name : String) :
    Paired bodies side w (Eval.read id name) (Eval.read id' name) s s' (LikeIn bodies) := by
  intro _
  have hvalue := hs.value? hid name
  rw [Eval.read, Eval.read]
  generalize s.value? id name = o, s'.value? id' name = o' at hvalue
  cases hvalue with
  | none => exact .fault _ hs.output
  | some h => exact .ok (List.prefix_refl w) hs h

theorem define (hs : Tracks bodies w s s') (hid : World.Twin w id id') (name : String)
    (hv : LikeIn bodies w v v') (constant : Bool) :
    Paired bodies side w (Eval.define id name v constant) (Eval.define id' name v' constant) s s'
      fun _ _ _ => True := by
  intro _
  have hsame : s'.binds id' name = s.binds id name :=
    Tracks.isSome_eq_of_rel (hs.ownValue? hid name)
  rw [Eval.define, Eval.define, hsame]
  split
  · exact .fault _ hs.output
  · exact .ok (List.prefix_refl w) (hs.write hid name hv constant) trivial

theorem assign (hs : Tracks bodies w s s') (hid : World.Stands w id id') (name : String)
    (hv : LikeIn bodies w v v') :
    Paired bodies side w (Eval.assign id name v) (Eval.assign id' name v') s s'
      fun _ _ _ => True := by
  intro _
  have howner := hs.owner? hid name
  rw [Eval.assign, Eval.assign]
  generalize s.owner? id name = o, s'.owner? id' name = o' at howner
  cases howner with
  | none => exact .fault _ hs.output
  | some htwin =>
    dsimp only
    rw [hs.isConstant_eq htwin name]
    split
    · exact .fault _ hs.output
    · exact .ok (List.prefix_refl w) (hs.write htwin name hv false) trivial

theorem enter (hs : Tracks bodies w s s') (hid : World.Stands w id id') :
    Paired bodies side w (Eval.enter id) (Eval.enter id') s s' World.Twin := by
  intro _
  refine .ok (List.prefix_append w _) (hs.addTwin hid) ?_
  rw [World.Twin, ← hs.length]
  exact World.getElem?_concat w _

/-- The second run enters a scope alone. -/
theorem annex {g : ScopeId → Eval α'} (hs : Tracks bodies w s s') (hid : World.Stands w id id')
    (h : ∀ w' t' inner, w <+: w' → Tracks bodies w' s t' → World.Stands w' id inner →
      Paired bodies side w' x (g inner) s t' Q) :
    Paired bodies side w x (Eval.enter id' >>= g) s s' Q := by
  intro hend
  have hw : w <+: w ++ [.annex id] := List.prefix_append _ _
  have hinner : World.Stands (w ++ [.annex id]) id s'.scopes.size := by
    rw [← hs.length]
    exact Or.inr (World.getElem?_concat w _)
  exact (h _ _ _ hw (hs.addAnnex hid) hinner hend).mono hw

theorem defineAll {items items' : List (String × Value)} (hs : Tracks bodies w s s')
    (hid : World.Twin w id id') (h : Fields.Like (LikeIn bodies w) items items') :
    Paired bodies side w (Eval.defineAll id items) (Eval.defineAll id' items') s s'
      fun _ _ _ => True := by
  induction items generalizing items' w s s' with
  | nil =>
    cases h
    exact pure hs trivial
  | cons p items ih =>
    obtain _ | ⟨hp, hrest⟩ := h
    obtain ⟨name, hv⟩ := hp
    rw [Eval.defineAll, Eval.defineAll]
    refine (define hs hid name hv false).bind fun w' _ _ t t' hw ht _ => ?_
    exact ih ht (hid.mono hw) (hrest.imp fun _ _ ⟨key, hlike⟩ => .mk key (hlike.mono hw))

theorem emit (hs : Tracks bodies w s s') (line : String) :
    Paired bodies side w (Eval.emit line) (Eval.emit line) s s' fun _ _ _ => True :=
  fun _ => .ok (List.prefix_refl w) (hs.print line) trivial

theorem builtin {b : Builtin} {arguments arguments' : List Value} (hs : Tracks bodies w s s')
    (h : List.Forall₂ (LikeIn bodies w) arguments arguments') :
    Paired bodies side w (b.call arguments) (b.call arguments') s s' (LikeIn bodies) := by
  have happly : Paired bodies side w (Eval.ofExcept (b.apply arguments))
      (Eval.ofExcept (b.apply arguments')) s s' (LikeIn bodies) :=
    ofExcept hs (b.apply_like h) fun _ _ hlike => hlike
  have hrun : Paired bodies side w (b.run arguments) (b.run arguments') s s' (LikeIn bodies) := by
    cases b with
    | print =>
      rw [Builtin.run, Builtin.run, Builtin.printedLine_eq h]
      exact (emit hs _).bind fun _ _ _ _ _ _ ht _ => pure ht .null
    | len | type | push | pop | first | last | rest => exact happly
  rw [Builtin.call, Builtin.call, h.length_eq]
  split
  · split
    · exact hrun
    · exact fault hs
  · exact hrun

end Paired

/-! ## What is seen of a run -/

/-- What is seen of a run that ended: the lines it printed, and its fault or the text of its
value. -/
structure Observation where
  lines : Array String
  outcome : Except Fault String
  deriving DecidableEq

def observe : EStateM.Result Halt State Value → Option Observation
  | .ok v s => some ⟨s.output, .ok v.render⟩
  | .error (.fault f) s => some ⟨s.output, .error f⟩
  | .error .outOfFuel _ => none

theorem finished_of_observe {r : EStateM.Result Halt State Value} {seen : Observation}
    (h : observe r = some seen) : Finished r := by
  cases r with
  | ok v s => trivial
  | error e s =>
    rintro rfl
    cases h

theorem observe_of_not_finished {r : EStateM.Result Halt State Value} (h : ¬ Finished r) :
    observe r = none := by
  cases r with
  | ok v s => exact absurd trivial h
  | error e s =>
    cases e with
    | fault f => exact absurd nofun h
    | outOfFuel => rfl

theorem Meets.observe_eq {r r' : EStateM.Result Halt State Value}
    (h : Meets bodies w (LikeIn bodies) r r') : observe r' = observe r := by
  cases h with
  | ok grows tracks result => rw [observe, observe, tracks.output, result.render_eq]
  | fault f output => rw [observe, observe, output]

/-- **The same is seen of paired programs**, if each run of one is paired with a run of the
other. -/
theorem exists_observe_iff {x y : Nat → Eval Value} {s s' : State}
    (hfirst : ∀ n, ∃ m, Paired bodies .first w (x n) (y m) s s' (LikeIn bodies))
    (hsecond : ∀ m, ∃ n, Paired bodies .second w (x n) (y m) s s' (LikeIn bodies))
    (seen : Observation) :
    (∃ n, observe (x n s) = some seen) ↔ ∃ m, observe (y m s') = some seen := by
  constructor
  · rintro ⟨n, hn⟩
    obtain ⟨m, hpaired⟩ := hfirst n
    exact ⟨m, (hpaired (finished_of_observe hn)).observe_eq.trans hn⟩
  · rintro ⟨m, hm⟩
    obtain ⟨n, hpaired⟩ := hsecond m
    exact ⟨n, (hpaired (finished_of_observe hm)).observe_eq.symm.trans hm⟩

/-- The same is seen of two programs that are paired both ways, also if neither of them ends. -/
theorem observe_eq_of_paired {x y : Eval Value} {s s' : State}
    (h : ∀ side, Paired bodies side w x y s s' (LikeIn bodies)) :
    observe (y s') = observe (x s) := by
  by_cases hfirst : Finished (x s)
  · exact (h .first hfirst).observe_eq
  · by_cases hsecond : Finished (y s')
    · exact (h .second hsecond).observe_eq
    · rw [observe_of_not_finished hfirst, observe_of_not_finished hsecond]

end Scriptlet
