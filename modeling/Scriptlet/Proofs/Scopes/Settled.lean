import Scriptlet.Proofs.Scopes.Discipline
import Scriptlet.Proofs.Scopes.Extension
import Scriptlet.Proofs.Scopes.WellScoped

/-!
# Settled states

A name fault is the use of a name that no scope in sight binds, or a second definition of a name in
one scope.  Two things must be known of a state so that a well-scoped program meets none in it.

* All closures in it are *settled*: the parameters differ and the body is well scoped for names that
  can be seen from the captured scope.  What can be seen from a scope can be seen from it ever
  after, so a settled closure stays settled while scopes are added and names are written, and it
  does not matter where it is called.
* No scope gets names that are not expected there.  The discipline `scoping may` keeps states
  settled and lets a scope get a new name only where `may` allows it; scopes that are made on the
  way do not count (`Keeps.fresh`).

The steps that touch the state keep this discipline where a well-scoped program takes them.
-/

namespace Scriptlet

/-! ## Name faults -/

/-- The use of a name that is not there, or a second definition. -/
def Fault.isName : Fault → Bool
  | .undefinedVariable _ => true
  | .duplicateDefinition _ => true
  | _ => false

section Results

variable {f : Fault}

theorem BinaryOp.onNumbers_isName {op : BinaryOp} {a b : Binary64}
    (h : op.onNumbers a b = .error f) : f.isName = false := by
  revert h
  fun_cases BinaryOp.onNumbers op a b <;> intro h <;> cases h <;> rfl

theorem BinaryOp.onTexts_isName {op : BinaryOp} {a b : String}
    (h : op.onTexts a b = .error f) : f.isName = false := by
  revert h
  fun_cases BinaryOp.onTexts op a b <;> intro h <;> cases h
  rfl

theorem BinaryOp.onOthers_isName {op : BinaryOp} {a b : Value}
    (h : op.onOthers a b = .error f) : f.isName = false := by
  revert h
  fun_cases BinaryOp.onOthers op a b <;> intro h <;> cases h
  rfl

theorem BinaryOp.apply_isName {op : BinaryOp} {a b : Value} (h : op.apply a b = .error f) :
    f.isName = false := by
  revert h
  fun_cases BinaryOp.apply op a b <;> intro h
  · cases h
  · cases h
  · exact onNumbers_isName h
  · exact onTexts_isName h
  · exact onOthers_isName h

theorem UnaryOp.apply_isName {op : UnaryOp} {a : Value} (h : op.apply a = .error f) :
    f.isName = false := by
  revert h
  fun_cases UnaryOp.apply op a <;> intro h <;> cases h
  rfl

theorem Value.member_isName {target : Value} {key : String} (h : target.member key = .error f) :
    f.isName = false := by
  revert h
  fun_cases Value.member target key <;> intro h <;> cases h
  rfl

theorem Value.index_isName {target place : Value} (h : target.index place = .error f) :
    f.isName = false := by
  revert h
  fun_cases Value.index target place <;> intro h <;> cases h
  rfl

theorem Builtin.apply_isName {b : Builtin} {arguments : List Value}
    (h : b.apply arguments = .error f) : f.isName = false := by
  have harray : ∀ {b : Builtin} {answer : List Value → Value},
      (b.arrayArgument arguments).map answer = .error f → f.isName = false := by
    intro b answer
    fun_cases arrayArgument b arguments <;> intro h <;> cases h
    rfl
  have hlength : length arguments = .error f → f.isName = false := by
    fun_cases length arguments <;> intro h <;> cases h <;> rfl
  cases b with
  | print => cases h
  | len => exact hlength h
  | type =>
    cases arguments with
    | nil =>
      cases h
      rfl
    | cons v vs => cases h
  | push =>
    simp only [apply.eq_def] at h
    split at h
    · cases h
    · cases h
      rfl
  | pop | first | last | rest => exact harray h

end Results

/-! ## Settled states -/

namespace State

/-- From the scope `id`, the name `x` can be seen. -/
def Sees (s : State) (id : ScopeId) (x : String) : Prop := (s.owner? id x).isSome

/-- The scope exists, and all of `names` can be seen from it. -/
def Offers (s : State) (id : ScopeId) (names : List String) : Prop :=
  id < s.scopes.size ∧ ∀ x ∈ names, s.Sees id x

/-- The body is well scoped for the parameters and for what the captured scope offers. -/
def SettledClosure (s : State) (parameters : List String) (body : Block) (id : ScopeId) : Prop :=
  parameters.Nodup ∧
    ∃ names, s.Offers id names ∧ Statement.AllScoped (parameters ++ names) body

/-- All closures inside a value are settled. -/
def Settles (s : State) (v : Value) : Prop := v.AllClosures s.SettledClosure

/-- All closures that the state stores are settled. -/
def Settled (s : State) : Prop := ∀ {v : Value}, s.Stores v → s.Settles v

section

variable {s t : State} {id : ScopeId} {x : String} {v : Value} {names : List String}

theorem Extends.offers (h : s.Extends t) (ho : s.Offers id names) : t.Offers id names :=
  ⟨h.exists_lt ho.1, fun x hx => h.visible (ho.2 x hx)⟩

theorem Extends.settles (h : s.Extends t) (hv : s.Settles v) : t.Settles v := by
  refine hv.imp fun parameters body id hclosure => ?_
  obtain ⟨hnodup, names, ho, hbody⟩ := hclosure
  exact ⟨hnodup, names, h.offers ho, hbody⟩

theorem sees_of_binds (h : s.binds id x) : s.Sees id x := by
  obtain ⟨v, hv⟩ := Option.isSome_iff_exists.mp h
  obtain ⟨scope, hscope, hget⟩ := Option.bind_eq_some_iff.mp hv
  simp [Sees, owner?, hscope, hget]

theorem Offers.bound (ho : s.Offers id names) {own : List String}
    (h : ∀ x ∈ own, s.binds id x) : s.Offers id (own ++ names) := by
  refine ⟨ho.1, fun x hx => ?_⟩
  rcases List.mem_append.mp hx with hx | hx
  · exact sees_of_binds (h x hx)
  · exact ho.2 x hx

theorem binds_of_owner? {owner : ScopeId} (h : s.owner? id x = some owner) : s.binds owner x := by
  induction id using Nat.strongRecOn with
  | ind id ih =>
    rw [owner?] at h
    split at h
    · cases h
    · next scope hscope =>
      split at h
      · next hget =>
        cases h
        rwa [binds, ownValue?_of_getElem? hscope]
      · split at h
        · cases h
        · next p _ =>
          split at h
          · next hlt => exact ih p hlt h
          · cases h

/-- A new scope sees what its parent sees. -/
theorem offers_addScope (ho : s.Offers id names) :
    (s.addScope (.child id)).Offers s.scopes.size names := by
  refine ⟨by rw [size_addScope]; exact Nat.lt_succ_self _, fun x hx => ?_⟩
  have hparent : ((s.addScope (.child id)).owner? id x).isSome :=
    (extends_addScope _).visible (ho.2 x hx)
  have hscope : (s.addScope (.child id)).scopes[s.scopes.size]? = some (.child id) := by
    simp [addScope]
  rw [Sees, owner?, hscope]
  simpa [Scope.child, Fields.get?, ho.1] using hparent

theorem Settled.write {constant : Bool} (h : s.Settled)
    (he : s.Extends (s.write id x v constant)) (hv : (s.write id x v constant).Settles v) :
    (s.write id x v constant).Settled := by
  intro w hw
  rcases hw.of_write with rfl | hw
  · exact hv
  · exact he.settles (h hw)

theorem Settled.child (h : s.Settled) (parent : ScopeId) :
    (s.addScope (.child parent)).Settled := by
  intro w hw
  rcases hw.of_addScope with ⟨y, hy⟩ | hw
  · exact absurd hy List.not_mem_nil
  · exact (extends_addScope _).settles (h hw)

theorem Settled.print (h : s.Settled) (line : String) : (s.print line).Settled :=
  fun {_} hstored => (extends_print line).settles (h hstored)

end

end State

/-! ## The discipline -/

/-- States stay settled, no name fault is met, and an earlier scope gets only names that `may`
allows for it. -/
def scoping (may : ScopeId → String → Prop) : Discipline where
  good := State.Settled
  step s t := s.Extends t ∧
    ∀ {id x}, id < s.scopes.size → t.binds id x → s.binds id x ∨ may id x
  halts h := ∀ f, h = .fault f → f.isName = false
  refl s := ⟨.refl s, fun _ h => Or.inl h⟩
  trans := by
    rintro s t u ⟨hst, hnew⟩ ⟨htu, hnew'⟩
    refine ⟨hst.trans htu, fun hid hx => ?_⟩
    rcases hnew' (hst.exists_lt hid) hx with hx | hx
    · exact hnew hid hx
    · exact Or.inr hx

/-- No earlier scope gets a name. -/
def nothing : ScopeId → String → Prop := fun _ _ => False

/-- The scope `id` may get the names `xs`. -/
def binding (id : ScopeId) (xs : List String) : ScopeId → String → Prop :=
  fun i x => i = id ∧ x ∈ xs

section Scoping

variable {α : Type} {x : Eval α} {s : State} {Q : α → State → Prop}
  {may may' : ScopeId → String → Prop}

theorem Keeps.widen (hx : Keeps (scoping may) x s Q) (h : ∀ i y, may i y → may' i y) :
    Keeps (scoping may') x s Q := by
  refine hx.loosen (fun _ ht => ht) (fun t hst => ⟨hst.1, fun hid hy => ?_⟩) fun _ hh => hh
  exact (hst.2 hid hy).imp_right (h _ _)

/-- What binds no names in earlier scopes may stand anywhere. -/
theorem Keeps.quiet (hx : Keeps (scoping nothing) x s Q) : Keeps (scoping may) x s Q :=
  hx.widen fun _ _ h => h.elim

/-- Names in scopes that were not there before do not count. -/
theorem Keeps.fresh (hx : Keeps (scoping fun i _ => s.scopes.size ≤ i) x s Q) :
    Keeps (scoping nothing) x s Q := by
  refine hx.loosen (fun _ ht => ht) (fun t hst => ⟨hst.1, fun hid hy => ?_⟩) fun _ hh => hh
  rcases hst.2 hid hy with hy | hle
  · exact Or.inl hy
  · exact absurd hid (Nat.not_lt.mpr hle)

end Scoping

/-! ## Steps -/

namespace Eval

variable {s : State} {id : ScopeId} {x : String} {v : Value} {names : List String}
  {may : ScopeId → String → Prop}

theorem outOfFuel_safe {α : Type} {Q : α → State → Prop} (hs : s.Settled) :
    Keeps (scoping may) (throw .outOfFuel : Eval α) s Q :=
  .throw hs nofun

theorem fault_safe {α : Type} {f : Fault} {Q : α → State → Prop} (hs : s.Settled)
    (hf : f.isName = false) : Keeps (scoping may) (fault f : Eval α) s Q := by
  refine .fault hs fun g hg => ?_
  cases hg
  exact hf

theorem ofExcept_safe {α : Type} {r : Except Fault α} {Q : α → State → Prop} (hs : s.Settled)
    (hok : ∀ a, r = .ok a → Q a s) (herror : ∀ f, r = .error f → f.isName = false) :
    Keeps (scoping may) (ofExcept r) s Q := by
  refine .ofExcept hs hok fun f hf g hg => ?_
  cases hg
  exact herror f hf

theorem read_safe (hs : s.Settled) (hx : s.Sees id x) :
    Keeps (scoping may) (read id x) s fun v t => t.Settles v := by
  refine .read hs (fun v hv => hs (State.stores_of_value? hv)) fun hnone => ?_
  obtain ⟨owner, howner⟩ := Option.isSome_iff_exists.mp hx
  obtain ⟨v, hv⟩ := Option.isSome_iff_exists.mp (State.binds_of_owner? howner)
  rw [State.value?, howner, Option.bind_some, hv] at hnone
  cases hnone

theorem define_safe {constant : Bool} (hs : s.Settled) (hid : id < s.scopes.size)
    (hfree : ¬ s.binds id x) (hv : ∀ t, s.Extends t → t.binds id x → t.Settles v) :
    Keeps (scoping (binding id [x])) (define id x v constant) s fun _ t => t.binds id x := by
  refine .define hs (fun _ => ?_) fun hbound => absurd hbound hfree
  have he : s.Extends (s.write id x v constant) :=
    State.extends_write fun hbound => absurd hbound hfree
  have hbinds : (s.write id x v constant).binds id x :=
    State.binds_write.mpr (Or.inl ⟨rfl, rfl, hid⟩)
  refine ⟨hs.write he (hv _ he hbinds), ⟨he, fun {i y} hi hy => ?_⟩, hbinds⟩
  rcases State.binds_write.mp hy with h | hy
  · exact Or.inr ⟨h.1, List.mem_singleton.mpr h.2.1⟩
  · exact Or.inl hy

theorem assign_safe (hs : s.Settled) (hx : s.Sees id x) (hv : s.Settles v) :
    Keeps (scoping may) (assign id x v) s fun _ _ => True := by
  refine .assign hs (fun owner howner hfree => ?_) ?_ fun hnone => ?_
  · have he : s.Extends (s.write owner x v false) := State.extends_write fun _ => hfree
    refine ⟨hs.write he (he.settles hv), ⟨he, fun {i y} hi hy => ?_⟩, trivial⟩
    rcases State.binds_write.mp hy with ⟨rfl, rfl, _⟩ | hy
    · exact Or.inl (State.binds_of_owner? howner)
    · exact Or.inl hy
  · intro f hf
    cases hf
    rfl
  · rw [State.Sees, hnone] at hx
    cases hx

theorem enter_safe (hs : s.Settled) (ho : s.Offers id names) :
    Keeps (scoping may) (enter id) s fun inner t =>
      s.scopes.size ≤ inner ∧ t.Offers inner names ∧ ∀ y, ¬ t.binds inner y := by
  refine .enter (hs.child id) ⟨State.extends_addScope _, fun {i y} hi hy => ?_⟩
    ⟨Nat.le_refl _, State.offers_addScope ho, fun y hy => ?_⟩
  · rw [State.binds_addScope, if_neg (Nat.ne_of_lt hi)] at hy
    exact Or.inl hy
  · rw [State.binds_addScope, if_pos rfl] at hy
    cases hy

/-- Different names that are still free can all be bound. -/
theorem defineAll_safe {items : List (String × Value)} (hs : s.Settled)
    (hid : id < s.scopes.size) (hnodup : (items.map Prod.fst).Nodup)
    (hfree : ∀ p ∈ items, ¬ s.binds id p.1) (hv : ∀ p ∈ items, s.Settles p.2) :
    Keeps (scoping (binding id (items.map Prod.fst))) (defineAll id items) s
      fun _ t => ∀ y ∈ items.map Prod.fst, t.binds id y := by
  induction items generalizing s with
  | nil => exact .pure hs nofun
  | cons p items ih =>
    obtain ⟨y, v⟩ := p
    obtain ⟨hy, hnodup⟩ := List.nodup_cons.mp hnodup
    have hdefine : Keeps (scoping (binding id [y])) (define id y v false) s
        fun _ t => t.binds id y :=
      define_safe hs hid (hfree _ List.mem_cons_self) fun t he _ =>
        he.settles (hv _ List.mem_cons_self)
    -- The other names stay free, so the step of the first definition is kept with its result.
    have hfirst := hdefine.imp fun _ t _ hst hb => And.intro hb hst
    have hmay : ∀ i z, binding id [y] i z → binding id (y :: items.map Prod.fst) i z := by
      rintro i z ⟨hi, hz⟩
      exact ⟨hi, List.mem_cons.mpr (Or.inl (List.mem_singleton.mp hz))⟩
    refine (hfirst.widen hmay).bind fun _ t ht hst hq => ?_
    obtain ⟨hbound, _, hnew⟩ := hq
    have hrest : Keeps (scoping (binding id (items.map Prod.fst))) (defineAll id items) t
        fun _ u => ∀ z ∈ items.map Prod.fst, u.binds id z := by
      refine ih ht (hst.1.exists_lt hid) hnodup (fun q hq hb => ?_) fun q hq => ?_
      · rcases hnew hid hb with hb | ⟨_, hqy⟩
        · exact hfree q (List.mem_cons_of_mem _ hq) hb
        · have hmem : q.1 ∈ items.map Prod.fst := List.mem_map_of_mem hq
          rw [List.mem_singleton.mp hqy] at hmem
          exact hy hmem
      · exact hst.1.settles (hv q (List.mem_cons_of_mem _ hq))
    refine (hrest.widen ?_).imp fun _ u _ htu hu => ?_
    · exact fun i z hz => ⟨hz.1, List.mem_cons_of_mem _ hz.2⟩
    · exact List.forall_mem_cons.mpr ⟨htu.1.binds hbound, hu⟩

end Eval

theorem Builtin.call_safe {s : State} {b : Builtin} {arguments : List Value}
    {may : ScopeId → String → Prop} (hs : s.Settled) (ha : ∀ v ∈ arguments, s.Settles v) :
    Keeps (scoping may) (b.call arguments) s fun v t => t.Settles v := by
  refine .builtin hs (fun line => ?_) (fun v hv => apply_allClosures hv ha) (fun f hf g hg => ?_)
    fun n g hg => ?_
  · exact ⟨hs.print line, ⟨State.extends_print line, fun _ hy => Or.inl hy⟩,
      Value.allClosures_null⟩
  · cases hg
    exact apply_isName hf
  · cases hg
    rfl

end Scriptlet
