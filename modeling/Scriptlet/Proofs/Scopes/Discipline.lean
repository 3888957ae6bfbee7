import Scriptlet.Eval.Run

/-!
# Disciplines of evaluation

An evaluation passes through many states, and it may be cut off in any of them.  What all of them
have in common is said once, as a discipline: which states are good, how an evaluation may change
the state, and how it may halt.  A computation keeps the discipline if, however it ends, it ends in
a good state that it may have come to, and for a reason allowed; if it ends in a result, then the
result satisfies a condition of its own.

Changes compose, so the discipline is kept by a sequence as soon as it is kept by its parts
(`Keeps.bind`), and a proof about an evaluation follows its text.
-/

namespace Scriptlet

/-! ## Ends of a computation -/

namespace Eval

variable {α β : Type}

/-- The state that a computation ends in, with a result or without. -/
def after (x : Eval α) (s : State) : State :=
  match x s with
  | .ok _ t => t
  | .error _ t => t

theorem bind_error {x : Eval α} {f : α → Eval β} {s : State} (e : Halt) (t : State)
    (h : x s = .error e t) : (x >>= f) s = .error e t := by
  rw [show (x >>= f) s = EStateM.bind x f s from rfl, EStateM.bind, h]

end Eval

/-! ## Keeping a discipline -/

/-- The states an evaluation may be in, how it may change them and why it may halt. -/
structure Discipline where
  good : State → Prop
  step : State → State → Prop
  halts : Halt → Prop
  refl : ∀ s, step s s
  trans : ∀ {s t u}, step s t → step t u → step s u

/-- `Keeps D x s Q`: run in `s`, the computation `x` keeps `D`, and its result satisfies `Q`. -/
def Keeps {α : Type} (D : Discipline) (x : Eval α) (s : State) (Q : α → State → Prop) : Prop :=
  match x s with
  | .ok a t => D.good t ∧ D.step s t ∧ Q a t
  | .error h t => D.good t ∧ D.step s t ∧ D.halts h

namespace Keeps

variable {D : Discipline} {α β : Type} {x : Eval α} {s : State} {Q : α → State → Prop}

theorem pure {a : α} (hs : D.good s) (ha : Q a s) : Keeps D (pure a) s Q :=
  ⟨hs, D.refl s, ha⟩

theorem throw {h : Halt} (hs : D.good s) (hh : D.halts h) : Keeps D (throw h : Eval α) s Q :=
  ⟨hs, D.refl s, hh⟩

theorem fault {f : Fault} (hs : D.good s) (hf : D.halts (.fault f)) :
    Keeps D (Eval.fault f) s Q :=
  throw hs hf

/-- What is kept can be read off the way in which the computation ends. -/
theorem weaken {D' : Discipline} {R : α → State → Prop} (hx : Keeps D x s Q)
    (hok : ∀ a t, x s = .ok a t → D.good t ∧ D.step s t ∧ Q a t →
      D'.good t ∧ D'.step s t ∧ R a t)
    (herror : ∀ h t, D.good t ∧ D.step s t ∧ D.halts h →
      D'.good t ∧ D'.step s t ∧ D'.halts h) : Keeps D' x s R := by
  rw [Keeps] at hx ⊢
  cases heq : x s with
  | ok a t =>
    rw [heq] at hx
    exact hok a t heq hx
  | error h t =>
    rw [heq] at hx
    exact herror h t hx

theorem imp {R : α → State → Prop} (hx : Keeps D x s Q)
    (h : ∀ a t, D.good t → D.step s t → Q a t → R a t) : Keeps D x s R := by
  refine hx.weaken (fun a t _ hq => ?_) fun _ _ hh => hh
  exact ⟨hq.1, hq.2.1, h a t hq.1 hq.2.1 hq.2.2⟩

/-- A discipline can be loosened. -/
theorem loosen {D' : Discipline} (hx : Keeps D x s Q) (hgood : ∀ t, D.good t → D'.good t)
    (hstep : ∀ t, D.step s t → D'.step s t) (hhalts : ∀ h, D.halts h → D'.halts h) :
    Keeps D' x s Q := by
  refine hx.weaken (fun a t _ hq => ?_) fun h t hh => ?_
  · exact ⟨hgood t hq.1, hstep t hq.2.1, hq.2.2⟩
  · exact ⟨hgood t hh.1, hstep t hh.2.1, hhalts h hh.2.2⟩

/-- **A sequence keeps what its parts keep.** -/
theorem bind {R : β → State → Prop} {f : α → Eval β} (hx : Keeps D x s Q)
    (hf : ∀ a t, D.good t → D.step s t → Q a t → Keeps D (f a) t R) : Keeps D (x >>= f) s R := by
  rw [Keeps] at hx
  rw [Keeps, show (x >>= f) s = EStateM.bind x f s from rfl, EStateM.bind]
  cases heq : x s with
  | error h t =>
    rw [heq] at hx
    exact hx
  | ok a t =>
    rw [heq] at hx
    obtain ⟨ht, hst, ha⟩ := hx
    have hfa := hf a t ht hst ha
    rw [Keeps] at hfa
    dsimp only
    cases hfeq : f a t with
    | ok b u =>
      rw [hfeq] at hfa
      exact ⟨hfa.1, D.trans hst hfa.2.1, hfa.2.2⟩
    | error h u =>
      rw [hfeq] at hfa
      exact ⟨hfa.1, D.trans hst hfa.2.1, hfa.2.2⟩

theorem ok {a : α} {t : State} (hx : Keeps D x s Q) (h : x s = .ok a t) :
    D.good t ∧ D.step s t ∧ Q a t := by
  rw [Keeps, h] at hx
  exact hx

theorem after (hx : Keeps D x s Q) : D.good (x.after s) ∧ D.step s (x.after s) := by
  rw [Keeps] at hx
  rw [Eval.after]
  cases h : x s with
  | ok a t =>
    rw [h] at hx
    exact ⟨hx.1, hx.2.1⟩
  | error e t =>
    rw [h] at hx
    exact ⟨hx.1, hx.2.1⟩

/-- What follows in a sequence may look at how the first part ended. -/
theorem bind_ok {R : β → State → Prop} {f : α → Eval β} (hx : Keeps D x s Q)
    (hf : ∀ a t, x s = .ok a t → Keeps D (f a) t R) : Keeps D (x >>= f) s R := by
  have hrun : Keeps D x s fun a t => x s = .ok a t :=
    hx.weaken (fun a t heq hq => ⟨hq.1, hq.2.1, heq⟩) fun _ _ hh => hh
  exact hrun.bind fun a t _ _ h => hf a t h

theorem ofExcept {r : Except Fault α} (hs : D.good s) (hok : ∀ a, r = .ok a → Q a s)
    (herror : ∀ f, r = .error f → D.halts (.fault f)) : Keeps D (Eval.ofExcept r) s Q := by
  cases r with
  | ok a => exact pure hs (hok a rfl)
  | error f => exact fault hs (herror f rfl)

theorem discarded {R : State → Prop} (hx : Keeps D x s fun _ t => R t) :
    Keeps D (Functor.discard x) s fun _ t => R t := by
  have hdiscard : Functor.discard x = x >>= fun _ => Pure.pure PUnit.unit := rfl
  rw [hdiscard]
  exact hx.bind fun a t ht _ ha => pure ht ha

theorem optionally_of {action : α → Eval β} {R : State → Prop} {item : Option α}
    (hs : D.good s) (hnone : item = none → R s)
    (hsome : ∀ a, item = some a → Keeps D (action a) s fun _ t => R t) :
    Keeps D (Eval.optionally action item) s fun _ t => R t := by
  cases item with
  | none => exact pure hs (hnone rfl)
  | some a => exact discarded (hsome a rfl)

theorem optionally {action : α → Eval β} {R : β → State → Prop} {item : Option α}
    (hs : D.good s) (h : ∀ a, item = some a → Keeps D (action a) s R) :
    Keeps D (Eval.optionally action item) s fun _ _ => True :=
  optionally_of hs (fun _ => trivial) fun a ha => (h a ha).imp fun _ _ _ _ _ => trivial

theorem holds {value : α → Eval Value} {R : Value → State → Prop} {item : Option α}
    (hs : D.good s) (h : ∀ a, item = some a → Keeps D (value a) s R) :
    Keeps D (Eval.holds value item) s fun _ _ => True := by
  cases item with
  | none => exact pure hs trivial
  | some a => exact (h a rfl).bind fun v t ht _ _ => pure ht trivial

/-! ### The steps that touch the state -/

section Steps

variable {id : ScopeId} {y : String} {v : Value}

theorem read {Q : Value → State → Prop} (hs : D.good s)
    (hvalue : ∀ w, s.value? id y = some w → Q w s)
    (hnone : s.value? id y = none → D.halts (.fault (.undefinedVariable y))) :
    Keeps D (Eval.read id y) s Q := by
  rw [Keeps, Eval.read]
  cases h : s.value? id y with
  | none => exact ⟨hs, D.refl s, hnone h⟩
  | some w => exact ⟨hs, D.refl s, hvalue w h⟩

theorem define {Q : Unit → State → Prop} {constant : Bool} (hs : D.good s)
    (hfree : ¬ s.binds id y →
      D.good (s.write id y v constant) ∧ D.step s (s.write id y v constant) ∧
        Q () (s.write id y v constant))
    (hbound : s.binds id y → D.halts (.fault (.duplicateDefinition y))) :
    Keeps D (Eval.define id y v constant) s Q := by
  rw [Keeps, Eval.define]
  by_cases h : s.binds id y
  · rw [if_pos h]
    exact ⟨hs, D.refl s, hbound h⟩
  · rw [if_neg h]
    exact hfree h

theorem assign {Q : Unit → State → Prop} (hs : D.good s)
    (howner : ∀ owner, s.owner? id y = some owner → ¬ s.isConstant owner y →
      D.good (s.write owner y v false) ∧ D.step s (s.write owner y v false) ∧
        Q () (s.write owner y v false))
    (hconstant : D.halts (.fault (.constantReassignment y)))
    (hnone : s.owner? id y = none → D.halts (.fault (.undefinedVariable y))) :
    Keeps D (Eval.assign id y v) s Q := by
  rw [Keeps, Eval.assign]
  cases h : s.owner? id y with
  | none => exact ⟨hs, D.refl s, hnone h⟩
  | some owner =>
    dsimp only
    by_cases hc : s.isConstant owner y
    · rw [if_pos hc]
      exact ⟨hs, D.refl s, hconstant⟩
    · rw [if_neg hc]
      exact howner owner h hc

theorem enter {Q : ScopeId → State → Prop} (hgood : D.good (s.addScope (.child id)))
    (hstep : D.step s (s.addScope (.child id)))
    (hQ : Q s.scopes.size (s.addScope (.child id))) : Keeps D (Eval.enter id) s Q :=
  ⟨hgood, hstep, hQ⟩

/-- A builtin function prints a line or computes an answer. -/
theorem builtin {Q : Value → State → Prop} {b : Builtin} {arguments : List Value} (hs : D.good s)
    (hprint : ∀ line, D.good (s.print line) ∧ D.step s (s.print line) ∧ Q .null (s.print line))
    (hok : ∀ v, b.apply arguments = .ok v → Q v s)
    (herror : ∀ f, b.apply arguments = .error f → D.halts (.fault f))
    (harity : ∀ n, D.halts (.fault (.arity n arguments.length))) :
    Keeps D (b.call arguments) s Q := by
  have hrun : Keeps D (b.run arguments) s Q := by
    cases b with
    | print => exact hprint (Builtin.printedLine arguments)
    | len | type | push | pop | first | last | rest => exact ofExcept hs hok herror
  rw [Builtin.call]
  split
  · split
    · exact hrun
    · exact fault hs (harity _)
  · exact hrun

end Steps

end Keeps

end Scriptlet
