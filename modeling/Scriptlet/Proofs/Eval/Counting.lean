import Scriptlet.Proofs.Eval.Steps

/-!
# Counting loops

    let out = []; for (let i = 0; i < len(xs); i = i + 1) { … } out

The loop has a scope of its own for the counter, and each round runs the body in a scope inside it.
`Counting.Round` says what the scopes hold before round `j`: the counter is `j`, `out` is what was
collected so far, and nothing else of the global scope has changed.  A round of a body that ends
normally keeps this (`Round.next`), so the loop comes to every round up to the length of `xs`
(`Eval.loop_rounds`).

* `collecting_ends`: a body that pushes `xs[i]` onto `out` collects all of `xs`.
* `searching_ends`: a body that returns `xs[i]` when `i` is equal to a number in range returns in
  that round.
-/

namespace Scriptlet

namespace Counting

open Eval State

/-! ## The programs -/

/-- `xs[i]`. -/
def item : Expr := .index (.name "xs") (.name "i")

/-- `i < len(xs)`. -/
def condition : Expr := .binary .less (.name "i") (.call (.name "len") [.name "xs"])

/-- `i = i + 1`. -/
def update : Expr := .assign "i" (.binary .add (.name "i") (.literal (.number (.ofNat 1))))

/-- `for (let i = 0; i < len(xs); i = i + 1) { body }`. -/
def counting (body : Block) : Statement :=
  .forLoop (some (.declare false "i" (.literal (.number (.ofNat 0))))) (some condition)
    (some update) body

def program (body : Block) : Block :=
  [.declare false "out" (.array []), counting body, .expression (.name "out")]

/-- `out = push(out, xs[i]);`. -/
def collecting : Block :=
  [.expression (.assign "out" (.call (.name "push") [.name "out", item]))]

/-- `if (i == key) { return xs[i]; }`. -/
def searching (key : Expr) : Block :=
  [.ifElse (.binary .equal (.name "i") key) [.returning (some item)] .absent]

/-! ## What the names mean -/

/-- The global scope of `s` has the array, which is not too long to be counted, and the two builtin
functions that the programs use; and the constants of `s` are bound, so that names which are not
are free to be declared. -/
structure Ready (s : State) (xs : List Value) : Prop where
  size : xs.length < 2 ^ 53
  bound : s.ConstantsBound
  outer : s.parent? globalId = some none
  array : (s.ownSlot? globalId "xs").map Slot.value = some (.array xs)
  len : (s.ownSlot? globalId "len").map Slot.value = some (.builtin .len)
  push : (s.ownSlot? globalId "push").map Slot.value = some (.builtin .push)

/-- In the scope `b`, `i` is `j`, `out` is an array, and all other names are global ones of `s`. -/
def Names (s : State) (j : Nat) (out : List Value) (b : ScopeId) (u : State) : Prop :=
  ∀ x, u.slot? b x =
    if x = "i" then some ⟨.count j, false⟩
    else if x = "out" then some ⟨.array out, false⟩ else s.ownSlot? globalId x

/-- The expression has the number `k` wherever the name `k` means what it means in `s`. -/
def Means (s : State) (key : Expr) (k : Binary64) : Prop :=
  ∀ (n : Nat) (b : ScopeId) (u : State), u.slot? b "k" = s.ownSlot? globalId "k" →
    expr (n + 1) b key u = .ok (.number k) u

variable {n j : Nat} {s t u : State} {id b : ScopeId} {xs out : List Value} {key : Expr}
  {k : Binary64}

namespace Names

theorem enter (h : Names s j out b u) (hb : b < u.scopes.size) :
    Names s j out u.scopes.size (u.addScope (.child b)) := by
  intro x
  rw [slot?_enter hb, h]

theorem global (h : Names s j out b u) {x : String} (hi : x ≠ "i") (hout : x ≠ "out") :
    u.slot? b x = s.ownSlot? globalId x := by
  rw [h, if_neg hi, if_neg hout]

theorem expr_counter (h : Names s j out b u) :
    expr (n + 1) b (.name "i") u = .ok (.count j) u :=
  expr_name (by rw [h]; rfl)

theorem expr_out (h : Names s j out b u) :
    expr (n + 1) b (.name "out") u = .ok (.array out) u :=
  expr_name (by rw [h]; rfl)

theorem expr_test (h : Names s j out b u) (hkey : Means s key k) :
    expr (n + 2) b (.binary .equal (.name "i") key) u =
      .ok (.boolean ((Binary64.ofNat j).equals k)) u :=
  expr_binary h.expr_counter (hkey n b u (h.global (by decide) (by decide))) rfl

variable (hs : Ready s xs)

include hs

theorem expr_array (h : Names s j out b u) :
    expr (n + 1) b (.name "xs") u = .ok (.array xs) u :=
  expr_name (by rw [h.global (by decide) (by decide), hs.array])

theorem expr_item (h : Names s j out b u) (hj : j < xs.length) :
    expr (n + 2) b item u = .ok xs[j] u := by
  refine expr_index (h.expr_array hs) h.expr_counter ?_
  rw [Value.index_count rfl hs.size, List.getElem?_eq_getElem hj]
  rfl

theorem expr_condition (h : Names s j out b u) (hj : j ≤ xs.length) :
    expr (n + 4) b condition u = .ok (.boolean (decide (j < xs.length))) u := by
  have hsize := hs.size
  have hlen : expr (n + 2) b (.name "len") u = .ok (.builtin .len) u :=
    expr_name (by rw [h.global (by decide) (by decide), hs.len])
  have hcall : expr (n + 3) b (.call (.name "len") [.name "xs"]) u = .ok (.count xs.length) u :=
    expr_call_builtin hlen (exprs_singleton (h.expr_array hs)) rfl
  have hless : (Binary64.ofNat j).less (.ofNat xs.length) = decide (j < xs.length) :=
    Binary64.less_ofNat (by omega) (by omega)
  refine expr_binary h.expr_counter hcall ?_
  show Except.ok (Value.boolean ((Binary64.ofNat j).less (.ofNat xs.length))) = _
  rw [hless]

theorem expr_condition_true (h : Names s j out b u) (hj : j < xs.length) :
    expr (n + 4) b condition u = .ok (.boolean true) u := by
  rw [h.expr_condition hs (Nat.le_of_lt hj), decide_eq_true hj]

/-- The array that `push(out, xs[i])` makes. -/
theorem expr_push (h : Names s j out b u) (hj : j < xs.length) :
    expr (n + 5) b (.call (.name "push") [.name "out", item]) u =
      .ok (.array (out ++ [xs[j]])) u := by
  have hpush : expr (n + 4) b (.name "push") u = .ok (.builtin .push) u :=
    expr_name (by rw [h.global (by decide) (by decide), hs.push])
  exact expr_call_builtin hpush (exprs_pair h.expr_out (h.expr_item hs hj)) rfl

end Names

/-! ## Rounds -/

/-- Before round `j` the scope of the loop has the counter alone, the global scope has `out` besides
what it had in `s`, and no line was printed. -/
structure Round (s : State) (id : ScopeId) (j : Nat) (out : List Value) (t : State) : Prop where
  inside : globalId < id
  outer : t.parent? globalId = some none
  inner : t.parent? id = some (some globalId)
  counter : ∀ x, t.ownSlot? id x = if x = "i" then some ⟨.count j, false⟩ else none
  global : ∀ x, t.ownSlot? globalId x =
    if x = "out" then some ⟨.array out, false⟩ else s.ownSlot? globalId x
  output : t.output = s.output

namespace Round

theorem names (h : Round s id j out t) : Names s j out id t := by
  intro x
  by_cases hx : x = "i"
  · rw [if_pos hx]
    exact slot?_of_own (by rw [h.counter, if_pos hx])
  · rw [if_neg hx, slot?_of_parent h.inner h.inside (by rw [h.counter, if_neg hx]),
      slot?_of_root h.outer, h.global]

theorem lt_size (h : Round s id j out t) : id < t.scopes.size := lt_size_of_parent? h.inner

/-- The scope of a body leaves the others as they are. -/
theorem enter (h : Round s id j out t) (parent : ScopeId) :
    Round s id j out (t.addScope (.child parent)) where
  inside := h.inside
  outer := by
    rw [parent?_addScope, if_neg (Nat.ne_of_lt (Nat.lt_trans h.inside h.lt_size)), h.outer]
  inner := by rw [parent?_addScope, if_neg (Nat.ne_of_lt h.lt_size), h.inner]
  counter x := by rw [ownSlot?_child, h.counter]
  global x := by rw [ownSlot?_child, h.global]
  output := h.output

theorem setOut (h : Round s id j out t) (out' : List Value) :
    Round s id j out' (t.write globalId "out" (.array out') false) where
  inside := h.inside
  outer := by rw [(sameTree_write t _ _ _ _).2, h.outer]
  inner := by rw [(sameTree_write t _ _ _ _).2, h.inner]
  counter x := by
    have hne : id ≠ globalId := Nat.ne_of_gt h.inside
    rw [ownSlot?_write, if_neg fun hx => hne hx.1, h.counter]
  global x := by
    have hlt : globalId < t.scopes.size := Nat.lt_trans h.inside h.lt_size
    rw [ownSlot?_write_of_free (ownSlot?_eq_some_iff.mp (h.global "out")).2, h.global]
    by_cases hx : x = "out" <;> simp [hx, hlt]
  output := h.output

theorem setCounter (h : Round s id j out t) (k : Nat) :
    Round s id k out (t.write id "i" (.count k) false) where
  inside := h.inside
  outer := by rw [(sameTree_write t _ _ _ _).2, h.outer]
  inner := by rw [(sameTree_write t _ _ _ _).2, h.inner]
  counter x := by
    rw [ownSlot?_write_of_free (ownSlot?_eq_some_iff.mp (h.counter "i")).2, h.counter]
    by_cases hx : x = "i" <;> simp [hx, h.lt_size]
  global x := by
    have hne : globalId ≠ id := Nat.ne_of_lt h.inside
    rw [ownSlot?_write, if_neg fun hx => hne hx.1, h.global]
  output := h.output

theorem expr_update (h : Round s id j out t) (hj : j < 2 ^ 53) :
    expr (n + 3) id update t = .ok (.count (j + 1)) (t.write id "i" (.count (j + 1)) false) := by
  have hown : t.ownSlot? id "i" = some ⟨.count j, false⟩ := h.counter "i"
  have hadd : (Binary64.ofNat j).add (.ofNat 1) = .ofNat (j + 1) := Binary64.add_ofNat (by omega)
  refine expr_assign (expr_binary h.names.expr_counter rfl ?_) (owner?_of_own hown) hown
  show Except.ok (Value.number ((Binary64.ofNat j).add (.ofNat 1))) = _
  rw [hadd]
  rfl

variable {body : Block} {last v : Value} {out' : List Value}

/-- **A round whose body ends normally leads to the next one.** -/
theorem next (hs : Ready s xs) (h : Round s id j out t) (hj : j < xs.length)
    (hbody : block (n + 4) id body t = .ok (.normal v) u) (hu : Round s id j out' u) :
    ∃ r, Round s id (j + 1) out' r ∧
      loop (n + 5) id (some condition) (some update) body last t =
        loop (n + 4) id (some condition) (some update) body v r := by
  have hupdate := hu.expr_update (n := n + 1) (Nat.lt_trans hj hs.size)
  exact ⟨_, hu.setCounter (j + 1), loop_round (h.names.expr_condition_true hs hj) hbody hupdate⟩

/-- A round whose body returns is the last one. -/
theorem returned (hs : Ready s xs) (h : Round s id j out t) (hj : j < xs.length)
    (hbody : block (n + 4) id body t = .ok (.returned v) u) :
    loop (n + 5) id (some condition) (some update) body last t = .ok (.returned v) u :=
  loop_returned (h.names.expr_condition_true hs hj) hbody

/-- Behind the last element the loop is done. -/
theorem done (hs : Ready s xs) (h : Round s id xs.length out t) :
    loop (n + 5) id (some condition) (some update) body last t = .ok (.normal last) t := by
  have hcondition := h.names.expr_condition (n := n) hs (Nat.le_refl _)
  rw [decide_eq_false (Nat.lt_irrefl _)] at hcondition
  exact loop_done hcondition

/-! ### Bodies -/

/-- One more element is collected. -/
theorem block_collecting (hs : Ready s xs) (h : Round s id j (xs.take j) t)
    (hj : j < xs.length) :
    ∃ v u, block (n + 9) id collecting t = .ok (.normal v) u ∧
      Round s id j (xs.take (j + 1)) u := by
  have hpush := (h.names.enter h.lt_size).expr_push (n := n) hs hj
  rw [List.take_append_getElem hj] at hpush
  -- `out` is found in the global scope, past the scopes of the body and of the loop
  have howner : (t.addScope (.child id)).owner? t.scopes.size "out" = some globalId := by
    rw [owner?_enter h.lt_size, owner?_of_parent h.inner h.inside (h.counter "out"),
      owner?_of_own (h.global "out")]
  have hassign := expr_assign hpush howner ((h.enter id).global "out")
  exact ⟨_, _, block_singleton (statement_expression hassign), (h.enter id).setOut _⟩

theorem block_searching_miss (h : Round s id j out t) (hkey : Means s key k)
    (hmiss : (Binary64.ofNat j).equals k = false) :
    ∃ v u, block (n + 9) id (searching key) t = .ok (.normal v) u ∧ Round s id j out u := by
  have htest := (h.names.enter h.lt_size).expr_test (n := n + 3) hkey
  rw [hmiss] at htest
  exact ⟨_, _, block_singleton (conditional_false htest), h.enter id⟩

theorem block_searching_hit (hs : Ready s xs) (h : Round s id j out t) (hj : j < xs.length)
    (hkey : Means s key k) (hhit : (Binary64.ofNat j).equals k = true) :
    ∃ u, block (n + 9) id (searching key) t = .ok (.returned xs[j]) u ∧ Round s id j out u := by
  have hnames := h.names.enter h.lt_size
  have htest := hnames.expr_test (n := n + 3) hkey
  rw [hhit] at htest
  have hitem := (hnames.enter (by simp [size_addScope])).expr_item (n := n) hs hj
  have hreturn := block_singleton (statement_returning hitem)
  have hif := (conditional_true htest .absent).trans hreturn
  exact ⟨_, block_singleton hif, (h.enter id).enter t.scopes.size⟩

end Round

/-! ## Runs -/

theorem loop_collecting (hs : Ready s xs) (h : Round s id 0 [] t) :
    ∃ v u, loop (xs.length + 10) id (some condition) (some update) collecting .null t =
      .ok (.normal v) u ∧ Round s id xs.length xs u := by
  have hround : ∀ n j last r, 9 ≤ n → j < xs.length → Round s id j (xs.take j) r →
      ∃ v u, Round s id (j + 1) (xs.take (j + 1)) u ∧
        loop (n + 1) id (some condition) (some update) collecting last r =
          loop n id (some condition) (some update) collecting v u := by
    intro n j last r hn hj hr
    obtain ⟨m, rfl⟩ := Nat.exists_eq_add_of_le' hn
    obtain ⟨v, u, hbody, hu⟩ := hr.block_collecting hs hj
    exact ⟨v, hr.next hs hj hbody hu⟩
  have hleast : 9 ≤ 10 := by decide
  obtain ⟨v, u, hu, hrun⟩ := loop_rounds hround (Nat.zero_le xs.length) hleast h .null
  rw [List.take_length] at hu
  rw [Nat.sub_zero, Nat.add_comm] at hrun
  exact ⟨v, u, hrun.trans (hu.done hs), hu⟩

theorem loop_searching (hs : Ready s xs) (hkey : Means s key k) (hk : k.toRat? = some (j : ℚ))
    (hj : j < xs.length) (h : Round s id 0 [] t) :
    ∃ u, loop (j + 10) id (some condition) (some update) (searching key) .null t =
      .ok (.returned xs[j]) u ∧ Round s id j [] u := by
  have hequals : ∀ m ≤ j, (Binary64.ofNat m).equals k = decide (m = j) := by
    intro m hm
    have hsize := hs.size
    exact Binary64.equals_of_toRat? hk (by omega)
  have hround : ∀ n m last r, 9 ≤ n → m < j → Round s id m [] r →
      ∃ v u, Round s id (m + 1) [] u ∧
        loop (n + 1) id (some condition) (some update) (searching key) last r =
          loop n id (some condition) (some update) (searching key) v u := by
    intro n m last r hn hm hr
    obtain ⟨n, rfl⟩ := Nat.exists_eq_add_of_le' hn
    have hmiss : (Binary64.ofNat m).equals k = false := by
      rw [hequals m (Nat.le_of_lt hm), decide_eq_false (Nat.ne_of_lt hm)]
    obtain ⟨v, u, hbody, hu⟩ := hr.block_searching_miss hkey hmiss
    exact ⟨v, hr.next hs (Nat.lt_trans hm hj) hbody hu⟩
  have hleast : 9 ≤ 10 := by decide
  obtain ⟨v, u, hu, hrun⟩ := loop_rounds hround (Nat.zero_le j) hleast h .null
  rw [Nat.sub_zero, Nat.add_comm] at hrun
  have hhit : (Binary64.ofNat j).equals k = true := by
    rw [hequals j (Nat.le_refl j), decide_eq_true rfl]
  obtain ⟨r, hbody, hr⟩ := hu.block_searching_hit hs hj hkey hhit
  exact ⟨r, hrun.trans (hu.returned hs hj hbody), hr⟩

/-- The state in which the first round begins. -/
def begun (s : State) : State :=
  ((s.write globalId "out" (.array []) false).addScope (.child globalId)).write s.scopes.size "i"
    (.count 0) false

/-- The scope that the loop gets has no names yet. -/
theorem ownSlot?_entered (s : State) (x : String) :
    ((s.write globalId "out" (.array []) false).addScope (.child globalId)).ownSlot?
      s.scopes.size x = none := by
  rw [ownSlot?_child, ownSlot?_eq_none (by rw [size_write])]

theorem round_begun (hs : Ready s xs) (hfree : s.ownSlot? globalId "out" = none) :
    Round s s.scopes.size 0 [] (begun s) where
  inside := lt_size_of_parent? hs.outer
  outer := by
    have hne : globalId ≠ (s.write globalId "out" (.array []) false).scopes.size := by
      rw [size_write]
      exact Nat.ne_of_lt (lt_size_of_parent? hs.outer)
    rw [begun, (sameTree_write _ _ _ _ _).2, parent?_addScope, if_neg hne,
      (sameTree_write _ _ _ _ _).2, hs.outer]
  inner := by
    rw [begun, (sameTree_write _ _ _ _ _).2, parent?_addScope, size_write, if_pos rfl]
    rfl
  counter x := by
    have hcounter := (hs.bound.write.child globalId).isConstant_eq_false (ownSlot?_entered s "i")
    rw [begun, ownSlot?_write_of_free hcounter, ownSlot?_entered, size_addScope, size_write]
    by_cases hx : x = "i" <;> simp [hx]
  global x := by
    have hlt := lt_size_of_parent? hs.outer
    have hne := Nat.ne_of_lt hlt
    rw [begun, ownSlot?_write, if_neg fun hx => hne hx.1, ownSlot?_child,
      ownSlot?_write_of_free (hs.bound.isConstant_eq_false hfree)]
    by_cases hx : x = "out" <;> simp [hx, hlt]
  output := rfl

theorem statements_program {body : Block} (hfree : s.ownSlot? globalId "out" = none) (n : Nat) :
    statements (n + 5) globalId .null (program body) s =
      match loop (n + 2) s.scopes.size (some condition) (some update) body .null (begun s) with
      | .ok (.returned v) t => .ok (.returned v) t
      | .ok (.normal v) t => statements (n + 3) globalId v [.expression (.name "out")] t
      | .error h t => .error h t := by
  have hout : statement (n + 4) globalId (.declare false "out" (.array [])) s =
      .ok (.normal .null) (s.write globalId "out" (.array []) false) :=
    statement_declare rfl hfree
  have hstart : statement (n + 2) s.scopes.size
      (.declare false "i" (.literal (.number (.ofNat 0))))
      ((s.write globalId "out" (.array []) false).addScope (.child globalId)) =
      .ok (.normal .null) (begun s) :=
    statement_declare rfl (ownSlot?_entered s "i")
  have hcounting : statement (n + 3) globalId (counting body)
      (s.write globalId "out" (.array []) false) =
      loop (n + 2) s.scopes.size (some condition) (some update) body .null (begun s) := by
    rw [counting, statement_forLoop (by rw [size_write]; exact hstart), size_write]
  have hrest := statements_cons (n + 3) globalId .null (counting body) [.expression (.name "out")]
    (s.write globalId "out" (.array []) false)
  rw [hcounting] at hrest
  rw [program, statements_cons, hout]
  exact hrest

/-- **The loop collects all elements.** -/
theorem collecting_ends (hs : Ready s xs) (hfree : s.ownSlot? globalId "out" = none) :
    ∃ t, Round s s.scopes.size xs.length xs t ∧ ∀ fuel, xs.length + 13 ≤ fuel →
      Eval.program fuel (program collecting) s = .ok (.array xs) t := by
  obtain ⟨v, t, hloop, ht⟩ := loop_collecting hs (round_begun hs hfree)
  have hname : expr (xs.length + 9) globalId (.name "out") t = .ok (.array xs) t :=
    expr_name (by rw [slot?_of_root ht.outer, ht.global]; rfl)
  have hrun : statements (xs.length + 13) globalId .null (program collecting) s =
      .ok (.normal (.array xs)) t := by
    rw [statements_program hfree (xs.length + 8), hloop]
    exact statements_singleton (statement_expression hname) v
  have hprogram : Eval.program (xs.length + 13) (program collecting) s = .ok (.array xs) t :=
    bind_ok hrun
  refine ⟨t, ht, fun fuel hfuel => ?_⟩
  rw [program_of_le hfuel _ s (hprogram ▸ trivial), hprogram]

/-- **The search ends in the round in which the counter is equal to the key.** -/
theorem searching_ends {key : Expr} {k : Binary64} (hs : Ready s xs)
    (hfree : s.ownSlot? globalId "out" = none) (hkey : Means s key k)
    (hk : k.toRat? = some (j : ℚ)) (hj : j < xs.length) :
    ∃ t, Round s s.scopes.size j [] t ∧ ∀ fuel, j + 13 ≤ fuel →
      Eval.program fuel (program (searching key)) s = .ok xs[j] t := by
  obtain ⟨t, hloop, ht⟩ := loop_searching hs hkey hk hj (round_begun hs hfree)
  have hrun : statements (j + 13) globalId .null (program (searching key)) s =
      .ok (.returned xs[j]) t := by
    rw [statements_program hfree (j + 8), hloop]
  have hprogram : Eval.program (j + 13) (program (searching key)) s = .ok xs[j] t := bind_ok hrun
  refine ⟨t, ht, fun fuel hfuel => ?_⟩
  rw [program_of_le hfuel _ s (hprogram ▸ trivial), hprogram]

end Counting

end Scriptlet
