import Scriptlet.Proofs.Eval.Steps
import Scriptlet.Proofs.Scopes.History
import Scriptlet.Proofs.Value.Coherence
import Scriptlet.Proofs.Value.Reread

/-!
# Object literals

The values of an object literal are evaluated one after the other, each in the state that the one
before it left (`Eval.ValuesInTurn`), up to the first fault.  If all of them have a value, then the
object has each key once, where it was written first, with the value that was written last
(`Fields.Composed`).  Both say exactly how an object literal ends (`Eval.ends_object_iff`,
`Eval.ends_object_fault_iff`); fuel is left out of the account (`Eval.Ends`).
-/

namespace Scriptlet

/-! ## Fields in order of first appearance -/

namespace Fields

variable {α : Type}

/-- Each key of `pairs` once, where it appears first, with the item that it has last. -/
structure Composed (pairs fs : List (String × α)) : Prop where
  keys : fs.map Prod.fst = (pairs.map Prod.fst).eraseDups
  items : ∀ {earlier key item later}, pairs = earlier ++ (key, item) :: later →
    key ∉ later.map Prod.fst → get? key fs = some item

theorem keys_insert (key : String) (item : α) (fs : Fields α) :
    (fs.insert key item).map Prod.fst =
      if key ∈ fs.map Prod.fst then fs.map Prod.fst else fs.map Prod.fst ++ [key] := by
  induction fs with
  | nil => simp [insert]
  | cons f fs ih =>
    obtain ⟨k, old⟩ := f
    rw [insert]
    by_cases hk : k = key
    · simp [hk]
    · have hk' : key ≠ k := fun h => hk h.symm
      rw [if_neg hk, List.map_cons, ih, List.map_cons]
      by_cases hmem : key ∈ fs.map Prod.fst
      · rw [if_pos hmem, if_pos (List.mem_cons_of_mem _ hmem)]
      · rw [if_neg hmem, if_neg (by simp [hk', hmem]), List.cons_append]

theorem keys_ofList (pairs : List (String × α)) :
    (ofList pairs).map Prod.fst = (pairs.map Prod.fst).eraseDups := by
  induction pairs using List.reverseRecOn with
  | nil => rfl
  | append_singleton pairs p ih =>
    rw [ofList_concat, keys_insert, ih, List.map_append, List.map_singleton, List.eraseDups_append]
    by_cases hmem : p.1 ∈ pairs.map Prod.fst
    · simp [hmem, List.removeAll]
    · simp [hmem, List.removeAll, List.eraseDups_cons]

theorem nodup_keys_ofList (pairs : List (String × α)) : ((ofList pairs).map Prod.fst).Nodup := by
  induction pairs using List.reverseRecOn with
  | nil => exact List.nodup_nil
  | append_singleton pairs p ih =>
    rw [ofList_concat, keys_insert]
    split
    · exact ih
    · next hmem =>
      refine List.nodup_append.mpr ⟨ih, List.nodup_singleton _, fun key hkey last hlast => ?_⟩
      rintro rfl
      rw [List.mem_singleton.mp hlast] at hkey
      exact hmem hkey

theorem composed_ofList (pairs : List (String × α)) : Composed pairs (ofList pairs) where
  keys := keys_ofList pairs
  items := by
    intro earlier key item later hpairs hlater
    refine get?_ofList_eq_some_iff.mpr ⟨earlier, later, hpairs, fun p hp hkey => ?_⟩
    exact hlater (hkey ▸ List.mem_map_of_mem hp)

/-- Fields are told by their keys in order and by what is found under each. -/
theorem map_keys {fs : Fields α} (h : (fs.map Prod.fst).Nodup) (d : α) :
    (fs.map Prod.fst).map (fun key => (key, (fs.get? key).getD d)) = fs := by
  rw [List.map_map]
  refine (List.map_congr_left fun f hf => ?_).trans (List.map_id fs)
  rw [Function.comp_apply, get?_of_mem h hf]
  rfl

/-- No other fields are composed in the same way. -/
theorem Composed.eq_ofList {pairs fs : List (String × Value)} (h : Composed pairs fs) :
    fs = ofList pairs := by
  have hnodup := nodup_keys_ofList pairs
  have hkeys : fs.map Prod.fst = (ofList pairs).map Prod.fst :=
    h.keys.trans (keys_ofList pairs).symm
  have hget : ∀ key ∈ (ofList pairs).map Prod.fst, get? key fs = get? key (ofList pairs) := by
    intro key hkey
    obtain ⟨item, hitem⟩ := Option.isSome_iff_exists.mp (mem_keys_iff.mp hkey)
    obtain ⟨earlier, later, hpairs, hlater⟩ := get?_ofList_eq_some_iff.mp hitem
    rw [hitem]
    refine h.items hpairs fun hmem => ?_
    obtain ⟨p, hp, hp'⟩ := List.mem_map.mp hmem
    exact hlater p hp hp'
  calc fs = (fs.map Prod.fst).map (fun key => (key, (get? key fs).getD .null)) :=
        (map_keys (hkeys ▸ hnodup) .null).symm
    _ = ((ofList pairs).map Prod.fst).map
          (fun key => (key, (get? key (ofList pairs)).getD .null)) := by
        rw [hkeys]
        exact List.map_congr_left fun key hkey => by rw [hget key hkey]
    _ = ofList pairs := map_keys hnodup .null

theorem Composed.get?_eq_none {pairs fs : List (String × α)} (h : Composed pairs fs) {key : String}
    (hkey : key ∉ pairs.map Prod.fst) : get? key fs = none := by
  rw [← Option.not_isSome_iff_eq_none, ← mem_keys_iff, h.keys, List.mem_eraseDups]
  exact hkey

end Fields

/-! ## Values in turn -/

namespace Eval

/-- With enough fuel the expression ends like `r`: in a value or a fault, and in this state. -/
def Ends (id : ScopeId) (e : Expr) (s : State) (r : EStateM.Result Halt State Value) : Prop :=
  Finished r ∧ ∃ n, expr n id e s = r

/-- The expressions have these values, each in the state that the one before it left; the last one
leaves `t`. -/
inductive ValuesInTurn (id : ScopeId) : List Expr → State → List Value → State → Prop
  | nil (s : State) : ValuesInTurn id [] s [] s
  | cons {e : Expr} {es : List Expr} {v : Value} {vs : List Value} {s t u : State}
      (head : Ends id e s (.ok v t)) (tail : ValuesInTurn id es t vs u) :
      ValuesInTurn id (e :: es) s (v :: vs) u

variable {n : Nat} {id : ScopeId} {e : Expr} {es : List Expr} {vs : List Value} {f : Fault}
  {s t u : State}

theorem exprs_cons (n : Nat) (id : ScopeId) (e : Expr) (es : List Expr) (s : State) :
    exprs (n + 1) id (e :: es) s =
      match expr n id e s with
      | .ok v t =>
        match exprs n id es t with
        | .ok vs u => .ok (v :: vs) u
        | .error h u => .error h u
      | .error h t => .error h t := by
  show EStateM.bind _ _ s = _
  rw [EStateM.bind]
  cases expr n id e s with
  | ok v t =>
    show EStateM.bind _ _ t = _
    rw [EStateM.bind]
    dsimp only
    cases exprs n id es t <;> rfl
  | error h t => rfl

theorem valuesInTurn_of_exprs (h : exprs n id es s = .ok vs t) : ValuesInTurn id es s vs t := by
  induction es generalizing n s vs with
  | nil =>
    cases n with
    | zero => cases h
    | succ n =>
      cases h
      exact .nil _
  | cons e es ih =>
    cases n with
    | zero => cases h
    | succ n =>
      rw [exprs_cons] at h
      split at h
      · next v u he =>
        split at h
        · next ws u' hes =>
          cases h
          exact .cons ⟨trivial, n, he⟩ (ih hes)
        · cases h
      · cases h

theorem ValuesInTurn.exists_exprs (h : ValuesInTurn id es s vs t) :
    ∃ n, exprs n id es s = .ok vs t := by
  induction h with
  | nil s => exact ⟨1, rfl⟩
  | @cons e es v vs s t u head _ ih =>
    obtain ⟨-, m, hm⟩ := head
    obtain ⟨n, hn⟩ := ih
    refine ⟨max m n + 1, ?_⟩
    have hexpr := expr_of_le (Nat.le_max_left m n) id e s (hm ▸ trivial)
    have hexprs := exprs_of_le (Nat.le_max_right m n) id es t (hn ▸ trivial)
    exact exprs_cons_ok (hexpr.trans hm) (hexprs.trans hn)

/-- A fault in a list of expressions is that of one of them; those before it had their values. -/
theorem exists_split_of_exprs (h : exprs n id es s = .error (.fault f) t) :
    ∃ before e after vs u, es = before ++ e :: after ∧ ValuesInTurn id before s vs u ∧
      Ends id e u (.error (.fault f) t) := by
  induction es generalizing n s with
  | nil => cases n <;> cases h
  | cons e es ih =>
    cases n with
    | zero => cases h
    | succ n =>
      rw [exprs_cons] at h
      split at h
      · next v u he =>
        split at h
        · cases h
        · next halt u' hes =>
          cases h
          obtain ⟨before, e', after, vs, w, rfl, hbefore, hfault⟩ := ih hes
          exact ⟨e :: before, e', after, v :: vs, w, rfl, .cons ⟨trivial, n, he⟩ hbefore, hfault⟩
      · next halt u he =>
        cases h
        exact ⟨[], e, es, [], s, rfl, .nil s, nofun, n, he⟩

theorem ValuesInTurn.exists_exprs_fault {before after : List Expr}
    (h : ValuesInTurn id before s vs u) (hfault : Ends id e u (.error (.fault f) t)) :
    ∃ n, exprs n id (before ++ e :: after) s = .error (.fault f) t := by
  induction h with
  | nil s =>
    obtain ⟨-, n, hn⟩ := hfault
    refine ⟨n + 1, ?_⟩
    rw [List.nil_append, exprs_cons, hn]
  | @cons e' es v vs s t' u head _ ih =>
    obtain ⟨-, m, hm⟩ := head
    obtain ⟨n, hn⟩ := ih hfault
    refine ⟨max m n + 1, ?_⟩
    have hexpr := expr_of_le (Nat.le_max_left m n) id e' s (hm ▸ trivial)
    have hexprs := exprs_of_le (Nat.le_max_right m n) id (es ++ e :: after) t' (hn ▸ nofun)
    rw [List.cons_append, exprs_cons, hexpr, hm]
    dsimp only
    rw [hexprs, hn]

/-! ## Object literals -/

theorem object_eq (n : Nat) (id : ScopeId) (properties : List (String × Expr)) (s : State) :
    expr (n + 1) id (.object properties) s =
      match exprs n id (properties.map Prod.snd) s with
      | .ok vs t => .ok (.object (Fields.ofList ((properties.map Prod.fst).zip vs))) t
      | .error h t => .error h t := by
  show EStateM.bind _ _ s = _
  rw [EStateM.bind]
  cases exprs n id (properties.map Prod.snd) s <;> rfl

variable {properties : List (String × Expr)} {v : Value}

/-- **An object literal has a value if all its values have one**, in turn, and then it is composed
of them. -/
theorem ends_object_iff : Ends id (.object properties) s (.ok v t) ↔
    ∃ vs fs, ValuesInTurn id (properties.map Prod.snd) s vs t ∧
      Fields.Composed ((properties.map Prod.fst).zip vs) fs ∧ v = .object fs := by
  constructor
  · rintro ⟨-, n, hn⟩
    cases n with
    | zero => cases hn
    | succ n =>
      rw [object_eq] at hn
      split at hn
      · next vs u hvs =>
        cases hn
        exact ⟨vs, _, valuesInTurn_of_exprs hvs, Fields.composed_ofList _, rfl⟩
      · cases hn
  · rintro ⟨vs, fs, hvs, hfs, rfl⟩
    obtain ⟨n, hn⟩ := hvs.exists_exprs
    refine ⟨trivial, n + 1, ?_⟩
    rw [object_eq, hn, hfs.eq_ofList]

/-- **An object literal ends in a fault if one of its values does** and those before it have a
value. -/
theorem ends_object_fault_iff : Ends id (.object properties) s (.error (.fault f) t) ↔
    ∃ before e after vs u, properties.map Prod.snd = before ++ e :: after ∧
      ValuesInTurn id before s vs u ∧ Ends id e u (.error (.fault f) t) := by
  constructor
  · rintro ⟨-, n, hn⟩
    cases n with
    | zero => cases hn
    | succ n =>
      rw [object_eq] at hn
      split at hn
      · cases hn
      · next h u hfault =>
        cases hn
        exact exists_split_of_exprs hfault
  · rintro ⟨before, e, after, vs, u, hsplit, hbefore, hfault⟩
    obtain ⟨n, hn⟩ := hbefore.exists_exprs_fault hfault
    refine ⟨nofun, n + 1, ?_⟩
    rw [object_eq, hsplit, hn]

theorem ValuesInTurn.length_eq (h : ValuesInTurn id es s vs t) : vs.length = es.length := by
  induction h with
  | nil => rfl
  | cons _ _ ih => rw [List.length_cons, List.length_cons, ih]

end Eval

/-! ## The object -/

namespace Value

theorem member_eq_index (fs : List (String × Value)) (key : String) :
    (object fs).member key = (object fs).index (.text key) := rfl

/-- **Object literals keep the first place and the last value of a key.**  The values are evaluated
in the order of the source, each once and in the state left by the one before it, and the first
fault ends the evaluation in the state that it left.  Otherwise the object has each key once, in
order of first appearance, with the value of its last appearance; member access and indexing find
this value under each of the keys and null under any other, and the text of the object lists the
keys in this order. -/
theorem object_literal_keeps_order (id : ScopeId) (properties : List (String × Expr)) (s : State) :
    (∀ v t, Eval.Ends id (.object properties) s (.ok v t) ↔
      ∃ vs fs, Eval.ValuesInTurn id (properties.map Prod.snd) s vs t ∧
        Fields.Composed ((properties.map Prod.fst).zip vs) fs ∧ v = .object fs) ∧
    (∀ f t, Eval.Ends id (.object properties) s (.error (.fault f) t) ↔
      ∃ before e after vs u, properties.map Prod.snd = before ++ e :: after ∧
        Eval.ValuesInTurn id before s vs u ∧ Eval.Ends id e u (.error (.fault f) t)) ∧
    ∀ vs t fs, Eval.ValuesInTurn id (properties.map Prod.snd) s vs t →
      Fields.Composed ((properties.map Prod.fst).zip vs) fs →
      fs.map Prod.fst = (properties.map Prod.fst).eraseDups ∧
      (∀ earlier key v later, (properties.map Prod.fst).zip vs = earlier ++ (key, v) :: later →
        key ∉ later.map Prod.fst →
        (object fs).member key = .ok v ∧ (object fs).index (.text key) = .ok v) ∧
      (∀ key, key ∉ properties.map Prod.fst →
        (object fs).member key = .ok .null ∧ (object fs).index (.text key) = .ok .null) ∧
      (object fs).render = bracedText ((properties.map Prod.fst).eraseDups.map fun key =>
        key ++ ": " ++ ((Fields.get? key fs).getD .null).render) := by
  refine ⟨fun v t => Eval.ends_object_iff, fun f t => Eval.ends_object_fault_iff,
    fun vs t fs hvs hfs => ?_⟩
  have hlength : (properties.map Prod.fst).length ≤ vs.length := by
    rw [hvs.length_eq, List.length_map, List.length_map]
  have hkeys : fs.map Prod.fst = (properties.map Prod.fst).eraseDups := by
    rw [hfs.keys, List.map_fst_zip hlength]
  refine ⟨hkeys, fun earlier key v later hpairs hlater => ?_, fun key hkey => ?_, ?_⟩
  · rw [member_eq_index, index, hfs.items hpairs hlater]
    exact ⟨rfl, rfl⟩
  · rw [← List.map_fst_zip hlength] at hkey
    rw [member_eq_index, index, hfs.get?_eq_none hkey]
    exact ⟨rfl, rfl⟩
  · have hnodup : (fs.map Prod.fst).Nodup := by
      rw [hfs.eq_ofList]
      exact Fields.nodup_keys_ofList _
    rw [render_object, ← hkeys, List.map_map]
    refine congrArg bracedText (List.map_congr_left fun f hf => ?_)
    rw [Function.comp_apply, Fields.get?_of_mem hnodup hf, Option.getD_some, renderField]

/-- A key that is written twice, and a fault after a value. -/
theorem object_literal_keeps_order_repeatedKey :
    let s := State.initial
    let id := State.globalId
    Eval.Ends id (.object [("a", .literal (.boolean true)), ("b", .literal .null),
      ("a", .literal (.boolean false))]) s
      (.ok (.object [("a", .boolean false), ("b", .null)]) s) ∧
    (object [("a", .boolean false), ("b", .null)]).member "a" = .ok (.boolean false) ∧
    (object [("a", .boolean false), ("b", .null)]).index (.text "c") = .ok .null ∧
    (object [("a", .boolean false), ("b", .null)]).render =
      bracedText [("a" ++ ": " ++ (boolean false).render), ("b" ++ ": " ++ null.render)] ∧
    Eval.Ends id (.object [("a", .literal (.boolean true)),
      ("b", .unary .negate (.literal .null))]) s (.error (.fault (.type (.negation .null))) s) := by
  intro s id
  have hliteral (l : Literal) : Eval.Ends id (.literal l) s (.ok (.ofLiteral l) s) :=
    ⟨trivial, 1, rfl⟩
  have hvalues : Eval.ValuesInTurn id
      [.literal (.boolean true), .literal .null, .literal (.boolean false)] s
      [.boolean true, .null, .boolean false] s :=
    .cons (hliteral _) (.cons (hliteral _) (.cons (hliteral _) (.nil s)))
  have hfields := Fields.composed_ofList
    [("a", Value.boolean true), ("b", .null), ("a", .boolean false)]
  obtain ⟨hends, -, hobject⟩ := object_literal_keeps_order id
    [("a", .literal (.boolean true)), ("b", .literal .null), ("a", .literal (.boolean false))] s
  obtain ⟨-, hfound, hmissing, htext⟩ := hobject _ s _ hvalues hfields
  refine ⟨(hends _ s).mpr ⟨_, _, hvalues, hfields, rfl⟩,
    (hfound [("a", .boolean true), ("b", .null)] "a" (.boolean false) [] rfl (by decide)).1,
    (hmissing "c" (by decide)).2, htext, ?_⟩
  refine ((object_literal_keeps_order id _ s).2.1 _ s).mpr
    ⟨[.literal (.boolean true)], _, [], [.boolean true], s, rfl, .cons (hliteral _) (.nil s),
      nofun, 2, rfl⟩

end Value

end Scriptlet
