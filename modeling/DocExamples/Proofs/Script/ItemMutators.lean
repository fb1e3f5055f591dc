import DocExamples.Proofs.Script.ItemStores
/-!
Mutating methods of lists. Called on a name, `append` and its like change the list that the name is
bound to. Called on an item, as in `x[0].append(1)`, they work on a copy of it: they give their
result, or refuse, and the list stays as it was.
-/
namespace DocExamples.Script

variable {x method : String} {m m₁ m₂ m₃ : Machine} {before c v w : Value} {items : Array Value}
  {path : List Key} {key : Key} {mutator : Mutator} {args : List Expr}
  {kwargs : List (String × Expr)} {vs : List Value} {ks : Keywords}

namespace Value

/-- Storing what is at the end of a path changes nothing. -/
theorem StoredAlong.eq_of_along (stored : StoredAlong key w v path c)
    (there : v.along (path ++ [key]) = .ok w) : c = v := by
  induction stored with
  | last stored =>
    rw [List.nil_append, along_cons] at there
    obtain ⟨u, item, given⟩ := bind_eq_ok.mp there
    cases given
    exact stored.eq_of_getItem item
  | inner item below stored ih =>
    rw [List.cons_append, along_cons, item] at there
    obtain rfl := ih there
    exact stored.eq_of_getItem item

end Value

/-! ### Calls of mutating methods -/

theorem run_checkAll {limit : Nat} (within : ∀ v ∈ vs, v.Within limit) (m : Machine) :
    (vs.forM (withinNesting limit)).run m = (.ok (), m) := by
  induction vs with
  | nil => rfl
  | cons v rest ih =>
    obtain ⟨first, others⟩ := List.forall_mem_cons.mp within
    have passes : (withinNesting limit v).run m = (.ok (), m) := by
      rw [withinNesting, show v.nestsDeeperThan limit = false from first]
      rfl
    exact (run_bind_of_ok passes).trans (ih others)

/-- A mutating method on a name changes the list in its place, where the arguments fit in it. -/
theorem run_mutate_name {call : Caller} (known : Mutator.ofName? method = some mutator)
    (evaluated : (evalAll call args).run m = (.ok vs, m₁))
    (keywords : (evalKeywords call kwargs).run m₁ = (.ok ks, m₂))
    (bound : m₂.scopes.lookup x = some (.list items))
    (within : ∀ v ∈ vs, v.Within (maxValueNesting - 1)) {edit : ListEdit} {result : Value}
    (mutates : mutator.edit items vs = .ok (edit, result)) :
    (evalExpr call (.call (.attr (.name x) method) args kwargs)).run m =
      (.ok result, { m₂ with scopes := m₂.scopes.change x fun _ => .list (edit.apply items) }) := by
  have isList : (boundList? x).run m₂ = (.ok (some items), m₂) := by
    rw [boundList?, run_bind_of_ok (run_lookup x m₂), bound]
    rfl
  have changed : m₂.scopes.change x (Edit.list edit).apply =
      m₂.scopes.change x fun _ => .list (edit.apply items) := Scopes.change_congr bound rfl
  have mutated : (mutateBound? (.attr (.name x) method) vs).run m₂ =
      (.ok (some result),
        { m₂ with scopes := m₂.scopes.change x fun _ => .list (edit.apply items) }) := by
    rw [mutateBound?, run_bind_of_ok isList, known]
    refine (run_bind_of_ok (run_checkAll within m₂)).trans ?_
    rw [mutates, ← changed]
    rfl
  rw [evalExpr, run_bind_of_ok evaluated, run_bind_of_ok keywords, run_bind_of_ok mutated]
  rfl

theorem pop_push (items : Array Value) (v : Value) :
    Mutator.pop.edit (items.push v) [] = .ok (.remove items.size, v) := by
  have last : Mutator.fromStart? (-1) (items.push v).size = some items.size := by
    have negative : (-1 : Int64).toInt = -1 := rfl
    simp only [Mutator.fromStart?, negative, Array.size_push]
    rw [if_neg (by decide), if_pos (by omega)]
    congr 1
    omega
  have filled : (items.push v).isEmpty = false := by simp
  rw [Mutator.edit, Mutator.popEdit, filled, if_neg Bool.false_ne_true]
  have index : Mutator.popIndex [] = pure (-1) := rfl
  rw [index, pure_bind]
  dsimp only
  rw [last, Option.bind_some, Array.getElem?_push_size]
  rfl

theorem remove_push (items : Array Value) (v : Value) :
    (ListEdit.remove items.size).apply (items.push v) = items := by
  apply Array.toList_inj.mp
  simp [ListEdit.apply, List.eraseIdx_append_of_length_le]

/-- `x.pop()` takes the last item out of a list in a variable. -/
theorem run_pop_name (call : Caller) (items : Array Value)
    (bound : m.scopes.lookup x = some (.list (items.push v))) :
    (evalExpr call (.call (.attr (.name x) "pop") [] [])).run m =
      (.ok v, { m with scopes := m.scopes.change x fun _ => .list items }) := by
  have evaluated : (evalAll call []).run m = (.ok [], m) := by
    rw [evalAll]
    rfl
  have keywords : (evalKeywords call []).run m = (.ok [], m) := by
    rw [evalKeywords]
    rfl
  have fits : ∀ w ∈ ([] : List Value), w.Within (maxValueNesting - 1) :=
    fun _ member => absurd member List.not_mem_nil
  rw [run_mutate_name rfl evaluated keywords bound fits (pop_push items v), remove_push]

theorem attributeOf_list (known : Mutator.ofName? method = some mutator) :
    attributeOf (.list items) method = .ok (.method (.list items) method) := by
  unfold Mutator.ofName? at known
  split at known <;> first | rfl | cases known

theorem listMethod_mutator (known : Mutator.ofName? method = some mutator) :
    listMethod items method vs = (mutator.edit items vs).map (·.2) := by
  have called : listMethod items method vs = (mutator.edit items vs >>= fun r => pure r.2) := by
    unfold Mutator.ofName? at known
    split at known <;> cases known <;> rfl
  rw [called]
  cases mutator.edit items vs <;> rfl

/-- A mutating method on an item leaves the state as its arguments left it. -/
theorem run_mutate_item {rounds levels : Nat} (known : Mutator.ofName? method = some mutator)
    (evaluated : (evalAll (callWithin rounds levels) args).run m = (.ok vs, m₁))
    (keywords : (evalKeywords (callWithin rounds levels) kwargs).run m₁ = (.ok ks, m₂))
    (bound : m₂.scopes.lookup x = some before)
    (designates : before.along (path ++ [key]) = .ok (.list items)) :
    (evalExpr (callWithin rounds levels)
      (.call (.attr ((Expr.name x).subscripted (path ++ [key])) method) args kwargs)).run m =
        ((mutator.edit items vs).map (·.2) |>.mapError .fault, m₂) := by
  let call := callWithin rounds levels
  have unbound : (mutateBound?
      (.attr ((Expr.name x).subscripted (path ++ [key])) method) vs).run m₂ = (.ok none, m₂) := by
    rw [Expr.subscripted_concat]
    rfl
  have callee : (evalExpr call (.attr ((Expr.name x).subscripted (path ++ [key])) method)).run m₂ =
      (.ok (.method (.list items) method), m₂) := by
    rw [evalExpr, run_bind_of_ok ((run_subscripted_eq_ok bound).mpr ⟨designates, rfl⟩),
      attributeOf_list known]
    rfl
  rw [evalExpr, run_bind_of_ok evaluated, run_bind_of_ok keywords, run_bind_of_ok unbound]
  refine (run_bind_of_ok callee).trans ?_
  rw [callWithin]
  change (lift (listMethod items method vs)).run m₂ = _
  rw [listMethod_mutator known]
  cases (mutator.edit items vs).map (·.2) <;> rfl

/-- A mutating method that is called on a list in a variable, behind one subscript or more, gives
its result and leaves all bindings alone; so does one that refuses. Storing the mutated list there
leaves the same bindings if and only if the method would not change the list. -/
theorem item_mutators (rounds levels : Nat) (x method : String) (path : List Key) (key : Key)
    (args : List Expr) (kwargs : List (String × Expr))
    (known : Mutator.ofName? method = some mutator)
    (evaluated : (evalAll (callWithin rounds levels) args).run m = (.ok vs, m₁))
    (keywords : (evalKeywords (callWithin rounds levels) kwargs).run m₁ = (.ok ks, m₂))
    (bound : m₂.scopes.lookup x = some before)
    (designates : before.along (path ++ [key]) = .ok (.list items)) :
    let call := callWithin rounds levels
    (evalExpr call
      (.call (.attr ((Expr.name x).subscripted (path ++ [key])) method) args kwargs)).run m =
        ((mutator.edit items vs).map (·.2) |>.mapError .fault, m₂) ∧
    ∀ edit result m₃, mutator.edit items vs = .ok (edit, result) →
      (assign call (.index ((Expr.name x).subscripted path) key.expr)
        (.list (edit.apply items))).run m₂ = (.ok (), m₃) →
      (m₂.scopes = m₃.scopes ↔ edit.apply items = items) := by
  intro call
  refine ⟨run_mutate_item known evaluated keywords bound designates, ?_⟩
  intro edit result m₃ mutates assigned
  have plain (t : Tensor) : before.along path ≠ .ok (.tensor t) := by
    intro same
    rw [Value.along_concat, same] at designates
    obtain ⟨⟨data, shape, kind⟩, given⟩ := Value.eq_toValue_of_getItem designates
    cases shape <;> cases kind <;> cases given
  obtain ⟨after, stored, rfl⟩ := run_assign_subscripted bound plain assigned
  constructor
  · intro same
    have found : m₂.scopes.lookup x = some after := by
      rw [same]
      exact Scopes.lookup_change _ bound
    obtain rfl := Option.some.inj (bound.symm.trans found)
    exact Value.list.inj (Except.ok.inj (stored.along_key.symm.trans designates))
  · intro same
    rw [same] at stored
    obtain rfl := stored.eq_of_along designates
    exact (Scopes.change_self bound).symm

/-- `x[0].append(2)` where `x` is `[[1]]`. -/
theorem item_mutators_append :
    let call := Limits.defaults.caller
    let m : Machine :=
      { Machine.start .empty with scopes := ⟨[("x", .list #[.list #[.int 1]])], []⟩ }
    (evalExpr call (.call (.attr (.index (.name "x") (.int 0)) "append") [.int 2] [])).run m =
      (.ok .none, m) ∧
    ∀ m', (assign call (.index (.name "x") (.int 0)) (.list #[.int 1, .int 2])).run m =
      (.ok (), m') → m.scopes ≠ m'.scopes := by
  intro call m
  have evaluated : (evalAll call [.int 2]).run m = (.ok [.int 2], m) := by
    rw [evalAll, evalAll, evalExpr]
    rfl
  have keywords : (evalKeywords call []).run m = (.ok [], m) := by
    rw [evalKeywords]
    rfl
  obtain ⟨appended, stored⟩ := item_mutators Limits.defaults.rounds Limits.defaults.calls "x"
    "append" [] (.int 0) [.int 2] [] rfl evaluated keywords rfl rfl
  refine ⟨appended, fun m' assigned same => ?_⟩
  have equal := congrArg Array.size ((stored _ _ m' rfl assigned).mp same)
  cases equal

/-- `x[0].append(2)` leaves `[[1]]` in `x`, where `x[0] = [1, 2]` leaves `[[1, 2]]`. -/
theorem item_append_lost :
    let call := Limits.defaults.caller
    let m (x : Value) : Machine := { Machine.start .empty with scopes := ⟨[("x", x)], []⟩ }
    let before : Value := .list #[.list #[.int 1]]
    let after : Value := .list #[.list #[.int 1, .int 2]]
    (evalExpr call (.call (.attr (.index (.name "x") (.int 0)) "append") [.int 2] [])).run
      (m before) = (.ok .none, m before) ∧
    (assign call (.index (.name "x") (.int 0)) (.list #[.int 1, .int 2])).run (m before) =
      (.ok (), m after) ∧
    (m before).scopes ≠ (m after).scopes := by
  intro call m before after
  refine ⟨?_, ?_, ?_⟩
  · simp only [evalExpr, evalAll, evalKeywords, evalSubscript]
    rfl
  · simp only [assign, evalSubscript, evalExpr, storeItem]
    rfl
  · simp [m, before, after]

end DocExamples.Script
