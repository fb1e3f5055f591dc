import DocExamples.Proofs.Script.ItemPaths
import DocExamples.Proofs.Script.NestingLimit
import DocExamples.Proofs.Script.Scoping
import Mathlib.Data.List.Induction
/-!
Stores into the items of nested lists and dictionaries, as in `x[0]['a'][-1] = 5`. Afterwards the
place holds the value, other places hold what they held, and no other variable has changed.
-/
namespace DocExamples.Script

/-! ### Changes of one binding -/

namespace Frame

variable {α : Type} {name other : String} {f : Frame α} {g h : α → α} {v : α}

theorem get?_change_other (apart : other ≠ name) (f : Frame α) (g : α → α) :
    (f.change name g).get? other = f.get? other := by
  induction f with
  | nil => rfl
  | cons entry rest ih =>
    obtain ⟨n, w⟩ := entry
    have ih : List.lookup other (change name g rest) = List.lookup other rest := ih
    rw [change]
    by_cases same : n = name
    · subst same
      rw [if_pos rfl, get?, get?, List.lookup_cons, List.lookup_cons, beq_false_of_ne apart]
    · rw [if_neg same, get?, get?, List.lookup_cons, List.lookup_cons, ih]

theorem change_congr (found : f.get? name = some v) (same : g v = h v) :
    f.change name g = f.change name h := by
  induction f with
  | nil => rfl
  | cons entry rest ih =>
    obtain ⟨n, w⟩ := entry
    rw [get?, List.lookup_cons] at found
    rw [change, change]
    by_cases here : n = name
    · subst here
      simp only [beq_self_eq_true, Option.some.injEq] at found
      rw [if_pos rfl, if_pos rfl, found, same]
    · rw [beq_false_of_ne (Ne.symm here)] at found
      rw [if_neg here, if_neg here, ih found]

theorem change_id (name : String) (f : Frame α) : f.change name id = f := by
  induction f with
  | nil => rfl
  | cons entry rest ih => rw [change, id_eq, ih, ite_self]

end Frame

namespace Scopes

variable {α : Type} {name : String} {s : Scopes α} {g h : α → α} {v : α}

/-- Every scope gives the other names what it gave them before. -/
theorem others_change (s : Scopes α) (name : String) (g : α → α) :
    List.Forall₂ (fun f f' => ∀ other, other ≠ name → f'.get? other = f.get? other)
      (s.globals :: s.frames) ((s.change name g).globals :: (s.change name g).frames) := by
  have same (fs : List (Frame α)) :
      List.Forall₂ (fun f f' => ∀ other, other ≠ name → f'.get? other = f.get? other) fs fs :=
    List.forall₂_same.mpr fun _ _ _ _ => rfl
  have changed (f : Frame α) (other : String) (apart : other ≠ name) :
      (f.change name g).get? other = f.get? other := Frame.get?_change_other apart f g
  obtain ⟨globals, frames⟩ := s
  cases frames with
  | nil => exact .cons (changed globals) .nil
  | cons frame rest =>
    rw [change]
    split
    · exact .cons (fun _ _ => rfl) (.cons (changed frame) (same rest))
    · exact .cons (changed globals) (same _)

theorem change_congr (found : s.lookup name = some v) (same : g v = h v) :
    s.change name g = s.change name h := by
  obtain ⟨globals, frames⟩ := s
  cases frames with
  | nil => rw [change, change, Frame.change_congr found same]
  | cons frame rest =>
    rw [change, change]
    cases here : frame.get? name with
    | none =>
      simp only [lookup, here] at found
      have absent : frame.has name = false := by rw [Frame.has, here]; rfl
      simp [absent, Frame.change_congr found same]
    | some w =>
      simp only [lookup, here] at found
      have present : frame.has name = true := by rw [Frame.has, here]; rfl
      have same : frame.change name g = frame.change name h :=
        Frame.change_congr (here.trans found) same
      simp [present, same]

theorem change_self (found : s.lookup name = some v) : s.change name (fun _ => v) = s := by
  have same : s.change name (fun _ => v) = s.change name id := change_congr found rfl
  rw [same]
  obtain ⟨globals, frames⟩ := s
  cases frames with
  | nil => rw [change, Frame.change_id]
  | cons frame rest => rw [change, Frame.change_id, Frame.change_id, ite_self]

end Scopes

/-! ### Running a store -/

variable {call : Caller} {x : String} {m m' : Machine} {v w : Value} {key : Key} {path : List Key}

theorem Expr.subscripted_concat (e : Expr) (path : List Key) (key : Key) :
    e.subscripted (path ++ [key]) = .index (e.subscripted path) key.expr :=
  List.foldl_concat _ _ _ _

theorem run_lookup (x : String) (m : Machine) :
    (Machine.lookup x).run m = (.ok (m.scopes.lookup x), m) := rfl

theorem run_lookupName (bound : m.scopes.lookup x = some v) :
    (lookupName x).run m = (.ok v, m) := by
  rw [lookupName, run_bind_of_ok (run_lookup x m), bound]
  rfl

theorem run_evalExpr_name (call : Caller) (bound : m.scopes.lookup x = some v) :
    (evalExpr call (.name x)).run m = (.ok v, m) := by
  rw [evalExpr]
  exact run_lookupName bound

theorem run_evalExpr_int (call : Caller) (i : Int64) (m : Machine) :
    (evalExpr call (.int i)).run m = (.ok (.int i), m) := by
  rw [evalExpr]
  rfl

/-- Reading a path changes nothing. -/
theorem run_subscripted (call : Caller) (bound : m.scopes.lookup x = some v) (path : List Key) :
    (evalExpr call ((Expr.name x).subscripted path)).run m =
      ((v.along path).mapError .fault, m) := by
  induction path using List.reverseRecOn with
  | nil =>
    rw [Expr.subscripted, List.foldl_nil, run_evalExpr_name call bound]
    rfl
  | append_singleton path key ih =>
    rw [Expr.subscripted_concat, evalExpr, Value.along_concat]
    cases there : v.along path with
    | error f =>
      rw [there] at ih
      exact run_bind_of_error ih
    | ok c =>
      rw [there] at ih
      rw [run_bind_of_ok ih, run_bind_of_ok (key.run_evalSubscript call m)]
      change (lift (getItem c (.item key.value))).run m =
        ((getItem c (.item key.value)).mapError .fault, m)
      cases getItem c (.item key.value) <;> rfl

theorem run_subscripted_eq_ok (bound : m.scopes.lookup x = some v) :
    (evalExpr call ((Expr.name x).subscripted path)).run m = (.ok w, m') ↔
      v.along path = .ok w ∧ m = m' := by
  rw [run_subscripted call bound, Prod.mk.injEq]
  cases v.along path <;> simp [Except.mapError]

/-- An edit that stores a value into anything but an array. -/
theorem stored_of_run_edit {c : Value} {e : Edit} (plain : ∀ t, c ≠ .tensor t)
    (made : ((ItemChange.set w).edit c (.item key.value)).run m = (.ok e, m')) :
    c.Stored key w (e.apply c) ∧ m = m' := by
  obtain ⟨_, m₁, passed, made⟩ := run_bind_eq_ok.mp made
  obtain ⟨stored, rfl⟩ := run_lift_eq_ok.mp made
  have same : m = m₁ := by
    rw [withinNesting, if_neg (Bool.not_eq_true _ ▸ within_of_run passed)] at passed
    exact congrArg Prod.snd passed
  exact ⟨Value.stored_of_storeEdit plain stored, same⟩

/-- A store at the end of a path changes the value of the variable and nothing else. -/
theorem run_storeItem (bound : m.scopes.lookup x = some v)
    (plain : ∀ t, v.along path ≠ .ok (.tensor t))
    (done : (storeItem call ((Expr.name x).subscripted path) (.item key.value) (.set w)).run m =
      (.ok (), m')) :
    ∃ v', Value.StoredAlong key w v path v' ∧
      m' = { m with scopes := m.scopes.change x fun _ => v' } := by
  induction path using List.reverseRecOn generalizing key w m' with
  | nil =>
    rw [Expr.subscripted, List.foldl_nil, storeItem, storeAt, run_bind_of_ok (run_lookup x m),
      bound] at done
    obtain ⟨e, m₁, made, edited⟩ := run_bind_eq_ok.mp done
    obtain ⟨stored, rfl⟩ := stored_of_run_edit (fun t same => plain t (congrArg _ same)) made
    have changed : m.scopes.change x e.apply = m.scopes.change x fun _ => e.apply v :=
      Scopes.change_congr bound rfl
    cases edited
    exact ⟨_, .last stored, congrArg (fun scopes => { m with scopes }) changed⟩
  | append_singleton path k ih =>
    rw [Expr.subscripted_concat, storeItem, run_bind_of_ok (k.run_evalSubscript call m)] at done
    obtain ⟨outer, m₁, evaluated, done⟩ := run_bind_eq_ok.mp done
    obtain ⟨along, rfl⟩ := (run_subscripted_eq_ok bound).mp evaluated
    obtain ⟨c, m₁, read, done⟩ := run_bind_eq_ok.mp done
    obtain ⟨item, rfl⟩ := run_lift_eq_ok.mp read
    have there : v.along (path ++ [k]) = .ok c := by
      rw [Value.along_concat, along]
      exact item
    obtain ⟨e, m₁, made, done⟩ := run_bind_eq_ok.mp done
    obtain ⟨stored, rfl⟩ := stored_of_run_edit (fun t same => plain t (same ▸ there)) made
    have outerPlain (t : Tensor) : v.along path ≠ .ok (.tensor t) := by
      intro same
      cases along.symm.trans same
      obtain ⟨t', rfl⟩ := Value.eq_toValue_of_getItem item
      exact Value.not_stored_toValue stored
    obtain ⟨v', storedAlong, changed⟩ := ih outerPlain done
    exact ⟨v', storedAlong.concat along item stored, changed⟩

theorem run_assign_subscripted (bound : m.scopes.lookup x = some v)
    (plain : ∀ t, v.along path ≠ .ok (.tensor t))
    (done : (assign call (.index ((Expr.name x).subscripted path) key.expr) w).run m =
      (.ok (), m')) :
    ∃ v', Value.StoredAlong key w v path v' ∧
      m' = { m with scopes := m.scopes.change x fun _ => v' } := by
  rw [assign, run_bind_of_ok (key.run_evalSubscript call m)] at done
  exact run_storeItem bound plain done

/-- When an assignment to an item of nested lists and dictionaries succeeds, the place holds the
value that was assigned. Paths that led to other items or entries give what they gave before.
Every container on the way keeps its length and its keys in their order, but for the entry that a
new key adds at its end. Only the variable that was assigned to has another value. -/
theorem nested_store (call : Caller) (rounds : Nat) (x : String) (path : List Key) (key : Key)
    (e : Expr) {m m₁ m' : Machine} {v before : Value} {flow : Flow}
    (value : (evalExpr call e).run m = (.ok v, m₁)) (bound : m₁.scopes.lookup x = some before)
    (plain : ∀ t, before.along path ≠ .ok (.tensor t))
    (stored : (execStmt call rounds
      (.assign [.index ((Expr.name x).subscripted path) key.expr] e)).run m = (.ok flow, m')) :
    let place (path : List Key) : Eval Value := evalExpr call ((Expr.name x).subscripted path)
    (place (path ++ [key])).run m' = (.ok v, m') ∧
    (∀ other, before.Diverges (path ++ [key]) other →
      ∃ result, (place other).run m₁ = (result, m₁) ∧ (place other).run m' = (result, m')) ∧
    (∀ front c, front <+: path → (place front).run m₁ = (.ok c, m₁) →
      ∃ c', (place front).run m' = (.ok c', m') ∧
        (c.SameOutline c' ∨ front = path ∧ c.slot? key = none ∧
          ∃ entries, c = .dict entries ∧ c' = .dict (entries ++ [(key.value, v)]))) ∧
    ∃ after, m' = { m₁ with scopes := m₁.scopes.change x fun _ => after } ∧
      List.Forall₂ (fun f f' => ∀ other, other ≠ x → f'.get? other = f.get? other)
        (m₁.scopes.globals :: m₁.scopes.frames) (m'.scopes.globals :: m'.scopes.frames) := by
  intro place
  rw [execStmt, run_bind_of_ok value] at stored
  obtain ⟨_, _, assigned, given⟩ := run_bind_eq_ok.mp stored
  cases given
  obtain ⟨_, _, assigned, given⟩ := run_bind_eq_ok.mp assigned
  cases given
  obtain ⟨after, storedAlong, changed⟩ := run_assign_subscripted bound plain assigned
  have bound' : m'.scopes.lookup x = some after := by
    rw [changed]
    exact Scopes.lookup_change _ bound
  refine ⟨(run_subscripted_eq_ok bound').mpr ⟨storedAlong.along_key, rfl⟩, ?_, ?_, after, changed,
    ?_⟩
  · intro other apart
    refine ⟨_, run_subscripted call bound other, ?_⟩
    rw [run_subscripted call bound' other, storedAlong.along_other apart]
  · intro front c onTheWay read
    obtain ⟨there, -⟩ := (run_subscripted_eq_ok bound).mp read
    obtain ⟨c', found, outline⟩ := storedAlong.outline onTheWay there
    exact ⟨c', (run_subscripted_eq_ok bound').mpr ⟨found, rfl⟩, outline⟩
  · rw [changed]
    exact Scopes.others_change _ _ _

example : parse "x[-2]['b'] = 7" =
    .ok [.assign [.index ((Expr.name "x").subscripted [.negated 2 (by decide)])
      (Key.text "b").expr] (.int 7)] := by cbv

/-- `x[-2]['b'] = 7` where `x` is `[{'a': 1}, [2, 3]]`, of which `y` is a copy. -/
theorem nested_store_new_entry :
    let call := Limits.defaults.caller
    let pair : Value := .list #[.int 2, .int 3]
    let grid : Value := .list #[.dict [(.str "a", .int 1)], pair]
    let filled : Value := .list #[.dict [(.str "a", .int 1), (.str "b", .int 7)], pair]
    let m : Machine := { Machine.start .empty with scopes := ⟨[("x", grid), ("y", grid)], []⟩ }
    let m' : Machine := { m with scopes := ⟨[("x", filled), ("y", grid)], []⟩ }
    let row : List Key := [.negated 2 (by decide)]
    let place (path : List Key) : Eval Value := evalExpr call ((Expr.name "x").subscripted path)
    (execStmt call 0 (.assign [.index ((Expr.name "x").subscripted row) (.str "b")] (.int 7))).run m =
      (.ok .next, m') ∧
    (place (row ++ [.text "b"])).run m' = (.ok (.int 7), m') ∧
    (∃ result, (place [.int 1, .int 0]).run m = (result, m) ∧
      (place [.int 1, .int 0]).run m' = (result, m')) ∧
    m'.scopes.globals.get? "y" = m.scopes.globals.get? "y" := by
  intro call pair grid filled m m' row place
  have put : putEntry (.str "b") (.int 7) [(.str "a", .int 1)] =
      [(.str "a", .int 1), (.str "b", .int 7)] := by
    simp [putEntry, Value.equals, Value.equalScalars]
  have value : (evalExpr call (.int 7)).run m = (.ok (.int 7), m) := by
    rw [evalExpr]
    rfl
  have storing : (storeItem call ((Expr.name "x").subscripted row) (.item (.str "b"))
      (.set (.int 7))).run m = (.ok (), m') := by
    have outer : (evalExpr call (.name "x")).run m = (.ok grid, m) := by
      rw [evalExpr]
      rfl
    simp only [Expr.subscripted, row, List.foldl_cons, List.foldl_nil, storeItem]
    rw [run_bind_of_ok (Key.run_evalSubscript call _ m), run_bind_of_ok outer]
    change (storeAt "x" (.item (.int (-2)))
      (.set (.dict (putEntry (.str "b") (.int 7) [(.str "a", .int 1)])))).run m = _
    rw [put]
    rfl
  have stored : (execStmt call 0 (.assign
      [.index ((Expr.name "x").subscripted row) (Key.text "b").expr] (.int 7))).run m =
        (.ok .next, m') := by
    rw [execStmt, run_bind_of_ok value, assignEach, assignEach, assign]
    have assigned : (do
        let s ← evalSubscript call (Key.text "b").expr
        storeItem call ((Expr.name "x").subscripted row) s (.set (.int 7))).run m = (.ok (), m') :=
      (run_bind_of_ok (Key.run_evalSubscript call _ m)).trans storing
    exact run_bind_of_ok ((run_bind_of_ok assigned).trans rfl)
  have plain (t : Tensor) : grid.along row ≠ .ok (.tensor t) := fun given => by cases given
  have apart : grid.Diverges (row ++ [.text "b"]) [.int 1, .int 0] :=
    .here (i := 1) rfl (by decide)
  obtain ⟨given, others, -, after, -, unchanged⟩ :=
    nested_store call 0 "x" row (.text "b") (.int 7) value rfl plain stored
  refine ⟨stored, given, others _ apart, ?_⟩
  cases unchanged with
  | cons module _ => exact module "y" (by decide)

end DocExamples.Script
