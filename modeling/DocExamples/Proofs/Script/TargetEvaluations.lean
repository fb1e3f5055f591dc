import DocExamples.Proofs.Script.CallFree
import DocExamples.Proofs.Script.FailedStores
import DocExamples.Proofs.Script.ItemMutators
/-!
How often the subscripts of assignment targets are evaluated. An augmented assignment to an item
evaluates the subscript a second time to store the result. An assignment behind several subscripts
evaluates those of the containers again at every level on the way back to the variable.
-/
namespace DocExamples.Script

/-! ### Augmented assignment to an item -/

section Updates

variable {call : Caller} {x : String} {e r : Expr} {op : BinaryOp} {m : Machine}

/-- Combines an item with a value and stores the result under the subscript that was found first. -/
def updateOnce (call : Caller) (x : String) (e : Expr) (op : BinaryOp) (r : Expr) : Eval Flow := do
  let s ← evalSubscript call e
  let current ← getItem (← lookupName x) s
  let v ← evalExpr call r
  storeAt x s (.set (← binary op current v))
  return .next

/-- Combines an item with a value and stores the result under the subscript that is found then. -/
def updateAnew (call : Caller) (x : String) (e : Expr) (op : BinaryOp) (r : Expr) : Eval Flow := do
  let c ← lookupName x
  let s ← evalSubscript call e
  let current ← getItem c s
  let v ← evalExpr call r
  let result ← binary op current v
  let again ← evalSubscript call e
  storeAt x again (.set result)
  return .next

theorem execStmt_augAssign_item (rounds : Nat) :
    execStmt call rounds (.augAssign (.index (.name x) e) op r) = updateAnew call x e op r := by
  rw [execStmt, updateTarget, Target.toExpr?]
  simp only [evalExpr, assign, storeItem, bind_assoc]
  rfl

/-- The subscript of a variable's item, evaluated once more where the result is stored, gives what
it gave first and changes nothing then; at first it leaves the variable as it is. -/
def SubscriptRepeats (call : Caller) (x : String) (e : Expr) (op : BinaryOp) (r : Expr)
    (m : Machine) : Prop :=
  ∃ c, m.scopes.lookup x = some c ∧ ∀ s m₁, (evalSubscript call e).run m = (.ok s, m₁) →
    m₁.scopes.lookup x = some c ∧ ∀ current v m₂ result, getItem c s = .ok current →
      (evalExpr call r).run m₁ = (.ok v, m₂) → binary op current v = .ok result →
        (evalSubscript call e).run m₂ = (.ok s, m₂)

theorem run_updateAnew_of_repeats (repeats : SubscriptRepeats call x e op r m) :
    (updateAnew call x e op r).run m = (updateOnce call x e op r).run m := by
  obtain ⟨c, bound, repeats⟩ := repeats
  rw [updateAnew, updateOnce, run_bind_of_ok (run_lookupName bound)]
  rcases subscript : (evalSubscript call e).run m with ⟨stop | s, m₁⟩
  · rw [run_bind_of_error subscript, run_bind_of_error subscript]
  obtain ⟨still, repeats⟩ := repeats s m₁ subscript
  rw [run_bind_of_ok subscript, run_bind_of_ok subscript, run_bind_of_ok (run_lookupName still)]
  cases item : getItem c s with
  | error => rfl
  | ok current =>
    simp only [lift_ok, pure_bind]
    rcases value : (evalExpr call r).run m₁ with ⟨stop | v, m₂⟩
    · rw [run_bind_of_error value, run_bind_of_error value]
    rw [run_bind_of_ok value, run_bind_of_ok value]
    cases combined : binary op current v with
    | error => rfl
    | ok result =>
      simp only [lift_ok, pure_bind]
      rw [run_bind_of_ok (repeats current v m₂ result item value combined)]

theorem subscriptRepeats_of_callFree (subscript : e.CallFree) (value : r.CallFree) {c : Value}
    (bound : m.scopes.lookup x = some c) : SubscriptRepeats call x e op r m := by
  refine ⟨c, bound, fun s m₁ first => ?_⟩
  obtain rfl : m₁ = m := by rw [← (subscript.inert call).2 m, first]
  refine ⟨bound, fun _ v m₂ _ _ second _ => ?_⟩
  obtain rfl : m₂ = m₁ := by rw [← (value.inert call).1 m₁, second]
  exact first

end Updates

/-! ### Assignment behind several subscripts -/

/-- The subscripts at these positions are evaluated one after another, and each has a value. -/
inductive Evaluates (call : Caller) (es : List Expr) : List Nat → Machine → Machine → Prop where
  | nil {m : Machine} : Evaluates call es [] m m
  | cons {i : Nat} {rest : List Nat} {e : Expr} {s : Subscript} {m m₁ m' : Machine}
      (here : es[i]? = some e) (first : (evalSubscript call e).run m = (.ok s, m₁))
      (others : Evaluates call es rest m₁ m') : Evaluates call es (i :: rest) m m'

/-- How a run that goes through the subscripts at these positions ends. If it succeeds, all of them
were evaluated, and `last` tells what it changed after that. If it fails, it does so at a check
after some of them, with nothing else changed, or because one of them fails. -/
inductive GoesThrough (call : Caller) (es : List Expr) (order : List Nat)
    (last : Machine → Machine → Prop) {α : Type} : Machine → Except Stop α × Machine → Prop where
  | done {a : α} {m m₁ m' : Machine} (all : Evaluates call es order m m₁) (change : last m₁ m') :
      GoesThrough call es order last m (.ok a, m')
  | refused {front back : List Nat} {stop : Stop} {m m' : Machine} (parts : order = front ++ back)
      (some : Evaluates call es front m m') : GoesThrough call es order last m (.error stop, m')
  | failed {front back : List Nat} {i : Nat} {e : Expr} {stop : Stop} {m m₁ m' : Machine}
      (parts : order = front ++ i :: back) (some : Evaluates call es front m m₁)
      (here : es[i]? = .some e) (stops : (evalSubscript call e).run m₁ = (.error stop, m')) :
      GoesThrough call es order last m (.error stop, m')

/-- Every run goes through the subscripts at these positions. -/
def Eval.GoesThrough {α : Type} (call : Caller) (es : List Expr) (order : List Nat)
    (last : Machine → Machine → Prop) (x : Eval α) : Prop :=
  ∀ m, Script.GoesThrough call es order last m (x.run m)

/-- At most the value of the variable is changed. -/
def ChangesOnly (x : String) (m m' : Machine) : Prop :=
  ∃ edit : Edit, m' = { m with scopes := m.scopes.change x edit.apply }

/-- What is evaluated to store into an item of a container behind so many subscripts: the last of
them, those before it to reach the container, and the same for the container around it. -/
def containerOrder : Nat → List Nat
  | 0 => []
  | n + 1 => n :: (List.range n ++ containerOrder n)

/-- The subscript of the item comes first. -/
def targetOrder (n : Nat) : List Nat := n :: containerOrder n

theorem count_containerOrder (n i : Nat) : (containerOrder n).count i = n - i := by
  induction n with
  | zero => simp [containerOrder]
  | succ n ih =>
    rw [containerOrder, List.count_cons, List.count_append, ih, List.nodup_range.count]
    simp only [List.mem_range, beq_iff_eq]
    split <;> split <;> omega

theorem count_targetOrder (n i : Nat) :
    (targetOrder n).count i = if i = n then 1 else n - i := by
  rw [targetOrder, List.count_cons, count_containerOrder]
  simp only [beq_iff_eq]
  split <;> split <;> omega

section Targets

variable {call : Caller} {es front : List Expr} {first second : List Nat}
  {last : Machine → Machine → Prop} {α β : Type} {x : Eval α} {f : α → Eval β}

theorem Evaluates.append {m m₁ m' : Machine} (before : Evaluates call es first m m₁)
    (after : Evaluates call es second m₁ m') : Evaluates call es (first ++ second) m m' := by
  induction before with
  | nil => exact after
  | cons here value _ ih => exact .cons here value (ih after)

namespace Eval

theorem GoesThrough.bind (before : x.GoesThrough call es first Eq)
    (after : ∀ a, (f a).GoesThrough call es second last) :
    (x >>= f).GoesThrough call es (first ++ second) last := by
  intro m
  have start := before m
  rcases given : x.run m with ⟨stop | a, m₁⟩ <;> rw [given] at start
  · rw [run_bind_of_error given]
    cases start with
    | refused parts some =>
      exact .refused (by rw [parts, List.append_assoc]) some
    | failed parts some here stops =>
      exact .failed (by rw [parts, List.append_assoc, List.cons_append]) some here stops
  · rw [run_bind_of_ok given]
    cases start with
    | done all same =>
      have all := same ▸ all
      have onward := after a m₁
      revert onward
      rcases (f a).run m₁ with ⟨stop | b, m'⟩ <;> intro onward
      · cases onward with
        | refused parts some =>
          exact .refused (by rw [parts, List.append_assoc]) (all.append some)
        | failed parts some here stops =>
          exact .failed (by rw [parts, List.append_assoc]) (all.append some) here stops
      · cases onward with
        | done others change => exact .done (all.append others) change

theorem GoesThrough.map (g : α → β) (through : x.GoesThrough call es first last) :
    (g <$> x).GoesThrough call es first last := by
  intro m
  have ended := through m
  rw [← bind_pure_comp]
  rcases given : x.run m with ⟨stop | a, m'⟩ <;> rw [given] at ended
  · rw [run_bind_of_error given]
    cases ended with
    | refused parts some => exact .refused parts some
    | failed parts some here stops => exact .failed parts some here stops
  · rw [run_bind_of_ok given]
    cases ended with
    | done all change => exact .done all change

theorem Inert.goesThrough (inert : x.Inert) : x.GoesThrough call es [] Eq := by
  intro m
  have same := inert m
  rcases given : x.run m with ⟨stop | a, m'⟩ <;> rw [given] at same
  · obtain rfl := same
    exact .refused rfl .nil
  · exact .done .nil same.symm

end Eval

theorem goesThrough_evalSubscript {i : Nat} {e : Expr} (here : es[i]? = some e) :
    (evalSubscript call e).GoesThrough call es [i] Eq := by
  intro m
  rcases given : (evalSubscript call e).run m with ⟨stop | s, m'⟩
  · exact .failed (List.nil_append _).symm .nil here given
  · exact .done (.cons here given .nil) rfl

/-! What is read or stored behind some of the subscripts. -/

variable {y : String}

theorem getElem?_at_length {before : List Expr} {e : Expr} (within : before ++ [e] <+: es) :
    es[before.length]? = some e := by
  obtain ⟨after, rfl⟩ := within
  simp

theorem goesThrough_indexed (within : front <+: es) :
    (evalExpr call ((Expr.name y).indexed front)).GoesThrough call es (List.range front.length)
      Eq := by
  induction front using List.reverseRecOn with
  | nil =>
    rw [Expr.indexed, List.foldl_nil, evalExpr]
    exact (Eval.Inert.lookupName y).goesThrough
  | append_singleton before e ih =>
    rw [Expr.indexed_concat, evalExpr, List.length_append, List.length_singleton, List.range_succ]
    refine (ih ((List.prefix_append _ _).trans within)).bind fun c => ?_
    refine (goesThrough_evalSubscript (getElem?_at_length within)).bind fun s => ?_
    exact (Eval.Inert.lift _).goesThrough

theorem inert_change (change : ItemChange) (container : Value) (s : Subscript) :
    (change.edit container s).Inert := by
  cases change with
  | set v =>
    refine Eval.Inert.bind ?_ fun _ => .lift _
    rw [withinNesting]
    split
    · exact .fail _
    · exact .pure _
  | delete => exact .lift _

theorem goesThrough_storeAt (s : Subscript) (change : ItemChange) :
    (storeAt y s change).GoesThrough call es [] (ChangesOnly y) := by
  refine (Eval.Inert.lookup y).goesThrough.bind fun found => ?_
  cases found with
  | some v =>
    refine (inert_change change v s).goesThrough.bind fun edit => ?_
    exact fun m => .done .nil ⟨edit, rfl⟩
  | none => exact fun m => .refused rfl .nil

/-- By induction on the subscripts up to the container: its changed copy is stored in the one
around it. -/
theorem goesThrough_storeItem (within : front <+: es) (s : Subscript) (change : ItemChange) :
    (storeItem call ((Expr.name y).indexed front) s change).GoesThrough call es
      (containerOrder front.length) (ChangesOnly y) := by
  induction front using List.reverseRecOn generalizing s change with
  | nil =>
    rw [Expr.indexed, List.foldl_nil, storeItem]
    exact goesThrough_storeAt s change
  | append_singleton before e ih =>
    have shorter := (List.prefix_append before [e]).trans within
    rw [Expr.indexed_concat, storeItem, List.length_append, List.length_singleton, containerOrder]
    refine (goesThrough_evalSubscript (getElem?_at_length within)).bind fun outer => ?_
    refine (goesThrough_indexed shorter).bind fun c => ?_
    refine (Eval.Inert.lift _).goesThrough.bind fun inner => ?_
    exact (inert_change change inner s).goesThrough.bind fun edit => ih shorter _ _

theorem goesThrough_assign (front : List Expr) (e : Expr) (v : Value) :
    (assign call (.index ((Expr.name y).indexed front) e) v).GoesThrough call (front ++ [e])
      (targetOrder front.length) (ChangesOnly y) := by
  rw [assign]
  refine (goesThrough_evalSubscript (getElem?_at_length List.prefix_rfl)).bind fun s => ?_
  exact goesThrough_storeItem (List.prefix_append _ _) s _

end Targets

theorem execStmt_assign_single (call : Caller) (rounds : Nat) (target : Target) (r : Expr) :
    execStmt call rounds (.assign [target] r) =
      evalExpr call r >>= fun v => (fun _ => Flow.next) <$> assign call target v := by
  simp only [execStmt, assignEach, bind_assoc, pure_bind, ← bind_pure_comp]

/-- An augmented assignment to an item of a variable reads the item, evaluates the value and
combines them, and then evaluates the subscript again to store the result. Where that gives the same
subscript, and changes nothing more, it is as if the subscript was evaluated once; so it is where
neither the subscript nor the value contains calls or comprehensions. An assignment to an item
behind several subscripts evaluates the value once and then the subscripts in a certain order, in
which the last one stands once and the one at position `i` of those before it, `n` in number, stands
`n - i` times. -/
theorem target_evaluations (call : Caller) (rounds : Nat) (x : String) :
    (∀ e op r, let update := execStmt call rounds (.augAssign (.index (.name x) e) op r)
      update = updateAnew call x e op r ∧
      (∀ m, SubscriptRepeats call x e op r m → update.run m = (updateOnce call x e op r).run m) ∧
      ∀ m, e.CallFree → r.CallFree → (m.scopes.lookup x).isSome = true →
        update.run m = (updateOnce call x e op r).run m) ∧
    (∀ front e r m,
      let store := execStmt call rounds (.assign [.index ((Expr.name x).indexed front) e] r)
      (∀ v m₁, (evalExpr call r).run m = (.ok v, m₁) →
        GoesThrough call (front ++ [e]) (targetOrder front.length) (ChangesOnly x) m₁
          (store.run m)) ∧
      ∀ stop m₁, (evalExpr call r).run m = (.error stop, m₁) → store.run m = (.error stop, m₁)) ∧
    ∀ n i, (targetOrder n).count i = if i = n then 1 else n - i := by
  refine ⟨fun e op r => ?_, fun front e r m => ?_, count_targetOrder⟩
  · intro update
    have anew : update = updateAnew call x e op r := execStmt_augAssign_item rounds
    rw [anew]
    refine ⟨rfl, fun m repeats => run_updateAnew_of_repeats repeats, ?_⟩
    intro m subscript value bound
    obtain ⟨c, bound⟩ := Option.isSome_iff_exists.mp bound
    exact run_updateAnew_of_repeats (subscriptRepeats_of_callFree subscript value bound)
  · intro store
    have valueFirst : store = _ := execStmt_assign_single call rounds _ r
    rw [valueFirst]
    constructor
    · intro v m₁ value
      rw [run_bind_of_ok value]
      exact (goesThrough_assign front e v).map _ m₁
    · intro stop m₁ value
      rw [run_bind_of_error value]

/-- `x[i] += 1`, and `x[0][i] = x`. -/
theorem target_evaluations_plain :
    let call := Limits.defaults.caller
    let x : Value := .list #[.list #[.int 5, .int 7], .int 8]
    let m : Machine := { Machine.start .empty with scopes := ⟨[("x", x), ("i", .int 1)], []⟩ }
    (execStmt call 0 (.augAssign (.index (.name "x") (.name "i")) .add (.int 1))).run m =
      (updateOnce call "x" (.name "i") .add (.int 1)).run m ∧
    GoesThrough call [.int 0, .name "i"] [1, 0] (ChangesOnly "x") m
      ((execStmt call 0 (.assign [.index ((Expr.name "x").indexed [.int 0]) (.name "i")]
        (.name "x"))).run m) := by
  intro call x m
  obtain ⟨updates, stores, -⟩ := target_evaluations call 0 "x"
  have value : (evalExpr call (.name "x")).run m = (.ok x, m) := run_evalExpr_name call rfl
  exact ⟨(updates (.name "i") .add (.int 1)).2.2 m (.name "i") (.int 1) rfl,
    (stores [.int 0] (.name "i") (.name "x") m).1 x m value⟩

/-- `x[i.pop()] += 1` reads one item and stores the result in another one. `x[i.pop()][0][0] = 5`
takes two items of `i`. -/
theorem target_subscript_popped_twice :
    let call := Limits.defaults.caller
    let pop : Expr := .call (.attr (.name "i") "pop") [] []
    let update : Stmt := .augAssign (.index (.name "x") pop) .add (.int 1)
    let store : Stmt := .assign [.index ((Expr.name "x").indexed [pop, .int 0]) (.int 0)] (.int 5)
    let having (x i : Array Value) : Machine :=
      { Machine.start .empty with scopes := ⟨[("x", .list x), ("i", .list i)], []⟩ }
    let row (v : Int64) : Value := .list #[.list #[.int v]]
    let flat := having #[.int 0, .int 0] #[.int 0, .int 1]
    let deep := having #[row 0, row 0] #[.int 0, .int 1]
    parse "x[i.pop()] += 1" = .ok [update] ∧ parse "x[i.pop()][0][0] = 5" = .ok [store] ∧
    (execStmt call 0 update).run flat = (.ok .next, having #[.int 1, .int 0] #[]) ∧
    (updateOnce call "x" pop .add (.int 1)).run flat =
      (.ok .next, having #[.int 0, .int 1] #[.int 0]) ∧
    (execStmt call 0 update).run flat ≠ (updateOnce call "x" pop .add (.int 1)).run flat ∧
    (execStmt call 0 store).run deep = (.ok .next, having #[row 5, row 0] #[]) ∧
    (evalExpr call pop).run deep = (.ok (.int 1), having #[row 0, row 0] #[.int 0]) := by
  intro call pop update store having row flat deep
  have zero (m : Machine) : (evalSubscript call (.int 0)).run m = (.ok (.item (.int 0)), m) := by
    rw [evalSubscript_int]
    rfl
  have list (x i : Array Value) :
      (lookupName "x").run (having x i) = (.ok (.list x), having x i) := run_lookupName rfl
  have pops (x i : Array Value) (v : Value) :
      (evalExpr call pop).run (having x (i.push v)) = (.ok v, having x i) :=
    run_pop_name call i rfl
  have popped (x i : Array Value) (v : Value) :
      (evalSubscript call pop).run (having x (i.push v)) = (.ok (.item v), having x i) := by
    have item : evalSubscript call pop = .item <$> evalExpr call pop := by
      rw [evalSubscript] <;> simp [pop]
    rw [item, ← bind_pure_comp, run_bind_of_ok (pops x i v)]
    rfl
  have first (x : Array Value) := popped x #[.int 0] (.int 1)
  have second (x : Array Value) := popped x #[] (.int 0)
  have updated : (execStmt call 0 update).run flat = (.ok .next, having #[.int 1, .int 0] #[]) := by
    rw [execStmt_augAssign_item, updateAnew]
    refine (run_bind_of_ok (list _ _)).trans ((run_bind_of_ok (first _)).trans ?_)
    refine (run_bind_of_ok (run_lift_eq_ok.mpr ⟨rfl, rfl⟩)).trans ?_
    refine (run_bind_of_ok (run_evalExpr_int call 1 _)).trans ?_
    refine (run_bind_of_ok (run_lift_eq_ok.mpr ⟨rfl, rfl⟩)).trans ?_
    exact (run_bind_of_ok (second _)).trans rfl
  have once : (updateOnce call "x" pop .add (.int 1)).run flat =
      (.ok .next, having #[.int 0, .int 1] #[.int 0]) := by
    rw [updateOnce]
    refine (run_bind_of_ok (first _)).trans ((run_bind_of_ok (list _ _)).trans ?_)
    refine (run_bind_of_ok (run_lift_eq_ok.mpr ⟨rfl, rfl⟩)).trans ?_
    exact (run_bind_of_ok (run_evalExpr_int call 1 _)).trans rfl
  have stored : (execStmt call 0 store).run deep = (.ok .next, having #[row 5, row 0] #[]) := by
    have container (x i : Array Value) :
        (evalExpr call (.name "x")).run (having x i) = (.ok (.list x), having x i) :=
      run_evalExpr_name call rfl
    have outer : (evalExpr call (.index (.name "x") pop)).run deep =
        (.ok (row 0), having #[row 0, row 0] #[.int 0]) := by
      rw [evalExpr]
      exact (run_bind_of_ok (container _ _)).trans ((run_bind_of_ok (first _)).trans rfl)
    have inner : (storeItem call (.index (.name "x") pop) (.item (.int 0))
        (.set (.list #[.int 5]))).run (having #[row 0, row 0] #[.int 0]) =
        (.ok (), having #[row 5, row 0] #[]) := by
      simp only [storeItem]
      exact (run_bind_of_ok (second _)).trans ((run_bind_of_ok (container _ _)).trans rfl)
    have item : getItem (row 0) (.item (.int 0)) = .ok (.list #[.int 0]) := rfl
    have edited (m : Machine) : ((ItemChange.set (.int 5)).edit (.list #[.int 0])
        (.item (.int 0))).run m = (.ok (.list (.set 0 (.int 5))), m) := rfl
    have assigned : (assign call (.index (.index (.index (.name "x") pop) (.int 0)) (.int 0))
        (.int 5)).run deep = (.ok (), having #[row 5, row 0] #[]) := by
      rw [assign]
      refine (run_bind_of_ok (zero _)).trans ?_
      rw [storeItem]
      refine (run_bind_of_ok (zero _)).trans ((run_bind_of_ok outer).trans ?_)
      refine (run_bind_of_ok (run_lift_eq_ok.mpr ⟨item, rfl⟩)).trans ?_
      exact (run_bind_of_ok (edited _)).trans inner
    rw [execStmt_assign_single]
    refine (run_bind_of_ok (run_evalExpr_int call 5 _)).trans ?_
    rw [← bind_pure_comp]
    exact (run_bind_of_ok assigned).trans rfl
  refine ⟨by cbv, by cbv, updated, once, fun same => ?_, stored, pops _ #[.int 0] (.int 1)⟩
  rw [updated, once] at same
  simp [having] at same

end DocExamples.Script
