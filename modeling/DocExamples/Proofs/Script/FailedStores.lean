import DocExamples.Proofs.Script.Scoping
import DocExamples.Proofs.Script.Sequential
import Mathlib.Data.List.Induction
/-!
Stores that fail. A statement that stores into an item of a variable, deletes one or calls a method
on a variable evaluates subscripts, arguments and the value first. If these leave the bindings
alone, then so does the statement when it fails, however deep the item lies and at whatever level
the change is refused: all containers on the way are copies until the name is reached.
-/
namespace DocExamples.Script

/-! ### Runs that leave the bindings alone -/

section Leaves

variable {α β : Type}

/-- Where the bindings are those of `s`, a run leaves them so. -/
def Eval.Leaves (s : Scopes Value) (x : Eval α) : Prop :=
  ∀ m, m.scopes.Same s → (x.run m).2.scopes.Same s

/-- Where the bindings are those of `s`, a run leaves them so unless it gives a value that `R` holds
of. -/
def Eval.LeavesUnless (R : α → Prop) (s : Scopes Value) (x : Eval α) : Prop :=
  ∀ m result m', m.scopes.Same s → x.run m = (result, m') →
    m'.scopes.Same s ∨ ∃ a, result = .ok a ∧ R a

variable {s : Scopes Value} {x : Eval α} {f : α → Eval β} {R : α → Prop} {S : β → Prop}

namespace Eval

theorem Leaves.bind (first : x.Leaves s)
    (second : ∀ a, (∃ m m', x.run m = (.ok a, m')) → (f a).Leaves s) : (x >>= f).Leaves s := by
  intro m same
  have here := first m same
  rcases given : x.run m with ⟨e | a, m'⟩ <;> rw [given] at here
  · rw [run_bind_of_error given]
    exact here
  · rw [run_bind_of_ok given]
    exact second a ⟨m, m', given⟩ m' here

theorem Leaves.unless (leaves : x.Leaves s) : x.LeavesUnless R s := by
  intro m result m' same given
  have here := leaves m same
  rw [given] at here
  exact .inl here

theorem Leaves.bindUnless (first : x.Leaves s) (second : ∀ a, (f a).LeavesUnless S s) :
    (x >>= f).LeavesUnless S s := by
  intro m result m'' same given
  have here := first m same
  rcases start : x.run m with ⟨e | a, m'⟩ <;> rw [start] at here
  · rw [run_bind_of_error start] at given
    cases given
    exact .inl here
  · rw [run_bind_of_ok start] at given
    exact second a m' result m'' here given

/-- A value that marks a change is passed on by what cannot fail. -/
theorem LeavesUnless.bind (first : x.LeavesUnless R s)
    (unchanged : ∀ a, ¬ R a → (f a).LeavesUnless S s)
    (changed : ∀ a, R a → ∀ m, ∃ b m', (f a).run m = (.ok b, m') ∧ S b) :
    (x >>= f).LeavesUnless S s := by
  intro m result m'' same given
  rcases start : x.run m with ⟨e | a, m'⟩
  · rw [run_bind_of_error start] at given
    cases given
    rcases first m _ _ same start with here | ⟨a, isValue, -⟩
    · exact .inl here
    · cases isValue
  · rw [run_bind_of_ok start] at given
    by_cases marked : R a
    · obtain ⟨b, _, finished, marks⟩ := changed a marked m'
      rw [finished] at given
      cases given
      exact .inr ⟨b, rfl, marks⟩
    · rcases first m _ _ same start with here | ⟨_, isValue, marks⟩
      · exact unchanged a marked m' result m'' here given
      · cases isValue
        exact absurd marks marked

/-- A change that is made is not undone by what cannot fail. -/
theorem LeavesUnless.andThen (last : x.LeavesUnless (fun _ => True) s)
    (done : ∀ a m, ∃ b m', (f a).run m = (.ok b, m')) :
    (x >>= f).LeavesUnless (fun _ => True) s := by
  refine last.bind (fun _ unmarked => absurd trivial unmarked) fun a _ m => ?_
  obtain ⟨b, m', finished⟩ := done a m
  exact ⟨b, m', finished, trivial⟩

theorem leavesUnless_of_ok (done : ∀ m, ∃ a m', x.run m = (.ok a, m') ∧ R a) :
    x.LeavesUnless R s := by
  intro m result m' _ given
  obtain ⟨a, _, finished, marks⟩ := done m
  rw [finished] at given
  cases given
  exact .inr ⟨a, rfl, marks⟩

end Eval

/-- Computations that bind nothing, among them those that print. -/
theorem sequential_leaves (s : Scopes Value) :
    Sequential .any fun {_} R x => x.Leaves s ∧ x.Gives R := by
  have quiet {α : Type} (f : Machine → Except Stop α × Machine)
      (same : ∀ m, (f m).2.scopes = m.scopes) : (Eval.quiet f same).Leaves s := by
    intro m start
    rw [Eval.quiet, same m]
    exact start
  exact .of_gives (fun f same _ => quiet f same) (fun _ => quiet _ _) (fun _ => quiet _ _)
    Eval.Leaves.bind

theorem leaves_pure (a : α) : (pure a : Eval α).Leaves s :=
  ((sequential_leaves s).pure (R := fun _ => True) trivial).1

theorem leaves_fail (f : Fault) : (fail f : Eval α).Leaves s :=
  ((sequential_leaves s).fail (R := fun _ => True) f).1

theorem leaves_lift (x : Except Fault α) : (liftM x : Eval α).Leaves s :=
  ((sequential_leaves s).lift (R := fun _ => True) .any).1

theorem leaves_lookup (name : String) : (Machine.lookup name).Leaves s :=
  ((sequential_leaves s).lookup name).1

theorem leaves_withinNesting (limit : Nat) (v : Value) : (withinNesting limit v).Leaves s :=
  ((sequential_leaves s).withinNesting limit v).1

theorem leaves_edit (change : ItemChange) (container : Value) (sub : Subscript) :
    (change.edit container sub).Leaves s := by
  cases change with
  | set v => exact (leaves_withinNesting _ v).bind fun _ _ => leaves_lift _
  | delete => exact leaves_lift _

end Leaves

/-! ### Items -/

/-- An expression with subscripts after it. -/
def Expr.indexed (e : Expr) (subscripts : List Expr) : Expr := subscripts.foldl .index e

theorem Expr.indexed_concat (e : Expr) (subscripts : List Expr) (last : Expr) :
    e.indexed (subscripts ++ [last]) = .index (e.indexed subscripts) last :=
  List.foldl_concat _ _ _ _

section Items

variable {s : Scopes Value} {call : Caller} {x : String} {subscripts values : List Expr}

theorem leaves_indexed (quiet : ∀ e ∈ subscripts, (evalSubscript call e).Leaves s) :
    (evalExpr call ((Expr.name x).indexed subscripts)).Leaves s := by
  induction subscripts using List.reverseRecOn with
  | nil =>
    rw [Expr.indexed, List.foldl_nil, evalExpr]
    exact ((sequential_leaves s).lookupName x).1
  | append_singleton front last ih =>
    obtain ⟨before, here⟩ := List.forall_mem_append.mp quiet
    rw [Expr.indexed_concat, evalExpr]
    refine (ih before).bind fun c _ => ?_
    exact (here last (List.mem_singleton_self last)).bind fun sub _ => leaves_lift _

/-- The edit of a name's value comes last, and cannot fail. -/
theorem leavesUnless_storeAt (sub : Subscript) (change : ItemChange) :
    (storeAt x sub change).LeavesUnless (fun _ => True) s := by
  refine (leaves_lookup x).bindUnless fun found => ?_
  cases found with
  | some v =>
    refine (leaves_edit change v sub).bindUnless fun edit => ?_
    exact Eval.leavesUnless_of_ok fun m => ⟨(), _, rfl, trivial⟩
  | none => exact (leaves_fail _).unless

theorem leavesUnless_storeItem (quiet : ∀ e ∈ subscripts, (evalSubscript call e).Leaves s)
    (sub : Subscript) (change : ItemChange) :
    (storeItem call ((Expr.name x).indexed subscripts) sub change).LeavesUnless
      (fun _ => True) s := by
  induction subscripts using List.reverseRecOn generalizing sub change with
  | nil =>
    rw [Expr.indexed, List.foldl_nil, storeItem]
    exact leavesUnless_storeAt sub change
  | append_singleton front last ih =>
    obtain ⟨before, here⟩ := List.forall_mem_append.mp quiet
    rw [Expr.indexed_concat, storeItem]
    refine (here last (List.mem_singleton_self last)).bindUnless fun outer => ?_
    refine (leaves_indexed before).bindUnless fun c => (leaves_lift _).bindUnless fun inner => ?_
    -- What was taken out is changed as a copy; the levels further out have yet to agree.
    exact (leaves_edit change inner sub).bindUnless fun edit => ih before _ _

theorem leaves_evalAll (quiet : ∀ e ∈ values, (evalExpr call e).Leaves s) :
    (evalAll call values).Leaves s := by
  induction values with
  | nil =>
    rw [evalAll]
    exact leaves_pure _
  | cons e rest ih =>
    obtain ⟨here, others⟩ := List.forall_mem_cons.mp quiet
    rw [evalAll]
    exact here.bind fun v _ => (ih others).bind fun vs _ => leaves_pure _

theorem leaves_evalKeywords {kwargs : List (String × Expr)}
    (quiet : ∀ e ∈ kwargs.map (·.2), (evalExpr call e).Leaves s) :
    (evalKeywords call kwargs).Leaves s := by
  induction kwargs with
  | nil =>
    rw [evalKeywords]
    exact leaves_pure _
  | cons entry rest ih =>
    obtain ⟨name, e⟩ := entry
    obtain ⟨here, others⟩ := List.forall_mem_cons.mp quiet
    rw [evalKeywords]
    exact here.bind fun v _ => (ih others).bind fun vs _ => leaves_pure _

end Items

/-! ### Methods of variables -/

section Methods

variable {s : Scopes Value} {x method : String}

/-- A mutating method changes the list of a variable after all checks, and gives a result then. -/
theorem leavesUnless_mutateBound (args : List Value) :
    (mutateBound? (.attr (.name x) method) args).LeavesUnless (fun v => v.isSome = true) s := by
  have isList : (boundList? x).Leaves s := by
    refine (leaves_lookup x).bind fun found _ => ?_
    split <;> exact leaves_pure _
  have checks : (args.forM (withinNesting (maxValueNesting - 1))).Leaves s := by
    induction args with
    | nil => exact leaves_pure _
    | cons v rest ih => exact (leaves_withinNesting _ v).bind fun _ _ => ih
  rw [mutateBound?]
  refine isList.bindUnless fun found => ?_
  split
  · next m items _ =>
    refine checks.bindUnless fun _ => (leaves_lift (m.edit items args)).bindUnless fun change => ?_
    exact Eval.leavesUnless_of_ok fun machine => ⟨some change.2, _, rfl, rfl⟩
  · exact (leaves_pure _).unless

/-- Functions that programs define are no attributes. -/
def Value.IsDefined : Value → Prop
  | .function .. => True
  | _ => False

theorem attributeOf_not_defined (v : Value) (name : String) :
    Ensures (fun c => ¬ c.IsDefined) (attributeOf v name) := by
  have among (methods : List String) : Ensures (fun c : Value => ¬ c.IsDefined)
      (if methods.contains name then .ok (.method v name)
        else .error (Fault.noAttribute v.typeName name)) := by
    split
    · exact .ok id
    · exact .error
  cases v with
  | module owner =>
    rw [attributeOf, moduleValue?]
    cases moduleItem? owner name with
    | none => exact .error
    | some item => cases item <;> exact .ok id
  | tensor t =>
    rw [attributeOf]
    unfold tensorAttribute
    split <;> first | exact .ok id | skip
    split
    · exact .ok id
    · exact .error
  | exception kind message =>
    rw [attributeOf]
    split
    · exact .ok id
    · exact among []
  | list items => exact among listMethods
  | str text => exact among textMethods
  | dict entries => exact among dictMethods
  | _ => exact among []

theorem leaves_callWithin {rounds levels : Nat} {c : Value} (notDefined : ¬ c.IsDefined)
    (args : List Value) (kwargs : Keywords) :
    (callWithin rounds levels c args kwargs).Leaves s := by
  have closed := sequential_leaves s
  cases c with
  | function => exact absurd trivial notDefined
  | builtin b =>
    rw [callWithin]
    exact (closed.builtinCall b kwargs fun v _ => v.has_any).1
  | method receiver name =>
    rw [callWithin]
    exact leaves_lift _
  | exceptionType kind =>
    rw [callWithin]
    exact leaves_pure _
  | _ =>
    rw [callWithin.eq_def]
    exact leaves_fail _

theorem leavesUnless_methodCall {rounds levels : Nat} {args : List Expr}
    {kwargs : List (String × Expr)}
    (quiet : ∀ e ∈ args ++ kwargs.map (·.2), (evalExpr (callWithin rounds levels) e).Leaves s) :
    (evalExpr (callWithin rounds levels) (.call (.attr (.name x) method) args kwargs)).LeavesUnless
      (fun _ => True) s := by
  obtain ⟨positional, named⟩ := List.forall_mem_append.mp quiet
  have closed := sequential_leaves s
  have callee : (evalExpr (callWithin rounds levels) (.attr (.name x) method)).Leaves s ∧
      (evalExpr (callWithin rounds levels) (.attr (.name x) method)).Gives (¬ ·.IsDefined) := by
    rw [evalExpr, evalExpr]
    exact closed.bind (closed.lookupName x) fun v _ =>
      closed.lift (attributeOf_not_defined v method)
  rw [evalExpr]
  refine (leaves_evalAll positional).bindUnless fun vs => ?_
  refine (leaves_evalKeywords named).bindUnless fun ks => ?_
  refine (leavesUnless_mutateBound vs).bind (fun result unmarked => ?_) fun result marked m => ?_
  · cases result with
    | some v => exact absurd rfl unmarked
    | none =>
      refine Eval.Leaves.unless (callee.1.bind fun c reached => ?_)
      obtain ⟨m, m', given⟩ := reached
      exact leaves_callWithin (callee.2 m c m' given) vs ks
  · obtain ⟨v, rfl⟩ := Option.isSome_iff_exists.mp marked
    exact ⟨v, m, rfl, trivial⟩

end Methods

/-! ### Statements -/

/-- Statements that store into an item of the variable `x`, delete one, or call a method on `x`;
with the subscripts and the other expressions that they evaluate. -/
inductive ChangesVariable (x : String) : (subscripts values : List Expr) → Stmt → Prop where
  | store (path : List Expr) (index value : Expr) : ChangesVariable x (path ++ [index]) [value]
      (.assign [.index ((Expr.name x).indexed path) index] value)
  /-- As in `x[0] += 1`. -/
  | update (path : List Expr) (index : Expr) (op : BinaryOp) (value : Expr) :
    ChangesVariable x (path ++ [index]) [value]
      (.augAssign (.index ((Expr.name x).indexed path) index) op value)
  | delete (path : List Expr) (index : Expr) : ChangesVariable x (path ++ [index]) []
      (.delete (.index ((Expr.name x).indexed path) index))
  /-- As in `x.append(1)`. -/
  | call (method : String) (args : List Expr) (kwargs : List (String × Expr)) :
    ChangesVariable x [] (args ++ kwargs.map (·.2))
      (.expr (.call (.attr (.name x) method) args kwargs))

section Statements

variable {s : Scopes Value} {rounds levels : Nat} {x : String} {subscripts values : List Expr}
  {stmt : Stmt}

theorem leavesUnless_assignItem {call : Caller} {path : List Expr} {index : Expr}
    (quiet : ∀ e ∈ path ++ [index], (evalSubscript call e).Leaves s) (v : Value) :
    (assign call (.index ((Expr.name x).indexed path) index) v).LeavesUnless (fun _ => True) s := by
  obtain ⟨before, here⟩ := List.forall_mem_append.mp quiet
  rw [assign]
  refine (here index (List.mem_singleton_self index)).bindUnless fun sub => ?_
  exact leavesUnless_storeItem before sub (.set v)

theorem exists_run_echo (v : Value) (m : Machine) : ∃ m', (echo v).run m = (.ok (), m') := by
  have asked : Machine.inCall.run m = (.ok (decide (0 < m.scopes.depth)), m) := rfl
  rw [echo, run_bind_of_ok asked]
  split
  · exact ⟨_, rfl⟩
  · exact ⟨m, rfl⟩

/-- What follows the change cannot fail. -/
theorem leavesUnless_execStmt (changes : ChangesVariable x subscripts values stmt)
    (quietSubscripts : ∀ e ∈ subscripts, (evalSubscript (callWithin rounds levels) e).Leaves s)
    (quietValues : ∀ e ∈ values, (evalExpr (callWithin rounds levels) e).Leaves s) :
    (execStmt (callWithin rounds levels) rounds stmt).LeavesUnless (fun _ => True) s := by
  cases changes with
  | store path index value =>
    have quietValue := quietValues value (List.mem_singleton_self value)
    rw [execStmt]
    refine quietValue.bindUnless fun v => ?_
    rw [assignEach, assignEach]
    refine Eval.LeavesUnless.andThen ?_ fun _ m => ⟨.next, m, rfl⟩
    exact (leavesUnless_assignItem quietSubscripts v).andThen fun _ m => ⟨(), m, rfl⟩
  | update path index op value =>
    have quietValue := quietValues value (List.mem_singleton_self value)
    have current := leaves_indexed (x := x) quietSubscripts
    rw [Expr.indexed_concat] at current
    rw [execStmt]
    refine Eval.LeavesUnless.andThen ?_ fun _ m => ⟨.next, m, rfl⟩
    rw [updateTarget, Target.toExpr?]
    refine current.bindUnless fun old => quietValue.bindUnless fun v => ?_
    exact (leaves_lift _).bindUnless fun new => leavesUnless_assignItem quietSubscripts new
  | delete path index =>
    obtain ⟨before, here⟩ := List.forall_mem_append.mp quietSubscripts
    rw [execStmt]
    refine Eval.LeavesUnless.andThen ?_ fun _ m => ⟨.next, m, rfl⟩
    rw [deleteTarget]
    refine (here index (List.mem_singleton_self index)).bindUnless fun sub => ?_
    exact leavesUnless_storeItem before sub .delete
  | call method args kwargs =>
    rw [execStmt]
    refine (leavesUnless_methodCall quietValues).andThen fun v m => ?_
    obtain ⟨m', finished⟩ := exists_run_echo v m
    exact ⟨.next, m', (run_bind_of_ok finished).trans rfl⟩

/-- A change that fails leaves every binding as it was. -/
theorem bindings_after_failed_change (changes : ChangesVariable x subscripts values stmt)
    {m m' : Machine} {e : Stop}
    (quietSubscripts :
      ∀ e ∈ subscripts, (evalSubscript (callWithin rounds levels) e).Leaves m.scopes)
    (quietValues : ∀ e ∈ values, (evalExpr (callWithin rounds levels) e).Leaves m.scopes)
    (failed : (execStmt (callWithin rounds levels) rounds stmt).run m = (.error e, m')) :
    m'.scopes.Same m.scopes := by
  rcases leavesUnless_execStmt changes quietSubscripts quietValues m _ _ (.refl _) failed with
    same | ⟨_, isValue, -⟩
  · exact same
  · cases isValue

theorem evalSubscript_int (call : Caller) (n : Int64) :
    evalSubscript call (.int n) = Subscript.item <$> pure (.int n) := by
  rw [evalSubscript, evalExpr] <;> simp

theorem leaves_subscript_int (call : Caller) (n : Int64) :
    (evalSubscript call (.int n)).Leaves s := by
  rw [evalSubscript_int]
  exact leaves_pure _

/-- As in `x[0][0] = 5` where `x` is `([1],)`: the list takes the item, but the tuple around it does
not take the list back. -/
theorem bindings_after_store_below_tuple :
    let call := callWithin 1 1
    let m := { Machine.start .empty with scopes := ⟨[("x", .tuple [.list #[.int 1]])], []⟩ }
    ∃ m', (execStmt call 1 (.assign [.index ((Expr.name "x").indexed [.int 0]) (.int 0)]
        (.int 5))).run m = (.error (.fault (.type (.noItemAssignment "tuple"))), m') ∧
      m'.scopes.Same m.scopes := by
  intro call m
  have zero : (evalSubscript call (.int 0)).run m = (.ok (.item (.int 0)), m) := by
    rw [evalSubscript_int]
    rfl
  have value : (evalExpr call (.int 5)).run m = (.ok (.int 5), m) := by
    rw [evalExpr]
    rfl
  have outer : (evalExpr call (.name "x")).run m = (.ok (.tuple [.list #[.int 1]]), m) := by
    rw [evalExpr]
    rfl
  have refused : (assign call (.index ((Expr.name "x").indexed [.int 0]) (.int 0)) (.int 5)).run m =
      (.error (.fault (.type (.noItemAssignment "tuple"))), m) := by
    rw [assign, run_bind_of_ok zero, Expr.indexed, List.foldl_cons, List.foldl_nil, storeItem,
      run_bind_of_ok zero, run_bind_of_ok outer]
    change (storeItem call (.name "x") (.item (.int 0)) (.set (.list #[.int 5]))).run m = _
    rw [storeItem]
    rfl
  have failed : (execStmt call 1 (.assign [.index ((Expr.name "x").indexed [.int 0]) (.int 0)]
      (.int 5))).run m = (.error (.fault (.type (.noItemAssignment "tuple"))), m) := by
    rw [execStmt, run_bind_of_ok value, assignEach]
    exact run_bind_of_error (run_bind_of_error refused)
  have quiet : ∀ e ∈ [Expr.int 0] ++ [.int 0], (evalSubscript call e).Leaves m.scopes := by
    simp only [List.cons_append, List.nil_append, List.forall_mem_cons, List.not_mem_nil,
      false_imp_iff, implies_true, and_true]
    exact ⟨leaves_subscript_int call 0, leaves_subscript_int call 0⟩
  refine ⟨m, failed,
    bindings_after_failed_change (.store [.int 0] (.int 0) (.int 5)) quiet ?_ failed⟩
  intro e known
  rw [List.mem_singleton.mp known, evalExpr]
  exact leaves_pure _

end Statements

end DocExamples.Script
