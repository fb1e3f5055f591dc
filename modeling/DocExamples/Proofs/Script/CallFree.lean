import DocExamples.Proofs.Script.Runs
/-!
Expressions without calls and comprehensions. Evaluating one reads the state and leaves it as it
is, so that doing it again at once gives the same value.
-/
namespace DocExamples.Script

/-! ### Laws of computations -/

section Laws

variable {α : Type} {x y : Eval α}

theorem Eval.ext (runs : x.run = y.run) (steps : x.steps = y.steps) : x = y := by
  cases x
  cases y
  cases runs
  cases steps
  rfl

theorem Eval.bind_pure (x : Eval α) : (x >>= pure) = x := by
  refine Eval.ext (funext fun m => ?_) (funext fun m => ?_)
  · rcases given : x.run m with ⟨e | a, m'⟩
    · exact run_bind_of_error given
    · exact run_bind_of_ok given
  · rcases given : x.run m with ⟨e | a, m'⟩
    · exact steps_bind_of_error given
    · exact (steps_bind_of_ok given).trans (List.append_nil _)

theorem Eval.bind_assoc {β γ : Type} (x : Eval α) (f : α → Eval β) (g : β → Eval γ) :
    (x >>= f >>= g) = x >>= fun a => f a >>= g := by
  refine Eval.ext (funext fun m => ?_) (funext fun m => ?_)
  · rcases given : x.run m with ⟨e | a, m'⟩
    · rw [run_bind_of_error given, run_bind_of_error (run_bind_of_error given)]
    · rw [run_bind_of_ok given]
      rcases next : (f a).run m' with ⟨e | b, m''⟩
      · rw [run_bind_of_error next, run_bind_of_error ((run_bind_of_ok given).trans next)]
      · rw [run_bind_of_ok next, run_bind_of_ok ((run_bind_of_ok given).trans next)]
  · rcases given : x.run m with ⟨e | a, m'⟩
    · rw [steps_bind_of_error given, steps_bind_of_error (run_bind_of_error given),
        steps_bind_of_error given]
    · rw [steps_bind_of_ok given]
      rcases next : (f a).run m' with ⟨e | b, m''⟩
      · rw [steps_bind_of_error next, steps_bind_of_error ((run_bind_of_ok given).trans next),
          steps_bind_of_ok given]
      · rw [steps_bind_of_ok next, steps_bind_of_ok ((run_bind_of_ok given).trans next),
          steps_bind_of_ok given, List.append_assoc]

instance : LawfulMonad Eval :=
  LawfulMonad.mk' Eval Eval.bind_pure (fun _ _ => rfl) Eval.bind_assoc

theorem lift_ok (a : α) : (liftM (Except.ok a : Except Fault α) : Eval α) = pure a := rfl

end Laws

/-! ### Computations that leave the state as it is -/

/-- A run may fail and what it gives may depend on the state, but it changes nothing. -/
def Eval.Inert {α : Type} (x : Eval α) : Prop := ∀ m, (x.run m).2 = m

namespace Eval.Inert

variable {α β : Type} {x : Eval α} {f : α → Eval β}

theorem pure (a : α) : (Pure.pure a : Eval α).Inert := fun _ => rfl

theorem fail (e : Fault) : (Script.fail e : Eval α).Inert := fun _ => rfl

theorem lift (a : Except Fault α) : (liftM a : Eval α).Inert := by
  intro m
  cases a <;> rfl

theorem bind (first : x.Inert) (second : ∀ a, (f a).Inert) : (x >>= f).Inert := by
  intro m
  have same := first m
  rcases given : x.run m with ⟨e | a, m'⟩ <;> rw [given] at same <;> obtain rfl := same
  · rw [run_bind_of_error given]
  · rw [run_bind_of_ok given]
    exact second a m'

theorem map (g : α → β) (part : x.Inert) : (g <$> x).Inert :=
  part.bind fun a => .pure (g a)

theorem lookup (name : String) : (Machine.lookup name).Inert := fun _ => rfl

theorem lookupName (name : String) : (Script.lookupName name).Inert := by
  refine (lookup name).bind fun found => ?_
  split
  · exact .pure _
  · split
    · exact .pure _
    · split
      · exact .pure _
      · exact .fail _

/-- Done again at once, it gives the same value. -/
theorem run_again {a : α} {m m' : Machine} (inert : x.Inert) (given : x.run m = (.ok a, m')) :
    x.run m' = (.ok a, m') := by
  have same := inert m
  rw [given] at same
  cases same
  exact given

end Eval.Inert

/-! ### Expressions -/

/-- Expressions without calls and comprehensions. -/
inductive Expr.CallFree : Expr → Prop where
  | int (i : Int64) : CallFree (.int i)
  | float (x : Float) : CallFree (.float x)
  | str (s : String) : CallFree (.str s)
  | bool (b : Bool) : CallFree (.bool b)
  | none : CallFree .none
  | name (name : String) : CallFree (.name name)
  | list {items : List Expr} (free : ∀ e ∈ items, CallFree e) : CallFree (.list items)
  | tuple {items : List Expr} (free : ∀ e ∈ items, CallFree e) : CallFree (.tuple items)
  | dict {entries : List (Expr × Expr)} (keys : ∀ entry ∈ entries, CallFree entry.1)
      (values : ∀ entry ∈ entries, CallFree entry.2) : CallFree (.dict entries)
  | unary {op : UnaryOp} {operand : Expr} (free : CallFree operand) : CallFree (.unary op operand)
  | binary {op : BinaryOp} {left right : Expr} (first : CallFree left) (second : CallFree right) :
      CallFree (.binary op left right)
  | compare {op : CompareOp} {left right : Expr} (first : CallFree left)
      (second : CallFree right) : CallFree (.compare op left right)
  | and {left right : Expr} (first : CallFree left) (second : CallFree right) :
      CallFree (.and left right)
  | or {left right : Expr} (first : CallFree left) (second : CallFree right) :
      CallFree (.or left right)
  | ifElse {condition yes no : Expr} (asked : CallFree condition) (first : CallFree yes)
      (second : CallFree no) : CallFree (.ifElse condition yes no)
  | attr {object : Expr} {name : String} (free : CallFree object) : CallFree (.attr object name)
  | index {container subscript : Expr} (first : CallFree container)
      (second : CallFree subscript) : CallFree (.index container subscript)
  | slice {start stop step : Option Expr} (first : ∀ e ∈ start, CallFree e)
      (second : ∀ e ∈ stop, CallFree e) (third : ∀ e ∈ step, CallFree e) :
      CallFree (.slice start stop step)

section

variable {call : Caller} {items : List Expr}

theorem inert_evalAll (inert : ∀ e ∈ items, (evalExpr call e).Inert) :
    (evalAll call items).Inert := by
  induction items with
  | nil =>
    rw [evalAll]
    exact .pure _
  | cons e rest ih =>
    obtain ⟨here, others⟩ := List.forall_mem_cons.mp inert
    rw [evalAll]
    exact here.bind fun _ => (ih others).bind fun _ => .pure _

theorem inert_evalSubscripts (inert : ∀ e ∈ items, (evalSubscript call e).Inert) :
    (evalSubscripts call items).Inert := by
  induction items with
  | nil =>
    rw [evalSubscripts]
    exact .pure _
  | cons e rest ih =>
    obtain ⟨here, others⟩ := List.forall_mem_cons.mp inert
    rw [evalSubscripts]
    exact here.bind fun _ => (ih others).bind fun _ => .pure _

theorem inert_evalEntries {entries : List (Expr × Expr)}
    (keys : ∀ entry ∈ entries, (evalExpr call entry.1).Inert)
    (values : ∀ entry ∈ entries, (evalExpr call entry.2).Inert) (before : List (Value × Value)) :
    (evalEntries call before entries).Inert := by
  induction entries generalizing before with
  | nil =>
    rw [evalEntries]
    exact .pure _
  | cons entry rest ih =>
    obtain ⟨key, otherKeys⟩ := List.forall_mem_cons.mp keys
    obtain ⟨value, otherValues⟩ := List.forall_mem_cons.mp values
    rw [evalEntries]
    exact key.bind fun _ => value.bind fun _ => ih otherKeys otherValues _

theorem inert_evalBound {bound : Option Expr} (inert : ∀ e ∈ bound, (evalExpr call e).Inert) :
    (evalBound call bound).Inert := by
  cases bound with
  | none =>
    rw [evalBound]
    exact .pure _
  | some e =>
    rw [evalBound]
    exact (inert e rfl).bind fun _ => .lift _

/-- By induction on the expression, as a value and as a subscript at once: a slice is only the
latter, and the items of a tuple are subscripts again. -/
theorem Expr.CallFree.inert {e : Expr} (free : e.CallFree) (call : Caller) :
    (evalExpr call e).Inert ∧ (evalSubscript call e).Inert := by
  have single {e : Expr} (inert : (evalExpr call e).Inert)
      (evaluates : evalSubscript call e = .item <$> evalExpr call e) :
      (evalExpr call e).Inert ∧ (evalSubscript call e).Inert := by
    rw [evaluates]
    exact ⟨inert, inert.map _⟩
  induction free with
  | int | float | str | bool | none =>
    refine single ?_ (by rw [evalSubscript] <;> simp)
    rw [evalExpr]
    exact .pure _
  | name name =>
    refine single ?_ (by rw [evalSubscript] <;> simp)
    rw [evalExpr]
    exact .lookupName name
  | list _ ih =>
    refine single ?_ (by rw [evalSubscript] <;> simp)
    rw [evalExpr]
    exact (inert_evalAll fun e member => (ih e member).1).map _
  | tuple _ ih =>
    rw [evalExpr, evalSubscript]
    exact ⟨(inert_evalAll fun e member => (ih e member).1).map _,
      (inert_evalSubscripts fun e member => (ih e member).2).map _⟩
  | dict _ _ keys values =>
    refine single ?_ (by rw [evalSubscript] <;> simp)
    rw [evalExpr]
    exact (inert_evalEntries (fun entry member => (keys entry member).1)
      (fun entry member => (values entry member).1) _).map _
  | unary _ operand =>
    refine single ?_ (by rw [evalSubscript] <;> simp)
    rw [evalExpr]
    exact operand.1.bind fun _ => .lift _
  | binary _ _ left right | compare _ _ left right =>
    refine single ?_ (by rw [evalSubscript] <;> simp)
    rw [evalExpr]
    exact left.1.bind fun _ => right.1.bind fun _ => .lift _
  | and _ _ left right =>
    refine single ?_ (by rw [evalSubscript] <;> simp)
    rw [evalExpr]
    refine left.1.bind fun _ => (Eval.Inert.lift _).bind fun _ => ?_
    split
    · exact right.1
    · exact .pure _
  | or _ _ left right =>
    refine single ?_ (by rw [evalSubscript] <;> simp)
    rw [evalExpr]
    refine left.1.bind fun _ => (Eval.Inert.lift _).bind fun _ => ?_
    split
    · exact .pure _
    · exact right.1
  | ifElse _ _ _ asked yes no =>
    refine single ?_ (by rw [evalSubscript] <;> simp)
    rw [evalExpr]
    refine asked.1.bind fun _ => (Eval.Inert.lift _).bind fun _ => ?_
    split
    · exact yes.1
    · exact no.1
  | attr _ object =>
    refine single ?_ (by rw [evalSubscript] <;> simp)
    rw [evalExpr]
    exact object.1.bind fun _ => .lift _
  | index _ _ container subscript =>
    refine single ?_ (by rw [evalSubscript] <;> simp)
    rw [evalExpr]
    exact container.1.bind fun _ => subscript.2.bind fun _ => .lift _
  | slice _ _ _ start stop step =>
    rw [evalExpr, evalSubscript]
    refine ⟨.fail _, (inert_evalBound fun e member => (start e member).1).bind fun _ => ?_⟩
    refine (inert_evalBound fun e member => (stop e member).1).bind fun _ => ?_
    exact (inert_evalBound fun e member => (step e member).1).bind fun _ => .pure _

end

end DocExamples.Script
