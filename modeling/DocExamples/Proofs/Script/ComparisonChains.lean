import DocExamples.Proofs.Script.Brackets
import DocExamples.Proofs.Script.CallFree
import DocExamples.Proofs.Script.ItemMutators
/-!
Chains of comparisons. A chain is read as the conjunction of the comparisons of neighbours, in
which each operand between the first and the last stands twice. Such an operand is evaluated again
for the comparison after it, which makes a difference where that gives another value or changes the
state once more.
-/
namespace DocExamples.Script

/-! ### Reading a chain -/

namespace Grammar

/-- Operators, each with an operand after it, up to where no operator comes. -/
inductive ReadsChain (operand : Nat → Parse Expr) :
    Nat → Cursor → List (CompareOp × Expr) → Cursor → Prop where
  | done {budget : Nat} {c : Cursor} (stops : comparison? c.tokens = none) :
      ReadsChain operand budget c [] c
  | link {budget : Nat} {c c₁ c' : Cursor} {op : CompareOp} {tokens : List Token} {right : Expr}
      {links : List (CompareOp × Expr)} (taken : comparison? c.tokens = some (op, tokens))
      (read : operand budget { c with tokens } = .ok (right, c₁))
      (more : ReadsChain operand budget c₁ links c') :
      ReadsChain operand (budget + 1) c ((op, right) :: links) c'

/-- The conjunction of what comes before with the comparisons of neighbours. -/
def chained (before : Option Expr) (left : Expr) : List (CompareOp × Expr) → Expr
  | [] => before.getD left
  | (op, right) :: links =>
    chained (some (joinComparison before (.compare op left right))) right links

section

variable {operand : Nat → Parse Expr} {budget : Nat} {c c' : Cursor} {before : Option Expr}
  {left e : Expr}

theorem comparisons_of_none (stops : comparison? c.tokens = none) :
    comparisons operand budget before left c = .ok (before.getD left, c) := by
  have taken : takeComparison c = .ok (none, c) := by rw [takeComparison, stops]
  cases budget <;> exact (ReadsFrom.bind_run taken).trans rfl

theorem comparisons_eq_ok_of_some {op : CompareOp} {tokens : List Token}
    (found : comparison? c.tokens = some (op, tokens)) :
    comparisons operand budget before left c = .ok (e, c') ↔
      ∃ rest right c₁, budget = rest + 1 ∧ operand rest { c with tokens } = .ok (right, c₁) ∧
        comparisons operand rest (some (joinComparison before (.compare op left right))) right c₁ =
          .ok (e, c') := by
  have taken : takeComparison c = .ok (some op, { c with tokens }) := by
    rw [takeComparison, found]
  cases budget with
  | zero =>
    rw [comparisons, ReadsFrom.bind_run taken]
    constructor
    · intro given
      cases given
    · rintro ⟨_, _, _, positive, _⟩
      cases positive
  | succ rest =>
    rw [comparisons, ReadsFrom.bind_run taken]
    refine ReadsFrom.parse_bind_eq_ok.trans ⟨?_, ?_⟩
    · rintro ⟨right, c₁, read, more⟩
      exact ⟨rest, right, c₁, rfl, read, more⟩
    · rintro ⟨_, right, c₁, ⟨⟩, read, more⟩
      exact ⟨right, c₁, read, more⟩

theorem comparisons_eq_ok :
    comparisons operand budget before left c = .ok (e, c') ↔
      ∃ links, ReadsChain operand budget c links c' ∧ e = chained before left links := by
  constructor
  · intro given
    induction budget generalizing before left c with
    | zero =>
      cases found : comparison? c.tokens with
      | none =>
        rw [comparisons_of_none found] at given
        cases given
        exact ⟨[], .done found, rfl⟩
      | some pair =>
        obtain ⟨_, _, _, positive, -⟩ := (comparisons_eq_ok_of_some found).mp given
        cases positive
    | succ budget ih =>
      cases found : comparison? c.tokens with
      | none =>
        rw [comparisons_of_none found] at given
        cases given
        exact ⟨[], .done found, rfl⟩
      | some pair =>
        obtain ⟨_, right, c₁, ⟨⟩, read, more⟩ := (comparisons_eq_ok_of_some found).mp given
        obtain ⟨links, readMore, rfl⟩ := ih more
        exact ⟨(pair.1, right) :: links, .link found read readMore, rfl⟩
  · rintro ⟨links, read, rfl⟩
    induction read generalizing before left with
    | done stops => exact comparisons_of_none stops
    | link taken read _ ih =>
      exact (comparisons_eq_ok_of_some taken).mpr ⟨_, _, _, rfl, read, ih⟩

theorem comparison_eq_ok {below : Below} :
    comparison below budget c = .ok (e, c') ↔
      ∃ first c₀ links, sum below budget c = .ok (first, c₀) ∧
        ReadsChain (sum below) budget c₀ links c' ∧ e = chained none first links := by
  refine ReadsFrom.parse_bind_eq_ok.trans ⟨?_, ?_⟩
  · rintro ⟨first, c₀, begins, given⟩
    obtain ⟨links, read, same⟩ := comparisons_eq_ok.mp given
    exact ⟨first, c₀, links, begins, read, same⟩
  · rintro ⟨first, c₀, links, begins, read, same⟩
    exact ⟨first, c₀, begins, comparisons_eq_ok.mpr ⟨links, read, same⟩⟩

end

end Grammar

/-! ### Evaluating a chain -/

section

variable {call : Caller} {again : Expr → Value → Eval Value} {op : CompareOp} {right : Expr}
  {links : List (CompareOp × Expr)}

/-- Compares neighbours for as long as the comparisons hold, and gives the last comparison made.
For the comparison after it, the right operand has the value that `again` finds. -/
def compareAlong (call : Caller) (again : Expr → Value → Eval Value) (left : Eval Value)
    (op : CompareOp) (right : Expr) : List (CompareOp × Expr) → Eval Value
  | [] => do
    let v ← left
    let w ← evalExpr call right
    compareValues op v w
  | (next, e) :: links => do
    let v ← left
    let w ← evalExpr call right
    let found ← compareValues op v w
    if ← found.truth then compareAlong call again (again right w) next e links else return found

/-- Every operand is evaluated once, and its value kept for the comparison after it. -/
def compareOnce (call : Caller) (first : Expr) : CompareOp → Expr → List (CompareOp × Expr) →
    Eval Value :=
  compareAlong call (fun _ w => pure w) (evalExpr call first)

/-- Every operand is evaluated again for the comparison after it. -/
def compareAnew (call : Caller) (first : Expr) : CompareOp → Expr → List (CompareOp × Expr) →
    Eval Value :=
  compareAlong call (fun e _ => evalExpr call e) (evalExpr call first)

theorem compareAlong_eq_bind (again : Expr → Value → Eval Value) (left : Eval Value) :
    compareAlong call again left op right links =
      left >>= fun v => compareAlong call again (pure v) op right links := by
  cases links <;> rfl

/-- A conjunction on the left of another one: where the first part is false, so is the whole. -/
theorem eval_and_then {b e : Expr} (more : Eval Value) :
    (do
      let v ← evalExpr call (.and b e)
      if ← v.truth then more else return v) =
    (do
      let v ← evalExpr call b
      if ← v.truth then do
        let w ← evalExpr call e
        if ← w.truth then more else return w
      else return v) := by
  rw [evalExpr, bind_assoc]
  refine congrArg (evalExpr call b >>= ·) (funext fun v => ?_)
  cases truth : v.truth with
  | error => rfl
  | ok holds =>
    cases holds with
    | true => rfl
    | false =>
      change (do if ← v.truth then more else return v) = (pure v : Eval Value)
      rw [truth]
      rfl

/-- By induction on the comparisons that follow: each one joins those before it. -/
theorem evalExpr_chained_some (b left : Expr) :
    evalExpr call (Grammar.chained (some b) left ((op, right) :: links)) = do
      let v ← evalExpr call b
      if ← v.truth then
        compareAlong call (fun e _ => evalExpr call e) (evalExpr call left) op right links
      else return v := by
  induction links generalizing b left op right with
  | nil =>
    change evalExpr call (.and b (.compare op left right)) = _
    rw [evalExpr, evalExpr]
    rfl
  | cons link links ih =>
    change evalExpr call (Grammar.chained (some (.and b (.compare op left right))) right
      (link :: links)) = _
    rw [ih, eval_and_then, compareAlong, evalExpr]
    simp only [bind_assoc]

theorem evalExpr_chained (first : Expr) :
    evalExpr call (Grammar.chained none first ((op, right) :: links)) =
      compareAnew call first op right links := by
  cases links with
  | nil =>
    change evalExpr call (.compare op first right) = _
    rw [evalExpr]
    rfl
  | cons link links =>
    change evalExpr call
      (Grammar.chained (some (.compare op first right)) right (link :: links)) = _
    rw [evalExpr_chained_some, compareAnew, compareAlong, evalExpr]
    simp only [bind_assoc]

/-! ### Where evaluating again makes no difference -/

/-- From the state in which an operand has the value `v` along the rest of the chain: an operand
that was compared and is to be compared once more gives its value again and changes nothing. -/
def RepeatsAlong (call : Caller) (v : Value) (op : CompareOp) (right : Expr) :
    List (CompareOp × Expr) → Machine → Prop
  | [], _ => True
  | (next, e) :: links, m => ∀ w m' found, (evalExpr call right).run m = (.ok w, m') →
    compareValues op v w = .ok found → found.truth = .ok true →
      (evalExpr call right).run m' = (.ok w, m') ∧ RepeatsAlong call w next e links m'

/-- By induction on the comparisons that follow, the value of the left operand being known. -/
theorem run_compareAlong_of_repeats {v : Value} {m : Machine}
    (repeats : RepeatsAlong call v op right links m) :
    (compareAlong call (fun e _ => evalExpr call e) (pure v) op right links).run m =
      (compareAlong call (fun _ w => pure w) (pure v) op right links).run m := by
  induction links generalizing v op right m with
  | nil => rfl
  | cons link links ih =>
    obtain ⟨next, e⟩ := link
    rw [compareAlong, compareAlong, pure_bind, pure_bind]
    rcases given : (evalExpr call right).run m with ⟨error | w, m'⟩
    · rw [run_bind_of_error given, run_bind_of_error given]
    rw [run_bind_of_ok given, run_bind_of_ok given]
    cases compared : compareValues op v w with
    | error => rfl
    | ok found =>
      simp only [lift_ok, pure_bind]
      cases truth : found.truth with
      | error => rfl
      | ok holds =>
        cases holds with
        | false => rfl
        | true =>
          obtain ⟨same, onward⟩ := repeats w m' found given compared truth
          change (compareAlong call (fun e _ => evalExpr call e) (evalExpr call right) next e
            links).run m' = _
          rw [compareAlong_eq_bind, run_bind_of_ok same]
          exact ih onward

theorem repeatsAlong_of_callFree (free : ∀ e ∈ (right :: links.map (·.2)).dropLast, e.CallFree)
    (v : Value) (m : Machine) : RepeatsAlong call v op right links m := by
  induction links generalizing v op right m with
  | nil => trivial
  | cons link links ih =>
    obtain ⟨here, others⟩ := List.forall_mem_cons.mp free
    intro w m' _ given _ _
    exact ⟨(here.inert call).1.run_again given, ih others w m'⟩

/-- A chain of comparisons is read, and evaluating it compares neighbours for as long as the
comparisons hold; an operand between the first and the last is evaluated again for the comparison
after it. If each of these gives its value again then and changes nothing more, as those without
calls and comprehensions do, then the result and the state are those of evaluating every operand
once. -/
theorem chained_comparisons (call : Caller) {below : Grammar.Below} {budget : Nat}
    {c c₀ c' : Cursor} {first second : Expr} {op : CompareOp} {others : List (CompareOp × Expr)}
    (begins : Grammar.sum below budget c = .ok (first, c₀))
    (chain : Grammar.ReadsChain (Grammar.sum below) budget c₀ ((op, second) :: others) c') :
    ∃ e, Grammar.comparison below budget c = .ok (e, c') ∧
      evalExpr call e = compareAnew call first op second others ∧
      (∀ m, (∀ v m₁, (evalExpr call first).run m = (.ok v, m₁) →
          RepeatsAlong call v op second others m₁) →
        (evalExpr call e).run m = (compareOnce call first op second others).run m) ∧
      ((∀ e ∈ (second :: others.map (·.2)).dropLast, e.CallFree) →
        (evalExpr call e).run = (compareOnce call first op second others).run) := by
  have once (m : Machine) (repeats : ∀ v m₁, (evalExpr call first).run m = (.ok v, m₁) →
      RepeatsAlong call v op second others m₁) :
      (compareAnew call first op second others).run m =
        (compareOnce call first op second others).run m := by
    rw [compareAnew, compareOnce, compareAlong_eq_bind, compareAlong_eq_bind fun _ w => pure w]
    rcases given : (evalExpr call first).run m with ⟨error | v, m₁⟩
    · rw [run_bind_of_error given, run_bind_of_error given]
    · rw [run_bind_of_ok given, run_bind_of_ok given]
      exact run_compareAlong_of_repeats (repeats v m₁ given)
  refine ⟨_, Grammar.comparison_eq_ok.mpr ⟨first, c₀, _, begins, chain, rfl⟩, ?_⟩
  rw [evalExpr_chained]
  refine ⟨rfl, once, fun free => funext fun m => once m fun v m₁ _ => ?_⟩
  exact repeatsAlong_of_callFree free v m₁

/-- `0 < x < 5`. -/
theorem chained_comparisons_between :
    let call := Limits.defaults.caller
    let c : Cursor := ⟨[.int 0, .symbol .less, .name "x", .symbol .less, .int 5], 0⟩
    ∃ e, Grammar.comparison (Grammar.expressionWith 5) maxNesting c = .ok (e, ⟨[], 0⟩) ∧
      (evalExpr call e).run =
        (compareOnce call (.int 0) .less (.name "x") [(.less, .int 5)]).run := by
  intro call c
  let below := Grammar.expressionWith 5
  let rest (tokens : List Token) : Cursor := ⟨tokens, 0⟩
  have begins : Grammar.sum below maxNesting c = .ok (.int 0, rest c.tokens.tail) := rfl
  have name : Grammar.sum below (maxNesting - 1) (rest (c.tokens.drop 2)) =
      .ok (.name "x", rest (c.tokens.drop 3)) := rfl
  have last : Grammar.sum below (maxNesting - 2) (rest (c.tokens.drop 4)) = .ok (.int 5, rest []) :=
    rfl
  obtain ⟨e, parsed, -, -, once⟩ :=
    chained_comparisons call begins (.link rfl name (.link rfl last (.done rfl)))
  refine ⟨e, parsed, once fun e member => ?_⟩
  obtain rfl := List.mem_singleton.mp member
  exact .name "x"

/-- `0 < xs.pop() < 5` takes two items of a list; evaluating every operand once takes one. -/
theorem middle_operand_popped_twice :
    let call := Limits.defaults.caller
    let pop : Expr := .call (.attr (.name "xs") "pop") [] []
    let e := Grammar.chained none (.int 0) [(.less, pop), (.less, .int 5)]
    let having (items : Array Value) : Machine :=
      { Machine.start .empty with scopes := ⟨[("xs", .list items)], []⟩ }
    let m := having #[.int 3, .int 2, .int 1]
    parse "0 < xs.pop() < 5" = .ok [.expr e] ∧
      (evalExpr call e).run m = (.ok (.bool true), having #[.int 3]) ∧
      (compareOnce call (.int 0) .less pop [(.less, .int 5)]).run m =
        (.ok (.bool true), having #[.int 3, .int 2]) ∧
      (evalExpr call e).run m ≠
        (compareOnce call (.int 0) .less pop [(.less, .int 5)]).run m := by
  intro call pop e having m
  have zero := run_evalExpr_int call 0
  have five := run_evalExpr_int call 5
  have first : (evalExpr call pop).run m = (.ok (.int 1), having #[.int 3, .int 2]) :=
    run_pop_name call #[.int 3, .int 2] rfl
  have second : (evalExpr call pop).run (having #[.int 3, .int 2]) =
      (.ok (.int 2), having #[.int 3]) := run_pop_name call #[.int 3] rfl
  have twice : (evalExpr call e).run m = (.ok (.bool true), having #[.int 3]) := by
    change (evalExpr call (Grammar.chained none (.int 0) [(.less, pop), (.less, .int 5)])).run m = _
    rw [evalExpr_chained, compareAnew, compareAlong, run_bind_of_ok (zero m), run_bind_of_ok first]
    change (do
      let v ← evalExpr call pop
      let w ← evalExpr call (.int 5)
      compareValues .less v w : Eval Value).run (having #[.int 3, .int 2]) = _
    rw [run_bind_of_ok second, run_bind_of_ok (five _)]
    rfl
  have once : (compareOnce call (.int 0) .less pop [(.less, .int 5)]).run m =
      (.ok (.bool true), having #[.int 3, .int 2]) := by
    rw [compareOnce, compareAlong, run_bind_of_ok (zero m), run_bind_of_ok first]
    change (do
      let v ← pure (.int 1)
      let w ← evalExpr call (.int 5)
      compareValues .less v w : Eval Value).run (having #[.int 3, .int 2]) = _
    rw [pure_bind, run_bind_of_ok (five _)]
    rfl
  refine ⟨by cbv, twice, once, fun same => ?_⟩
  rw [twice, once] at same
  simp [having] at same

end

end DocExamples.Script
