import DocExamples.Proofs.Script.ExpressionNesting
import DocExamples.Proofs.Script.Nesting
/-!
How deep brackets nest in an accepted program: never more than the limit are counted. What is not
counted is the parenthesis around the parameters of a definition, and the bracket of a comprehension
from its `for` on; only the latter may stand inside themselves. The height of the tree and the
nested calls of the reader grow with their number alone.
-/
namespace DocExamples.Script

namespace Grammar

variable {k h : Nat}

/-- Two readers of expressions agree, and what they read is at most `h` high. -/
def Agree (k h : Nat) (expression expression' : Nat → Parse Expr) : Prop :=
  ∀ {budget opened} c, opened.count Opening.counted + budget ≤ maxNesting →
    ReadsFrom k ⟨opened, .none⟩ c (expression budget) (expression' budget)
      (Yields opened Expr.height h)

/-- Nothing is known of what was read but the brackets that are open. -/
abbrev Passed {α : Type} (opened : List Opening) : α → Brackets → Prop :=
  Yields opened (fun _ => 0) 0

theorem agree_expression :
    Agree k (growth * (maxNesting + k + 1)) expression
      (expressionWith (maxNesting + k + 1) .expression) := by
  intro budget opened c within looseWithin a c' given
  have nested := @nested_expressionWith k (c.tokens.length + 1) (maxNesting + k + 1)
  exact nested.expression c within (by omega) looseWithin a c' given

/-! ### Names -/

theorem reads_dottedTail (fuel : Nat) (text : String) (c : Cursor) :
    ReadsFrom k ⟨[], .none⟩ c (dottedTail text fuel) (dottedTail text fuel) (Passed []) := by
  induction fuel generalizing text c with
  | zero => exact .pure ⟨rfl, Nat.le_refl 0⟩
  | succ fuel ih =>
    refine .eat (Nat.zero_le _) (fun c => ?_) (.pure ⟨rfl, Nat.le_refl 0⟩)
    exact .name (fun _ => Nat.zero_le _) fun n c => ih _ c

theorem reads_dottedName (c : Cursor) :
    ReadsFrom k ⟨[], .none⟩ c dottedName dottedName (Passed []) :=
  .name (fun _ => Nat.zero_le _) fun n c => .left (reads_dottedTail _ n c)

theorem reads_newName? (c : Cursor) :
    ReadsFrom k ⟨[], .none⟩ c newName? newName? (Passed []) := by
  refine .eatWord (Nat.zero_le _) (fun c => ?_) (.pure ⟨rfl, Nat.le_refl 0⟩)
  exact .name (fun _ => Nat.zero_le _) fun n c => .pure ⟨rfl, Nat.le_refl 0⟩

theorem reads_importedNames (fuel : Nat) (c : Cursor) :
    ReadsFrom k ⟨[], .none⟩ c (importedNames fuel) (importedNames fuel) (Passed []) := by
  induction fuel generalizing c with
  | zero => exact .unexpected
  | succ fuel ih =>
    apply ReadsFrom.name (fun _ => Nat.zero_le _)
    intro n c
    apply (reads_newName? c).andThen
    intro newName c _
    refine .eat (Nat.zero_le _) (fun c => ?_) (.pure ⟨rfl, Nat.le_refl 0⟩)
    exact (ih c).andThen fun more c _ => .pure ⟨rfl, Nat.le_refl 0⟩

/-! ### Simple statements -/

section

variable {expression expression' : Nat → Parse Expr} {budget : Nat}

theorem Agree.outermost (agree : Agree k h expression expression') (small : budget ≤ maxNesting)
    (c : Cursor) :
    ReadsFrom k ⟨[], .none⟩ c (expression budget) (expression' budget) (Yields [] Expr.height h) := by
  apply agree c
  rw [List.count_nil, Nat.zero_add]
  exact small

theorem reads_toTarget {e : Expr} (bound : e.height ≤ h) (c : Cursor) :
    ReadsFrom k ⟨[], .none⟩ c (toTarget e) (toTarget e) (Yields [] Target.height h) := by
  unfold toTarget
  split
  · next found => exact .pure ⟨rfl, Nat.le_trans (Expr.height_toTarget? found) bound⟩
  · exact .fail

theorem reads_expressionList (agree : Agree k h expression expression')
    (small : budget ≤ maxNesting) (c : Cursor) :
    ReadsFrom k ⟨[], .none⟩ c (expressionList expression budget) (expressionList expression' budget)
      (Yields [] Expr.height (h + 1)) :=
  reads_expressionListOf (Nat.zero_le _) (agree.outermost small) c

theorem reads_optionalExpressionList (agree : Agree k h expression expression')
    (small : budget ≤ maxNesting) (c : Cursor) :
    ReadsFrom k ⟨[], .none⟩ c (optionalExpressionList expression budget)
      (optionalExpressionList expression' budget) (Yields [] Expr.optionHeight (h + 1)) := by
  apply ReadsFrom.atLineEnd
  intro lineEnd
  apply ReadsFrom.isNext
  intro semicolon
  split
  · exact .pure ⟨rfl, Nat.zero_le _⟩
  · exact (reads_expressionList agree small c).map fun e bound => bound

theorem reads_assignmentTail (agree : Agree k h expression expression')
    (small : budget ≤ maxNesting) (fuel : Nat) {targets : List Target}
    (bound : Target.heights targets ≤ h + 1) (c : Cursor) :
    ReadsFrom k ⟨[], .none⟩ c (assignmentTail expression budget targets fuel)
      (assignmentTail expression' budget targets fuel) (Yields [] Stmt.height (h + 2)) := by
  induction fuel generalizing targets c with
  | zero => exact .fail
  | succ fuel ih =>
    apply (reads_expressionList agree small c).andThen
    intro value c valueBound
    apply ReadsFrom.eat (Nat.zero_le _)
    · intro c
      apply (reads_toTarget valueBound c).andThen
      intro t c targetBound
      apply ih
      rw [Target.heights_append]
      exact Nat.max_le.mpr ⟨bound, Nat.max_le.mpr ⟨targetBound, Nat.zero_le _⟩⟩
    · exact .pure ⟨rfl, Nat.succ_le_succ (Nat.max_le.mpr ⟨bound, valueBound⟩)⟩

theorem take_of_augmentedOp? {token : Token} {op : BinaryOp}
    (found : augmentedOp? (some token) = some op) (opened : List Opening) :
    Brackets.take ⟨opened, .none⟩ token = ⟨opened, .none⟩ := by
  unfold augmentedOp? at found
  split at found
  · next same => cases same; rfl
  · next same => cases same; rfl
  · next same => cases same; rfl
  · next same => cases same; rfl
  · cases found

theorem reads_expressionStatement (agree : Agree k h expression expression')
    (small : budget ≤ maxNesting) (c : Cursor) :
    ReadsFrom k ⟨[], .none⟩ c (expressionStatement expression budget)
      (expressionStatement expression' budget) (Yields [] Stmt.height (h + 2)) := by
  apply (reads_expressionList agree small c).andThen
  intro first c firstBound
  have plain (c : Cursor) : ReadsFrom k ⟨[], .none⟩ c
      (do if !(← Parse.eat .equal) then return .expr first
          let target ← toTarget first
          assignmentTail expression budget [target] ((← Parse.left) + 1))
      (do if !(← Parse.eat .equal) then return .expr first
          let target ← toTarget first
          assignmentTail expression' budget [target] ((← Parse.left) + 1))
      (Yields [] Stmt.height (h + 2)) := by
    apply ReadsFrom.eat (Nat.zero_le _)
    · intro c
      apply (reads_toTarget firstBound c).andThen
      intro t c targetBound
      apply ReadsFrom.left
      apply reads_assignmentTail agree small
      exact Nat.max_le.mpr ⟨targetBound, Nat.zero_le _⟩
    · exact .pure ⟨rfl, Nat.succ_le_succ firstBound⟩
  apply ReadsFrom.peek?
  cases head : c.tokens.head? with
  | none => exact plain c
  | some token =>
    cases known : augmentedOp? (some token) with
    | none => exact plain c
    | some op =>
      apply ReadsFrom.skipPlain head (take_of_augmentedOp? known []) (Nat.zero_le _)
      intro c
      apply (reads_expressionList agree small c).andThen
      intro value c valueBound
      apply (reads_toTarget firstBound c).andThen
      intro t c targetBound
      exact .pure ⟨rfl, Nat.succ_le_succ (Nat.max_le.mpr ⟨targetBound, valueBound⟩)⟩

theorem reads_assert (agree : Agree k h expression expression') (small : budget ≤ maxNesting)
    (c : Cursor) :
    ReadsFrom k ⟨[], .none⟩ c
      (do let condition ← expression budget
          let message ← if ← Parse.eat .comma then some <$> expression budget else pure none
          return .assert condition message)
      (do let condition ← expression' budget
          let message ← if ← Parse.eat .comma then some <$> expression' budget else pure none
          return .assert condition message)
      (Yields [] Stmt.height (h + 2)) := by
  apply (agree.outermost small c).andThen
  intro condition c conditionBound
  have height {message : Option Expr} (bound : Expr.optionHeight message ≤ h) :
      (Stmt.assert condition message).height ≤ h + 2 := by
    rw [Stmt.height]
    omega
  have message (c : Cursor) : ReadsFrom k ⟨[], .none⟩ c (some <$> expression budget)
      (some <$> expression' budget) (Yields [] Expr.optionHeight h) :=
    (agree.outermost small c).map fun e bound => bound
  apply ReadsFrom.eat (Nat.zero_le _)
  · intro c
    exact (message c).andThen fun found c bound => .pure ⟨rfl, height bound⟩
  · exact .of_stay rfl (.pure ⟨rfl, height (Nat.zero_le h)⟩)

theorem reads_simpleStatement (agree : Agree k h expression expression')
    (small : budget ≤ maxNesting) (c : Cursor) :
    ReadsFrom k ⟨[], .none⟩ c (simpleStatement expression budget)
      (simpleStatement expression' budget) (Yields [] Stmt.height (h + 2)) := by
  have leaf {s : Stmt} (isLeaf : s.height = 1) : Yields [] Stmt.height (h + 2) s ⟨[], .none⟩ :=
    ⟨rfl, by omega⟩
  refine .eatWord (Nat.zero_le _) (fun c => .pure (leaf rfl)) ?_
  refine .eatWord (Nat.zero_le _) (fun c => .pure (leaf rfl)) ?_
  refine .eatWord (Nat.zero_le _) (fun c => .pure (leaf rfl)) ?_
  refine .eatWord (Nat.zero_le _) (fun c => ?giveBack) ?_
  case giveBack =>
    apply (reads_optionalExpressionList agree small c).andThen
    intro value c bound
    exact .pure ⟨rfl, Nat.succ_le_succ bound⟩
  refine .eatWord (Nat.zero_le _) (fun c => ?raise) ?_
  case raise =>
    apply (reads_optionalExpressionList agree small c).andThen
    intro value c bound
    exact .pure ⟨rfl, Nat.succ_le_succ bound⟩
  refine .eatWord (Nat.zero_le _) (fun c => reads_assert agree small c) ?_
  refine .eatWord (Nat.zero_le _) (fun c => ?delete) ?_
  case delete =>
    apply (agree.outermost small c).andThen
    intro e c bound
    apply (reads_toTarget bound c).andThen
    intro t c bound
    exact .pure ⟨rfl, Nat.succ_le_succ (Nat.le_succ_of_le bound)⟩
  refine .eatWord (Nat.zero_le _) (fun c => ?importModule) ?_
  case importModule =>
    apply (reads_dottedName c).andThen
    intro n c _
    exact (reads_newName? c).andThen fun newName c _ => .pure (leaf rfl)
  refine .eatWord (Nat.zero_le _) (fun c => ?importNames) ?_
  case importNames =>
    apply (reads_dottedName c).andThen
    intro n c _
    refine .consumeWord (Nat.zero_le _) fun c => .left ?_
    exact (reads_importedNames _ c).andThen fun names c _ => .pure (leaf rfl)
  exact reads_expressionStatement agree small c

theorem reads_statementTail (agree : Agree k h expression expression')
    (small : budget ≤ maxNesting) (fuel : Nat) (c : Cursor) :
    ReadsFrom k ⟨[], .none⟩ c (statementTail expression budget fuel)
      (statementTail expression' budget fuel) (Yields [] Stmt.heights (h + 2)) := by
  induction fuel generalizing c with
  | zero => exact .pure ⟨rfl, Nat.zero_le _⟩
  | succ fuel ih =>
    refine .eat (Nat.zero_le _) (fun c => ?_) (.pure ⟨rfl, Nat.zero_le _⟩)
    apply ReadsFrom.atLineEnd
    intro lineEnd
    split
    · exact .pure ⟨rfl, Nat.zero_le _⟩
    · apply (reads_simpleStatement agree small c).andThen
      intro s c first
      apply (ih c).andThen
      intro more c others
      exact .pure ⟨rfl, Nat.max_le.mpr ⟨first, others⟩⟩

theorem reads_simpleLine (agree : Agree k h expression expression')
    (small : budget ≤ maxNesting) (c : Cursor) :
    ReadsFrom k ⟨[], .none⟩ c (simpleLine expression budget) (simpleLine expression' budget)
      (Yields [] Stmt.heights (h + 2)) := by
  apply (reads_simpleStatement agree small c).andThen
  intro s c first
  apply ReadsFrom.left
  apply (reads_statementTail agree small _ c).andThen
  intro more c others
  apply ReadsFrom.atLineEnd
  intro lineEnd
  split
  · exact .of_error rfl
  · exact .pure ⟨rfl, Nat.max_le.mpr ⟨first, others⟩⟩

end

/-! ### Blocks -/

theorem passes_dropNewlines (indent : Nat) (tokens : List Token) :
    ∃ taken, tokens = taken ++ (Parse.dropNewlines indent tokens).2 ∧
      Brackets.Passes ⟨[], .none⟩ taken ⟨[], .none⟩ := by
  fun_induction Parse.dropNewlines indent tokens with
  | case1 _ width rest ih =>
    obtain ⟨taken, same, passes⟩ := ih
    refine ⟨.newline width :: taken, ?_, .cons (Nat.zero_le _) passes⟩
    rw [List.cons_append, ← same]
  | case2 => exact ⟨[], rfl, .nil⟩

theorem reads_skipNewlines (c : Cursor) :
    ReadsFrom k ⟨[], .none⟩ c Parse.skipNewlines Parse.skipNewlines (Passed []) := by
  intro _ _ c' given
  obtain ⟨taken, tokens, passes⟩ := passes_dropNewlines c.indent c.tokens
  cases given
  exact ⟨rfl, taken, _, tokens, passes, rfl, Nat.le_refl 0⟩

section

variable {line line' : Parse (List Stmt)} {m : Nat}

theorem reads_blockLines (reads : ∀ c, ReadsFrom k ⟨[], .none⟩ c line line' (Yields [] Stmt.heights m))
    (inner fuel : Nat) (c : Cursor) :
    ReadsFrom k ⟨[], .none⟩ c (blockLines line inner fuel) (blockLines line' inner fuel)
      (Yields [] Stmt.heights m) := by
  induction fuel generalizing c with
  | zero => exact .pure ⟨rfl, Nat.zero_le _⟩
  | succ fuel ih =>
    apply (reads c).andThen
    intro stmts c first
    apply (reads_skipNewlines c).andThen
    intro _ c _
    apply ReadsFrom.get
    split
    · exact .pure ⟨rfl, first⟩
    · dsimp only
      split
      · exact .of_error rfl
      · refine (ih c).andThen fun more c others => .pure ⟨rfl, ?_⟩
        rw [Stmt.heights_append]
        exact Nat.max_le.mpr ⟨first, others⟩

end

section

variable {expression expression' : Nat → Parse Expr} {budget m : Nat}

theorem reads_block (agree : Agree k h expression expression') (small : budget ≤ maxNesting)
    {line line' : Nat → Parse (List Stmt)}
    (reads : ∀ inner c, ReadsFrom k ⟨[], .none⟩ c (line inner) (line' inner) (Yields [] Stmt.heights m))
    (large : h + 2 ≤ m) (indent : Nat) (c : Cursor) :
    ReadsFrom k ⟨[], .none⟩ c (block expression line budget indent)
      (block expression' line' budget indent) (Yields [] Stmt.heights m) := by
  apply ReadsFrom.consume (Nat.zero_le _)
  intro c
  apply ReadsFrom.atLineEnd
  intro lineEnd
  split
  · exact (reads_simpleLine agree small c).higher large
  · apply (reads_skipNewlines c).andThen
    intro _ c _
    apply ReadsFrom.get
    dsimp only
    split
    · exact .of_error rfl
    · exact reads_blockLines (reads c.indent) _ _ c

/-- After line ends the reader goes on, or it stops with a result where it was before them. -/
theorem reads_skipNewlines_or {α : Type} {f g : Unit → Parse α} {post : α → Brackets → Prop}
    (c : Cursor)
    (next : ∀ c', (∃ a, f () c' = .ok (a, c) ∧ g () c' = .ok (a, c) ∧ post a ⟨[], .none⟩) ∨
      ReadsFrom k ⟨[], .none⟩ c' (f ()) (g ()) post) :
    ReadsFrom k ⟨[], .none⟩ c (Parse.skipNewlines >>= f) (Parse.skipNewlines >>= g) post := by
  have skipped : Parse.skipNewlines c = .ok ((), ⟨(Parse.dropNewlines c.indent c.tokens).2,
      (Parse.dropNewlines c.indent c.tokens).1⟩) := rfl
  rcases next ⟨(Parse.dropNewlines c.indent c.tokens).2, (Parse.dropNewlines c.indent c.tokens).1⟩
    with ⟨a, run, run', met⟩ | reads
  · intro _ a' c' given
    obtain ⟨_, _, read, later⟩ := ReadsFrom.parse_bind_eq_ok.mp given
    rw [skipped] at read
    cases read
    rw [run] at later
    cases later
    exact ⟨ReadsFrom.parse_bind_eq_ok.mpr ⟨_, _, skipped, run'⟩, [], _, rfl, .nil, met⟩
  · apply (reads_skipNewlines c).bind_of_run
    intro _ c' last read met
    rw [skipped] at read
    cases read
    obtain ⟨rfl, -⟩ := met
    exact reads

/-- The greatest height in the branches of a conditional. -/
def branchesHeight (found : List (Expr × List Stmt) × List Stmt) : Nat :=
  max (Stmt.branchHeights found.1) (Stmt.heights found.2)

theorem reads_branches (agree : Agree k h expression expression') (small : budget ≤ maxNesting)
    {suite suite' : Parse (List Stmt)}
    (reads : ∀ c, ReadsFrom k ⟨[], .none⟩ c suite suite' (Yields [] Stmt.heights m))
    (large : h ≤ m) (indent fuel : Nat) (c : Cursor) :
    ReadsFrom k ⟨[], .none⟩ c (branches expression suite budget indent fuel)
      (branches expression' suite' budget indent fuel) (Yields [] branchesHeight m) := by
  induction fuel generalizing c with
  | zero => exact .pure ⟨rfl, Nat.zero_le _⟩
  | succ fuel ih =>
    apply ReadsFrom.get
    apply reads_skipNewlines_or
    intro c'
    by_cases same : c'.indent = indent
    · rcases ReadsFrom.eatWord_cases .elifKw c' with ⟨rest, shape, run⟩ | run
      · right
        apply ReadsFrom.get
        dsimp only
        rw [if_pos same, if_pos same]
        apply ReadsFrom.of_take shape run (Nat.zero_le _)
        apply (agree.outermost small _).andThen
        intro condition c bound
        apply (reads c).andThen
        intro body c bodyBound
        refine (ih c).andThen fun found c others => .pure ⟨rfl, ?_⟩
        change max (Stmt.branchHeights found.1) (Stmt.heights found.2) ≤ m at others
        change max (max (max condition.height (Stmt.heights body)) (Stmt.branchHeights found.1))
          (Stmt.heights found.2) ≤ m
        omega
      · rcases ReadsFrom.eatWord_cases .elseKw c' with ⟨rest, shape, run'⟩ | run'
        · right
          apply ReadsFrom.get
          dsimp only
          rw [if_pos same, if_pos same]
          apply ReadsFrom.of_stay run
          apply ReadsFrom.of_take shape run' (Nat.zero_le _)
          refine (reads _).andThen fun body c bound => .pure ⟨rfl, ?_⟩
          exact Nat.max_le.mpr ⟨Nat.zero_le m, bound⟩
        · left
          refine ⟨([], []), ?_, ?_, rfl, Nat.zero_le _⟩
          all_goals
            apply ReadsFrom.parse_bind_eq_ok.mpr ⟨c', c', rfl, ?_⟩
            dsimp only
            rw [if_pos same]
            exact ReadsFrom.parse_bind_eq_ok.mpr ⟨_, _, run,
              ReadsFrom.parse_bind_eq_ok.mpr ⟨_, _, run', rfl⟩⟩
    · left
      refine ⟨([], []), ?_, ?_, rfl, Nat.zero_le _⟩
      all_goals
        apply ReadsFrom.parse_bind_eq_ok.mpr ⟨c', c', rfl, ?_⟩
        dsimp only
        rw [if_neg same]
        rfl

theorem reads_parameters (agree : Agree k h expression expression') (small : budget ≤ maxNesting)
    (fuel : Nat) (c : Cursor) :
    ReadsFrom k ⟨[.loose], .none⟩ c (parameters expression budget fuel)
      (parameters expression' budget fuel) (Yields [] Expr.parameterHeights h) := by
  have default (c : Cursor) : ReadsFrom k ⟨[.loose], .none⟩ c (some <$> expression budget)
      (some <$> expression' budget) (Yields [.loose] Expr.optionHeight h) := by
    have counted : [Opening.loose].count .counted + budget ≤ maxNesting := by
      rwa [List.count_singleton, if_neg (by decide), Nat.zero_add]
    exact (agree c counted).map fun e bound => bound
  induction fuel generalizing c with
  | zero => exact .unexpected
  | succ fuel ih =>
    refine .eat (Nat.zero_le _) (fun c => .pure ⟨rfl, Nat.zero_le h⟩) ?_
    apply ReadsFrom.name (fun _ => Nat.zero_le _)
    intro n c
    -- What follows a parameter and its default.
    have rest {e : Option Expr} (bound : Expr.optionHeight e ≤ h) (c : Cursor) :
        ReadsFrom k ⟨[.loose], .none⟩ c
          (do if ← Parse.eat .comma then return (n, e) :: (← parameters expression budget fuel)
              Parse.consume .rightParen "`)`"
              return [(n, e)])
          (do if ← Parse.eat .comma then return (n, e) :: (← parameters expression' budget fuel)
              Parse.consume .rightParen "`)`"
              return [(n, e)])
          (Yields [] Expr.parameterHeights h) := by
      apply ReadsFrom.eat (Nat.zero_le _)
      · intro c
        apply (ih c).andThen
        intro more c others
        exact .pure ⟨rfl, Nat.max_le.mpr ⟨bound, others⟩⟩
      · apply ReadsFrom.consume (Nat.zero_le _)
        intro c
        exact .pure ⟨rfl, Nat.max_le.mpr ⟨bound, Nat.zero_le h⟩⟩
    apply ReadsFrom.eat (Nat.zero_le _)
    · intro c
      exact (default c).andThen fun e c bound => rest bound c
    · exact .of_stay rfl (rest (e := none) (Nat.zero_le h) c)

/-! ### Lines -/

theorem reads_lineWith (agree : Agree k h expression expression') (small : budget ≤ maxNesting)
    {suite suite' : Parse (List Stmt)}
    (reads : ∀ c, ReadsFrom k ⟨[], .none⟩ c suite suite' (Yields [] Stmt.heights m))
    (large : h + 2 ≤ m) (room : budget + 2 ≤ m) (indent : Nat) (c : Cursor) :
    ReadsFrom k ⟨[], .none⟩ c (lineWith expression suite budget indent)
      (lineWith expression' suite' budget indent) (Yields [] Stmt.heights (m + 1)) := by
  have single {s : Stmt} (bound : s.height ≤ m + 1) : Yields [] Stmt.heights (m + 1) [s] ⟨[], .none⟩ :=
    ⟨rfl, Nat.max_le.mpr ⟨bound, Nat.zero_le _⟩⟩
  have targets : [].count Opening.counted + budget ≤ maxNesting := by
    rwa [List.count_nil, Nat.zero_add]
  refine .eatWord (Nat.zero_le _) (fun c => ?forLoop) ?_
  case forLoop =>
    refine (reads_targetListOf (Nat.zero_le _) (reads_targetAtom targets) c).andThen
      fun target c targetBound => ?_
    apply ReadsFrom.consumeWord (Nat.zero_le _)
    intro c
    apply (reads_expressionList agree small c).andThen
    intro source c sourceBound
    refine (reads c).andThen fun body c bodyBound => .pure (single ?_)
    rw [Stmt.height]
    omega
  refine .eatWord (Nat.zero_le _) (fun c => ?whileLoop) ?_
  case whileLoop =>
    apply (agree.outermost small c).andThen
    intro condition c bound
    refine (reads c).andThen fun body c bodyBound => .pure (single ?_)
    rw [Stmt.height]
    omega
  refine .eatWord (Nat.zero_le _) (fun c => ?conditional) ?_
  case conditional =>
    apply (agree.outermost small c).andThen
    intro condition c bound
    apply (reads c).andThen
    intro body c bodyBound
    apply ReadsFrom.left
    have others := reads_branches agree small reads (Nat.le_of_add_right_le large)
    refine (others indent _ c).andThen fun found c within => .pure (single ?_)
    change max (Stmt.branchHeights found.1) (Stmt.heights found.2) ≤ m at within
    rw [Stmt.height, Stmt.branchHeights]
    omega
  refine .eatWord (Nat.zero_le _) (fun c => ?define) ?_
  case define =>
    apply ReadsFrom.name (fun _ => Nat.zero_le _)
    intro n c
    apply ReadsFrom.consume (Nat.zero_le _)
    intro c
    apply ReadsFrom.left
    apply (reads_parameters agree small _ c).andThen
    intro params c paramsBound
    refine (reads c).andThen fun body c bodyBound => .pure (single ?_)
    rw [Stmt.height]
    omega
  exact (reads_simpleLine agree small c).higher (Nat.le_succ_of_le large)

theorem reads_line (agree : Agree k h expression expression') (small : budget ≤ maxNesting)
    (indent : Nat) (c : Cursor) :
    ReadsFrom k ⟨[], .none⟩ c (line expression budget indent) (line expression' budget indent)
      (Yields [] Stmt.heights (h + 3 + budget)) := by
  induction budget generalizing indent c with
  | zero => exact reads_lineWith agree small (fun c => .fail) (Nat.le_refl _) (Nat.le_add_left 2 h) indent c
  | succ budget ih =>
    have inner := ih (Nat.le_of_succ_le small)
    have suite := reads_block agree (Nat.le_of_succ_le small) inner (by omega) indent
    exact reads_lineWith agree small suite (by omega) (by omega) indent c

theorem reads_programLines (agree : Agree k h expression expression') (base fuel : Nat) (c : Cursor) :
    ReadsFrom k ⟨[], .none⟩ c (programLines expression base fuel)
      (programLines expression' base fuel) (Yields [] Stmt.heights (h + 3 + maxNesting)) := by
  induction fuel generalizing c with
  | zero => exact .fail
  | succ fuel ih =>
    apply ReadsFrom.get
    split
    · exact .pure ⟨rfl, Nat.zero_le _⟩
    · dsimp only
      split
      · exact .of_error rfl
      · apply (reads_line agree (Nat.le_refl _) base c).andThen
        intro stmts c first
        apply (reads_skipNewlines c).andThen
        intro _ c _
        refine (ih c).andThen fun more c others => .pure ⟨rfl, ?_⟩
        rw [Stmt.heights_append]
        exact Nat.max_le.mpr ⟨first, others⟩

theorem reads_program (agree : Agree k h expression expression') (c : Cursor) :
    ReadsFrom k ⟨[], .none⟩ c (program expression) (program expression')
      (Yields [] Stmt.heights (h + 3 + maxNesting)) := by
  apply (reads_skipNewlines c).andThen
  intro _ c _
  apply ReadsFrom.get
  exact reads_programLines agree _ _ c

theorem tokens_of_programLines {base fuel : Nat} {c c' : Cursor} {stmts : List Stmt}
    (given : programLines expression base fuel c = .ok (stmts, c')) : c'.tokens = [] := by
  induction fuel generalizing c stmts with
  | zero => cases given
  | succ fuel ih =>
    obtain ⟨_, _, read, rest⟩ := ReadsFrom.parse_bind_eq_ok.mp given
    cases read
    split at rest
    · next empty =>
      cases rest
      exact List.isEmpty_iff.mp empty
    · dsimp only at rest
      split at rest
      · cases rest
      · obtain ⟨first, _, _, rest⟩ := ReadsFrom.parse_bind_eq_ok.mp rest
        obtain ⟨_, _, _, rest⟩ := ReadsFrom.parse_bind_eq_ok.mp rest
        obtain ⟨more, _, later, done⟩ := ReadsFrom.parse_bind_eq_ok.mp rest
        cases done
        exact ih later

theorem tokens_of_program {c c' : Cursor} {stmts : List Stmt}
    (given : program expression c = .ok (stmts, c')) : c'.tokens = [] := by
  obtain ⟨_, _, _, rest⟩ := ReadsFrom.parse_bind_eq_ok.mp given
  obtain ⟨_, _, _, lines⟩ := ReadsFrom.parse_bind_eq_ok.mp rest
  exact tokens_of_programLines lines

end

end Grammar

/-- The greatest height of a program in which at most `k` loose brackets are open at once. -/
def heightLimit (k : Nat) : Nat := Grammar.growth * (maxNesting + k + 1) + 3 + maxNesting

/-- What holds of the tokens and the tree of an accepted program. -/
structure NestingBounded (found : List Token) (stmts : List Stmt) : Prop where
  /-- Nowhere are more brackets open than the limit and those that do not count. -/
  brackets : ∀ front, front <+: found →
    (Brackets.none.after front).depth ≤ maxNesting + (Brackets.none.after front).loose
  height : ∀ k, Brackets.none.LooseWithin k found → ∀ s ∈ stmts, s.height ≤ heightLimit k
  /-- A reader of expressions that nests no more calls than this reads the same program. -/
  calls : ∀ k, Brackets.none.LooseWithin k found → ∃ c,
    Grammar.program (Grammar.expressionWith (maxNesting + k + 1) .expression) ⟨found, 0⟩ =
      .ok (stmts, c)

theorem nesting_of_parse {source : String} {stmts : List Stmt} (accepted : parse source = .ok stmts) :
    ∃ found, tokens source = .ok found ∧ NestingBounded found stmts := by
  obtain ⟨found, split, rest⟩ := bind_eq_ok.mp accepted
  obtain ⟨⟨read, c⟩, given, same⟩ := bind_eq_ok.mp rest
  cases same
  have reads (k : Nat) (within : Brackets.none.LooseWithin k found) :=
    Grammar.reads_program Grammar.agree_expression ⟨found, 0⟩ within stmts c given
  refine ⟨found, split, fun front isFront => ?_, fun k within => ?_, fun k within => ?_⟩
  · obtain ⟨-, taken, last, tokens, passes, -⟩ := reads _ (Brackets.looseWithin_length found)
    have all : c.tokens = [] := Grammar.tokens_of_program given
    rw [all, List.append_nil] at tokens
    obtain rfl : found = taken := tokens
    rw [Brackets.depth_eq]
    exact Nat.add_le_add_right (passes.counted_le (Nat.zero_le _) isFront) _
  · obtain ⟨-, -, -, -, -, -, bound⟩ := reads k within
    exact Stmt.heights_le.mp bound
  · exact ⟨c, (reads k within).1⟩

theorem nesting_of_parse_list :
    ∃ found, tokens "[x]" = .ok found ∧ NestingBounded found [.expr (.list [.name "x"])] :=
  nesting_of_parse rfl

end DocExamples.Script
