import DocExamples.Proofs.Script.Brackets
import DocExamples.Proofs.Script.TreeHeight
/-!
How deep brackets nest in the tokens of an expression, how high its tree is, and how often its
reader calls itself inside itself. The budget of a reader, together with the brackets that are
counted, never exceeds the limit.
-/
namespace DocExamples.Script

/-- The brackets are open that were, and what was read has a size of at most `h`. -/
def Yields {α : Type} (opened : List Opening) (size : α → Nat) (h : Nat) (a : α) (last : Brackets) :
    Prop := last = ⟨opened, .none⟩ ∧ size a ≤ h

theorem ReadsFrom.andThen {α β : Type} {k h : Nat} {b : Brackets} {c : Cursor}
    {opened : List Opening} {p q : Parse α} {f g : α → Parse β} {size : α → Nat}
    {post : β → Brackets → Prop} (first : ReadsFrom k b c p q (Yields opened size h))
    (next : ∀ a c, size a ≤ h → ReadsFrom k ⟨opened, .none⟩ c (f a) (g a) post) :
    ReadsFrom k b c (p >>= f) (q >>= g) post := by
  apply first.bind
  intro a c' last met
  obtain ⟨rfl, bound⟩ := met
  exact next a c' bound

theorem ReadsFrom.map {α β : Type} {k h m : Nat} {b : Brackets} {c : Cursor}
    {opened : List Opening} {p q : Parse α} {f : α → β} {size : α → Nat} {size' : β → Nat}
    (reads : ReadsFrom k b c p q (Yields opened size h))
    (bound : ∀ a, size a ≤ h → size' (f a) ≤ m) :
    ReadsFrom k b c (f <$> p) (f <$> q) (Yields opened size' m) := by
  rw [← bind_pure_comp, ← bind_pure_comp]
  exact reads.andThen fun a c le => .pure ⟨rfl, bound a le⟩

theorem ReadsFrom.higher {α : Type} {k h m : Nat} {b : Brackets} {c : Cursor}
    {opened : List Opening} {p q : Parse α} {size : α → Nat}
    (reads : ReadsFrom k b c p q (Yields opened size h)) (le : h ≤ m) :
    ReadsFrom k b c p q (Yields opened size m) :=
  reads.weaken fun _ _ met => ⟨met.1, Nat.le_trans met.2 le⟩

namespace Grammar

variable {k : Nat} {opened : List Opening} {h m : Nat}

/-- One more bracket may count. -/
theorem counted_within (inside : opened.count .counted < maxNesting) :
    (Opening.counted :: opened).count .counted ≤ maxNesting := by
  rwa [List.count_cons_self]

theorem count_loose_cons : (Opening.loose :: opened).count .counted = opened.count .counted :=
  List.count_cons_of_ne (by decide)

/-! ### Targets -/

section

variable {atom atom' : Parse Target}

theorem reads_targetTail (within : opened.count .counted ≤ maxNesting)
    (reads : ∀ c, ReadsFrom k ⟨opened, .none⟩ c atom atom' (Yields opened Target.height h))
    (fuel : Nat) (c : Cursor) :
    ReadsFrom k ⟨opened, .none⟩ c (targetTail atom fuel) (targetTail atom' fuel)
      (Yields opened Target.heights h) := by
  induction fuel generalizing c with
  | zero => exact .pure ⟨rfl, Nat.zero_le h⟩
  | succ fuel ih =>
    refine .eat within (fun c => ?_) (.pure ⟨rfl, Nat.zero_le h⟩)
    apply ReadsFrom.peek?
    split
    · exact .pure ⟨rfl, Nat.zero_le h⟩
    · apply (reads c).andThen
      intro t c first
      apply (ih c).andThen
      intro more c others
      exact .pure ⟨rfl, Nat.max_le.mpr ⟨first, others⟩⟩

theorem reads_targetListOf (within : opened.count .counted ≤ maxNesting)
    (reads : ∀ c, ReadsFrom k ⟨opened, .none⟩ c atom atom' (Yields opened Target.height h))
    (c : Cursor) :
    ReadsFrom k ⟨opened, .none⟩ c (targetListOf atom) (targetListOf atom')
      (Yields opened Target.height (h + 1)) := by
  apply (reads c).andThen
  intro t c first
  apply ReadsFrom.isNext
  intro comma
  split
  · exact .pure ⟨rfl, Nat.le_succ_of_le first⟩
  · apply ReadsFrom.left
    apply (reads_targetTail within reads _ c).andThen
    intro more c others
    exact .pure ⟨rfl, Nat.succ_le_succ (Nat.max_le.mpr ⟨first, others⟩)⟩

end

/-- Each level of parentheses takes one from the budget. -/
theorem reads_targetAtom {budget : Nat} (within : opened.count .counted + budget ≤ maxNesting)
    (c : Cursor) :
    ReadsFrom k ⟨opened, .none⟩ c (targetAtom budget) (targetAtom budget)
      (Yields opened Target.height (budget + 1)) := by
  induction budget generalizing opened c with
  | zero =>
    refine .eatNone (fun c => ⟨_, rfl⟩) ?_
    exact .name (fun _ => within) fun n c => .pure ⟨rfl, Nat.le_refl 1⟩
  | succ budget ih =>
    have inside : (Opening.counted :: opened).count .counted + budget ≤ maxNesting := by
      rw [List.count_cons_self]
      omega
    refine .eat (Nat.le_of_add_right_le inside) (fun c => ?_) ?_
    · refine (reads_targetListOf (Nat.le_of_add_right_le inside) (ih inside) c).andThen
        fun t c bound => ?_
      apply ReadsFrom.consume (Nat.le_of_add_right_le within)
      intro c
      exact .pure ⟨rfl, bound⟩
    · apply ReadsFrom.name (fun _ => Nat.le_of_add_right_le within)
      intro n c
      exact .pure ⟨rfl, Nat.le_add_left 1 _⟩

/-! ### Displays, subscripts and arguments -/

section

variable {expression expression' : Parse Expr}

theorem reads_expressionTail (within : opened.count .counted ≤ maxNesting)
    (reads : ∀ c, ReadsFrom k ⟨opened, .none⟩ c expression expression' (Yields opened Expr.height h))
    (fuel : Nat) (c : Cursor) :
    ReadsFrom k ⟨opened, .none⟩ c (expressionTail expression fuel) (expressionTail expression' fuel)
      (Yields opened Expr.heights h) := by
  induction fuel generalizing c with
  | zero => exact .pure ⟨rfl, Nat.zero_le h⟩
  | succ fuel ih =>
    refine .eat within (fun c => ?_) (.pure ⟨rfl, Nat.zero_le h⟩)
    apply ReadsFrom.peek?
    split
    · exact .pure ⟨rfl, Nat.zero_le h⟩
    · apply (reads c).andThen
      intro e c first
      apply (ih c).andThen
      intro more c others
      exact .pure ⟨rfl, Nat.max_le.mpr ⟨first, others⟩⟩

theorem reads_expressionListOf (within : opened.count .counted ≤ maxNesting)
    (reads : ∀ c, ReadsFrom k ⟨opened, .none⟩ c expression expression' (Yields opened Expr.height h))
    (c : Cursor) :
    ReadsFrom k ⟨opened, .none⟩ c (expressionListOf expression) (expressionListOf expression')
      (Yields opened Expr.height (h + 1)) := by
  apply (reads c).andThen
  intro e c first
  apply ReadsFrom.isNext
  intro comma
  split
  · exact .pure ⟨rfl, Nat.le_succ_of_le first⟩
  · apply ReadsFrom.left
    apply (reads_expressionTail within reads _ c).andThen
    intro more c others
    exact .pure ⟨rfl, Nat.succ_le_succ (Nat.max_le.mpr ⟨first, others⟩)⟩

theorem reads_bracketTail (within : opened.count .counted ≤ maxNesting)
    (reads : ∀ c, ReadsFrom k ⟨opened, .none⟩ c expression expression' (Yields opened Expr.height h))
    (fuel : Nat) (c : Cursor) :
    ReadsFrom k ⟨opened, .none⟩ c (bracketTail expression fuel) (bracketTail expression' fuel)
      (Yields opened Expr.heights h) := by
  induction fuel generalizing c with
  | zero => exact .pure ⟨rfl, Nat.zero_le h⟩
  | succ fuel ih =>
    refine .eat within (fun c => ?_) (.pure ⟨rfl, Nat.zero_le h⟩)
    apply ReadsFrom.isNext
    intro close
    split
    · exact .pure ⟨rfl, Nat.zero_le h⟩
    · apply (reads c).andThen
      intro e c first
      apply (ih c).andThen
      intro more c others
      exact .pure ⟨rfl, Nat.max_le.mpr ⟨first, others⟩⟩

theorem reads_dictEntries (inside : opened.count .counted < maxNesting)
    (reads : ∀ c, ReadsFrom k ⟨.counted :: opened, .none⟩ c expression expression'
      (Yields (.counted :: opened) Expr.height h)) (fuel : Nat) (c : Cursor) :
    ReadsFrom k ⟨.counted :: opened, .none⟩ c (dictEntries expression fuel)
      (dictEntries expression' fuel) (Yields opened Expr.entryHeights h) := by
  have within := counted_within inside
  have outside : opened.count .counted ≤ maxNesting := Nat.le_of_lt inside
  induction fuel generalizing c with
  | zero => exact .unexpected
  | succ fuel ih =>
    refine .eat outside (fun c => .pure ⟨rfl, Nat.zero_le h⟩) ?_
    apply (reads c).andThen
    intro key c keyBound
    refine .consume within fun c => ?_
    apply (reads c).andThen
    intro value c valueBound
    have entry := Nat.max_le.mpr ⟨keyBound, valueBound⟩
    refine .eat within (fun c => ?_) ?_
    · apply (ih c).andThen
      intro more c others
      exact .pure ⟨rfl, Nat.max_le.mpr ⟨entry, others⟩⟩
    · refine .consume outside fun c => ?_
      exact .pure ⟨rfl, Nat.max_le.mpr ⟨entry, Nat.zero_le h⟩⟩

theorem reads_sliceBound
    (reads : ∀ c, ReadsFrom k ⟨opened, .none⟩ c expression expression' (Yields opened Expr.height h))
    (c : Cursor) :
    ReadsFrom k ⟨opened, .none⟩ c (sliceBound expression) (sliceBound expression')
      (Yields opened Expr.optionHeight h) := by
  apply ReadsFrom.peek?
  split
  · exact .pure ⟨rfl, Nat.zero_le h⟩
  · exact .pure ⟨rfl, Nat.zero_le h⟩
  · exact .pure ⟨rfl, Nat.zero_le h⟩
  · exact (reads c).map fun e bound => bound

theorem reads_sliceTail (within : opened.count .counted ≤ maxNesting)
    (reads : ∀ c, ReadsFrom k ⟨opened, .none⟩ c expression expression' (Yields opened Expr.height h))
    (start : Option Expr) (startBound : Expr.optionHeight start ≤ h) (c : Cursor) :
    ReadsFrom k ⟨opened, .none⟩ c (sliceTail expression start) (sliceTail expression' start)
      (Yields opened Expr.height (h + 1)) := by
  refine .consume within fun c => ?_
  apply (reads_sliceBound reads c).andThen
  intro stop c stopBound
  have slice {step : Option Expr} (stepBound : Expr.optionHeight step ≤ h) :
      (Expr.slice start stop step).height ≤ h + 1 :=
    Nat.succ_le_succ (Nat.max_le.mpr ⟨startBound, Nat.max_le.mpr ⟨stopBound, stepBound⟩⟩)
  refine .eat within (fun c => ?_) ?_
  · apply (reads_sliceBound reads c).andThen
    intro step c stepBound
    exact .pure ⟨rfl, slice stepBound⟩
  · exact .pure ⟨rfl, slice (Nat.zero_le h)⟩

theorem reads_sliceItem (within : opened.count .counted ≤ maxNesting)
    (reads : ∀ c, ReadsFrom k ⟨opened, .none⟩ c expression expression' (Yields opened Expr.height h))
    (c : Cursor) :
    ReadsFrom k ⟨opened, .none⟩ c (sliceItem expression) (sliceItem expression')
      (Yields opened Expr.height (h + 1)) := by
  apply ReadsFrom.isNext
  intro colon
  split
  · exact reads_sliceTail within reads none (Nat.zero_le h) c
  · apply (reads c).andThen
    intro e c bound
    apply ReadsFrom.isNext
    intro colon
    split
    · exact reads_sliceTail within reads (some e) bound c
    · exact .pure ⟨rfl, Nat.le_succ_of_le bound⟩

theorem reads_subscript (within : opened.count .counted ≤ maxNesting)
    (reads : ∀ c, ReadsFrom k ⟨opened, .none⟩ c expression expression' (Yields opened Expr.height h))
    (c : Cursor) :
    ReadsFrom k ⟨opened, .none⟩ c (subscript expression) (subscript expression')
      (Yields opened Expr.height (h + 2)) := by
  have item := reads_sliceItem within reads
  apply (item c).andThen
  intro e c first
  apply ReadsFrom.isNext
  intro comma
  split
  · exact .pure ⟨rfl, Nat.le_succ_of_le first⟩
  · apply ReadsFrom.left
    apply (reads_bracketTail within item _ c).andThen
    intro more c others
    exact .pure ⟨rfl, Nat.succ_le_succ (Nat.max_le.mpr ⟨first, others⟩)⟩

theorem reads_keywordName? (within : opened.count .counted ≤ maxNesting) (c : Cursor) :
    ReadsFrom k ⟨opened, .none⟩ c keywordName? keywordName? (Yields opened (fun _ => 0) 0) := by
  intro _ found c' given
  refine ⟨given, ?_⟩
  obtain ⟨tokens, indent⟩ := c
  unfold keywordName? at given
  split at given
  · next n rest shape =>
    cases given
    exact ⟨[.name n, .symbol .equal], _, shape, .cons within (.cons within .nil), rfl, Nat.le_refl 0⟩
  · cases given
    exact ⟨[], _, rfl, .nil, rfl, Nat.le_refl 0⟩

/-- The greatest height among arguments. -/
def argumentHeight (found : List Expr × List (String × Expr)) : Nat :=
  max (Expr.heights found.1) (Expr.keywordHeights found.2)

theorem reads_callArguments (inside : opened.count .counted < maxNesting)
    (reads : ∀ c, ReadsFrom k ⟨.counted :: opened, .none⟩ c expression expression'
      (Yields (.counted :: opened) Expr.height h)) (fuel : Nat) {args : List Expr}
    {kwargs : List (String × Expr)} (bound : argumentHeight (args, kwargs) ≤ h) (c : Cursor) :
    ReadsFrom k ⟨.counted :: opened, .none⟩ c (callArguments expression args kwargs fuel)
      (callArguments expression' args kwargs fuel) (Yields opened argumentHeight h) := by
  have within := counted_within inside
  have outside : opened.count .counted ≤ maxNesting := Nat.le_of_lt inside
  obtain ⟨argsBound, kwargsBound⟩ := Nat.max_le.mp bound
  induction fuel generalizing args kwargs c with
  | zero => exact .unexpected
  | succ fuel ih =>
    refine .eat outside (fun c => .pure ⟨rfl, bound⟩) ?_
    -- After one argument there is a comma or the closing parenthesis.
    have rest {args : List Expr} {kwargs : List (String × Expr)} (argsBound : Expr.heights args ≤ h)
        (kwargsBound : Expr.keywordHeights kwargs ≤ h) (c : Cursor) :
        ReadsFrom k ⟨.counted :: opened, .none⟩ c
          (do if ← Parse.eat .comma then callArguments expression args kwargs fuel
              else
                Parse.consume .rightParen "`)`"
                return (args, kwargs))
          (do if ← Parse.eat .comma then callArguments expression' args kwargs fuel
              else
                Parse.consume .rightParen "`)`"
                return (args, kwargs))
          (Yields opened argumentHeight h) := by
      have bound := Nat.max_le.mpr ⟨argsBound, kwargsBound⟩
      refine .eat within (fun c => ih bound c argsBound kwargsBound) ?_
      exact .consume outside fun c => .pure ⟨rfl, bound⟩
    apply (reads_keywordName? within c).andThen
    intro name c _
    cases name with
    | some n =>
      apply (reads c).andThen
      intro e c bound
      refine rest argsBound ?_ c
      rw [Expr.keywordHeights_append]
      exact Nat.max_le.mpr ⟨kwargsBound, Nat.max_le.mpr ⟨bound, Nat.zero_le h⟩⟩
    | none =>
      dsimp only
      split
      · exact .of_error rfl
      · apply (reads c).andThen
        intro e c bound
        refine rest ?_ kwargsBound c
        rw [Expr.heights_append]
        exact Nat.max_le.mpr ⟨argsBound, Nat.max_le.mpr ⟨bound, Nat.zero_le h⟩⟩

end

/-! ### Levels -/

/-- A budget fits the brackets that are open if, together with those that are counted, it stays
below the limit; `n` nested expressions are then enough. -/
structure Fits (k n budget : Nat) (opened : List Opening) : Prop where
  counted : opened.count .counted + budget < maxNesting
  enough : budget + (k - opened.count .loose) + 1 ≤ n

/-- Nested expressions of a height of at most `h` are read, at the level of an expression with one
more bracket open than elsewhere. -/
structure Nested (k n h : Nat) (below below' : Below) : Prop where
  expression : ∀ {budget opened} c, opened.count .counted + budget ≤ maxNesting →
    budget + (k - opened.count .loose) + 1 ≤ n →
    ReadsFrom k ⟨opened, .none⟩ c (below .expression budget) (below' .expression budget)
      (Yields opened Expr.height h)
  operand : ∀ {budget opened} level c, opened.count .counted + budget < maxNesting →
    budget + (k - opened.count .loose) + 2 ≤ n →
    ReadsFrom k ⟨opened, .none⟩ c (below level budget) (below' level budget)
      (Yields opened Expr.height h)

section

variable {below below' : Below} {n budget : Nat}

theorem Fits.within (fits : Fits k n budget opened) : opened.count .counted ≤ maxNesting :=
  Nat.le_of_lt (Nat.lt_of_le_of_lt (Nat.le_add_right _ _) fits.counted)

theorem Fits.inside (fits : Fits k n budget opened) : opened.count .counted < maxNesting :=
  Nat.lt_of_le_of_lt (Nat.le_add_right _ _) fits.counted

theorem Fits.smaller {less : Nat} (fits : Fits k n budget opened) (le : less ≤ budget) :
    Fits k n less opened := by
  obtain ⟨counted, enough⟩ := fits
  exact ⟨by omega, by omega⟩

theorem Nested.outer (nested : Nested k n h below below') (fits : Fits k n budget opened)
    (c : Cursor) :
    ReadsFrom k ⟨opened, .none⟩ c (below .expression budget) (below' .expression budget)
      (Yields opened Expr.height h) :=
  nested.expression c (Nat.le_of_lt fits.counted) fits.enough

theorem Nested.inner (nested : Nested k n h below below') (fits : Fits k n budget opened)
    (c : Cursor) :
    ReadsFrom k ⟨.counted :: opened, .none⟩ c (below .expression budget) (below' .expression budget)
      (Yields (.counted :: opened) Expr.height h) := by
  refine nested.expression c ?_ ?_
  · have counted := fits.counted
    rw [List.count_cons_self]
    omega
  · rw [List.count_cons_of_ne (by decide)]
    exact fits.enough

/-- An operand that is nested takes one of the budget. -/
theorem Nested.less (nested : Nested k n h below below') (fits : Fits k n (budget + 1) opened)
    (level : Level) (c : Cursor) :
    ReadsFrom k ⟨opened, .none⟩ c (below level budget) (below' level budget)
      (Yields opened Expr.height h) := by
  have counted := fits.counted
  have enough := fits.enough
  apply nested.operand level c
  · omega
  · omega

theorem reads_descend {β : Type} {f g : Nat → Parse β} {b : Brackets} {c : Cursor}
    {post : β → Brackets → Prop}
    (next : ∀ less, budget = less + 1 → ReadsFrom k b c (f less) (g less) post) :
    ReadsFrom k b c (Parse.descend budget >>= f) (Parse.descend budget >>= g) post := by
  cases budget with
  | zero => exact .of_error rfl
  | succ less => exact .of_stay rfl (next less rfl)

theorem reads_comprehensionTail (nested : Nested k n h below below')
    (fits : Fits k n budget opened) {element : Expr} (bound : element.height ≤ h) (c : Cursor) :
    ReadsFrom k ⟨.loose :: opened, .none⟩ c (comprehensionTail below budget element)
      (comprehensionTail below' budget element) (Yields opened Expr.height (h + budget + 3)) := by
  have within : (Opening.loose :: opened).count .counted ≤ maxNesting := by
    rw [count_loose_cons]
    exact fits.within
  apply ReadsFrom.of_loose_le
  intro loose
  -- The bracket counts no more, but one more loose bracket is open.
  have operand (c : Cursor) : ReadsFrom k ⟨.loose :: opened, .none⟩ c (below .disjunction budget)
      (below' .disjunction budget) (Yields (.loose :: opened) Expr.height h) := by
    refine nested.operand .disjunction c ?_ ?_
    · rw [count_loose_cons]
      exact fits.counted
    · have enough := fits.enough
      change (Opening.loose :: opened).count .loose ≤ k at loose
      rw [List.count_cons_self] at loose ⊢
      omega
  have targets : (Opening.loose :: opened).count .counted + budget ≤ maxNesting := by
    rw [count_loose_cons]
    exact Nat.le_of_lt fits.counted
  apply (reads_targetListOf within (reads_targetAtom targets) c).andThen
  intro target c targetBound
  refine .consumeWord within fun c => ?_
  apply (operand c).andThen
  intro source c sourceBound
  have height {condition : Option Expr} (conditionBound : Expr.optionHeight condition ≤ h) :
      (Expr.listComp element target source condition).height ≤ h + budget + 3 := by
    rw [Expr.height_listComp]
    omega
  have condition (c : Cursor) : ReadsFrom k ⟨.loose :: opened, .none⟩ c
      (some <$> below .disjunction budget) (some <$> below' .disjunction budget)
      (Yields (.loose :: opened) Expr.optionHeight h) := (operand c).map fun e bound => bound
  refine .eatWord within (fun c => ?_) (.of_stay rfl ?_)
  · apply (condition c).andThen
    intro found c conditionBound
    exact .consume fits.within fun c => .pure ⟨rfl, height conditionBound⟩
  · exact .consume fits.within fun c => .pure ⟨rfl, height (Nat.zero_le h)⟩

theorem reads_listDisplay (nested : Nested k n h below below') (fits : Fits k n budget opened)
    (c : Cursor) :
    ReadsFrom k ⟨.counted :: opened, .none⟩ c (listDisplay below budget) (listDisplay below' budget)
      (Yields opened Expr.height (h + budget + 3)) := by
  have within := counted_within fits.inside
  refine .eat fits.within (fun c => .pure ⟨rfl, ?_⟩) ?_
  · exact Nat.le_add_left 1 _
  · apply (nested.inner fits c).andThen
    intro e c first
    refine .eatWord (Nat.le_trans (Nat.le_of_eq count_loose_cons) fits.within) (fun c => ?_) ?_
    · exact reads_comprehensionTail nested fits first c
    · apply ReadsFrom.left
      apply (reads_bracketTail within (nested.inner fits) _ c).andThen
      intro more c others
      refine .consume fits.within fun c => .pure ⟨rfl, ?_⟩
      have items := Nat.max_le.mpr ⟨first, others⟩
      rw [Expr.height_list, Expr.heights_cons]
      omega

theorem reads_dictDisplay (nested : Nested k n h below below') (fits : Fits k n budget opened)
    (c : Cursor) :
    ReadsFrom k ⟨.counted :: opened, .none⟩ c (dictDisplay below budget) (dictDisplay below' budget)
      (Yields opened Expr.height (h + budget + 3)) := by
  apply ReadsFrom.left
  apply (reads_dictEntries fits.inside (nested.inner fits) _ c).andThen
  intro entries c bound
  refine .pure ⟨rfl, ?_⟩
  rw [Expr.height_dict]
  omega

theorem reads_moreStrings (within : opened.count .counted ≤ maxNesting) (text : String)
    (tokens : List Token) :
    ∃ taken, tokens = taken ++ (moreStrings text tokens).2 ∧
      Brackets.Passes ⟨opened, .none⟩ taken ⟨opened, .none⟩ := by
  fun_induction moreStrings text tokens with
  | case1 text more rest ih =>
    obtain ⟨taken, same, passes⟩ := ih
    refine ⟨.str more :: taken, ?_, .cons within passes⟩
    rw [List.cons_append, ← same]
  | case2 => exact ⟨[], rfl, .nil⟩

theorem reads_joinedString (within : opened.count .counted ≤ maxNesting) (text : String)
    (c : Cursor) :
    ReadsFrom k ⟨opened, .none⟩ c (joinedString text) (joinedString text)
      (Yields opened Expr.height 1) := by
  intro _ e c' given
  obtain ⟨taken, tokens, passes⟩ := reads_moreStrings within text c.tokens
  refine ⟨given, taken, _, ?_, passes, rfl, ?_⟩
  · cases given
    exact tokens
  · cases given
    exact Nat.le_refl 1

theorem reads_atom (nested : Nested k n h below below') (fits : Fits k n budget opened)
    (c : Cursor) :
    ReadsFrom k ⟨opened, .none⟩ c (atom below budget) (atom below' budget)
      (Yields opened Expr.height (h + budget + 3)) := by
  have leaf {e : Expr} (isLeaf : e.height = 1) : e.height ≤ h + budget + 3 := by omega
  apply ReadsFrom.peek?
  cases head : c.tokens.head? with
  | none => exact .fail
  | some token =>
    refine .skip head (Nat.le_trans (Brackets.counted_take_le _ token) fits.inside) fun c => ?_
    split
    · exact .pure ⟨rfl, leaf rfl⟩
    · exact .pure ⟨rfl, leaf rfl⟩
    · exact (reads_joinedString fits.within _ c).higher (Nat.le_add_left 1 _)
    · exact .pure ⟨rfl, leaf rfl⟩
    · exact .pure ⟨rfl, leaf rfl⟩
    · exact .pure ⟨rfl, leaf rfl⟩
    · exact .pure ⟨rfl, leaf rfl⟩
    · refine .eat fits.within (fun c => .pure ⟨rfl, Nat.le_add_left 1 _⟩) ?_
      have within := counted_within fits.inside
      apply (reads_expressionListOf within (nested.inner fits) c).andThen
      intro e c bound
      exact .consume fits.within fun c => .pure ⟨rfl, by omega⟩
    · exact reads_listDisplay nested fits c
    · exact reads_dictDisplay nested fits c
    · exact .fail

/-- A call, subscript or attribute is one node higher than what stands before it, if the latter is
higher than what stands in its brackets. -/
theorem reads_trailer? (nested : Nested k n h below below') (fits : Fits k n budget opened)
    {e : Expr} (bound : e.height ≤ m) (large : h + 2 ≤ m) {c : Cursor} :
    (trailer? below budget e c.tokens.head? = none ∧ trailer? below' budget e c.tokens.head? = none) ∨
    ∃ p q, trailer? below budget e c.tokens.head? = some p ∧
      trailer? below' budget e c.tokens.head? = some q ∧
      ReadsFrom k ⟨opened, .none⟩ c p q (Yields opened Expr.height (m + 1)) := by
  have within := counted_within fits.inside
  unfold trailer?
  split
  · next head =>
    refine .inr ⟨_, _, rfl, rfl, .skip head within fun c => .left ?_⟩
    have none : argumentHeight ([], []) ≤ h := Nat.zero_le h
    apply (reads_callArguments fits.inside (nested.inner fits) _ none c).andThen
    intro found c within
    obtain ⟨args, kwargs⟩ := found
    refine .pure ⟨rfl, ?_⟩
    change max (Expr.heights args) (Expr.keywordHeights kwargs) ≤ h at within
    rw [Expr.height_call]
    omega
  · next head =>
    refine .inr ⟨_, _, rfl, rfl, .skip head within fun c => ?_⟩
    apply (reads_subscript within (nested.inner fits) c).andThen
    intro s c subscript
    refine .consume fits.within fun c => .pure ⟨rfl, ?_⟩
    rw [Expr.height_index]
    omega
  · next head =>
    refine .inr ⟨_, _, rfl, rfl, .skip head fits.within fun c => ?_⟩
    refine .name (fun _ => fits.within) fun n c => .pure ⟨rfl, ?_⟩
    rw [Expr.height_attr]
    omega
  · exact .inl ⟨rfl, rfl⟩

theorem reads_trailers (nested : Nested k n h below below') (fits : Fits k n budget opened)
    {e : Expr} (bound : e.height ≤ m) (large : h + 2 ≤ m) (c : Cursor) :
    ReadsFrom k ⟨opened, .none⟩ c (trailers below budget e) (trailers below' budget e)
      (Yields opened Expr.height (m + budget)) := by
  induction budget generalizing e m c with
  | zero =>
    apply ReadsFrom.peek?
    rcases reads_trailer? nested fits bound large with ⟨stop, stop'⟩ | ⟨p, q, next, -⟩
    · rw [stop, stop']
      exact .pure ⟨rfl, bound⟩
    · rw [next]
      exact .of_error rfl
  | succ budget ih =>
    apply ReadsFrom.peek?
    have smaller := fits.smaller (Nat.le_succ budget)
    rcases reads_trailer? nested smaller bound large (c := c) with
      ⟨stop, stop'⟩ | ⟨p, q, next, next', reads⟩
    · rw [stop, stop']
      exact .pure ⟨rfl, Nat.le_add_right_of_le bound⟩
    · rw [next, next']
      apply reads.andThen
      intro e c bound
      exact (ih smaller bound (Nat.le_succ_of_le large) c).higher (by omega)

theorem reads_postfixed (nested : Nested k n h below below') (fits : Fits k n budget opened)
    (c : Cursor) :
    ReadsFrom k ⟨opened, .none⟩ c (postfixed below budget) (postfixed below' budget)
      (Yields opened Expr.height (h + 2 * budget + 3)) := by
  apply (reads_atom nested fits c).andThen
  intro e c bound
  exact (reads_trailers nested fits bound (by omega) c).higher (by omega)

theorem reads_power (nested : Nested k n h below below') (fits : Fits k n budget opened)
    (c : Cursor) :
    ReadsFrom k ⟨opened, .none⟩ c (power below budget) (power below' budget)
      (Yields opened Expr.height (h + 2 * budget + 4)) := by
  apply (reads_postfixed nested fits c).andThen
  intro base c baseBound
  refine .eat fits.within (fun c => ?_) (.pure ⟨rfl, Nat.le_succ_of_le baseBound⟩)
  apply reads_descend
  intro less same
  subst same
  apply (nested.less fits .factor c).andThen
  intro exponent c bound
  refine .pure ⟨rfl, ?_⟩
  rw [Expr.height_binary]
  omega

theorem take_of_sign? {token : Token} {op : UnaryOp} (isSign : sign? (some token) = some op) :
    Brackets.take ⟨opened, .none⟩ token = ⟨opened, .none⟩ := by
  unfold sign? at isSign
  split at isSign
  · next same =>
    cases same
    rfl
  · next same =>
    cases same
    rfl
  · cases isSign

theorem reads_factor (nested : Nested k n h below below') (fits : Fits k n budget opened)
    (c : Cursor) :
    ReadsFrom k ⟨opened, .none⟩ c (factor below budget) (factor below' budget)
      (Yields opened Expr.height (h + 2 * budget + 4)) := by
  apply ReadsFrom.peek?
  cases head : c.tokens.head? with
  | none => exact reads_power nested fits c
  | some token =>
    cases sign : sign? (some token) with
    | none => exact reads_power nested fits c
    | some op =>
      apply ReadsFrom.skipPlain head (take_of_sign? sign) fits.within
      intro c
      apply reads_descend
      intro less same
      subst same
      apply (nested.less fits .factor c).andThen
      intro operand c bound
      refine .pure ⟨rfl, ?_⟩
      rw [Expr.height_unary]
      omega

/-! ### Chains of operators -/

/-- The operators open no brackets, and what they join is one node higher. -/
def Joins (join? : Token → Option (Expr → Expr → Expr)) : Prop :=
  ∀ token join, join? token = some join →
    (∀ opened, Brackets.take ⟨opened, .none⟩ token = ⟨opened, .none⟩) ∧
      ∀ left right, (join left right).height = max left.height right.height + 1

theorem joins_termOp? : Joins termOp? := by
  intro token join found
  unfold termOp? at found
  split at found
  · cases found; exact ⟨fun _ => rfl, fun _ _ => rfl⟩
  · cases found; exact ⟨fun _ => rfl, fun _ _ => rfl⟩
  · cases found; exact ⟨fun _ => rfl, fun _ _ => rfl⟩
  · cases found; exact ⟨fun _ => rfl, fun _ _ => rfl⟩
  · cases found; exact ⟨fun _ => rfl, fun _ _ => rfl⟩
  · cases found

theorem joins_sumOp? : Joins sumOp? := by
  intro token join found
  unfold sumOp? at found
  split at found
  · cases found; exact ⟨fun _ => rfl, fun _ _ => rfl⟩
  · cases found; exact ⟨fun _ => rfl, fun _ _ => rfl⟩
  · cases found

theorem joins_andOp? : Joins andOp? := by
  intro token join found
  unfold andOp? at found
  split at found
  · cases found; exact ⟨fun _ => rfl, fun _ _ => rfl⟩
  · cases found

theorem joins_orOp? : Joins orOp? := by
  intro token join found
  unfold orOp? at found
  split at found
  · cases found; exact ⟨fun _ => rfl, fun _ _ => rfl⟩
  · cases found

theorem reads_leftChain {join? : Token → Option (Expr → Expr → Expr)} (joins : Joins join?)
    {operand operand' : Nat → Parse Expr} (within : opened.count .counted ≤ maxNesting)
    (reads : ∀ less, less ≤ budget → ∀ c, ReadsFrom k ⟨opened, .none⟩ c (operand less)
      (operand' less) (Yields opened Expr.height h)) {left : Expr} (bound : left.height ≤ m)
    (le : h ≤ m) (c : Cursor) :
    ReadsFrom k ⟨opened, .none⟩ c (leftChain join? operand budget left)
      (leftChain join? operand' budget left) (Yields opened Expr.height (m + budget)) := by
  induction budget generalizing left m c with
  | zero =>
    apply ReadsFrom.peek?
    split
    · exact .of_error rfl
    · exact .pure ⟨rfl, bound⟩
  | succ budget ih =>
    apply ReadsFrom.peek?
    cases found : c.tokens.head?.bind join? with
    | none => exact .pure ⟨rfl, Nat.le_add_right_of_le bound⟩
    | some join =>
      obtain ⟨token, head, known⟩ := Option.bind_eq_some_iff.mp found
      obtain ⟨plain, height⟩ := joins token join known
      apply ReadsFrom.skipPlain head (plain opened) within
      intro c
      apply (reads budget (Nat.le_succ budget) c).andThen
      intro right c rightBound
      have joined : (join left right).height ≤ m + 1 := by
        rw [height]
        omega
      have smaller := fun less le => reads less (Nat.le_succ_of_le le)
      exact (ih smaller joined (Nat.le_succ_of_le le) c).higher (by omega)

theorem reads_chain {join? : Token → Option (Expr → Expr → Expr)} (joins : Joins join?)
    {operand operand' : Nat → Parse Expr} (within : opened.count .counted ≤ maxNesting)
    (reads : ∀ less, less ≤ budget → ∀ c, ReadsFrom k ⟨opened, .none⟩ c (operand less)
      (operand' less) (Yields opened Expr.height h)) (c : Cursor) :
    ReadsFrom k ⟨opened, .none⟩ c (chain join? operand budget) (chain join? operand' budget)
      (Yields opened Expr.height (h + budget)) := by
  apply (reads budget (Nat.le_refl _) c).andThen
  intro left c bound
  exact reads_leftChain joins within reads bound (Nat.le_refl h) c

theorem reads_term (nested : Nested k n h below below') (fits : Fits k n budget opened)
    (c : Cursor) :
    ReadsFrom k ⟨opened, .none⟩ c (term below budget) (term below' budget)
      (Yields opened Expr.height (h + 3 * budget + 4)) := by
  have factors (less : Nat) (le : less ≤ budget) (c : Cursor) :=
    (reads_factor nested (fits.smaller le) c).higher (m := h + 2 * budget + 4) (by omega)
  exact (reads_chain joins_termOp? fits.within factors c).higher (by omega)

theorem reads_sum (nested : Nested k n h below below') (fits : Fits k n budget opened)
    (c : Cursor) :
    ReadsFrom k ⟨opened, .none⟩ c (sum below budget) (sum below' budget)
      (Yields opened Expr.height (h + 4 * budget + 4)) := by
  have terms (less : Nat) (le : less ≤ budget) (c : Cursor) :=
    (reads_term nested (fits.smaller le) c).higher (m := h + 3 * budget + 4) (by omega)
  exact (reads_chain joins_sumOp? fits.within terms c).higher (by omega)

theorem passes_comparison? {op : CompareOp} {tokens rest : List Token}
    (within : opened.count .counted ≤ maxNesting) (found : comparison? tokens = some (op, rest)) :
    ∃ taken, tokens = taken ++ rest ∧ Brackets.Passes ⟨opened, .none⟩ taken ⟨opened, .none⟩ := by
  have one {token : Token} (plain : Brackets.take ⟨opened, .none⟩ token = ⟨opened, .none⟩) :
      Brackets.Passes ⟨opened, .none⟩ [token] ⟨opened, .none⟩ := by
    refine .cons ?_ ?_
    · rwa [plain]
    · rw [plain]
      exact .nil
  unfold comparison? at found
  split at found
  · cases found; exact ⟨[_], rfl, one rfl⟩
  · cases found; exact ⟨[_], rfl, one rfl⟩
  · cases found; exact ⟨[_], rfl, one rfl⟩
  · cases found; exact ⟨[_], rfl, one rfl⟩
  · cases found; exact ⟨[_], rfl, one rfl⟩
  · cases found; exact ⟨[_], rfl, one rfl⟩
  · cases found; exact ⟨[_], rfl, one rfl⟩
  · cases found; exact ⟨[_, _], rfl, (one rfl).append (one rfl)⟩
  · cases found; exact ⟨[_, _], rfl, (one rfl).append (one rfl)⟩
  · cases found; exact ⟨[_], rfl, one rfl⟩
  · cases found

theorem reads_takeComparison (within : opened.count .counted ≤ maxNesting) (c : Cursor) :
    ReadsFrom k ⟨opened, .none⟩ c takeComparison takeComparison (Yields opened (fun _ => 0) 0) := by
  intro _ op c' given
  refine ⟨given, ?_⟩
  unfold takeComparison at given
  split at given
  · next found =>
    obtain ⟨taken, tokens, passes⟩ := passes_comparison? within found
    cases given
    exact ⟨taken, _, tokens, passes, rfl, Nat.le_refl 0⟩
  · cases given
    exact ⟨[], _, rfl, .nil, rfl, Nat.le_refl 0⟩

theorem height_joinComparison {before : Option Expr} {this : Expr}
    (beforeBound : Expr.optionHeight before ≤ m) (bound : this.height ≤ m) :
    (joinComparison before this).height ≤ m + 1 := by
  cases before with
  | none => exact Nat.le_succ_of_le bound
  | some b => exact Nat.succ_le_succ (Nat.max_le.mpr ⟨beforeBound, bound⟩)

theorem height_getD {before : Option Expr} {left : Expr}
    (beforeBound : Expr.optionHeight before ≤ m) (bound : left.height ≤ m) :
    (before.getD left).height ≤ m := by
  cases before with
  | none => exact bound
  | some b => exact beforeBound

theorem reads_comparisons {operand operand' : Nat → Parse Expr}
    (within : opened.count .counted ≤ maxNesting)
    (reads : ∀ less, less ≤ budget → ∀ c, ReadsFrom k ⟨opened, .none⟩ c (operand less)
      (operand' less) (Yields opened Expr.height h)) {before : Option Expr} {left : Expr}
    (beforeBound : Expr.optionHeight before ≤ m) (bound : left.height ≤ h) (le : h + 1 ≤ m)
    (c : Cursor) :
    ReadsFrom k ⟨opened, .none⟩ c (comparisons operand budget before left)
      (comparisons operand' budget before left) (Yields opened Expr.height (m + budget)) := by
  have whole := height_getD beforeBound (Nat.le_trans bound (Nat.le_of_succ_le le))
  induction budget generalizing before left m c with
  | zero =>
    apply (reads_takeComparison within c).andThen
    intro op c _
    split
    · exact .of_error rfl
    · exact .pure ⟨rfl, whole⟩
  | succ budget ih =>
    apply (reads_takeComparison within c).andThen
    intro op c _
    cases op with
    | none => exact .pure ⟨rfl, Nat.le_add_right_of_le whole⟩
    | some op =>
      apply (reads budget (Nat.le_succ budget) c).andThen
      intro right c rightBound
      have compared : (Expr.compare op left right).height ≤ m := by
        rw [Expr.height_compare]
        omega
      have joined : Expr.optionHeight (some (joinComparison before (.compare op left right))) ≤ m + 1 :=
        height_joinComparison beforeBound compared
      have smaller := fun less le => reads less (Nat.le_succ_of_le le)
      exact (ih smaller joined rightBound (Nat.le_succ_of_le le) c joined).higher (by omega)

theorem reads_comparison (nested : Nested k n h below below') (fits : Fits k n budget opened)
    (c : Cursor) :
    ReadsFrom k ⟨opened, .none⟩ c (comparison below budget) (comparison below' budget)
      (Yields opened Expr.height (h + 5 * budget + 5)) := by
  have sums (less : Nat) (le : less ≤ budget) (c : Cursor) :=
    (reads_sum nested (fits.smaller le) c).higher (m := h + 4 * budget + 4) (by omega)
  apply (sums budget (Nat.le_refl _) c).andThen
  intro left c bound
  exact (reads_comparisons fits.within sums (Nat.zero_le _) bound (Nat.le_refl _) c).higher (by omega)

theorem reads_negation (nested : Nested k n h below below') (fits : Fits k n budget opened)
    (c : Cursor) :
    ReadsFrom k ⟨opened, .none⟩ c (negation below budget) (negation below' budget)
      (Yields opened Expr.height (h + 5 * budget + 5)) := by
  refine .eatWord fits.within (fun c => ?_) (reads_comparison nested fits c)
  apply reads_descend
  intro less same
  subst same
  apply (nested.less fits .negation c).andThen
  intro operand c bound
  refine .pure ⟨rfl, ?_⟩
  rw [Expr.height_unary]
  omega

theorem reads_conjunction (nested : Nested k n h below below') (fits : Fits k n budget opened)
    (c : Cursor) :
    ReadsFrom k ⟨opened, .none⟩ c (conjunction below budget) (conjunction below' budget)
      (Yields opened Expr.height (h + 6 * budget + 5)) := by
  have negations (less : Nat) (le : less ≤ budget) (c : Cursor) :=
    (reads_negation nested (fits.smaller le) c).higher (m := h + 5 * budget + 5) (by omega)
  exact (reads_chain joins_andOp? fits.within negations c).higher (by omega)

theorem reads_disjunction (nested : Nested k n h below below') (fits : Fits k n budget opened)
    (c : Cursor) :
    ReadsFrom k ⟨opened, .none⟩ c (disjunction below budget) (disjunction below' budget)
      (Yields opened Expr.height (h + 7 * budget + 5)) := by
  have conjunctions (less : Nat) (le : less ≤ budget) (c : Cursor) :=
    (reads_conjunction nested (fits.smaller le) c).higher (m := h + 6 * budget + 5) (by omega)
  exact (reads_chain joins_orOp? fits.within conjunctions c).higher (by omega)

theorem reads_conditional (nested : Nested k n h below below') (fits : Fits k n budget opened)
    (c : Cursor) :
    ReadsFrom k ⟨opened, .none⟩ c (conditional below budget) (conditional below' budget)
      (Yields opened Expr.height (h + 7 * budget + 6)) := by
  apply (reads_disjunction nested fits c).andThen
  intro yes c yesBound
  refine .eatWord fits.within (fun c => ?_) (.pure ⟨rfl, Nat.le_succ_of_le yesBound⟩)
  apply (reads_disjunction nested fits c).andThen
  intro condition c conditionBound
  refine .consumeWord fits.within fun c => ?_
  refine (nested.outer fits c).andThen fun no c noBound => .pure ⟨rfl, ?_⟩
  rw [Expr.height_ifElse]
  omega

end

/-! ### Expressions -/

/-- How much higher an expression is than those nested in it. -/
def growth : Nat := 7 * maxNesting + 6

theorem Fits.growth_le {n budget : Nat} (fits : Fits k n budget opened) :
    h + 7 * budget + 6 ≤ h + growth := by
  have counted := fits.counted
  rw [growth]
  omega

/-- Reading expressions takes no more nested calls than the budget and the loose brackets allow. -/
theorem nested_expressionWith (fuel n : Nat) :
    Nested k n (growth * n) (expressionWith fuel) (expressionWith n) := by
  induction fuel generalizing n with
  | zero => exact { expression := fun _ _ _ => .fail, operand := fun _ _ _ _ => .fail }
  | succ fuel ih =>
    cases n with
    | zero =>
      exact {
        expression := fun _ _ enough => absurd enough (Nat.not_succ_le_zero _)
        operand := fun _ _ _ enough => absurd enough (Nat.not_succ_le_zero _) }
    | succ n =>
      have nested := ih n
      have expression {budget : Nat} {opened : List Opening} (c : Cursor)
          (within : opened.count .counted + budget ≤ maxNesting)
          (enough : budget + (k - opened.count .loose) + 1 ≤ n + 1) :
          ReadsFrom k ⟨opened, .none⟩ c (expressionWith (fuel + 1) .expression budget)
            (expressionWith (n + 1) .expression budget)
            (Yields opened Expr.height (growth * (n + 1))) := by
        apply reads_descend
        intro less same
        have fits : Fits k n less opened := ⟨by omega, by omega⟩
        exact (reads_conditional nested fits c).higher fits.growth_le
      refine { expression := expression, operand := ?_ }
      intro budget opened level c within enough
      have fits : Fits k n budget opened := ⟨within, by omega⟩
      have height := @Fits.growth_le k opened (growth * n) n budget fits
      cases level with
      | expression => exact expression c (Nat.le_of_lt within) (by omega)
      | disjunction => exact (reads_disjunction nested fits c).higher (by rw [Nat.mul_succ]; omega)
      | negation => exact (reads_negation nested fits c).higher (by rw [Nat.mul_succ]; omega)
      | factor => exact (reads_factor nested fits c).higher (by rw [Nat.mul_succ]; omega)

end Grammar

end DocExamples.Script
