import DocExamples.Proofs.Script.Brackets
import DocExamples.Proofs.Script.Rendering
/-!
Which trees the readers of expressions give: whatever the tokens are, the trees are readable.
-/
namespace DocExamples.Script

open ReadsFrom (parse_bind_eq_ok)

/-- Whatever the reader gives meets the condition. -/
def Gives {α : Type} (p : Parse α) (P : α → Prop) : Prop :=
  ∀ c a c', p c = .ok (a, c') → P a

namespace Gives

variable {α β : Type} {p : Parse α} {f : α → Parse β} {P : α → Prop} {Q : β → Prop}

theorem pure {a : α} (met : P a) : Gives (pure a) P := by
  intro c a' c' given
  cases given
  exact met

theorem fail {e : SyntaxFault} : Gives (Parse.fail e) P := by
  intro c a c' given
  cases given

theorem bind (first : Gives p P) (next : ∀ a, P a → Gives (f a) Q) : Gives (p >>= f) Q := by
  intro c b c'' given
  obtain ⟨a, c', read, later⟩ := parse_bind_eq_ok.mp given
  exact next a (first c a c' read) c' b c'' later

/-- What is read first does not matter. -/
theorem after (next : ∀ a, Gives (f a) Q) : Gives (p >>= f) Q := by
  intro c b c'' given
  obtain ⟨a, c', -, later⟩ := parse_bind_eq_ok.mp given
  exact next a c' b c'' later

theorem fails {e : SyntaxFault} : Gives (Parse.fail e >>= f) Q := by
  intro c b c' given
  cases given

theorem known {a : α} (next : Gives (f a) Q) : Gives (Pure.pure a >>= f) Q := by
  rwa [pure_bind]

end Gives

namespace Grammar

/-! ### Targets -/

theorem gives_targetTail {item : Parse Target} (reads : Gives item Target.Nested) (fuel : Nat) :
    Gives (targetTail item fuel) fun ts => ∀ t ∈ ts, t.Nested := by
  induction fuel with
  | zero => exact .pure (by simp)
  | succ fuel ih =>
    refine .after fun comma => ?_
    split
    · exact .pure (by simp)
    · refine .after fun found => ?_
      split
      · exact .pure (by simp)
      · refine reads.bind fun t first => ih.bind fun ts others => .pure ?_
        simpa using ⟨first, others⟩

theorem gives_targetListOf {item : Parse Target} (reads : Gives item Target.Nested) :
    Gives (targetListOf item) Target.InLoop := by
  refine reads.bind fun t first => ?_
  refine .after fun comma => ?_
  split
  · exact .pure first.inLoop
  · refine .after fun fuel => ?_
    refine (gives_targetTail reads fuel).bind fun ts others => .pure ?_
    exact .unpack (by simp) (by simpa using ⟨first, others⟩)

/-- Where only one item comes before the comma at the end, `in` comes after it. -/
theorem targetTail_eq_nil {item : Parse Target} {fuel : Nat} {tokens : List Token} {indent : Nat}
    {c' : Cursor} (given : targetTail item (fuel + 1) ⟨.symbol .comma :: tokens, indent⟩ =
      .ok ([], c')) : c'.tokens.head? = some (.keyword .inKw) := by
  obtain ⟨_, _, ate, given⟩ := parse_bind_eq_ok.mp given
  cases ate
  obtain ⟨found, _, peeked, given⟩ := parse_bind_eq_ok.mp given
  cases peeked
  obtain ⟨found, isFound⟩ : ∃ found, tokens.head? = found := ⟨_, rfl⟩
  dsimp only at given
  rw [isFound] at given
  split at given
  · cases given
    exact isFound
  · obtain ⟨_, _, -, given⟩ := parse_bind_eq_ok.mp given
    obtain ⟨_, _, -, given⟩ := parse_bind_eq_ok.mp given
    cases given

theorem nested_of_targetListOf {item : Parse Target} (reads : Gives item Target.Nested)
    {c c' : Cursor} {t : Target} (given : targetListOf item c = .ok (t, c')) :
    t.Nested ∨ c'.tokens.head? = some (.keyword .inKw) := by
  obtain ⟨first, ⟨tokens, indent⟩, readFirst, given⟩ := parse_bind_eq_ok.mp given
  have nested := reads _ _ _ readFirst
  obtain ⟨comma, c₂, next, given⟩ := parse_bind_eq_ok.mp given
  unfold Parse.isNext at next
  split at next
  · next s rest shape =>
    cases next
    cases isComma : s == .comma with
    | true =>
      obtain rfl := eq_of_beq isComma
      rw [isComma] at given
      obtain ⟨_, _, fuel, given⟩ := parse_bind_eq_ok.mp given
      cases fuel
      obtain ⟨ts, _, tail, given⟩ := parse_bind_eq_ok.mp given
      have others := gives_targetTail reads _ _ _ _ tail
      cases given
      cases ts with
      | nil =>
        cases shape
        exact .inr (targetTail_eq_nil tail)
      | cons second ts => exact .inl (.unpack (by simp) (List.forall_mem_cons.mpr ⟨nested, others⟩))
    | false =>
      rw [isComma] at given
      cases given
      exact .inl nested
  · cases next
    cases given
    exact .inl nested

theorem gives_targetAtom (budget : Nat) : Gives (targetAtom budget) Target.Nested := by
  induction budget with
  | zero =>
    refine .after fun opened => ?_
    split
    · exact .after fun _ => .after fun n => .pure (.name n)
    · exact .after fun n => .pure (.name n)
  | succ budget ih =>
    refine .after fun opened => ?_
    split
    · intro c t c' given
      obtain ⟨inner, c₁, list, given⟩ := parse_bind_eq_ok.mp given
      obtain ⟨_, c₂, closed, given⟩ := parse_bind_eq_ok.mp given
      cases given
      rcases nested_of_targetListOf ih list with nested | isIn
      · exact nested
      · obtain ⟨rest, shape⟩ := List.head?_eq_some_iff.mp isIn
        have refused : Parse.consume .rightParen "`)`" c₁ =
            .error (.expected "`)`" c₁.tokens.head?) := by
          obtain ⟨tokens, indent⟩ := c₁
          cases shape
          rfl
        rw [refused] at closed
        cases closed
    · exact .after fun n => .pure (.name n)

/-! ### Displays, subscripts and arguments -/

section

variable {expression : Parse Expr}

theorem gives_expressionTail (reads : Gives expression Expr.Readable) (fuel : Nat) :
    Gives (expressionTail expression fuel) fun es => ∀ e ∈ es, e.Readable := by
  induction fuel with
  | zero => exact .pure (by simp)
  | succ fuel ih =>
    refine .after fun comma => ?_
    split
    · exact .pure (by simp)
    · refine .after fun found => ?_
      split
      · exact .pure (by simp)
      · refine reads.bind fun e first => ih.bind fun es others => .pure ?_
        simpa using ⟨first, others⟩

theorem gives_expressionListOf (reads : Gives expression Expr.Readable) :
    Gives (expressionListOf expression) Expr.Readable := by
  refine reads.bind fun e first => .after fun comma => ?_
  split
  · exact .pure first
  · refine .after fun fuel => (gives_expressionTail reads fuel).bind fun es others => .pure ?_
    exact .tuple (by simpa using ⟨first, others⟩)

theorem gives_bracketTail {P : Expr → Prop} (reads : Gives expression P) (fuel : Nat) :
    Gives (bracketTail expression fuel) fun es => ∀ e ∈ es, P e := by
  induction fuel with
  | zero => exact .pure (by simp)
  | succ fuel ih =>
    refine .after fun comma => ?_
    split
    · exact .pure (by simp)
    · refine .after fun closes => ?_
      split
      · exact .pure (by simp)
      · refine reads.bind fun e first => ih.bind fun es others => .pure ?_
        simpa using ⟨first, others⟩

theorem gives_dictEntries (reads : Gives expression Expr.Readable) (fuel : Nat) :
    Gives (dictEntries expression fuel) fun entries =>
      ∀ entry ∈ entries, entry.1.Readable ∧ entry.2.Readable := by
  induction fuel with
  | zero => intro c a c' given; cases given
  | succ fuel ih =>
    refine .after fun closes => ?_
    split
    · exact .pure (by simp)
    · refine reads.bind fun key readsKey => .after fun _ => reads.bind fun value readsValue => ?_
      refine .after fun comma => ?_
      split
      · refine ih.bind fun entries others => .pure ?_
        exact List.forall_mem_cons.mpr ⟨⟨readsKey, readsValue⟩, others⟩
      · exact .after fun _ => .pure (by simpa using ⟨readsKey, readsValue⟩)

theorem gives_sliceBound (reads : Gives expression Expr.Readable) :
    Gives (sliceBound expression) fun bound => ∀ e ∈ bound, e.Readable := by
  refine .after fun found => ?_
  split
  · exact .pure (by simp)
  · exact .pure (by simp)
  · exact .pure (by simp)
  · rw [← bind_pure_comp]
    exact reads.bind fun e readable => .pure (by simpa using readable)

theorem gives_sliceTail (reads : Gives expression Expr.Readable) {start : Option Expr}
    (readable : ∀ e ∈ start, e.Readable) : Gives (sliceTail expression start) Expr.Item := by
  refine .after fun _ => (gives_sliceBound reads).bind fun stop second => .after fun colon => ?_
  split
  · refine (gives_sliceBound reads).bind fun step third => .pure (.slice ?_)
    simpa using ⟨readable, second, third⟩
  · refine .known (.pure (.slice ?_))
    simpa using ⟨readable, second⟩

theorem gives_sliceItem (reads : Gives expression Expr.Readable) :
    Gives (sliceItem expression) Expr.Item := by
  refine .after fun colon => ?_
  split
  · exact gives_sliceTail reads (by simp)
  · refine reads.bind fun e readable => .after fun colon => ?_
    split
    · exact gives_sliceTail reads (by simpa using readable)
    · exact .pure (.plain readable)

theorem gives_subscript (reads : Gives expression Expr.Readable) :
    Gives (subscript expression) Expr.Subscript := by
  refine (gives_sliceItem reads).bind fun e first => .after fun comma => ?_
  split
  · exact .pure (.item first)
  · refine .after fun fuel => (gives_bracketTail (gives_sliceItem reads) fuel).bind fun es others =>
      .pure (.tuple (by simp) (by simpa using ⟨first, others⟩))

theorem gives_callArguments (reads : Gives expression Expr.Readable) (fuel : Nat)
    {args : List Expr} {kwargs : List (String × Expr)} (positional : ∀ e ∈ args, e.Readable)
    (named : ∀ kwarg ∈ kwargs, kwarg.2.Readable) :
    Gives (callArguments expression args kwargs fuel) fun found =>
      (∀ e ∈ found.1, e.Readable) ∧ ∀ kwarg ∈ found.2, kwarg.2.Readable := by
  induction fuel generalizing args kwargs with
  | zero => intro c a c' given; cases given
  | succ fuel ih =>
    refine .after fun closes => ?_
    split
    · exact .pure ⟨positional, named⟩
    · have further {args : List Expr} {kwargs : List (String × Expr)}
          (positional : ∀ e ∈ args, e.Readable) (named : ∀ kwarg ∈ kwargs, kwarg.2.Readable) :
          Gives (do
            if ← Parse.eat .comma then callArguments expression args kwargs fuel
            else
              Parse.consume .rightParen "`)`"
              return (args, kwargs)) fun found =>
            (∀ e ∈ found.1, e.Readable) ∧ ∀ kwarg ∈ found.2, kwarg.2.Readable := by
        refine .after fun comma => ?_
        split
        · exact ih positional named
        · exact .after fun _ => .pure ⟨positional, named⟩
      refine .after fun keyword => ?_
      split
      · refine reads.bind fun value readable => .known (further positional ?_)
        exact List.forall_mem_append.mpr ⟨named, List.forall_mem_singleton.mpr readable⟩
      · split
        · exact .fails
        · refine reads.bind fun value readable => .known (further ?_ named)
          exact List.forall_mem_append.mpr ⟨positional, List.forall_mem_singleton.mpr readable⟩

end

variable {below : Below}

theorem gives_comprehensionTail (reads : ∀ level budget, Gives (below level budget) Expr.Readable)
    (budget : Nat) {element : Expr} (readable : element.Readable) :
    Gives (comprehensionTail below budget element) Expr.Readable := by
  refine (gives_targetListOf (gives_targetAtom budget)).bind fun target loops => .after fun _ => ?_
  refine (reads _ _).bind fun source readsSource => .after fun found => ?_
  split
  · rw [bind_map_left]
    exact (reads _ _).bind fun condition readsCondition => .after fun _ =>
      .pure (.listComp readable loops readsSource (by simpa using readsCondition))
  · exact .known (.after fun _ => .pure (.listComp readable loops readsSource (by simp)))

theorem gives_listDisplay (reads : ∀ level budget, Gives (below level budget) Expr.Readable)
    (budget : Nat) : Gives (listDisplay below budget) Expr.Readable := by
  refine .after fun closes => ?_
  split
  · exact .pure (.list (by simp))
  · refine (reads _ _).bind fun e first => .after fun isFor => ?_
    split
    · exact gives_comprehensionTail reads budget first
    · refine .after fun fuel => (gives_bracketTail (reads _ _) fuel).bind fun es others =>
        .after fun _ => .pure (.list ?_)
      simpa using ⟨first, others⟩

theorem gives_dictDisplay (reads : ∀ level budget, Gives (below level budget) Expr.Readable)
    (budget : Nat) : Gives (dictDisplay below budget) Expr.Readable := by
  refine .after fun fuel => (gives_dictEntries (reads _ _) _).bind fun entries each => .pure ?_
  exact .dict (fun entry member => (each entry member).1) fun entry member => (each entry member).2

theorem gives_atom (reads : ∀ level budget, Gives (below level budget) Expr.Readable)
    (budget : Nat) : Gives (atom below budget) Expr.Readable := by
  refine .after fun found => ?_
  split
  · exact .fail
  · refine .after fun _ => ?_
    split
    · exact .pure (.int _)
    · exact .pure (.float _)
    · intro c a c' given
      cases given
      exact .str _
    · exact .pure (.name _)
    · exact .pure (.bool _)
    · exact .pure (.bool _)
    · exact .pure .none
    · refine .after fun closes => ?_
      split
      · exact .pure (.tuple (by simp))
      · exact (gives_expressionListOf (reads _ _)).bind fun e readable => .after fun _ =>
          .pure readable
    · exact gives_listDisplay reads budget
    · exact gives_dictDisplay reads budget
    · exact .fail

/-! ### Levels -/

theorem gives_trailer? (reads : ∀ level budget, Gives (below level budget) Expr.Readable)
    {budget : Nat} {e : Expr} (readable : e.Readable) {token : Option Token} {next : Parse Expr}
    (found : trailer? below budget e token = some next) : Gives next Expr.Readable := by
  unfold trailer? at found
  split at found
  · cases found
    refine .after fun _ => .after fun fuel => ?_
    refine (gives_callArguments (reads _ _) _ (by simp) (by simp)).bind fun given each => ?_
    exact .pure (.call readable each.1 each.2)
  · cases found
    refine .after fun _ => (gives_subscript (reads _ _)).bind fun s subscript => .after fun _ => ?_
    exact .pure (.index readable subscript)
  · cases found
    exact .after fun _ => .after fun name => .pure (.attr readable)
  · cases found

theorem gives_trailers (reads : ∀ level budget, Gives (below level budget) Expr.Readable)
    (budget : Nat) {e : Expr} (readable : e.Readable) :
    Gives (trailers below budget e) Expr.Readable := by
  induction budget generalizing e with
  | zero =>
    refine .after fun token => ?_
    split
    · exact .fails
    · exact .pure readable
  | succ budget ih =>
    refine .after fun token => ?_
    split
    · exact .pure readable
    · next found => exact (gives_trailer? reads readable found).bind fun _ longer => ih longer

theorem gives_factor (reads : ∀ level budget, Gives (below level budget) Expr.Readable)
    (budget : Nat) : Gives (factor below budget) Expr.Readable := by
  have postfixed : Gives (postfixed below budget) Expr.Readable :=
    (gives_atom reads budget).bind fun _ readable => gives_trailers reads budget readable
  have power : Gives (power below budget) Expr.Readable := by
    refine postfixed.bind fun base readable => .after fun found => ?_
    split
    · exact .pure readable
    · exact .after fun left => (reads _ _).bind fun exponent second =>
        .pure (.binary readable second)
  refine .after fun token => ?_
  split
  · exact power
  · exact .after fun _ => .after fun left => (reads _ _).bind fun operand readable =>
      .pure (.unary readable)

section

variable {join? : Token → Option (Expr → Expr → Expr)} {operand : Nat → Parse Expr}

theorem gives_leftChain (joins : ∀ token join, join? token = some join → ∀ l r : Expr,
    l.Readable → r.Readable → (join l r).Readable)
    (reads : ∀ budget, Gives (operand budget) Expr.Readable) (budget : Nat) {left : Expr}
    (readable : left.Readable) : Gives (leftChain join? operand budget left) Expr.Readable := by
  induction budget generalizing left with
  | zero =>
    refine .after fun token => ?_
    split
    · exact .fails
    · exact .pure readable
  | succ budget ih =>
    refine .after fun token => ?_
    split
    · exact .pure readable
    · next join found =>
      obtain ⟨operator, -, isJoin⟩ := Option.bind_eq_some_iff.mp found
      exact .after fun _ => (reads _).bind fun right second =>
        ih (joins operator join isJoin left right readable second)

theorem gives_chain (joins : ∀ token join, join? token = some join → ∀ l r : Expr,
    l.Readable → r.Readable → (join l r).Readable)
    (reads : ∀ budget, Gives (operand budget) Expr.Readable) (budget : Nat) :
    Gives (chain join? operand budget) Expr.Readable :=
  (reads budget).bind fun _ readable => gives_leftChain joins reads budget readable

theorem gives_comparisons (reads : ∀ budget, Gives (operand budget) Expr.Readable) (budget : Nat)
    {before : Option Expr} {left : Expr} (readableBefore : ∀ e ∈ before, e.Readable)
    (readable : left.Readable) : Gives (comparisons operand budget before left) Expr.Readable := by
  have whole : (before.getD left).Readable := by
    cases before with
    | none => exact readable
    | some e => exact readableBefore e rfl
  induction budget generalizing before left with
  | zero =>
    refine .after fun found => ?_
    split
    · exact .fails
    · exact .pure whole
  | succ budget ih =>
    refine .after fun found => ?_
    split
    · exact .pure whole
    · refine (reads _).bind fun right second => ?_
      have joined : ∀ op, (joinComparison before (.compare op left right)).Readable := by
        intro op
        cases before with
        | none => exact .compare readable second
        | some e => exact .and (readableBefore e rfl) (.compare readable second)
      exact ih (by simpa using joined _) second (joined _)

end

theorem gives_comparison (reads : ∀ level budget, Gives (below level budget) Expr.Readable)
    (budget : Nat) : Gives (comparison below budget) Expr.Readable := by
  have term : ∀ budget, Gives (term below budget) Expr.Readable := by
    refine gives_chain (fun token join found l r left right => ?_) (gives_factor reads)
    unfold termOp? at found
    split at found <;> cases found <;> exact .binary left right
  have sum : ∀ budget, Gives (sum below budget) Expr.Readable := by
    refine gives_chain (fun token join found l r left right => ?_) term
    unfold sumOp? at found
    split at found <;> cases found <;> exact .binary left right
  exact (sum budget).bind fun _ readable => gives_comparisons sum budget (by simp) readable

theorem gives_negation (reads : ∀ level budget, Gives (below level budget) Expr.Readable)
    (budget : Nat) : Gives (negation below budget) Expr.Readable := by
  refine .after fun found => ?_
  split
  · exact .after fun left => (reads _ _).bind fun operand readable => .pure (.unary readable)
  · exact gives_comparison reads budget

theorem gives_disjunction (reads : ∀ level budget, Gives (below level budget) Expr.Readable)
    (budget : Nat) : Gives (disjunction below budget) Expr.Readable := by
  have conjunction : ∀ budget, Gives (conjunction below budget) Expr.Readable := by
    refine gives_chain (fun token join found l r left right => ?_) (gives_negation reads)
    unfold andOp? at found
    split at found <;> cases found
    exact .and left right
  refine gives_chain (fun token join found l r left right => ?_) conjunction budget
  unfold orOp? at found
  split at found <;> cases found
  exact .or left right

theorem gives_expressionWith (fuel : Nat) (level : Level) (budget : Nat) :
    Gives (expressionWith fuel level budget) Expr.Readable := by
  induction fuel generalizing level budget with
  | zero => exact .fail
  | succ fuel ih =>
    cases level with
    | expression =>
      refine .after fun left => ?_
      refine (gives_disjunction ih left).bind fun yes first => .after fun found => ?_
      split
      · exact .pure first
      · refine (gives_disjunction ih left).bind fun condition second => .after fun _ => ?_
        exact (ih _ _).bind fun no third => .pure (.ifElse second first third)
    | disjunction => exact gives_disjunction ih budget
    | negation => exact gives_negation ih budget
    | factor => exact gives_factor ih budget

/-- Only readable trees are read. -/
theorem gives_expression (budget : Nat) : Gives (expression budget) Expr.Readable :=
  .after fun _ => gives_expressionWith _ _ _

end Grammar

end DocExamples.Script
