import DocExamples.Proofs.Script.Taking
import DocExamples.Script.Program
/-!
A line is read the same whatever lines follow it. What a reader reads off all the tokens of a line,
it reads off them where a line end and more tokens come next; the bound that it takes from the
number of tokens left may be greater there.
-/
namespace DocExamples.Script

open ReadsFrom (parse_bind_eq_ok bind_run eat_cases eatWord_cases)

/-- No tokens, or a line end and what comes after it. -/
inductive Ended : List Token → Prop where
  | nil : Ended []
  | line (width : Nat) (rest : List Token) : Ended (.newline width :: rest)

/-- What the first reader reads at the cursor, the second reads where `more` stands behind the
tokens, at any indentation; it leaves no more tokens than there are. -/
def Extends {α : Type} (more : List Token) (indent : Nat) (c : Cursor) (p q : Parse α) : Prop :=
  ∀ a c', p c = .ok (a, c') → c'.tokens.length ≤ c.tokens.length ∧
    q ⟨c.tokens ++ more, indent⟩ = .ok (a, ⟨c'.tokens ++ more, indent⟩)

namespace Extends

variable {α β : Type} {more : List Token} {indent : Nat} {c : Cursor} {p q : Parse α}
  {f g : α → Parse β}

theorem pure {a : α} : Extends more indent c (pure a) (pure a) := by
  intro b c' given
  cases given
  exact ⟨Nat.le_refl _, rfl⟩

theorem fail {e : SyntaxFault} : Extends more indent c (Parse.fail e) q := by
  intro a c' given
  cases given

theorem unexpected {what : String} : Extends more indent c (Parse.unexpected what) q := by
  intro a c' given
  cases given

theorem bind (first : Extends more indent c p q)
    (next : ∀ a c', c'.tokens.length ≤ c.tokens.length → Extends more indent c' (f a) (g a)) :
    Extends more indent c (p >>= f) (q >>= g) := by
  intro b c'' given
  obtain ⟨a, c', read, later⟩ := parse_bind_eq_ok.mp given
  have ⟨shorter, here⟩ := first a c' read
  have ⟨shorterLater, there⟩ := next a c' shorter b c'' later
  rw [bind_run here]
  exact ⟨Nat.le_trans shorterLater shorter, there⟩

theorem map {h : α → β} (reads : Extends more indent c p q) :
    Extends more indent c (h <$> p) (h <$> q) := by
  rw [← bind_pure_comp, ← bind_pure_comp]
  exact reads.bind fun a c' _ => pure

/-- Both readers take the same tokens. -/
theorem of_run {a : α} (c' : Cursor) (shorter : c'.tokens.length ≤ c.tokens.length)
    (here : p c = .ok (a, c')) (there : q ⟨c.tokens ++ more, indent⟩ = .ok (a, ⟨c'.tokens ++ more, indent⟩)) :
    Extends more indent c p q := by
  intro b d given
  cases here.symm.trans given
  exact ⟨shorter, there⟩

theorem of_error {e : SyntaxFault} (here : p c = .error e) : Extends more indent c p q := by
  intro b d given
  cases here.symm.trans given

/-! ### Steps -/

/-- A step that takes the same tokens in both readers. -/
theorem step {a b : α} {c' : Cursor} (here : p c = .ok (a, c'))
    (there : q ⟨c.tokens ++ more, indent⟩ = .ok (b, ⟨c'.tokens ++ more, indent⟩))
    (shorter : c'.tokens.length ≤ c.tokens.length) (next : Extends more indent c' (f a) (g b)) :
    Extends more indent c (p >>= f) (q >>= g) := by
  intro result c'' given
  rw [bind_run here] at given
  rw [bind_run there]
  have ⟨shorterLater, later⟩ := next result c'' given
  exact ⟨Nat.le_trans shorterLater shorter, later⟩

theorem eat {s : Symbol} {f g : Bool → Parse β} (ended : Ended more)
    (taken : ∀ c', c'.tokens.length < c.tokens.length → Extends more indent c' (f true) (g true))
    (stay : Extends more indent c (f false) (g false)) :
    Extends more indent c (Parse.eat s >>= f) (Parse.eat s >>= g) := by
  obtain ⟨tokens, width⟩ := c
  rcases eat_cases s ⟨tokens, width⟩ with ⟨rest, shape, run⟩ | run
  · cases shape
    have there := Takes.eat_symbol s (rest ++ more) indent
    exact step run there (Nat.le_succ _) (taken _ (Nat.lt_succ_self _))
  · refine step run ?_ (Nat.le_refl _) stay
    rcases eat_cases s ⟨tokens ++ more, indent⟩ with ⟨rest, shape, -⟩ | there
    · cases tokens with
      | nil => cases ended <;> cases shape
      | cons token tokens =>
        cases shape
        cases (Takes.eat_symbol s tokens width).symm.trans run
    · exact there

theorem eatWord {k : Keyword} {f g : Bool → Parse β} (ended : Ended more)
    (taken : ∀ c', c'.tokens.length < c.tokens.length → Extends more indent c' (f true) (g true))
    (stay : Extends more indent c (f false) (g false)) :
    Extends more indent c (Parse.eatWord k >>= f) (Parse.eatWord k >>= g) := by
  obtain ⟨tokens, width⟩ := c
  rcases eatWord_cases k ⟨tokens, width⟩ with ⟨rest, shape, run⟩ | run
  · cases shape
    have there := Takes.eatWord_keyword k (rest ++ more) indent
    exact step run there (Nat.le_succ _) (taken _ (Nat.lt_succ_self _))
  · refine step run ?_ (Nat.le_refl _) stay
    rcases eatWord_cases k ⟨tokens ++ more, indent⟩ with ⟨rest, shape, -⟩ | there
    · cases tokens with
      | nil => cases ended <;> cases shape
      | cons token tokens =>
        cases shape
        cases (Takes.eatWord_keyword k tokens width).symm.trans run
    · exact there

theorem consume {s : Symbol} {what : String} (ended : Ended more) :
    Extends more indent c (Parse.consume s what) (Parse.consume s what) :=
  eat ended (fun _ _ => pure) unexpected

theorem consumeWord {k : Keyword} {what : String} (ended : Ended more) :
    Extends more indent c (Parse.consumeWord k what) (Parse.consumeWord k what) :=
  eatWord ended (fun _ _ => pure) unexpected

theorem name {what : String} : Extends more indent c (Parse.name what) (Parse.name what) := by
  obtain ⟨tokens, width⟩ := c
  cases tokens with
  | nil => exact of_error rfl
  | cons token rest =>
    cases token with
    | name n => exact of_run _ (Nat.le_succ _) rfl rfl
    | newline | keyword | symbol | int | float | str => exact of_error rfl

theorem peekBoth {f g : Option Token → Parse β}
    (next : Extends more indent c (f c.tokens.head?) (g (c.tokens ++ more).head?)) :
    Extends more indent c (Parse.peek? >>= f) (Parse.peek? >>= g) := by
  exact step rfl rfl (Nat.le_refl _) next

/-- The second reader sees a line end where the first one sees no token. -/
theorem peek {f g : Option Token → Parse β} (ended : Ended more)
    (atEnd : c.tokens = [] → ∀ t : Option Token, (t = none ∨ ∃ w, t = some (.newline w)) →
      Extends more indent c (f none) (g t))
    (next : ∀ t rest, c.tokens = t :: rest → Extends more indent c (f (some t)) (g (some t))) :
    Extends more indent c (Parse.peek? >>= f) (Parse.peek? >>= g) := by
  refine peekBoth ?_
  obtain ⟨tokens, width⟩ := c
  cases tokens with
  | nil =>
    cases ended with
    | nil => exact atEnd rfl _ (.inl rfl)
    | line w rest => exact atEnd rfl _ (.inr ⟨w, rfl⟩)
  | cons token rest => exact next token rest rfl

/-- A decision that no line end changes. -/
theorem peekSame {f g : Option Token → Parse β} (ended : Ended more)
    (same : ∀ w, g (some (.newline w)) = g none) (next : ∀ t, Extends more indent c (f t) (g t)) :
    Extends more indent c (Parse.peek? >>= f) (Parse.peek? >>= g) := by
  refine peek ended (fun _ t atEnd => ?_) fun t _ _ => next _
  rcases atEnd with rfl | ⟨w, rfl⟩
  · exact next none
  · rw [same]
    exact next none

theorem skip {f g : Unit → Parse β} {token : Token} {rest : List Token}
    (shape : c.tokens = token :: rest)
    (next : ∀ c', c'.tokens.length < c.tokens.length → Extends more indent c' (f ()) (g ())) :
    Extends more indent c (Parse.skip >>= f) (Parse.skip >>= g) := by
  obtain ⟨tokens, width⟩ := c
  cases shape
  have here : Parse.skip ⟨token :: rest, width⟩ = .ok ((), ⟨rest, width⟩) := rfl
  exact step here rfl (Nat.le_succ _) (next _ (Nat.lt_succ_self _))

theorem left {f g : Nat → Parse β}
    (next : ∀ n, c.tokens.length ≤ n → Extends more indent c (f c.tokens.length) (g n)) :
    Extends more indent c (Parse.left >>= f) (Parse.left >>= g) := by
  have longer : c.tokens.length ≤ (c.tokens ++ more).length := by
    rw [List.length_append]
    exact Nat.le_add_right _ _
  exact step rfl rfl (Nat.le_refl _) (next _ longer)

theorem isNext {s : Symbol} {f g : Bool → Parse β} (ended : Ended more)
    (next : ∀ found, Extends more indent c (f found) (g found)) :
    Extends more indent c (Parse.isNext s >>= f) (Parse.isNext s >>= g) := by
  rw [Grammar.isNext_bind, Grammar.isNext_bind]
  exact peekSame ended (fun _ => rfl) fun t => next _

theorem descend {budget : Nat} {f g : Nat → Parse β}
    (next : ∀ left, Extends more indent c (f left) (g left)) :
    Extends more indent c (Parse.descend budget >>= f) (Parse.descend budget >>= g) := by
  cases budget with
  | zero => exact of_error rfl
  | succ left => exact step rfl rfl (Nat.le_refl _) (next left)

end Extends

namespace Grammar

variable {more : List Token} {indent : Nat} (ended : Ended more)

include ended

/-! ### Lists with commas -/

section

variable {α : Type} {ends : Option Token → Bool} {item item' : Parse α} {join : List α → α}

theorem extends_commaTail (same : ∀ w, ends (some (.newline w)) = ends none)
    (reads : ∀ c, Extends more indent c item item') {fuel fuel' : Nat} (le : fuel ≤ fuel')
    {c : Cursor} (enough : c.tokens.length ≤ fuel) :
    Extends more indent c (commaTail ends item fuel) (commaTail ends item' fuel') := by
  induction fuel generalizing fuel' c with
  | zero =>
    obtain ⟨tokens, width⟩ := c
    obtain rfl := List.length_eq_zero_iff.mp (Nat.le_zero.mp enough)
    refine .of_run ⟨[], width⟩ (Nat.le_refl _) rfl ?_
    cases fuel' with
    | zero => rfl
    | succ fuel' => cases ended <;> rfl
  | succ fuel ih =>
    match fuel', le with
    | fuel' + 1, le =>
      refine .eat ended (fun c shorter => ?_) .pure
      refine .peekSame ended (fun w => by simp only [same w]) fun t => ?_
      split
      · exact .pure
      · refine (reads c).bind fun a c' shorter' => ?_
        exact (ih (Nat.le_of_succ_le_succ le) (by omega)).bind fun _ _ _ => .pure

theorem extends_commaList (same : ∀ w, ends (some (.newline w)) = ends none)
    (reads : ∀ c, Extends more indent c item item') (c : Cursor) :
    Extends more indent c (commaList join ends item) (commaList join ends item') := by
  refine (reads c).bind fun a c _ => .isNext ended fun comma => ?_
  split
  · exact .pure
  · refine .left fun n le => ?_
    exact (extends_commaTail ended same reads le (Nat.le_refl _)).bind fun _ _ _ => .pure

end

/-! ### Targets -/

theorem extends_targetAtom (budget : Nat) (c : Cursor) :
    Extends more indent c (targetAtom budget) (targetAtom budget) := by
  have name (c : Cursor) : Extends more indent c
      (do return Target.name (← Parse.name "a loop variable"))
      (do return Target.name (← Parse.name "a loop variable")) :=
    Extends.name.bind fun _ _ _ => .pure
  induction budget generalizing c with
  | zero => exact .eat ended (fun _ _ => .of_error rfl) (name c)
  | succ budget ih =>
    refine .eat ended (fun c _ => ?_) (name c)
    rw [targetListOf_eq]
    refine (extends_commaList ended (fun _ => rfl) ih c).bind fun _ c _ => ?_
    exact (Extends.consume ended).bind fun _ _ _ => .pure

theorem extends_targetList (budget : Nat) (c : Cursor) :
    Extends more indent c (targetList budget) (targetList budget) := by
  rw [targetList, targetListOf_eq]
  exact extends_commaList ended (fun _ => rfl) (extends_targetAtom ended budget) c

/-! ### Displays, subscripts and arguments -/

theorem extends_keywordName? (c : Cursor) : Extends more indent c keywordName? keywordName? := by
  obtain ⟨tokens, width⟩ := c
  match tokens with
  | [] => exact .of_run _ (Nat.le_refl _) rfl (by cases ended <;> rfl)
  | [.name n] => exact .of_run _ (Nat.le_refl _) rfl (by cases ended <;> rfl)
  | .name n :: .symbol s :: rest =>
    by_cases equal : s = .equal
    · subst equal
      exact .of_run ⟨rest, width⟩ (Nat.le_add_right _ 2) rfl rfl
    · have stay (c : Cursor) (shape : ∃ rest, c.tokens = .name n :: .symbol s :: rest) :
          keywordName? c = .ok (none, c) := by
        obtain ⟨rest, shape⟩ := shape
        unfold keywordName?
        split
        · next found =>
          cases shape.symm.trans found
          exact absurd rfl equal
        · rfl
      exact .of_run _ (Nat.le_refl _) (stay _ ⟨rest, rfl⟩) (stay _ ⟨rest ++ more, rfl⟩)
  | .name n :: .newline _ :: rest | .name n :: .keyword _ :: rest | .name n :: .int _ :: rest
  | .name n :: .float _ :: rest | .name n :: .str _ :: rest | .name n :: .name _ :: rest
  | .newline _ :: rest | .keyword _ :: rest | .symbol _ :: rest | .int _ :: rest | .float _ :: rest
  | .str _ :: rest => exact .of_run _ (Nat.le_refl _) rfl rfl

section

variable {expression expression' : Parse Expr}
  (reads : ∀ c, Extends more indent c expression expression')

include reads

theorem extends_expressionListOf (c : Cursor) :
    Extends more indent c (expressionListOf expression) (expressionListOf expression') := by
  rw [expressionListOf_eq, expressionListOf_eq]
  exact extends_commaList ended (fun _ => rfl) reads c

theorem extends_dictEntries {fuel fuel' : Nat} (le : fuel ≤ fuel') (c : Cursor) :
    Extends more indent c (dictEntries expression fuel) (dictEntries expression' fuel') := by
  induction fuel generalizing fuel' c with
  | zero => exact .unexpected
  | succ fuel ih =>
    match fuel', le with
    | fuel' + 1, le =>
      refine .eat ended (fun _ _ => .pure) ?_
      refine (reads c).bind fun key c _ => (Extends.consume ended).bind fun _ c _ => ?_
      refine (reads c).bind fun value c _ => .eat ended (fun c _ => ?_) ?_
      · exact (ih (Nat.le_of_succ_le_succ le) c).bind fun _ _ _ => .pure
      · exact (Extends.consume ended).bind fun _ _ _ => .pure

theorem extends_sliceBound (c : Cursor) :
    Extends more indent c (sliceBound expression) (sliceBound expression') := by
  refine .peekSame ended (fun _ => rfl) fun t => ?_
  split
  · exact .pure
  · exact .pure
  · exact .pure
  · exact (reads c).map

theorem extends_sliceTail (start : Option Expr) (c : Cursor) :
    Extends more indent c (sliceTail expression start) (sliceTail expression' start) := by
  refine (Extends.consume ended).bind fun _ c _ => ?_
  refine (extends_sliceBound ended reads c).bind fun stop c _ => .eat ended (fun c _ => ?_) .pure
  exact (extends_sliceBound ended reads c).bind fun _ _ _ => .pure

theorem extends_sliceItem (c : Cursor) :
    Extends more indent c (sliceItem expression) (sliceItem expression') := by
  refine .isNext ended fun colon => ?_
  split
  · exact extends_sliceTail ended reads none c
  · refine (reads c).bind fun e c _ => .isNext ended fun colon => ?_
    split
    · exact extends_sliceTail ended reads (some e) c
    · exact .pure

theorem extends_subscript (c : Cursor) :
    Extends more indent c (subscript expression) (subscript expression') := by
  rw [subscript_eq, subscript_eq]
  exact extends_commaList ended (fun _ => rfl) (extends_sliceItem ended reads) c

theorem extends_callArguments {fuel fuel' : Nat} (le : fuel ≤ fuel') (args : List Expr)
    (kwargs : List (String × Expr)) (c : Cursor) :
    Extends more indent c (callArguments expression args kwargs fuel)
      (callArguments expression' args kwargs fuel') := by
  induction fuel generalizing fuel' args kwargs c with
  | zero => exact .unexpected
  | succ fuel ih =>
    match fuel', le with
    | fuel' + 1, le =>
      -- After one argument there is a comma or the closing parenthesis.
      have rest (args : List Expr) (kwargs : List (String × Expr)) (c : Cursor) :
          Extends more indent c
            (do if ← Parse.eat .comma then callArguments expression args kwargs fuel
                else
                  Parse.consume .rightParen "`)`"
                  return (args, kwargs))
            (do if ← Parse.eat .comma then callArguments expression' args kwargs fuel'
                else
                  Parse.consume .rightParen "`)`"
                  return (args, kwargs)) := by
        refine .eat ended (fun c _ => ih (Nat.le_of_succ_le_succ le) args kwargs c) ?_
        exact (Extends.consume ended).bind fun _ _ _ => .pure
      refine .eat ended (fun _ _ => .pure) ?_
      refine (extends_keywordName? ended c).bind fun name c _ => ?_
      cases name with
      | some n => exact (reads c).bind fun e c _ => rest _ _ c
      | none =>
        dsimp only
        split
        · exact .of_error rfl
        · exact (reads c).bind fun e c _ => rest _ _ c

end

/-! ### Levels -/

section

omit ended in
/-- Nested expressions are read the same. -/
def ExtendsBelow (more : List Token) (indent : Nat) (below below' : Below) : Prop :=
  ∀ level budget c, Extends more indent c (below level budget) (below' level budget)

variable {below below' : Below} (nested : ExtendsBelow more indent below below')

include nested

theorem extends_comprehensionTail (budget : Nat) (element : Expr) (c : Cursor) :
    Extends more indent c (comprehensionTail below budget element)
      (comprehensionTail below' budget element) := by
  refine (extends_targetList ended budget c).bind fun target c _ => ?_
  refine (Extends.consumeWord ended).bind fun _ c _ => ?_
  refine (nested .disjunction budget c).bind fun source c _ => .eatWord ended (fun c _ => ?_) ?_
  · refine (nested .disjunction budget c).map.bind fun condition c _ => ?_
    exact (Extends.consume ended).bind fun _ _ _ => .pure
  · exact (Extends.consume ended).bind fun _ _ _ => .pure

theorem extends_listDisplay (budget : Nat) (c : Cursor) :
    Extends more indent c (listDisplay below budget) (listDisplay below' budget) := by
  refine .eat ended (fun _ _ => .pure) ?_
  refine (nested .expression budget c).bind fun first c _ => .eatWord ended (fun c _ => ?_) ?_
  · exact extends_comprehensionTail ended nested budget first c
  · refine .left fun n le => ?_
    rw [bracketTail_eq, bracketTail_eq]
    refine (extends_commaTail ended (fun _ => rfl) (nested .expression budget) le
      (Nat.le_refl _)).bind fun others c _ => ?_
    exact (Extends.consume ended).bind fun _ _ _ => .pure

theorem extends_dictDisplay (budget : Nat) (c : Cursor) :
    Extends more indent c (dictDisplay below budget) (dictDisplay below' budget) := by
  refine .left fun n le => ?_
  exact (extends_dictEntries ended (nested .expression budget) (Nat.succ_le_succ le) c).bind
    fun _ _ _ => .pure

omit nested in
theorem moreStrings_append (text : String) (tokens : List Token) :
    (moreStrings text tokens).2.length ≤ tokens.length ∧ moreStrings text (tokens ++ more) =
      ((moreStrings text tokens).1, (moreStrings text tokens).2 ++ more) := by
  induction tokens generalizing text with
  | nil => exact ⟨Nat.le_refl _, by cases ended <;> rfl⟩
  | cons token tokens ih =>
    cases token with
    | str next =>
      have ⟨shorter, same⟩ := ih (text ++ next)
      exact ⟨Nat.le_succ_of_le shorter, same⟩
    | newline | keyword | symbol | int | float | name => exact ⟨Nat.le_refl _, rfl⟩

omit nested in
theorem extends_joinedString (text : String) (c : Cursor) :
    Extends more indent c (joinedString text) (joinedString text) := by
  have ⟨shorter, same⟩ := moreStrings_append ended text c.tokens
  refine .of_run ⟨(moreStrings text c.tokens).2, c.indent⟩ shorter rfl ?_
  unfold joinedString
  dsimp only
  rw [same]

theorem extends_atom (budget : Nat) (c : Cursor) :
    Extends more indent c (atom below budget) (atom below' budget) := by
  refine .peek ended (fun _ _ _ => .fail) fun token rest shape => .skip shape fun c _ => ?_
  cases token with
  | int | float | name => exact .pure
  | str text => exact extends_joinedString ended text c
  | newline => exact .fail
  | keyword k =>
    cases k with
    | trueKw | falseKw | noneKw => exact .pure
    | _ => exact .fail
  | symbol s =>
    cases s with
    | leftParen =>
      refine .eat ended (fun _ _ => .pure) ?_
      refine (extends_expressionListOf ended (nested .expression budget) c).bind fun inner c _ => ?_
      exact (Extends.consume ended).bind fun _ _ _ => .pure
    | leftBracket => exact extends_listDisplay ended nested budget c
    | leftBrace => exact extends_dictDisplay ended nested budget c
    | _ => exact .fail

/-- Both readers go on with a call, subscript or attribute, or neither does. -/
theorem extends_trailer? (budget : Nat) (e : Expr) (c : Cursor) :
    trailer? below budget e c.tokens.head? = none ∧
        trailer? below' budget e (c.tokens ++ more).head? = none ∨
      ∃ p q, trailer? below budget e c.tokens.head? = some p ∧
        trailer? below' budget e (c.tokens ++ more).head? = some q ∧ Extends more indent c p q := by
  obtain ⟨tokens, width⟩ := c
  cases tokens with
  | nil => exact .inl ⟨rfl, by cases ended <;> rfl⟩
  | cons token rest =>
    cases token with
    | symbol s =>
      cases s with
      | leftParen =>
        refine .inr ⟨_, _, rfl, rfl, .skip rfl fun c _ => .left fun n le => ?_⟩
        exact (extends_callArguments ended (nested .expression budget) (Nat.succ_le_succ le) [] []
          c).bind fun _ _ _ => .pure
      | leftBracket =>
        refine .inr ⟨_, _, rfl, rfl, .skip rfl fun c _ => ?_⟩
        refine (extends_subscript ended (nested .expression budget) c).bind fun s c _ => ?_
        exact (Extends.consume ended).bind fun _ _ _ => .pure
      | dot =>
        exact .inr ⟨_, _, rfl, rfl, .skip rfl fun c _ => Extends.name.bind fun _ _ _ => .pure⟩
      | _ => exact .inl ⟨rfl, rfl⟩
    | newline | keyword | int | float | str | name => exact .inl ⟨rfl, rfl⟩

theorem extends_trailers (budget : Nat) (e : Expr) (c : Cursor) :
    Extends more indent c (trailers below budget e) (trailers below' budget e) := by
  induction budget generalizing e c with
  | zero =>
    refine .peekBoth ?_
    rcases extends_trailer? ended nested 0 e c with ⟨stop, stop'⟩ | ⟨p, q, next, -⟩
    · rw [stop, stop']
      exact .pure
    · rw [next]
      exact .of_error rfl
  | succ budget ih =>
    refine .peekBoth ?_
    rcases extends_trailer? ended nested budget e c with ⟨stop, stop'⟩ | ⟨p, q, next, next', reads⟩
    · rw [stop, stop']
      exact .pure
    · rw [next, next']
      exact reads.bind fun e c _ => ih e c

theorem extends_postfixed (budget : Nat) (c : Cursor) :
    Extends more indent c (postfixed below budget) (postfixed below' budget) :=
  (extends_atom ended nested budget c).bind fun e c _ => extends_trailers ended nested budget e c

theorem extends_power (budget : Nat) (c : Cursor) :
    Extends more indent c (power below budget) (power below' budget) := by
  refine (extends_postfixed ended nested budget c).bind fun base c _ => ?_
  refine .eat ended (fun c _ => .descend fun less => ?_) .pure
  exact (nested .factor less c).bind fun _ _ _ => .pure

theorem extends_factor (budget : Nat) (c : Cursor) :
    Extends more indent c (factor below budget) (factor below' budget) := by
  refine .peek ended (fun _ t atEnd => ?_) fun token rest shape => ?_
  · rcases atEnd with rfl | ⟨w, rfl⟩ <;> exact extends_power ended nested budget c
  · cases sign? (some token) with
    | none => exact extends_power ended nested budget c
    | some op =>
      refine .skip shape fun c _ => .descend fun less => ?_
      exact (nested .factor less c).bind fun _ _ _ => .pure

omit nested in
theorem extends_chain {join? : Token → Option (Expr → Expr → Expr)}
    (noJoin : ∀ w, join? (.newline w) = none) {operand operand' : Nat → Parse Expr}
    (reads : ∀ budget c, Extends more indent c (operand budget) (operand' budget)) (budget : Nat)
    (c : Cursor) :
    Extends more indent c (chain join? operand budget) (chain join? operand' budget) := by
  have further (budget : Nat) (e : Expr) (c : Cursor) :
      Extends more indent c (leftChain join? operand budget e)
        (leftChain join? operand' budget e) := by
    induction budget generalizing e c with
    | zero =>
      refine .peekSame ended (fun w => ?_) fun t => ?_
      · simp only [Option.bind_some, noJoin, Option.bind_none]
      · split
        · exact .of_error rfl
        · exact .pure
    | succ budget ih =>
      refine .peek ended (fun _ t atEnd => ?_) fun token rest shape => ?_
      · rcases atEnd with rfl | ⟨w, rfl⟩
        · exact .pure
        · rw [Option.bind_some, noJoin]
          exact .pure
      · cases found : (some token).bind join? with
        | none => exact .pure
        | some join =>
          refine .skip shape fun c _ => (reads budget c).bind fun right c _ => ?_
          exact ih _ c
  exact (reads budget c).bind fun e c _ => further budget e c

theorem extends_term (budget : Nat) (c : Cursor) :
    Extends more indent c (term below budget) (term below' budget) :=
  extends_chain ended (fun _ => rfl) (extends_factor ended nested) budget c

theorem extends_sum (budget : Nat) (c : Cursor) :
    Extends more indent c (sum below budget) (sum below' budget) :=
  extends_chain ended (fun _ => rfl) (extends_term ended nested) budget c

omit nested in
theorem comparison?_append (tokens : List Token) :
    comparison? (tokens ++ more) = (comparison? tokens).map fun (op, rest) => (op, rest ++ more) := by
  match tokens with
  | [] => cases ended <;> rfl
  | [.keyword k] => cases ended <;> cases k <;> rfl
  | .keyword k :: token :: rest =>
    cases k with
    | notKw | isKw =>
      cases token with
      | keyword k' => cases k' <;> rfl
      | _ => rfl
    | _ => rfl
  | .symbol s :: rest => cases s <;> rfl
  | .newline _ :: rest | .int _ :: rest | .float _ :: rest | .str _ :: rest | .name _ :: rest => rfl

omit ended nested in
theorem comparison?_shorter {tokens rest : List Token} {op : CompareOp}
    (found : comparison? tokens = some (op, rest)) : rest.length ≤ tokens.length := by
  unfold comparison? at found
  split at found <;> cases found <;> simp <;> omega

omit nested in
theorem extends_takeComparison (c : Cursor) :
    Extends more indent c takeComparison takeComparison := by
  obtain ⟨tokens, width⟩ := c
  have same := comparison?_append ended tokens
  cases found : comparison? tokens with
  | none =>
    rw [found] at same
    refine .of_run (a := none) ⟨tokens, width⟩ (Nat.le_refl _) ?_ ?_
    · rw [takeComparison, found]
    · rw [takeComparison, same]
      rfl
  | some result =>
    obtain ⟨op, rest⟩ := result
    rw [found] at same
    refine .of_run (a := some op) ⟨rest, width⟩ (comparison?_shorter found) ?_ ?_
    · rw [takeComparison, found]
    · rw [takeComparison, same]
      rfl

theorem extends_comparisons (budget : Nat) (before : Option Expr) (e : Expr) (c : Cursor) :
    Extends more indent c (comparisons (sum below) budget before e)
      (comparisons (sum below') budget before e) := by
  induction budget generalizing before e c with
  | zero =>
    refine (extends_takeComparison ended c).bind fun found c _ => ?_
    split
    · exact .of_error rfl
    · exact .pure
  | succ budget ih =>
    refine (extends_takeComparison ended c).bind fun found c _ => ?_
    cases found with
    | none => exact .pure
    | some op => exact (extends_sum ended nested budget c).bind fun right c _ => ih _ _ c

theorem extends_negation (budget : Nat) (c : Cursor) :
    Extends more indent c (negation below budget) (negation below' budget) := by
  refine .eatWord ended (fun c _ => .descend fun less => ?_) ?_
  · exact (nested .negation less c).bind fun _ _ _ => .pure
  · exact (extends_sum ended nested budget c).bind fun e c _ =>
      extends_comparisons ended nested budget none e c

theorem extends_disjunction (budget : Nat) (c : Cursor) :
    Extends more indent c (disjunction below budget) (disjunction below' budget) :=
  extends_chain ended (fun _ => rfl)
    (extends_chain ended (fun _ => rfl) (extends_negation ended nested)) budget c

theorem extends_conditional (budget : Nat) (c : Cursor) :
    Extends more indent c (conditional below budget) (conditional below' budget) := by
  refine (extends_disjunction ended nested budget c).bind fun yes c _ => ?_
  refine .eatWord ended (fun c _ => ?_) .pure
  refine (extends_disjunction ended nested budget c).bind fun condition c _ => ?_
  refine (Extends.consumeWord ended).bind fun _ c _ => ?_
  exact (nested .expression budget c).bind fun _ _ _ => .pure

end

/-- With more fuel the same is read. -/
theorem extends_expressionWith {fuel fuel' : Nat} (le : fuel ≤ fuel') :
    ExtendsBelow more indent (expressionWith fuel) (expressionWith fuel') := by
  induction fuel generalizing fuel' with
  | zero => exact fun _ _ _ => .fail
  | succ fuel ih =>
    match fuel', le with
    | fuel' + 1, le =>
      have nested : ExtendsBelow more indent (expressionWith fuel) (expressionWith fuel') :=
        ih (Nat.le_of_succ_le_succ le)
      intro level budget c
      cases level with
      | expression => exact .descend fun less => extends_conditional ended nested less c
      | disjunction => exact extends_disjunction ended nested budget c
      | negation => exact extends_negation ended nested budget c
      | factor => exact extends_factor ended nested budget c

theorem extends_expression (budget : Nat) (c : Cursor) :
    Extends more indent c (expression budget) (expression budget) :=
  .left fun _ le => extends_expressionWith ended (Nat.succ_le_succ le) .expression budget c

/-! ### Simple statements -/

omit ended in
theorem extends_toTarget (e : Expr) (c : Cursor) :
    Extends more indent c (toTarget e) (toTarget e) := by
  unfold toTarget
  split
  · exact .pure
  · exact .fail

theorem extends_dottedTail (name : String) {fuel fuel' : Nat} (le : fuel ≤ fuel') {c : Cursor}
    (enough : c.tokens.length ≤ fuel) :
    Extends more indent c (dottedTail name fuel) (dottedTail name fuel') := by
  induction fuel generalizing name fuel' c with
  | zero =>
    obtain ⟨tokens, width⟩ := c
    obtain rfl := List.length_eq_zero_iff.mp (Nat.le_zero.mp enough)
    refine .of_run ⟨[], width⟩ (Nat.le_refl _) rfl ?_
    cases fuel' with
    | zero => rfl
    | succ fuel' => cases ended <;> rfl
  | succ fuel ih =>
    match fuel', le with
    | fuel' + 1, le =>
      refine .eat ended (fun c shorter => Extends.name.bind fun next c' shorter' => ?_) .pure
      exact ih _ (Nat.le_of_succ_le_succ le) (by omega)

theorem extends_dottedName (c : Cursor) : Extends more indent c dottedName dottedName :=
  Extends.name.bind fun first _ _ => .left fun _ le =>
    extends_dottedTail ended first le (Nat.le_refl _)

theorem extends_newName? (c : Cursor) : Extends more indent c newName? newName? :=
  .eatWord ended (fun _ _ => Extends.name.map) .pure

theorem extends_importedNames {fuel fuel' : Nat} (le : fuel ≤ fuel') (c : Cursor) :
    Extends more indent c (importedNames fuel) (importedNames fuel') := by
  induction fuel generalizing fuel' c with
  | zero => exact .unexpected
  | succ fuel ih =>
    match fuel', le with
    | fuel' + 1, le =>
      refine Extends.name.bind fun name c _ => (extends_newName? ended c).bind fun newName c _ => ?_
      refine .eat ended (fun c _ => ?_) .pure
      exact (ih (Nat.le_of_succ_le_succ le) c).bind fun _ _ _ => .pure

theorem extends_atLineEnd {β : Type} {f g : Bool → Parse β} {c : Cursor}
    (next : ∀ found, Extends more indent c (f found) (g found)) :
    Extends more indent c (Parse.atLineEnd >>= f) (Parse.atLineEnd >>= g) := by
  obtain ⟨tokens, width⟩ := c
  cases tokens with
  | nil => exact .step (a := true) (b := true) rfl (by cases ended <;> rfl) (Nat.le_refl _) (next true)
  | cons token rest =>
    cases token with
    | newline => exact .step rfl rfl (Nat.le_refl _) (next true)
    | keyword | symbol | int | float | str | name =>
      exact .step rfl rfl (Nat.le_refl _) (next false)

theorem extends_expressionList (budget : Nat) (c : Cursor) :
    Extends more indent c (expressionList expression budget) (expressionList expression budget) :=
  extends_expressionListOf ended (extends_expression ended budget) c

theorem extends_optionalExpressionList (budget : Nat) (c : Cursor) :
    Extends more indent c (optionalExpressionList expression budget)
      (optionalExpressionList expression budget) := by
  refine extends_atLineEnd ended fun found => .isNext ended fun semicolon => ?_
  split
  · exact .pure
  · exact (extends_expressionList ended budget c).map

theorem extends_assignmentTail (budget : Nat) (targets : List Target) {fuel fuel' : Nat}
    (le : fuel ≤ fuel') (c : Cursor) :
    Extends more indent c (assignmentTail expression budget targets fuel)
      (assignmentTail expression budget targets fuel') := by
  induction fuel generalizing targets fuel' c with
  | zero => exact .fail
  | succ fuel ih =>
    match fuel', le with
    | fuel' + 1, le =>
      refine (extends_expressionList ended budget c).bind fun value c _ => ?_
      refine .eat ended (fun c _ => ?_) .pure
      exact (extends_toTarget value c).bind fun next c _ => ih _ (Nat.le_of_succ_le_succ le) c

theorem extends_expressionStatement (budget : Nat) (c : Cursor) :
    Extends more indent c (expressionStatement expression budget)
      (expressionStatement expression budget) := by
  refine (extends_expressionList ended budget c).bind fun first c _ => ?_
  have plain (c : Cursor) : Extends more indent c
      (do if !(← Parse.eat .equal) then return Stmt.expr first
          let target ← toTarget first
          assignmentTail expression budget [target] ((← Parse.left) + 1))
      (do if !(← Parse.eat .equal) then return Stmt.expr first
          let target ← toTarget first
          assignmentTail expression budget [target] ((← Parse.left) + 1)) := by
    refine .eat ended (fun c _ => (extends_toTarget first c).bind fun target c _ => ?_) .pure
    exact .left fun n le => extends_assignmentTail ended budget [target] (Nat.succ_le_succ le) c
  refine .peek ended (fun _ t atEnd => ?_) fun token rest shape => ?_
  · rcases atEnd with rfl | ⟨w, rfl⟩ <;> exact plain c
  · cases augmentedOp? (some token) with
    | none => exact plain c
    | some op =>
      refine .skip shape fun c _ => (extends_expressionList ended budget c).bind fun value c _ => ?_
      exact (extends_toTarget first c).bind fun target c _ => .pure

theorem extends_simpleStatement (budget : Nat) (c : Cursor) :
    Extends more indent c (simpleStatement expression budget) (simpleStatement expression budget) := by
  refine .eatWord ended (fun _ _ => .pure) ?_
  refine .eatWord ended (fun _ _ => .pure) ?_
  refine .eatWord ended (fun _ _ => .pure) ?_
  refine .eatWord ended (fun c _ => ?_) ?_
  · exact (extends_optionalExpressionList ended budget c).bind fun _ _ _ => .pure
  refine .eatWord ended (fun c _ => ?_) ?_
  · exact (extends_optionalExpressionList ended budget c).bind fun _ _ _ => .pure
  refine .eatWord ended (fun c _ => ?_) ?_
  · refine (extends_expression ended budget c).bind fun condition c _ => ?_
    refine .eat ended (fun c _ => ?_) .pure
    exact (extends_expression ended budget c).map.bind fun _ _ _ => .pure
  refine .eatWord ended (fun c _ => ?_) ?_
  · refine (extends_expression ended budget c).bind fun e c _ => ?_
    exact (extends_toTarget e c).bind fun _ _ _ => .pure
  refine .eatWord ended (fun c _ => ?_) ?_
  · refine (extends_dottedName ended c).bind fun module c _ => ?_
    exact (extends_newName? ended c).bind fun _ _ _ => .pure
  refine .eatWord ended (fun c _ => ?_) ?_
  · refine (extends_dottedName ended c).bind fun module c _ => ?_
    refine (Extends.consumeWord ended).bind fun _ c _ => .left fun n le => ?_
    exact (extends_importedNames ended (Nat.succ_le_succ le) c).bind fun _ _ _ => .pure
  exact extends_expressionStatement ended budget c

theorem extends_parameters (budget : Nat) {fuel fuel' : Nat} (le : fuel ≤ fuel') (c : Cursor) :
    Extends more indent c (parameters expression budget fuel)
      (parameters expression budget fuel') := by
  induction fuel generalizing fuel' c with
  | zero => exact .unexpected
  | succ fuel ih =>
    match fuel', le with
    | fuel' + 1, le =>
      refine .eat ended (fun _ _ => .pure) (Extends.name.bind fun name c _ => ?_)
      have rest (default : Option Expr) (c : Cursor) : Extends more indent c
          (do if ← Parse.eat .comma then return (name, default) :: (← parameters expression budget fuel)
              Parse.consume .rightParen "`)`"
              return [(name, default)])
          (do if ← Parse.eat .comma then return (name, default) :: (← parameters expression budget fuel')
              Parse.consume .rightParen "`)`"
              return [(name, default)]) := by
        refine .eat ended (fun c _ => ?_) ((Extends.consume ended).bind fun _ _ _ => .pure)
        exact (ih (Nat.le_of_succ_le_succ le) c).bind fun _ _ _ => .pure
      refine .eat ended (fun c _ => ?_) (rest none c)
      exact (extends_expression ended budget c).map.bind fun default c _ => rest default c

end Grammar

/-! ### How lines begin -/

/-- Whatever the reader reads starts with the start of an expression. -/
def Begins {α : Type} (p : Parse α) : Prop :=
  ∀ c a c', p c = .ok (a, c') → Grammar.startsExpression c.tokens.head? = true

theorem Begins.bind {α β : Type} {p : Parse α} {f : α → Parse β} (begins : Begins p) :
    Begins (p >>= f) := by
  intro c b c' given
  obtain ⟨a, c₁, read, -⟩ := parse_bind_eq_ok.mp given
  exact begins c a c₁ read

namespace Grammar

theorem begins_atom (below : Below) (budget : Nat) : Begins (atom below budget) := by
  rintro ⟨tokens, width⟩ e c' given
  match tokens with
  | [] => cases given
  | .int _ :: _ | .float _ :: _ | .str _ :: _ | .name _ :: _ => rfl
  | .newline _ :: _ => cases given
  | .keyword k :: _ => cases k <;> first | rfl | cases given
  | .symbol s :: _ => cases s <;> first | rfl | cases given

theorem begins_factor (below : Below) (budget : Nat) : Begins (factor below budget) := by
  rintro ⟨tokens, width⟩ e c' given
  obtain ⟨_, _, peeked, given⟩ := parse_bind_eq_ok.mp given
  cases peeked
  have power : Begins (power below budget) := (begins_atom below budget).bind.bind
  cases sign : sign? tokens.head? with
  | none =>
    dsimp only at given
    rw [sign] at given
    exact power _ _ _ given
  | some op =>
    unfold sign? at sign
    split at sign
    · next minus => exact minus ▸ rfl
    · next plus => exact plus ▸ rfl
    · cases sign

theorem begins_negation (below : Below) (budget : Nat) : Begins (negation below budget) := by
  rintro ⟨tokens, width⟩ e c' given
  obtain ⟨found, c₁, ate, given⟩ := parse_bind_eq_ok.mp given
  rcases eatWord_cases .notKw ⟨tokens, width⟩ with ⟨rest, shape, -⟩ | run
  · cases shape
    rfl
  · cases run.symm.trans ate
    exact (begins_factor below budget).bind.bind.bind _ _ _ given

theorem begins_expression (budget : Nat) : Begins (expression budget) := by
  rintro ⟨tokens, width⟩ e c' given
  obtain ⟨_, _, left, given⟩ := parse_bind_eq_ok.mp given
  cases left
  cases budget with
  | zero => cases given
  | succ budget =>
    have conditional (below : Below) : Begins (conditional below budget) :=
      (begins_negation below budget).bind.bind.bind
    exact conditional _ _ _ _ given

/-- A simple statement starts with no word that starts a statement with blocks, or a branch. -/
def startsSimple : Option Token → Bool
  | some (.keyword k) => !([Keyword.forKw, .whileKw, .ifKw, .defKw, .elifKw, .elseKw].contains k)
  | some (.newline _) | none => false
  | some _ => true

theorem startsSimple_of_simpleStatement {budget : Nat} {c c' : Cursor} {s : Stmt}
    (given : simpleStatement expression budget c = .ok (s, c')) :
    startsSimple c.tokens.head? = true := by
  have expressions : Begins (expressionStatement expression budget) :=
    (begins_expression budget).bind.bind
  obtain ⟨tokens, width⟩ := c
  match tokens with
  | .keyword k :: rest =>
    cases k with
    | forKw | whileKw | ifKw | defKw | elifKw | elseKw => cases expressions _ _ _ given
    | _ => rfl
  | [] | .newline _ :: rest => cases expressions _ _ _ given
  | .symbol _ :: rest | .int _ :: rest | .float _ :: rest | .str _ :: rest | .name _ :: rest => rfl

end Grammar

end DocExamples.Script
