import DocExamples.Proofs.Script.Brackets
import DocExamples.Proofs.Script.Rendering
/-!
A logic of readers that take given tokens for a given result, unless the budget does not suffice,
and lists of items with commas between them in it.
-/
namespace DocExamples.Script

open ReadsFrom (bind_run)

/-- The reader takes the tokens in front of `rest` for `a`. Where the budget is not enough, it may
be exhausted instead. -/
def Takes {α : Type} (enough : Prop) (p : Parse α) (tokens : List Token) (a : α)
    (rest : List Token) : Prop :=
  ∀ indent, p ⟨tokens, indent⟩ = .ok (a, ⟨rest, indent⟩) ∨
    ¬ enough ∧ p ⟨tokens, indent⟩ = .error .tooNested

namespace Takes

variable {α β : Type} {enough : Prop} {p : Parse α} {f : α → Parse β} {a : α} {b : β}
  {tokens mid rest : List Token}

theorem of_run (run : ∀ indent, p ⟨tokens, indent⟩ = .ok (a, ⟨rest, indent⟩)) :
    Takes enough p tokens a rest :=
  fun indent => .inl (run indent)

theorem pure : Takes enough (pure a) tokens a tokens := of_run fun _ => rfl

theorem exhausted (small : ¬ enough) (run : ∀ indent, p ⟨tokens, indent⟩ = .error .tooNested) :
    Takes enough p tokens a rest :=
  fun indent => .inr ⟨small, run indent⟩

theorem mono {more : Prop} (takes : Takes enough p tokens a rest) (implies : more → enough) :
    Takes more p tokens a rest :=
  fun indent => (takes indent).imp_right fun ⟨small, run⟩ =>
    ⟨fun large => small (implies large), run⟩

theorem bind (first : Takes enough p tokens a mid) (next : Takes enough (f a) mid b rest) :
    Takes enough (p >>= f) tokens b rest := by
  intro indent
  rcases first indent with run | ⟨small, run⟩
  · rw [bind_run run]
    exact next indent
  · refine .inr ⟨small, ?_⟩
    change (p ⟨tokens, indent⟩).bind _ = _
    rw [run]
    rfl

/-- A step that takes tokens in any case. -/
theorem step (run : ∀ indent, p ⟨tokens, indent⟩ = .ok (a, ⟨mid, indent⟩))
    (next : Takes enough (f a) mid b rest) : Takes enough (p >>= f) tokens b rest :=
  (of_run run).bind next

theorem map {g : α → β} (takes : Takes enough p tokens a rest) :
    Takes enough (g <$> p) tokens (g a) rest := by
  rw [← bind_pure_comp]
  exact takes.bind pure

/-! ### Steps -/

theorem eat_symbol (s : Symbol) (tokens : List Token) (indent : Nat) :
    Parse.eat s ⟨.symbol s :: tokens, indent⟩ = .ok (true, ⟨tokens, indent⟩) := if_pos rfl

theorem eatWord_keyword (k : Keyword) (tokens : List Token) (indent : Nat) :
    Parse.eatWord k ⟨.keyword k :: tokens, indent⟩ = .ok (true, ⟨tokens, indent⟩) := if_pos rfl

theorem eat {s : Symbol} {f : Bool → Parse β} (next : Takes enough (f true) tokens b rest) :
    Takes enough (Parse.eat s >>= f) (.symbol s :: tokens) b rest :=
  step (eat_symbol s tokens) next

theorem eatOther {s : Symbol} {f : Bool → Parse β} (other : tokens.head? ≠ some (.symbol s))
    (next : Takes enough (f false) tokens b rest) :
    Takes enough (Parse.eat s >>= f) tokens b rest := by
  refine step (fun indent => ?_) next
  rcases ReadsFrom.eat_cases s ⟨tokens, indent⟩ with ⟨more, shape, -⟩ | run
  · exact absurd (congrArg List.head? shape) other
  · exact run

theorem eatWord {k : Keyword} {f : Bool → Parse β} (next : Takes enough (f true) tokens b rest) :
    Takes enough (Parse.eatWord k >>= f) (.keyword k :: tokens) b rest :=
  step (eatWord_keyword k tokens) next

theorem eatWordOther {k : Keyword} {f : Bool → Parse β}
    (other : tokens.head? ≠ some (.keyword k)) (next : Takes enough (f false) tokens b rest) :
    Takes enough (Parse.eatWord k >>= f) tokens b rest := by
  refine step (fun indent => ?_) next
  rcases ReadsFrom.eatWord_cases k ⟨tokens, indent⟩ with ⟨more, shape, -⟩ | run
  · exact absurd (congrArg List.head? shape) other
  · exact run

theorem consume {s : Symbol} {what : String} {f : Unit → Parse β}
    (next : Takes enough (f ()) tokens b rest) :
    Takes enough (Parse.consume s what >>= f) (.symbol s :: tokens) b rest := by
  refine step (fun indent => ?_) next
  rw [Parse.consume, bind_run (eat_symbol s tokens indent)]
  rfl

theorem consumeWord {k : Keyword} {what : String} {f : Unit → Parse β}
    (next : Takes enough (f ()) tokens b rest) :
    Takes enough (Parse.consumeWord k what >>= f) (.keyword k :: tokens) b rest := by
  refine step (fun indent => ?_) next
  rw [Parse.consumeWord, bind_run (eatWord_keyword k tokens indent)]
  rfl

theorem peek {f : Option Token → Parse β} (next : Takes enough (f tokens.head?) tokens b rest) :
    Takes enough (Parse.peek? >>= f) tokens b rest := step (fun _ => rfl) next

theorem skip {token : Token} {f : Unit → Parse β} (next : Takes enough (f ()) tokens b rest) :
    Takes enough (Parse.skip >>= f) (token :: tokens) b rest := step (fun _ => rfl) next

theorem left {f : Nat → Parse β} (next : Takes enough (f tokens.length) tokens b rest) :
    Takes enough (Parse.left >>= f) tokens b rest := step (fun _ => rfl) next

theorem name {n what : String} {f : String → Parse β} (next : Takes enough (f n) tokens b rest) :
    Takes enough (Parse.name what >>= f) (.name n :: tokens) b rest := step (fun _ => rfl) next

theorem isNext {s : Symbol} {f : Bool → Parse β}
    (next : Takes enough (f true) (.symbol s :: tokens) b rest) :
    Takes enough (Parse.isNext s >>= f) (.symbol s :: tokens) b rest := by
  refine step (fun indent => ?_) next
  have same := beq_self_eq_true s
  exact congrArg (fun found => Except.ok (found, (⟨.symbol s :: tokens, indent⟩ : Cursor))) same

theorem isNextOther {s : Symbol} {f : Bool → Parse β} (other : tokens.head? ≠ some (.symbol s))
    (next : Takes enough (f false) tokens b rest) :
    Takes enough (Parse.isNext s >>= f) tokens b rest := by
  refine step (fun indent => ?_) next
  unfold Parse.isNext
  split
  · next t more shape =>
    have apart : t ≠ s := fun same => other (same ▸ congrArg List.head? shape)
    rw [beq_false_of_ne apart]
  · rfl

/-- Within one more level of nesting. -/
theorem descend {budget : Nat} {f : Nat → Parse β} (some : enough → 0 < budget)
    (next : ∀ left, budget = left + 1 → Takes enough (f left) tokens b rest) :
    Takes enough (Parse.descend budget >>= f) tokens b rest := by
  cases budget with
  | zero => exact exhausted (fun large => Nat.lt_irrefl 0 (some large)) fun _ => rfl
  | succ left => exact step (fun _ => rfl) (next left rfl)

end Takes

namespace Grammar

/-! ### Commas -/

/-- More items after the first as long as a comma follows, unless what comes after it ends the
list. -/
def commaTail {α : Type} (ends : Option Token → Bool) (item : Parse α) : Nat → Parse (List α)
  | 0 => pure []
  | fuel + 1 => do
    if !(← Parse.eat .comma) then return []
    if ends (← Parse.peek?) then return []
    let next ← item
    return next :: (← commaTail ends item fuel)

/-- An item, or several with commas between them, put together. -/
def commaList {α : Type} (join : List α → α) (ends : Option Token → Bool) (item : Parse α) :
    Parse α := do
  let first ← item
  if !(← Parse.isNext .comma) then return first
  return join (first :: (← commaTail ends item (← Parse.left)))

def isWord (k : Keyword) : Option Token → Bool
  | some (.keyword found) => found == k
  | _ => false

def isSymbol (s : Symbol) : Option Token → Bool
  | some (.symbol found) => found == s
  | _ => false

theorem expressionTail_eq (expression : Parse Expr) (fuel : Nat) :
    expressionTail expression fuel = commaTail (fun t => !startsExpression t) expression fuel := by
  induction fuel with
  | zero => rfl
  | succ fuel ih => simp only [expressionTail, commaTail, ih]

theorem isNext_bind {β : Type} (s : Symbol) (f : Bool → Parse β) :
    Parse.isNext s >>= f = Parse.peek? >>= fun t => f (isSymbol s t) := by
  funext c
  obtain ⟨tokens, indent⟩ := c
  match tokens with
  | [] => rfl
  | .symbol t :: rest => rfl
  | .newline _ :: _ | .keyword _ :: _ | .int _ :: _ | .float _ :: _ | .str _ :: _
  | .name _ :: _ => rfl

theorem bracketTail_eq (item : Parse Expr) (fuel : Nat) :
    bracketTail item fuel = commaTail (isSymbol .rightBracket) item fuel := by
  induction fuel with
  | zero => rfl
  | succ fuel ih => simp only [bracketTail, commaTail, ih, isNext_bind]

theorem targetTail_eq (item : Parse Target) (fuel : Nat) :
    targetTail item fuel = commaTail (isWord .inKw) item fuel := by
  induction fuel with
  | zero => rfl
  | succ fuel ih =>
    rw [targetTail, commaTail, ih]
    refine congrArg (Parse.eat .comma >>= ·) (funext fun comma => ?_)
    cases comma with
    | false => rfl
    | true =>
      refine congrArg (Parse.peek? >>= ·) (funext fun found => ?_)
      split
      · rfl
      · next other =>
        have isOther : isWord .inKw found = false := by
          unfold isWord
          split
          · next k => exact beq_false_of_ne fun same => other (by rw [same])
          · rfl
        rw [isOther]
        rfl

theorem expressionListOf_eq (expression : Parse Expr) :
    expressionListOf expression = commaList .tuple (fun t => !startsExpression t) expression := by
  simp only [expressionListOf, commaList, expressionTail_eq]

theorem subscript_eq (expression : Parse Expr) :
    subscript expression = commaList .tuple (isSymbol .rightBracket) (sliceItem expression) := by
  simp only [subscript, commaList, bracketTail_eq]

theorem targetListOf_eq (item : Parse Target) :
    targetListOf item = commaList .unpack (isWord .inKw) item := by
  simp only [targetListOf, commaList, targetTail_eq]

section

variable {α : Type} {enough : Prop} {ends : Option Token → Bool} {item : Parse α}
  {written : α → List Token} {follows : List Token → Prop} {rest : List Token} {join : List α → α}

/-- How an item is read wherever its list may go on. -/
structure TakesItem (enough : Prop) (ends : Option Token → Bool) (item : Parse α)
    (written : α → List Token) (follows : List Token → Prop) (a : α) : Prop where
  begins : ∀ rest, ends (written a ++ rest).head? = false
  takes : ∀ rest, follows rest → Takes enough item (written a ++ rest) a rest

/-- The tokens after a list and after its items. -/
structure Follows (follows : List Token → Prop) (rest : List Token) : Prop where
  comma : ∀ tokens, follows (.symbol .comma :: tokens)
  last : follows rest
  noComma : rest.head? ≠ some (.symbol .comma)

theorem Follows.further (after : Follows follows rest) (items : List (List Token)) :
    follows (furtherItems items ++ rest) := by
  cases items with
  | nil => exact after.last
  | cons first items => exact after.comma _

theorem takes_commaTail (after : Follows follows rest) {items : List α} {fuel : Nat}
    (enoughFuel : items.length ≤ fuel)
    (each : ∀ a ∈ items, TakesItem enough ends item written follows a) :
    Takes enough (commaTail ends item fuel) (furtherItems (items.map written) ++ rest) items
      rest := by
  induction items generalizing fuel with
  | nil =>
    cases fuel with
    | zero => exact .pure
    | succ fuel => exact .eatOther after.noComma .pure
  | cons a items ih =>
    match fuel, enoughFuel with
    | fuel + 1, enoughFuel =>
      have first := each a List.mem_cons_self
      have others := ih (Nat.le_of_succ_le_succ enoughFuel) fun a' member =>
        each a' (List.mem_cons_of_mem a member)
      have shape : furtherItems ((a :: items).map written) ++ rest =
          .symbol .comma :: (written a ++ (furtherItems (items.map written) ++ rest)) := by
        simp [furtherItems]
      rw [shape]
      refine .eat (.peek ?_)
      rw [first.begins]
      exact (first.takes _ (after.further _)).bind (others.bind .pure)

/-- One item without a comma after it is given as it is. -/
theorem takes_commaList_single {a : α} {tokens : List Token}
    (takes : Takes enough item tokens a rest) (noComma : rest.head? ≠ some (.symbol .comma)) :
    Takes enough (commaList join ends item) tokens a rest :=
  takes.bind (.isNextOther noComma .pure)

/-- The items of a tuple. -/
theorem takes_commaList (after : Follows follows rest) {items : List α} (some : items ≠ [])
    (ended : items.length = 1 → ends rest.head? = true)
    (each : ∀ a ∈ items, TakesItem enough ends item written follows a) :
    Takes enough (commaList join ends item) (tupled (items.map written) ++ rest) (join items)
      rest := by
  match items, some with
  | [a], _ =>
    have first := each a List.mem_cons_self
    have shape : tupled ([a].map written) ++ rest = written a ++ .symbol .comma :: rest := by
      simp [tupled]
    rw [shape]
    refine (first.takes _ (after.comma _)).bind (.isNext (.left ?_))
    refine .bind (.eat (.peek ?_)) .pure
    rw [ended rfl]
    exact .pure
  | a :: a' :: items, _ =>
    have first := each a List.mem_cons_self
    have others : ∀ b ∈ a' :: items, TakesItem enough ends item written follows b :=
      fun b member => each b (List.mem_cons_of_mem a member)
    have whole : tupled ((a :: a' :: items).map written) ++ rest =
        written a ++ (furtherItems ((a' :: items).map written) ++ rest) := by
      simp [tupled]
    obtain ⟨more, shape⟩ : ∃ more, furtherItems ((a' :: items).map written) ++ rest =
        .symbol .comma :: more := ⟨_, rfl⟩
    have enoughFuel : (a' :: items).length ≤ (Token.symbol .comma :: more).length := by
      have bound := length_le_furtherItems ((a' :: items).map written)
      rw [← shape, List.length_append]
      rw [List.length_map] at bound
      omega
    rw [whole]
    refine (first.takes _ (after.further _)).bind ?_
    rw [shape]
    refine .isNext (.left (.bind ?_ .pure))
    rw [← shape] at enoughFuel ⊢
    exact takes_commaTail after enoughFuel others

end

end Grammar

end DocExamples.Script
