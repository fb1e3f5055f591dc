import DocExamples.Proofs.Literal.Calls
/-!
Arrays without commas: how their rows are read, and that two items without a comma between them are
no list.
-/
namespace DocExamples.Literal

open Text Token

variable {namedTuples : Bool} {depth : Nat} {element row : Reader Literal} {text : List Char}
  {tokens : List Token} {l : Literal}

/-! ### Rows -/

/-- Tokens that start an item of a row. -/
def Opens (tokens : List Token) : Prop :=
  ∃ token rest, tokens = token :: rest ∧ token ∉ [Token.leftParen, .comma, .rightBracket]

namespace Opens

theorem append (opens : Opens tokens) (rest : List Token) : Opens (tokens ++ rest) := by
  obtain ⟨token, more, rfl, other⟩ := opens
  exact ⟨token, more ++ rest, rfl, other⟩

theorem noCall (opens : Opens tokens) : tokens.head? ≠ some .leftParen := by
  obtain ⟨token, rest, rfl, other⟩ := opens
  intro same
  cases same
  exact other List.mem_cons_self

theorem eat {close : Token} (opens : Opens tokens)
    (other : close ∈ [Token.leftParen, .comma, .rightBracket]) :
    Reader.eat close tokens = some (false, tokens) := by
  obtain ⟨token, rest, rfl, different⟩ := opens
  exact eat_other (fun same => different (by rwa [same])) rest

theorem length_pos (opens : Opens tokens) : 0 < tokens.length := by
  obtain ⟨token, rest, rfl, -⟩ := opens
  exact Nat.succ_pos _

end Opens

/-- Text that is read as one more item of a row. -/
structure IsPart (element row : Reader Literal) (text : List Char) (tokens : List Token)
    (l : Literal) : Prop where
  scans : Scans text tokens
  opens : Opens tokens
  step : ∀ fuel rest, rest.head? ≠ some .leftParen →
    printedLoop element row (fuel + 1) (tokens ++ rest) =
      (printedLoop element row fuel >>= fun more => pure (l :: more)) rest

theorem IsElement.opens (element : IsElement namedTuples text tokens l) : Opens tokens := by
  obtain ⟨token, rest, rfl, starts⟩ := element.starts
  refine ⟨token, rest, rfl, fun member => ?_⟩
  simp only [List.mem_cons, List.not_mem_nil, or_false] at member
  rcases member with rfl | rfl | rfl <;> cases starts

theorem IsElement.isPart (element : IsElement namedTuples text tokens l) :
    IsPart (value namedTuples (depth + 1)) row text tokens l where
  scans := element.scans
  opens := element.opens
  step fuel rest noCall := by
    have read := (element.reads depth).value rest noCall
    obtain ⟨token, more, rfl, starts⟩ := element.starts
    cases token with
    | minus | float | int | name | ellipsis =>
      rw [printedLoop]
      exact (bind_of_some (get_eq _)).trans ((bind_of_some read).trans rfl)
    | _ => cases starts

/-- Rows within a row are read as rows. -/
theorem isPart_row {inside : List Token} (scans : Scans text (.leftBracket :: inside))
    (reads : ∀ rest, row (.leftBracket :: inside ++ rest) = some (l, rest)) :
    IsPart element row text (.leftBracket :: inside) l where
  scans := scans
  opens := ⟨_, _, rfl, by decide⟩
  step fuel rest _ := by
    rw [printedLoop]
    exact (bind_of_some (get_eq _)).trans ((bind_of_some (reads rest)).trans rfl)

section

variable {items : List Literal}

theorem Separated.opens {gap : Gap} {Part : List Char → List Token → Literal → Prop}
    (each : ∀ text tokens l, Part text tokens l → Opens tokens)
    (separated : Separated gap Part text tokens (l :: items)) : Opens tokens := by
  cases separated with
  | last part => exact each _ _ _ part
  | cons _ part later => exact (each _ _ _ part).append _

theorem printedLoop_parts (separated : Separated .nothing (IsPart element row) text tokens items)
    {fuel : Nat} (enough : items.length < fuel) (rest : List Token) :
    printedLoop element row fuel (tokens ++ .rightBracket :: rest) = some (items, rest) := by
  induction separated generalizing fuel with
  | nil =>
    cases fuel with
    | zero => cases enough
    | succ fuel => rfl
  | last part =>
    match fuel, enough with
    | fuel + 2, _ => exact (part.step _ _ (by simp)).trans rfl
  | cons _ part later ih =>
    cases fuel with
    | zero => cases enough
    | succ fuel =>
      have opens := (later.opens fun _ _ _ part => part.opens).append (.rightBracket :: rest)
      rw [List.append_assoc]
      refine (part.step fuel _ opens.noCall).trans ?_
      exact (bind_of_some (ih (Nat.lt_of_succ_lt_succ enough))).trans rfl

theorem printedSequence_parts
    (separated : Separated .nothing (IsPart (value namedTuples (depth + 1))
      (printedSequence namedTuples depth)) text tokens items) (rest : List Token) :
    printedSequence namedTuples (depth + 1)
      (.leftBracket :: (tokens ++ .rightBracket :: rest)) = some (.list items, rest) := by
  have bound := separated.length_le fun _ _ _ part => part.opens.length_pos
  have loop := printedLoop_parts separated
    (show items.length < (tokens ++ .rightBracket :: rest).length + 1 by
      rw [List.length_append]
      omega) rest
  rw [printedSequence]
  refine (bind_of_some (consume_same .leftBracket _)).trans ?_
  refine (bind_of_some (left_eq _)).trans ?_
  exact bind_of_some loop

/-! ### No lists -/

theorem value_of_refused (opens : Opens tokens) (refused : value namedTuples depth tokens = none) :
    value namedTuples (depth + 1) (.leftBracket :: tokens) = none := by
  rw [value_leftBracket]
  refine bind_of_none ((bind_of_some (left_eq _)).trans ?_)
  refine (bind_of_some (opens.eat (by decide))).trans ?_
  exact bind_of_none refused

/-- What follows the first item is neither a comma nor the end of the list. -/
theorem value_of_unseparated (reads : Reads namedTuples depth tokens l) {rest : List Token}
    (next : Opens rest) :
    value namedTuples (depth + 1) (.leftBracket :: (tokens ++ rest)) = none := by
  rw [value_leftBracket]
  refine bind_of_none ((bind_of_some (left_eq _)).trans ?_)
  refine (bind_of_some (reads.eat_close (by decide) rest)).trans ?_
  refine (bind_of_some (reads.value rest next.noCall)).trans ?_
  refine (bind_of_some (next.eat (by decide))).trans ?_
  exact bind_of_none (bind_of_some (next.eat (by decide)))

end

/-! ### Texts -/

/-- A text in brackets that is no value is read as a printed array. -/
theorem parse?_eq_printed {text : String} {nested a : Literal} (scans : Scans text.toList tokens)
    (trimmed : trim text.toList = text.toList) (opened : text.toList.head? = some '[')
    (closed : text.toList.getLast? = some ']') (refused : value namedTuples maxDepth tokens = none)
    (printed : printedSequence namedTuples maxDepth tokens = some (nested, []))
    (made : arrayLiteral nested .none .printed = some a) : parse? text namedTuples = some a := by
  have nonempty : text.toList.isEmpty = false := by
    cases shape : text.toList with
    | nil =>
      rw [shape] at opened
      cases opened
    | cons => rfl
  have strict : document namedTuples tokens = none := bind_of_none refused
  have array : printedArray namedTuples tokens = some (a, []) := by
    refine (bind_of_some printed).trans ?_
    rw [made]
    rfl
  unfold parse?
  simp [trimmed, nonempty, scans.scanned.scan, readAll?, strict, opened, closed, array]

end DocExamples.Literal
