import DocExamples.Proofs.Script.LeftGrouping
import DocExamples.Proofs.Script.Image
import DocExamples.Script.Program
import DocExamples.Proofs.Except
/-!
Expressions are read back from what they are written as.
-/
namespace DocExamples.Script.Grammar

/-! ### The other rows -/

section

variable {below : Below} {rank : Rank} {n : Nat}

/-- No token carries an expression on to the rows of signs. -/
theorem stops_sign {rest : List Token} (stops : Stops .power rest) : Stops .sign rest := by
  intro found continued
  have lt := stops found continued
  obtain ⟨token, -, continues⟩ := Option.bind_eq_some_iff.mp continued
  cases found with
  | sign =>
    unfold Token.continues? at continues
    split at continues <;> cases continues
  | power | trailer | atom => exact absurd lt (by decide)
  | conditional | disjunction | conjunction | negation | comparison | sum | product => decide

theorem takeComparison_eq_none {rest : List Token} (stops : Stops .comparison rest) (indent : Nat) :
    takeComparison ⟨rest, indent⟩ = .ok (none, ⟨rest, indent⟩) := by
  have none : comparison? rest = none := by
    cases found : comparison? rest with
    | none => rfl
    | some taken =>
      have continued : rest.head?.bind Token.continues? = some .comparison := by
        unfold comparison? at found
        split at found <;> first | rfl | cases found
      exact absurd (stops _ continued) (by decide)
  rw [takeComparison, none]

/-- `is` and `not` after it are one operator. -/
theorem takeComparison_tokens (op : CompareOp) {more : List Token}
    (other : more.head? ≠ some (.keyword .notKw)) (indent : Nat) :
    takeComparison ⟨op.tokens ++ more, indent⟩ = .ok (some op, ⟨more, indent⟩) := by
  cases op with
  | is =>
    match more with
    | .keyword k :: _ => cases k <;> first | rfl | exact absurd rfl other
    | [] | .newline _ :: _ | .symbol _ :: _ | .int _ :: _ | .float _ :: _ | .str _ :: _
    | .name _ :: _ => rfl
  | _ => rfl

/-- Where no operator of a row comes, the row reads what the next one does. -/
theorem takes_of_next {enough : Prop} {budget : Nat} {e : Expr} {tokens rest : List Token}
    (notAtom : rank ≠ .atom) (stops : Stops rank rest)
    (positive : .negation < rank.next → tokens.head? ≠ some (.keyword .notKw))
    (unsigned : .sign < rank.next → sign? tokens.head? = none)
    (takes : Takes enough (reader below rank.next budget) tokens e rest) :
    Takes enough (reader below rank budget) tokens e rest := by
  cases rank with
  | conditional => exact takes.bind (.eatWordOther (stops.head_ne rfl (by decide)) .pure)
  | negation => exact .eatWordOther (positive (by decide)) takes
  | comparison =>
    refine takes.bind ?_
    cases budget with
    | zero => exact .step (takeComparison_eq_none stops) .pure
    | succ budget => exact .step (takeComparison_eq_none stops) .pure
  | sign =>
    refine .peek ?_
    rw [unsigned (by decide)]
    exact takes
  | power => exact takes.bind (.eatOther (stops.head_ne rfl (by decide)) .pure)
  | atom => exact absurd rfl notAtom
  | disjunction | conjunction | sum | product | trailer =>
    rw [reader_eq_extend below rfl]
    exact takes.bind (takes_extend stops budget e)

/-- What a row reads up to the end of an expression, the looser rows read. -/
theorem takes_looser {enough : Prop} {budget : Nat} {e : Expr} {tokens rest : List Token}
    (rank place : Rank) (le : rank ≤ place) (stops : Stops rank rest)
    (positive : .negation < place → tokens.head? ≠ some (.keyword .notKw))
    (unsigned : .sign < place → sign? tokens.head? = none)
    (takes : Takes enough (reader below place budget) tokens e rest) :
    Takes enough (reader below rank budget) tokens e rest := by
  revert le stops
  refine Rank.descend (P := fun rank => rank ≤ place → Stops rank rest →
    Takes enough (reader below rank budget) tokens e rest) ?_ ?_ rank
  · intro le _
    obtain rfl : place = .atom := by cases place <;> first | rfl | exact absurd le (by decide)
    exact takes
  · intro rank notAtom tighter le stops
    by_cases same : rank = place
    · rwa [same]
    · have next : rank.next ≤ place := Rank.not_lt.mp fun lt =>
        Rank.not_lt.mpr le ((Rank.lt_next_iff notAtom (Ne.symm same)).mp lt)
      have run := tighter next (stops.tighter rank.le_next)
      exact takes_of_next notAtom stops (fun lt => positive (Rank.lt_of_lt_of_le lt next))
        (fun lt => unsigned (Rank.lt_of_lt_of_le lt next)) run

/-- Where an expression is none of a row, the row reads it as the next one does. -/
theorem reads_of_next (notAtom : rank ≠ .atom) {e : Expr}
    (readable : e.Readable) (row : e.rank ≠ rank) (tighter : Reads below rank.next e) :
    Reads below rank e := by
  intro budget rest stops
  have run := tighter budget rest (stops.tighter rank.le_next)
  have begins := begins_writtenAt readable rank.next
  have head := begins.head_append rest
  rw [← writtenAt_next notAtom row] at run begins head
  refine takes_of_next notAtom stops (fun lt => ?_) (fun lt => ?_) run
  · rw [head]
    exact begins.positive lt
  · rw [head]
    exact begins.unsigned lt

section

variable {budget : Nat} {rest : List Token}

theorem takes_ifElse (shorter : ReadsShorter below n) {condition yes no : Expr}
    (first : yes.Readable) (second : condition.Readable) (third : no.Readable)
    (within : (Expr.ifElse condition yes no).written.length ≤ n) (stops : Stops .conditional rest) :
    Takes ((Expr.ifElse condition yes no).written.length ≤ budget + 1) (conditional below budget)
      ((Expr.ifElse condition yes no).written ++ rest) (.ifElse condition yes no) rest := by
  rw [written_ifElse, List.length_append, List.length_cons, List.length_append,
    List.length_cons] at within ⊢
  rw [List.append_assoc, List.cons_append, List.append_assoc, List.cons_append]
  have readsYes := shorter.rows .disjunction yes first (by omega) budget
  have readsCondition := shorter.rows .disjunction condition second (by omega) budget
  have readsNo : ReadsWithin no.written.length (no.written.length + 1 ≤ budget + 1)
      (below .expression budget) := shorter.nested.expression (by omega) (by omega)
  refine .bind (.mono (readsYes _ (.cons (by decide) _)) (by omega)) (.eatWord ?_)
  refine .bind (.mono (readsCondition _ (stops_of_continues rfl _)) (by omega)) (.consumeWord ?_)
  exact .bind (.mono (readsNo no third (Nat.le_refl _) rest stops) (by omega)) .pure

theorem takes_compare (shorter : ReadsShorter below n) (op : CompareOp) {left right : Expr}
    (first : left.Readable) (second : right.Readable)
    (within : (Expr.compare op left right).written.length ≤ n) (stops : Stops .comparison rest) :
    Takes ((Expr.compare op left right).written.length ≤ budget + 1) (comparison below budget)
      ((Expr.compare op left right).written ++ rest) (.compare op left right) rest := by
  have operator : 0 < op.tokens.length := by cases op <;> decide
  rw [written_compare, List.length_append, List.length_append] at within ⊢
  rw [List.append_assoc, List.append_assoc]
  have filled := List.length_pos_iff.mpr (begins_writtenAt first .sum).ne_nil
  have begins := begins_writtenAt second .sum
  have readsLeft := shorter.rows .sum left first (by omega) budget
  have opStops : Stops .sum (op.tokens ++ (right.writtenAt .sum ++ rest)) := by
    cases op <;> exact .cons (by decide) _
  have positive : (right.writtenAt .sum ++ rest).head? ≠ some (.keyword .notKw) := by
    rw [begins.head_append]
    exact begins.positive (by decide)
  have taken := takeComparison_tokens op positive
  refine .bind (.mono (readsLeft _ opStops) (by omega)) ?_
  cases budget with
  | zero => exact .exhausted (by omega) fun indent => (ReadsFrom.bind_run (taken indent)).trans rfl
  | succ budget =>
    have readsRight := shorter.rows .sum right second (by omega) budget rest
      (stops.tighter (by decide))
    refine .step taken (.bind (.mono readsRight (by omega)) ?_)
    cases budget with
    | zero => exact .step (takeComparison_eq_none stops) .pure
    | succ budget => exact .step (takeComparison_eq_none stops) .pure

theorem takes_not (shorter : ReadsShorter below n) {operand : Expr} (readable : operand.Readable)
    (within : (Expr.unary .not operand).written.length ≤ n) (stops : Stops .negation rest) :
    Takes ((Expr.unary .not operand).written.length ≤ budget + 1) (negation below budget)
      ((Expr.unary .not operand).written ++ rest) (.unary .not operand) rest := by
  rw [written_unary, List.length_cons] at within ⊢
  have filled := List.length_pos_iff.mpr (begins_writtenAt readable (UnaryOp.rank .not)).ne_nil
  rw [UnaryOp.rank] at within filled ⊢
  refine .eatWord (.descend (by omega) fun left isLeft => ?_)
  refine .bind (shorter.nested.operand .negation .negation rfl rfl readable ?_ ?_ stops) .pure
  · omega
  · omega

theorem takes_sign (shorter : ReadsShorter below n) {op : UnaryOp} (isSign : op.rank = .sign)
    {operand : Expr} (readable : operand.Readable)
    (within : (Expr.unary op operand).written.length ≤ n) (stops : Stops .sign rest) :
    Takes ((Expr.unary op operand).written.length ≤ budget + 1) (factor below budget)
      ((Expr.unary op operand).written ++ rest) (.unary op operand) rest := by
  rw [written_unary, isSign, List.length_cons] at within ⊢
  have filled := List.length_pos_iff.mpr (begins_writtenAt readable .sign).ne_nil
  have signs : sign? (some op.token) = some op := by
    cases op with
    | neg | pos => rfl
    | not => cases isSign
  rw [List.cons_append]
  refine .peek ?_
  rw [List.head?_cons, signs]
  refine .skip (.descend (by omega) fun left isLeft => ?_)
  refine .bind (shorter.nested.operand .factor .sign rfl rfl readable ?_ ?_ stops) .pure
  · omega
  · omega

theorem takes_pow (shorter : ReadsShorter below n) {base exponent : Expr} (first : base.Readable)
    (second : exponent.Readable) (within : (Expr.binary .pow base exponent).written.length ≤ n)
    (stops : Stops .power rest) :
    Takes ((Expr.binary .pow base exponent).written.length ≤ budget + 1) (power below budget)
      ((Expr.binary .pow base exponent).written ++ rest) (.binary .pow base exponent) rest := by
  have whole : (Expr.binary .pow base exponent).written =
      base.writtenAt .trailer ++ .symbol .starStar :: exponent.writtenAt .sign := rfl
  rw [whole, List.length_append, List.length_cons] at within ⊢
  rw [List.append_assoc, List.cons_append]
  have readsBase := shorter.rows .trailer base first (by omega) budget
  have filled := List.length_pos_iff.mpr (begins_writtenAt second .sign).ne_nil
  refine .bind (.mono (readsBase _ (.cons (by decide) _)) (by omega)) (.eat ?_)
  refine .descend (by omega) fun left isLeft => ?_
  refine .bind (shorter.nested.operand .factor .sign rfl rfl second ?_ ?_ (stops_sign stops)) .pure
  · omega
  · omega

end

end

/-! ### Every row -/

section

variable {below : Below} {n : Nat} {rank : Rank} {e : Expr}

theorem moreStrings_eq {text : String} {rest : List Token} (stops : Stops .atom rest) :
    moreStrings text rest = (text, rest) := by
  match rest with
  | [] => rfl
  | .str more :: _ =>
    have lower := stops .atom rfl
    exact absurd lower (by decide)
  | .newline _ :: _ | .keyword _ :: _ | .symbol _ :: _ | .int _ :: _ | .float _ :: _
  | .name _ :: _ => rfl

/-- Expressions of one token. -/
def isLeaf : Expr → Bool
  | .int _ | .float _ | .str _ | .bool _ | .none | .name _ => true
  | _ => false

theorem takes_leaf {enough : Prop} {budget : Nat} {rest : List Token} (leaf : isLeaf e = true)
    (stops : Stops .atom rest) : Takes enough (atom below budget) (e.written ++ rest) e rest := by
  cases e with
  | int | float | none | name => exact .peek (.skip .pure)
  | bool value => cases value <;> exact .peek (.skip .pure)
  | str text =>
    refine .peek (.skip (.of_run fun indent => ?_))
    change joinedString text ⟨rest, indent⟩ = _
    rw [joinedString, moreStrings_eq stops]
  | _ => cases leaf

/-- Literals, names and what stands between brackets. -/
theorem reads_tightest (shorter : ReadsShorter below n) (readable : e.Readable)
    (row : e.rank = .atom) (within : e.written.length ≤ n) : Reads below .atom e := by
  intro budget rest stops
  rw [writtenAt_of_le (Nat.le_of_eq (by rw [row]))]
  cases readable with
  | int | float | str | bool | none | name => exact takes_leaf rfl stops
  | list each =>
    refine takes_list fun e member => ?_
    have smaller := length_item_list member
    exact shorter.nested.isRead (each e member) (by omega) (by omega)
  | tuple each =>
    refine takes_tupleAtom fun e member => ?_
    have smaller := length_item_tuple each member
    exact shorter.nested.isRead (each e member) (by omega) (by omega)
  | dict keys values =>
    refine takes_dict (fun entry member => ?_) fun entry member => ?_
    · have smaller := length_entry_dict member
      exact shorter.nested.isRead (keys entry member) (by omega) (by omega)
    · have smaller := length_entry_dict member
      exact shorter.nested.isRead (values entry member) (by omega) (by omega)
  | listComp element target source condition =>
    exact takes_comprehension shorter.nested (.listComp element target source condition) within
  | @unary op | @binary op => cases op <;> cases row
  | _ => cases row

/-- An expression of a row that does not group from the left is read by the row. -/
theorem reads_row (shorter : ReadsShorter below n) (groups : groupsLeft rank = false)
    (readable : e.Readable) (row : e.rank = rank) (within : e.written.length ≤ n) :
    Reads below rank e := by
  by_cases isAtom : e.rank = .atom
  · rw [← row, isAtom]
    exact reads_tightest shorter readable isAtom within
  intro budget rest stops
  subst row
  rw [writtenAt_of_le (Nat.le_refl _)]
  cases readable with
  | @unary op operand readable =>
    cases op with
    | neg | pos => exact takes_sign shorter rfl readable within stops
    | not => exact takes_not shorter readable within stops
  | @binary op left right first second =>
    cases op with
    | pow => exact takes_pow shorter first second within stops
    | _ => cases groups
  | compare first second => exact takes_compare shorter _ first second within stops
  | ifElse condition yes no => exact takes_ifElse shorter yes condition no within stops
  | and | or | call | attr | index => cases groups
  | _ => exact absurd rfl isAtom

/-- Where shorter expressions are read, so are those of `n` tokens, at every row from the tightest
one on. -/
theorem reads_of_shorter (shorter : ReadsShorter below n) (readable : e.Readable)
    (within : (e.writtenAt rank).length ≤ n) : Reads below rank e := by
  revert within
  refine Rank.descend (P := fun rank => (e.writtenAt rank).length ≤ n → Reads below rank e)
    ?_ ?_ rank
  · intro within
    by_cases isAtom : e.rank = .atom
    · rw [writtenAt_of_le (Nat.le_of_eq (by rw [isAtom]))] at within
      exact reads_tightest shorter readable isAtom within
    · intro budget rest stops
      rw [writtenAt_of_lt (Rank.lt_atom isAtom), length_between] at within ⊢
      exact takes_enclosed shorter.nested readable within
  · intro rank notAtom tighter within
    have next (row : e.rank ≠ rank) : Reads below rank.next e :=
      tighter (by rwa [← writtenAt_next notAtom row])
    cases groups : groupsLeft rank with
    | true => exact (readsOn shorter groups readable within next).reads
    | false =>
      by_cases row : e.rank = rank
      · rw [writtenAt_of_le (Nat.le_of_eq (by rw [row]))] at within
        exact reads_row shorter groups readable row within
      · exact reads_of_next notAtom readable row (next row)

end

/-! ### The whole -/

theorem readsBelow_succ {fuel n : Nat}
    (reads : ∀ rank (e : Expr), e.Readable → (e.writtenAt rank).length < n →
      Reads (expressionWith fuel) rank e) : ReadsBelow (expressionWith (fuel + 1)) n := by
  intro level e readable short budget rest stops
  have run := reads level.rank e readable short
  have filled := List.length_pos_iff.mpr (begins_writtenAt readable level.rank).ne_nil
  cases level with
  | expression =>
    refine .descend (fun large => ?_) fun left isLeft => (run left rest stops).mono fun large => ?_
    · change _ + 1 ≤ budget + 1 at large
      omega
    · change _ + 1 ≤ budget + 1 at large
      omega
  | disjunction => exact run budget rest stops
  | negation => exact run budget rest stops
  | factor => exact run budget rest stops

/-- The induction is on the number of tokens, which also bounds the fuel. -/
theorem reads_expressionWith (n fuel : Nat) (enoughFuel : n ≤ fuel + 2) (rank : Rank) {e : Expr}
    (readable : e.Readable) (short : (e.writtenAt rank).length < n) :
    Reads (expressionWith fuel) rank e := by
  induction n generalizing fuel rank e with
  | zero => cases short
  | succ n ih =>
    have rows (rank : Rank) (e : Expr) (readable : e.Readable)
        (short : (e.writtenAt rank).length < n) : Reads (expressionWith fuel) rank e :=
      ih fuel (by omega) rank readable short
    refine reads_of_shorter ⟨?_, rows⟩ readable (by omega)
    cases fuel with
    | zero =>
      -- Nothing is shorter than one token.
      intro level e readable short
      have filled := List.length_pos_iff.mpr (begins_writtenAt readable level.rank).ne_nil
      omega
    | succ fuel => exact readsBelow_succ fun rank e => ih fuel (by omega) rank

theorem takes_expression {e : Expr} (readable : e.Readable) (budget : Nat) {rest : List Token}
    (stops : Stops .conditional rest) :
    Takes (e.written.length ≤ budget) (expression budget) (e.written ++ rest) e rest := by
  refine .left ?_
  have reads := readsBelow_succ (reads_expressionWith ((e.written ++ rest).length + 1)
    (e.written ++ rest).length (by omega)) .expression e readable
  rw [Level.rank, writtenAt_conditional] at reads
  refine (reads (by rw [List.length_append]; omega) budget rest stops).mono fun large => ?_
  exact Nat.succ_le_succ large

/-! ### Programs of one expression -/

section

variable {enough : Prop} {tokens : List Token} {e : Expr}

theorem takes_expressionList (takes : Takes enough (expression maxNesting) tokens e []) :
    Takes enough (expressionList expression maxNesting) tokens e [] := by
  rw [expressionList, expressionListOf_eq]
  exact takes_commaList_single takes (by simp)

theorem head_ne_of_starts (starts : startsExpression tokens.head? = true) {k : Keyword}
    (other : startsExpression (some (.keyword k)) = false) :
    tokens.head? ≠ some (.keyword k) := by
  intro same
  rw [same, other] at starts
  cases starts

theorem takes_simpleLine (starts : startsExpression tokens.head? = true)
    (takes : Takes enough (expression maxNesting) tokens e []) :
    Takes enough (simpleLine expression maxNesting) tokens [.expr e] [] := by
  have other {k : Keyword} (isOther : startsExpression (some (.keyword k)) = false) :=
    head_ne_of_starts starts isOther
  have statement : Takes enough (expressionStatement expression maxNesting) tokens (.expr e) [] :=
    (takes_expressionList takes).bind (.peek (.eatOther (by simp) .pure))
  have simple : Takes enough (simpleStatement expression maxNesting) tokens (.expr e) [] := by
    refine .eatWordOther (other rfl) (.eatWordOther (other rfl) (.eatWordOther (other rfl) ?_))
    refine .eatWordOther (other rfl) (.eatWordOther (other rfl) (.eatWordOther (other rfl) ?_))
    refine .eatWordOther (other rfl) (.eatWordOther (other rfl) (.eatWordOther (other rfl) ?_))
    exact statement
  exact simple.bind (.left (.bind .pure (.step (fun _ => rfl) .pure)))

theorem takes_line (starts : startsExpression tokens.head? = true)
    (takes : Takes enough (expression maxNesting) tokens e []) (indent : Nat) :
    Takes enough (line expression maxNesting indent) tokens [.expr e] [] := by
  have other {k : Keyword} (isOther : startsExpression (some (.keyword k)) = false) :=
    head_ne_of_starts starts isOther
  refine .eatWordOther (other rfl) (.eatWordOther (other rfl) ?_)
  refine .eatWordOther (other rfl) (.eatWordOther (other rfl) ?_)
  exact takes_simpleLine starts takes

theorem programLines_of_expression (starts : startsExpression tokens.head? = true)
    (takes : Takes enough (expression maxNesting) tokens e []) :
    programLines expression 0 (tokens.length + 1) ⟨tokens, 0⟩ = .ok ([.expr e], ⟨[], 0⟩) ∨
      ¬ enough ∧ programLines expression 0 (tokens.length + 1) ⟨tokens, 0⟩ = .error .tooNested := by
  cases tokens with
  | nil => cases starts
  | cons token more =>
    rcases takes_line starts takes 0 0 with run | ⟨small, run⟩
    · refine .inl ((ReadsFrom.bind_run rfl).trans ?_)
      exact (ReadsFrom.bind_run run).trans rfl
    · refine .inr ⟨small, (ReadsFrom.bind_run rfl).trans ?_⟩
      change (line expression maxNesting 0 ⟨token :: more, 0⟩).bind _ = _
      rw [run]
      rfl

theorem skipNewlines_of_starts (starts : startsExpression tokens.head? = true) :
    Parse.skipNewlines ⟨tokens, 0⟩ = .ok ((), ⟨tokens, 0⟩) := by
  match tokens with
  | .newline _ :: _ => cases starts
  | [] | .keyword _ :: _ | .symbol _ :: _ | .int _ :: _ | .float _ :: _ | .str _ :: _
  | .name _ :: _ => rfl

/-- Tokens that are read as an expression are a program of one statement. -/
theorem program_of_takes (starts : startsExpression tokens.head? = true)
    (takes : Takes enough (expression maxNesting) tokens e []) :
    program expression ⟨tokens, 0⟩ = .ok ([.expr e], ⟨[], 0⟩) ∨
      ¬ enough ∧ program expression ⟨tokens, 0⟩ = .error .tooNested := by
  have lines := programLines_of_expression starts takes
  have same : program expression ⟨tokens, 0⟩ =
      programLines expression 0 (tokens.length + 1) ⟨tokens, 0⟩ := by
    rw [program, ReadsFrom.bind_run (skipNewlines_of_starts starts)]
    rfl
  rwa [same]

end

/-- The image of the reader: the trees it gives for any tokens are the readable ones. -/
theorem readable_iff {e : Expr} :
    e.Readable ↔ ∃ budget c c', expression budget c = .ok (e, c') := by
  constructor
  · intro readable
    rcases takes_expression readable e.written.length (stops_nil _) 0 with run | ⟨small, -⟩
    · exact ⟨_, _, _, run⟩
    · exact absurd (Nat.le_refl _) small
  · rintro ⟨budget, c, c', run⟩
    exact gives_expression budget c e c' run

/-- A tree that is read from any tokens is read back from what it is written as, whatever stands
after it. -/
theorem expression_written {e : Expr} {within : Nat} {c c' : Cursor}
    (image : expression within c = .ok (e, c')) :
    (∀ budget rest indent, Stops .conditional rest →
      expression budget ⟨e.written ++ rest, indent⟩ = .ok (e, ⟨rest, indent⟩) ∨
        budget < e.written.length ∧
          expression budget ⟨e.written ++ rest, indent⟩ = .error .tooNested) ∧
    (program expression ⟨e.written, 0⟩ = .ok ([.expr e], ⟨[], 0⟩) ∨
      maxNesting < e.written.length ∧ program expression ⟨e.written, 0⟩ = .error .tooNested) ∧
    ∀ source, tokens source = .ok e.written →
      parse source = .ok [.expr e] ∨
        maxNesting < e.written.length ∧ parse source = .error .tooNested := by
  have readable := gives_expression within c e c' image
  have starts := startsExpression_written readable []
  have takes := takes_expression readable maxNesting (stops_nil _)
  rw [List.append_nil] at starts takes
  have whole := program_of_takes starts takes
  rw [Nat.not_le] at whole
  refine ⟨fun budget rest indent stops => ?_, whole, fun source split => ?_⟩
  · have run := takes_expression readable budget stops indent
    rwa [Nat.not_le] at run
  · refine whole.imp (fun run => ?_) fun ⟨small, run⟩ => ⟨small, ?_⟩
    · exact bind_eq_ok.mpr ⟨_, split, bind_eq_ok.mpr ⟨_, run, rfl⟩⟩
    · exact bind_eq_error.mpr (.inr ⟨_, split, bind_eq_error.mpr (.inl run)⟩)

/-- The tokens of `-(a - (b - c)) ** f[(1):,]`, where `1` needs no parentheses. -/
def mixedTokens : List Token :=
  [.symbol .minus, .symbol .leftParen, .name "a", .symbol .minus, .symbol .leftParen, .name "b",
    .symbol .minus, .name "c", .symbol .rightParen, .symbol .rightParen, .symbol .starStar,
    .name "f", .symbol .leftBracket, .symbol .leftParen, .int 1, .symbol .rightParen,
    .symbol .colon, .symbol .comma, .symbol .rightBracket]

def mixedTree : Expr :=
  .unary .neg (.binary .pow (.binary .sub (.name "a") (.binary .sub (.name "b") (.name "c")))
    (.index (.name "f") (.tuple [.slice (some (.int 1)) none none])))

theorem expression_written_mixed :
    expression maxNesting ⟨mixedTokens, 0⟩ = .ok (mixedTree, ⟨[], 0⟩) ∧
      Stops .conditional [.symbol .comma] ∧
      expression maxNesting ⟨mixedTree.written ++ [.symbol .comma], 0⟩ =
        .ok (mixedTree, ⟨[.symbol .comma], 0⟩) ∧
      program expression ⟨mixedTree.written, 0⟩ = .ok ([.expr mixedTree], ⟨[], 0⟩) ∧
      tokens "-(a - (b - c)) ** f[1:,]" = .ok mixedTree.written ∧
      parse "-(a - (b - c)) ** f[1:,]" = .ok [.expr mixedTree] := by
  have image : expression maxNesting ⟨mixedTokens, 0⟩ = .ok (mixedTree, ⟨[], 0⟩) := by rfl
  have stops : Stops .conditional [.symbol .comma] := stops_of_continues rfl _
  have split : tokens "-(a - (b - c)) ** f[1:,]" = .ok mixedTree.written := by rfl
  have small : ¬ maxNesting < mixedTree.written.length := by decide
  obtain ⟨anywhere, whole, source⟩ := expression_written image
  refine ⟨image, stops, ?_, ?_, split, ?_⟩
  · exact (anywhere maxNesting _ 0 stops).resolve_right fun failed => small failed.1
  · exact whole.resolve_right fun failed => small failed.1
  · exact (source _ split).resolve_right fun failed => small failed.1

end DocExamples.Script.Grammar
