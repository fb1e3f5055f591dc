import DocExamples.Proofs.Script.Displays
/-!
The rows of the table of precedence whose operators group from the left, and the trailers: an
expression of such a row is a shorter one with an operator, an operand or a trailer after it.
-/
namespace DocExamples.Script.Grammar

/-! ### Readers of the rows -/

/-- The reader of a row of the table of precedence. -/
def reader (below : Below) : Rank → Nat → Parse Expr
  | .conditional => conditional below
  | .disjunction => disjunction below
  | .conjunction => conjunction below
  | .negation => negation below
  | .comparison => comparison below
  | .sum => sum below
  | .product => term below
  | .sign => factor below
  | .power => power below
  | .trailer => postfixed below
  | .atom => atom below

/-- The row reads the expression wherever it stops. -/
def Reads (below : Below) (rank : Rank) (e : Expr) : Prop :=
  ∀ budget rest, Stops rank rest →
    Takes ((e.writtenAt rank).length ≤ budget + 1) (reader below rank budget)
      (e.writtenAt rank ++ rest) e rest

/-- Extends an expression for as long as the next token says how, one level deeper each time. -/
def extend (more? : Nat → Expr → Option Token → Option (Parse Expr)) : Nat → Expr → Parse Expr
  | 0, e => do
    if (more? 0 e (← Parse.peek?)).isSome then Parse.fail .tooNested
    return e
  | budget + 1, e => do
    match more? budget e (← Parse.peek?) with
    | none => return e
    | some next => extend more? budget (← next)

/-- The operators of a row, each with an operand after it. -/
def operator? (join? : Token → Option (Expr → Expr → Expr)) (operand : Nat → Parse Expr)
    (budget : Nat) (left : Expr) (token : Option Token) : Option (Parse Expr) :=
  (token.bind join?).map fun join => do
    Parse.skip
    return join left (← operand budget)

theorem trailers_eq (below : Below) (budget : Nat) (e : Expr) :
    trailers below budget e = extend (trailer? below) budget e := by
  induction budget generalizing e with
  | zero => rfl
  | succ budget ih =>
    rw [trailers, extend]
    refine congrArg (Parse.peek? >>= ·) (funext fun token => ?_)
    cases trailer? below budget e token with
    | none => rfl
    | some next => exact congrArg (next >>= ·) (funext ih)

theorem leftChain_eq (join? : Token → Option (Expr → Expr → Expr)) (operand : Nat → Parse Expr)
    (budget : Nat) (e : Expr) :
    leftChain join? operand budget e = extend (operator? join? operand) budget e := by
  induction budget generalizing e with
  | zero =>
    rw [leftChain, extend]
    simp only [operator?, Option.isSome_map]
  | succ budget ih =>
    rw [leftChain, extend]
    refine congrArg (Parse.peek? >>= ·) (funext fun token => ?_)
    rw [operator?]
    cases token.bind join? with
    | none => rfl
    | some join => simp only [ih, Option.map_some, bind_assoc, pure_bind]

/-- How the rows whose operators group from the left go on. -/
def more? (below : Below) : Rank → Nat → Expr → Option Token → Option (Parse Expr)
  | .disjunction => operator? orOp? (conjunction below)
  | .conjunction => operator? andOp? (negation below)
  | .sum => operator? sumOp? (term below)
  | .product => operator? termOp? (factor below)
  | .trailer => trailer? below
  | _ => fun _ _ _ => none

/-- The rows whose operators group from the left. -/
def groupsLeft : Rank → Bool
  | .disjunction | .conjunction | .sum | .product | .trailer => true
  | _ => false

theorem reader_eq_extend (below : Below) {rank : Rank} (groups : groupsLeft rank = true)
    (budget : Nat) :
    reader below rank budget =
      reader below rank.next budget >>= extend (more? below rank) budget := by
  have chained (join? : Token → Option (Expr → Expr → Expr)) (operand : Nat → Parse Expr) :
      chain join? operand budget = operand budget >>= extend (operator? join? operand) budget :=
    congrArg (operand budget >>= ·) (funext (leftChain_eq join? operand budget))
  cases rank with
  | disjunction => exact chained _ _
  | conjunction => exact chained _ _
  | sum => exact chained _ _
  | product => exact chained _ _
  | trailer => exact congrArg (atom below budget >>= ·) (funext (trailers_eq below budget))
  | conditional | negation | comparison | sign | power | atom => cases groups

/-! ### Rows that group from the left -/

section

variable {below : Below} {rank : Rank}

theorem continues_of_more? {budget : Nat} {e : Expr} {token : Option Token} {p : Parse Expr}
    (found : more? below rank budget e token = some p) :
    token.bind Token.continues? = some rank := by
  have joined {join? : Token → Option (Expr → Expr → Expr)} {operand : Nat → Parse Expr}
      (found : operator? join? operand budget e token = some p)
      (continues : ∀ t join, join? t = some join → t.continues? = some rank) :
      token.bind Token.continues? = some rank := by
    obtain ⟨join, isJoin, -⟩ := Option.map_eq_some_iff.mp found
    obtain ⟨t, rfl, isJoin⟩ := Option.bind_eq_some_iff.mp isJoin
    exact continues t join isJoin
  cases rank with
  | disjunction =>
    refine joined found fun t join isJoin => ?_
    unfold orOp? at isJoin
    split at isJoin <;> cases isJoin
    rfl
  | conjunction =>
    refine joined found fun t join isJoin => ?_
    unfold andOp? at isJoin
    split at isJoin <;> cases isJoin
    rfl
  | sum =>
    refine joined found fun t join isJoin => ?_
    unfold sumOp? at isJoin
    split at isJoin <;> cases isJoin <;> rfl
  | product =>
    refine joined found fun t join isJoin => ?_
    unfold termOp? at isJoin
    split at isJoin <;> cases isJoin <;> rfl
  | trailer =>
    change trailer? below budget e token = some p at found
    unfold trailer? at found
    split at found <;> cases found <;> rfl
  | conditional | negation | comparison | sign | power | atom => cases found

/-- No operator of a row comes where its expressions stop. -/
theorem more?_eq_none {rest : List Token} (stops : Stops rank rest) (budget : Nat) (e : Expr) :
    more? below rank budget e rest.head? = none := by
  cases found : more? below rank budget e rest.head? with
  | none => rfl
  | some p => exact absurd (stops rank (continues_of_more? found)) (Nat.lt_irrefl _)

/-- The expression is another one of a row with an operator, an operand or a trailer after it. -/
structure Grows (below : Below) (rank : Rank) (front e : Expr) (tail : List Token) : Prop where
  written : e.writtenAt rank = front.writtenAt rank ++ tail
  readable : front.Readable
  filled : tail ≠ []
  takes : ∀ budget rest, Stops rank.next rest → ∃ p,
    more? below rank budget front (tail ++ rest).head? = some p ∧
      Takes (tail.length ≤ budget + 1) p (tail ++ rest) e rest

/-- An expression of a row is read up to its end, from where the row may go on. -/
def ReadsOn (below : Below) (rank : Rank) (e : Expr) : Prop :=
  ∀ budget rest, Stops rank.next rest → ∃ left, budget + 1 ≤ left + (e.writtenAt rank).length ∧
    ∀ enough b rest', (enough → (e.writtenAt rank).length ≤ budget + 1) →
      Takes enough (extend (more? below rank) left e) rest b rest' →
        Takes enough (reader below rank budget) (e.writtenAt rank ++ rest) b rest'

/-- Nothing is added where the expressions of the row stop. -/
theorem takes_extend {enough : Prop} {rest : List Token} (stops : Stops rank rest) (left : Nat)
    (e : Expr) : Takes enough (extend (more? below rank) left e) rest e rest := by
  cases left with
  | zero =>
    refine .peek ?_
    rw [more?_eq_none stops]
    exact .pure
  | succ left =>
    refine .peek ?_
    rw [more?_eq_none stops]
    exact .pure

theorem ReadsOn.reads {e : Expr} (on : ReadsOn below rank e) : Reads below rank e := by
  intro budget rest stops
  obtain ⟨left, -, reads⟩ := on budget rest (stops.tighter rank.le_next)
  exact reads _ e rest id (takes_extend stops left e)

theorem ReadsOn.of_next (groups : groupsLeft rank = true) {e : Expr}
    (same : e.writtenAt rank = e.writtenAt rank.next) (filled : e.writtenAt rank ≠ [])
    (reads : Reads below rank.next e) : ReadsOn below rank e := by
  intro budget rest stops
  have size := List.length_pos_iff.mpr filled
  refine ⟨budget, by omega, fun enough b rest' implies next => ?_⟩
  rw [reader_eq_extend below groups, same]
  rw [same] at implies
  exact ((reads budget rest stops).mono implies).bind next

theorem Grows.stops {front e : Expr} {tail rest : List Token}
    (grows : Grows below rank front e tail) (groups : groupsLeft rank = true) (stops : Stops rank.next rest) :
    Stops rank.next (tail ++ rest) := by
  obtain ⟨p, more, -⟩ := grows.takes 0 rest stops
  intro found continued
  rw [continues_of_more? more] at continued
  cases continued
  cases rank <;> first | decide | cases groups

theorem Grows.readsOn {front e : Expr} {tail : List Token} (grows : Grows below rank front e tail)
    (groups : groupsLeft rank = true) (on : ReadsOn below rank front) : ReadsOn below rank e := by
  intro budget rest stops
  obtain ⟨left, enoughLeft, reads⟩ := on budget (tail ++ rest) (grows.stops groups stops)
  have size : (e.writtenAt rank).length = (front.writtenAt rank).length + tail.length := by
    rw [grows.written, List.length_append]
  have filled := List.length_pos_iff.mpr grows.filled
  refine ⟨left - 1, by omega, fun enough b rest' implies next => ?_⟩
  rw [grows.written, List.append_assoc]
  refine reads enough b rest' (fun large => by have := implies large; omega) ?_
  cases left with
  | zero =>
    obtain ⟨p, found, -⟩ := grows.takes 0 rest stops
    refine .exhausted (fun large => by have := implies large; omega) fun indent => ?_
    refine (ReadsFrom.bind_run rfl).trans ?_
    dsimp only
    rw [found]
    rfl
  | succ left =>
    obtain ⟨p, found, takes⟩ := grows.takes left rest stops
    refine .peek ?_
    rw [found]
    exact (takes.mono fun large => by have := implies large; omega).bind next

/-- An operator with an operand after it. -/
theorem grows_of_join {join? : Token → Option (Expr → Expr → Expr)} {join : Expr → Expr → Expr}
    {left right : Expr} {token : Token}
    (joins : more? below rank = operator? join? (reader below rank.next))
    (found : join? token = some join)
    (written : (join left right).writtenAt rank =
      left.writtenAt rank ++ token :: right.writtenAt rank.next)
    (readable : left.Readable) (reads : Reads below rank.next right) :
    Grows below rank left (join left right) (token :: right.writtenAt rank.next) where
  written := written
  readable := readable
  filled := List.cons_ne_nil _ _
  takes budget rest stops := by
    refine ⟨do Parse.skip; return join left (← reader below rank.next budget), ?_, ?_⟩
    · rw [joins, operator?, List.cons_append, List.head?_cons, Option.bind_some, found]
      rfl
    · refine .skip (.bind (.mono (reads budget rest stops) fun large => ?_) .pure)
      rw [List.length_cons] at large
      omega

variable {n : Nat}

theorem grows_attr {object : Expr} (name : String) (readable : object.Readable) :
    Grows below .trailer object (.attr object name) [.symbol .dot, .name name] where
  written := rfl
  readable := readable
  filled := List.cons_ne_nil _ _
  takes _ _ _ := ⟨_, rfl, .skip (.name .pure)⟩

theorem grows_index (reads : ReadsBelow below n) {container subscript : Expr}
    (readable : container.Readable) (isSubscript : subscript.Subscript)
    (within : subscript.written.length < n) :
    Grows below .trailer container (.index container subscript)
      (between .leftBracket .rightBracket subscript.written) where
  written := rfl
  readable := readable
  filled := List.cons_ne_nil _ _
  takes budget rest _ := by
    have inner : ReadsWithin subscript.written.length
        ((between .leftBracket .rightBracket subscript.written).length ≤ budget + 1)
        (below .expression budget) := by
      refine reads.expression within fun large => ?_
      rw [length_between] at large
      omega
    rw [between_append]
    refine ⟨_, rfl, .skip ?_⟩
    exact (takes_subscript inner isSubscript (Nat.le_refl _)).bind (.consume .pure)

theorem grows_call (reads : ReadsBelow below n) {callee : Expr} {args : List Expr}
    {kwargs : List (String × Expr)} (readable : callee.Readable)
    (positional : ∀ e ∈ args, e.Readable) (named : ∀ kwarg ∈ kwargs, kwarg.2.Readable)
    (within : (separated (args.map Expr.written ++ kwargs.map Expr.keywordWritten)).length < n) :
    Grows below .trailer callee (.call callee args kwargs) (between .leftParen .rightParen
      (separated (args.map Expr.written ++ kwargs.map Expr.keywordWritten))) where
  written := by
    rw [← allWritten_eq, ← keywordsWritten_eq]
    rfl
  readable := readable
  filled := List.cons_ne_nil _ _
  takes budget rest _ := by
    have inner : ReadsWithin
        (separated (args.map Expr.written ++ kwargs.map Expr.keywordWritten)).length
        ((between .leftParen .rightParen (separated (args.map Expr.written ++
          kwargs.map Expr.keywordWritten))).length ≤ budget + 1) (below .expression budget) := by
      refine reads.expression within fun large => ?_
      rw [length_between] at large
      omega
    have enoughFuel := length_le_separated_succ
      (args.map Expr.written ++ kwargs.map Expr.keywordWritten)
    rw [List.length_append, List.length_map, List.length_map] at enoughFuel
    rw [between_append]
    refine ⟨_, rfl, .skip (.left ?_)⟩
    refine .bind (takes_callArguments inner positional named (Nat.le_refl _) ?_) .pure
    rw [List.length_append, List.length_cons]
    omega

/-- What is known inside an expression of `n` tokens: shorter ones are read at every level and at
every row. -/
structure ReadsShorter (below : Below) (n : Nat) : Prop where
  nested : ReadsBelow below n
  rows : ∀ rank (e : Expr), e.Readable → (e.writtenAt rank).length < n → Reads below rank e

/-- An expression of such a row grows out of a shorter one. -/
theorem exists_grows (shorter : ReadsShorter below n) (groups : groupsLeft rank = true) {e : Expr}
    (readable : e.Readable) (row : e.rank = rank) (within : e.written.length ≤ n) :
    ∃ front tail, Grows below rank front e tail := by
  subst row
  cases readable with
  | @binary op l r left right =>
    rw [written_binary, List.length_append, List.length_cons] at within
    have second := shorter.rows op.rightPlace r right (by omega)
    cases op with
    | add | sub | mul | div | floorDiv | mod | matMul =>
      exact ⟨l, _, grows_of_join rfl rfl rfl left second⟩
    | pow => cases groups
  | @and l r left right =>
    rw [written_and, List.length_append, List.length_cons] at within
    exact ⟨l, _, grows_of_join rfl rfl rfl left (shorter.rows .negation r right (by omega))⟩
  | @or l r left right =>
    rw [written_or, List.length_append, List.length_cons] at within
    exact ⟨l, _, grows_of_join rfl rfl rfl left (shorter.rows .conjunction r right (by omega))⟩
  | call callee positional named =>
    rw [written_call, allWritten_eq, keywordsWritten_eq, List.length_append,
      length_between] at within
    exact ⟨_, _, grows_call shorter.nested callee positional named (by omega)⟩
  | attr object => exact ⟨_, _, grows_attr _ object⟩
  | index container subscript =>
    rw [written_index, List.length_append, length_between] at within
    exact ⟨_, _, grows_index shorter.nested container subscript (by omega)⟩
  | @unary op _ _ => cases op <;> cases groups
  | _ => cases groups

/-- The induction is on the length: the front of an expression is shorter, and what comes after it
is read as a whole. -/
theorem readsOn (shorter : ReadsShorter below n) (groups : groupsLeft rank = true) {e : Expr}
    (readable : e.Readable) (within : (e.writtenAt rank).length ≤ n)
    (tighter : e.rank ≠ rank → Reads below rank.next e) : ReadsOn below rank e := by
  have notAtom : rank ≠ .atom := by
    rintro rfl
    cases groups
  induction size : (e.writtenAt rank).length using Nat.strongRecOn generalizing e with
  | ind m ih =>
    by_cases row : e.rank = rank
    · have bare : e.writtenAt rank = e.written := writtenAt_of_le (Nat.le_of_eq (by rw [row]))
      rw [bare] at within
      obtain ⟨front, tail, grows⟩ := exists_grows shorter groups readable row within
      have whole : (e.writtenAt rank).length = (front.writtenAt rank).length + tail.length := by
        rw [grows.written, List.length_append]
      have filled := List.length_pos_iff.mpr grows.filled
      rw [bare] at whole size
      refine grows.readsOn groups (ih _ (by omega) grows.readable (by omega) (fun apart => ?_) rfl)
      refine shorter.rows rank.next front grows.readable ?_
      rw [← writtenAt_next notAtom apart]
      omega
    · exact .of_next groups (writtenAt_next notAtom row) (begins_writtenAt readable rank).ne_nil
        (tighter row)

end

end DocExamples.Script.Grammar
