import DocExamples.Proofs.Script.Taking
/-!
Displays, comprehensions, subscripts and arguments are read back from what they are written as,
where the expressions inside are.
-/
namespace DocExamples.Script.Grammar

/-! ### Targets -/

section

variable {budget : Nat} {targets : List Target}

/-- Targets in a row are read if each of them is. -/
theorem takes_targets (filled : targets ≠ []) (each : ∀ t ∈ targets, t.Nested)
    (takes : ∀ t ∈ targets, ∀ rest,
      Takes (t.enclosed.length ≤ budget + 1) (targetAtom budget) (t.enclosed ++ rest) t rest)
    {rest : List Token} (noComma : rest.head? ≠ some (.symbol .comma))
    (ended : targets.length = 1 → isWord .inKw rest.head? = true) :
    Takes ((tupled (targets.map Target.enclosed)).length ≤ budget + 1)
      (targetListOf (targetAtom budget)) (tupled (targets.map Target.enclosed) ++ rest)
      (.unpack targets) rest := by
  rw [targetListOf_eq]
  have after : Follows (fun _ => True) rest := ⟨fun _ => trivial, trivial, noComma⟩
  refine takes_commaList after filled ended fun t member => ⟨fun rest => ?_, fun rest _ => ?_⟩
  · cases each t member <;> rfl
  · refine (takes t member rest).mono fun large => ?_
    have shorter := length_le_tupled (List.mem_map_of_mem (f := Target.enclosed) member)
    omega

end

theorem takes_targetAtom {t : Target} (nested : t.Nested) (budget : Nat) (rest : List Token) :
    Takes (t.enclosed.length ≤ budget + 1) (targetAtom budget) (t.enclosed ++ rest) t rest := by
  induction nested generalizing budget rest with
  | name n =>
    have other : ((Target.name n).enclosed ++ rest).head? ≠ some (.symbol .leftParen) := by
      simp [Target.enclosed, Target.isUnpack, Target.written]
    cases budget with
    | zero => exact .eatOther other (.name .pure)
    | succ budget => exact .eatOther other (.name .pure)
  | @unpack targets several each ih =>
    have whole : (Target.unpack targets).enclosed =
        between .leftParen .rightParen (tupled (targets.map Target.enclosed)) := by
      rw [← allWritten_targets]
      rfl
    rw [whole, length_between, between_append]
    cases budget with
    | zero => exact .exhausted (by omega) fun indent => rfl
    | succ budget =>
      refine .eat (.bind (.mono (takes_targets (List.ne_nil_of_length_pos (by omega)) each
        (fun t member => ih t member budget) (by simp) (by omega)) (by omega)) (.consume .pure))

/-- The targets of a comprehension, in front of its source. -/
theorem takes_targetList {t : Target} (loops : t.InLoop) (budget : Nat) (rest : List Token) :
    Takes (t.written.length ≤ budget + 1) (targetList budget)
      (t.written ++ .keyword .inKw :: rest) t (.keyword .inKw :: rest) := by
  cases loops with
  | name n =>
    rw [targetList, targetListOf_eq]
    exact takes_commaList_single (takes_targetAtom (.name n) budget _) (by simp)
  | @unpack targets filled each =>
    have whole : (Target.unpack targets).written = tupled (targets.map Target.enclosed) := by
      rw [← allWritten_targets]
      rfl
    rw [whole]
    exact takes_targets filled each (fun t member => takes_targetAtom (each t member) budget)
      (by simp) fun _ => rfl

/-! ### Expressions inside -/

/-- Readable expressions of at most `n` tokens are read. -/
def ReadsWithin (n : Nat) (enough : Prop) (expression : Parse Expr) : Prop :=
  ∀ e : Expr, e.Readable → e.written.length ≤ n → ∀ rest, Stops .conditional rest →
    Takes enough expression (e.written ++ rest) e rest

/-- The expression is read wherever it may end. -/
structure IsRead (enough : Prop) (expression : Parse Expr) (e : Expr) : Prop where
  readable : e.Readable
  takes : ∀ rest, Stops .conditional rest → Takes enough expression (e.written ++ rest) e rest

theorem isSymbol_eq_false {s : Symbol} {token : Option Token} (other : token ≠ some (.symbol s)) :
    isSymbol s token = false := by
  unfold isSymbol
  split
  · exact beq_false_of_ne fun same => other (by rw [same])
  · rfl

theorem follows_close {s : Symbol} (ends : (Token.symbol s).continues? = none) (other : s ≠ .comma)
    (rest : List Token) : Follows (Stops .conditional) (.symbol s :: rest) where
  comma _ := stops_of_continues rfl _
  last := stops_of_continues ends _
  noComma := by simpa using other

section

variable {n : Nat} {enough : Prop} {expression : Parse Expr} {rest : List Token}

theorem takes_tuple {items : List Expr} (filled : items ≠ [])
    (each : ∀ e ∈ items, IsRead enough expression e) :
    Takes enough (expressionListOf expression)
      (tupled (items.map Expr.written) ++ .symbol .rightParen :: rest) (.tuple items)
      (.symbol .rightParen :: rest) := by
  rw [expressionListOf_eq]
  refine takes_commaList (follows_close rfl (by decide) rest) filled (fun _ => rfl)
    fun e member => ⟨fun rest => ?_, (each e member).takes⟩
  rw [startsExpression_written (each e member).readable]
  rfl

/-- The items of a list after the first one. -/
theorem takes_listTail {items : List Expr} (each : ∀ e ∈ items, IsRead enough expression e)
    {fuel : Nat} (enoughFuel : items.length ≤ fuel) :
    Takes enough (bracketTail expression fuel)
      (furtherItems (items.map Expr.written) ++ .symbol .rightBracket :: rest) items
      (.symbol .rightBracket :: rest) := by
  rw [bracketTail_eq]
  refine takes_commaTail (follows_close rfl (by decide) rest) enoughFuel
    fun e member => ⟨fun rest => ?_, (each e member).takes⟩
  exact isSymbol_eq_false (head_written_ne (each e member).readable rfl rest)

/-- What stands after an item of a list that a symbol closes is no part of the item. -/
theorem stops_furtherItems {s : Symbol} (ends : (Token.symbol s).continues? = none)
    (items : List (List Token)) (rest : List Token) :
    Stops .conditional (furtherItems items ++ .symbol s :: rest) := by
  cases items with
  | nil => exact stops_of_continues ends rest
  | cons first items => exact stops_of_continues rfl _

theorem head_furtherItems {s t : Symbol} (apart : s ≠ t) (noComma : .comma ≠ t)
    (items : List (List Token)) (rest : List Token) :
    (furtherItems items ++ .symbol s :: rest).head? ≠ some (.symbol t) := by
  cases items with
  | nil => simpa [furtherItems] using apart
  | cons first items => simpa [furtherItems] using noComma

theorem takes_dictEntries {entries : List (Expr × Expr)}
    (keys : ∀ entry ∈ entries, IsRead enough expression entry.1)
    (values : ∀ entry ∈ entries, IsRead enough expression entry.2) {fuel : Nat}
    (enoughFuel : entries.length < fuel) :
    Takes enough (dictEntries expression fuel)
      (separated (entries.map Expr.entryWritten) ++ .symbol .rightBrace :: rest) entries rest := by
  induction entries generalizing fuel with
  | nil =>
    match fuel, enoughFuel with
    | fuel + 1, _ => exact .eat .pure
  | cons entry entries ih =>
    match fuel, enoughFuel with
    | fuel + 1, enoughFuel =>
    have key := keys entry List.mem_cons_self
    have value := values entry List.mem_cons_self
    have others := ih (fun e member => keys e (List.mem_cons_of_mem _ member))
      (fun e member => values e (List.mem_cons_of_mem _ member)) (Nat.lt_of_succ_lt_succ enoughFuel)
    have shape :
        separated ((entry :: entries).map Expr.entryWritten) ++ .symbol .rightBrace :: rest =
        entry.1.written ++ .symbol .colon :: (entry.2.written ++
          (furtherItems (entries.map Expr.entryWritten) ++ .symbol .rightBrace :: rest)) := by
      simp [separated, Expr.entryWritten]
    rw [shape]
    refine .eatOther (head_written_ne key.readable rfl _) ?_
    refine (key.takes _ (stops_of_continues rfl _)).bind (.consume ?_)
    refine (value.takes _ (stops_furtherItems rfl _ _)).bind ?_
    cases entries with
    | nil => exact .eatOther (by simp [furtherItems]) (.consume .pure)
    | cons second entries => exact .eat (others.bind .pure)

/-! ### Arguments -/

/-- What comes after an argument decides whether there are more. -/
def afterArgument (expression : Parse Expr) (args : List Expr) (kwargs : List (String × Expr))
    (fuel : Nat) : Parse (List Expr × List (String × Expr)) := do
  if ← Parse.eat .comma then callArguments expression args kwargs fuel
  else
    Parse.consume .rightParen "`)`"
    return (args, kwargs)

section

variable {fuel : Nat} {args : List Expr} {kwargs : List (String × Expr)}
  {found : List Expr × List (String × Expr)}

theorem takes_afterArgument {items : List (List Token)}
    (none : items = [] → (args, kwargs) = found)
    (others : Takes enough (callArguments expression args kwargs fuel)
      (separated items ++ .symbol .rightParen :: rest) found rest) :
    Takes enough (afterArgument expression args kwargs fuel)
      (furtherItems items ++ .symbol .rightParen :: rest) found rest := by
  cases items with
  | nil =>
    rw [← none rfl]
    exact .eatOther (by simp [furtherItems]) (.consume .pure)
  | cons first items => exact .eat others

theorem takes_positional {e : Expr} {more : List Token} (readable : e.Readable)
    (noEqual : more.head? ≠ some (.symbol .equal))
    (takes : Takes enough expression (e.written ++ more) e more)
    (next : Takes enough (afterArgument expression (args ++ [e]) [] fuel) more found rest) :
    Takes enough (callArguments expression args [] (fuel + 1)) (e.written ++ more) found rest := by
  have unnamed (indent : Nat) : keywordName? ⟨e.written ++ more, indent⟩ =
      .ok (none, ⟨e.written ++ more, indent⟩) := by
    unfold keywordName?
    split
    · next shape => exact absurd shape ((readable.begins _ noEqual).positional _ _)
    · rfl
  exact .eatOther (head_written_ne readable rfl _) (.step unnamed (takes.bind (.bind .pure next)))

theorem takes_keyword {kwarg : String × Expr} {more : List Token}
    (takes : Takes enough expression (kwarg.2.written ++ more) kwarg.2 more)
    (next : Takes enough (afterArgument expression args (kwargs ++ [kwarg]) fuel) more found rest) :
    Takes enough (callArguments expression args kwargs (fuel + 1))
      (Expr.keywordWritten kwarg ++ more) found rest := by
  have named (indent : Nat) : keywordName? ⟨Expr.keywordWritten kwarg ++ more, indent⟩ =
      .ok (some kwarg.1, ⟨kwarg.2.written ++ more, indent⟩) := rfl
  exact .eatOther (by simp [Expr.keywordWritten]) (.step named (takes.bind (.bind .pure next)))

end

theorem takes_keywords (reads : ReadsWithin n enough expression) {args : List Expr}
    {kwargs before : List (String × Expr)} (named : ∀ kwarg ∈ kwargs, kwarg.2.Readable)
    (within : (separated (kwargs.map Expr.keywordWritten)).length ≤ n) {fuel : Nat}
    (enoughFuel : kwargs.length < fuel) :
    Takes enough (callArguments expression args before fuel)
      (separated (kwargs.map Expr.keywordWritten) ++ .symbol .rightParen :: rest)
      (args, before ++ kwargs) rest := by
  induction kwargs generalizing before fuel with
  | nil =>
    match fuel, enoughFuel with
    | fuel + 1, _ =>
      rw [List.append_nil]
      exact .eat .pure
  | cons kwarg kwargs ih =>
    match fuel, enoughFuel with
    | fuel + 1, enoughFuel =>
    have others := @ih (before ++ [kwarg]) (fun k member => named k (List.mem_cons_of_mem _ member))
      (Nat.le_trans (length_separated_tail _ _) within) fuel (Nat.lt_of_succ_lt_succ enoughFuel)
    have size : kwarg.2.written.length ≤ n := by
      have whole := length_le_separated (List.mem_map_of_mem (f := Expr.keywordWritten)
        (List.mem_cons_self (a := kwarg) (l := kwargs)))
      rw [Expr.keywordWritten, List.length_cons, List.length_cons] at whole
      omega
    have value := reads _ (named kwarg List.mem_cons_self) size _
      (stops_furtherItems (s := .rightParen) rfl (kwargs.map Expr.keywordWritten) rest)
    rw [List.append_assoc, List.singleton_append] at others
    rw [List.map_cons, separated, List.append_assoc]
    exact takes_keyword value (takes_afterArgument (by simp) others)

theorem takes_callArguments (reads : ReadsWithin n enough expression) {args before : List Expr}
    {kwargs : List (String × Expr)} (positional : ∀ e ∈ args, e.Readable)
    (named : ∀ kwarg ∈ kwargs, kwarg.2.Readable)
    (within : (separated (args.map Expr.written ++ kwargs.map Expr.keywordWritten)).length ≤ n)
    {fuel : Nat} (enoughFuel : args.length + kwargs.length < fuel) :
    Takes enough (callArguments expression before [] fuel)
      (separated (args.map Expr.written ++ kwargs.map Expr.keywordWritten) ++
        .symbol .rightParen :: rest) (before ++ args, kwargs) rest := by
  induction args generalizing before fuel with
  | nil =>
    rw [List.append_nil]
    exact takes_keywords reads named within (by simpa using enoughFuel)
  | cons e args ih =>
    match fuel, enoughFuel with
    | fuel + 1, enoughFuel =>
    have readable := positional e List.mem_cons_self
    rw [List.length_cons] at enoughFuel
    have others := @ih (before ++ [e])
      (fun e member => positional e (List.mem_cons_of_mem _ member))
      (Nat.le_trans (length_separated_tail _ _) within) fuel (by omega)
    have size : e.written.length ≤ n := by
      have whole := length_le_separated (List.mem_cons_self (a := e.written)
        (l := args.map Expr.written ++ kwargs.map Expr.keywordWritten))
      exact Nat.le_trans whole within
    have stops := stops_furtherItems (s := .rightParen) rfl
      (args.map Expr.written ++ kwargs.map Expr.keywordWritten) rest
    rw [List.append_assoc, List.singleton_append] at others
    rw [List.map_cons, List.cons_append, separated, List.append_assoc]
    exact takes_positional readable (head_furtherItems (by decide) (by decide) _ rest)
      (reads e readable size _ stops) (takes_afterArgument (by simp) others)

/-! ### Subscripts -/

/-- What may come after a slice or one of its bounds. -/
def EndsBound (rest : List Token) : Prop :=
  ∃ s more, rest = .symbol s :: more ∧ (s = .colon ∨ s = .comma ∨ s = .rightBracket)

theorem EndsBound.stops (ends : EndsBound rest) : Stops .conditional rest := by
  obtain ⟨s, more, rfl, rfl | rfl | rfl⟩ := ends <;> exact stops_of_continues rfl _

theorem takes_sliceBound (reads : ReadsWithin n enough expression) {bound : Option Expr}
    (each : ∀ e ∈ bound, e.Readable) (within : (Expr.boundWritten bound).length ≤ n)
    (ends : EndsBound rest) :
    Takes enough (sliceBound expression) (Expr.boundWritten bound ++ rest) bound rest := by
  refine .peek ?_
  cases bound with
  | none => obtain ⟨s, more, rfl, rfl | rfl | rfl⟩ := ends <;> exact .pure
  | some e =>
    have readable := each e rfl
    have found := (reads e readable within rest ends.stops).map (g := some)
    change Takes enough _ (e.written ++ rest) _ _
    split
    · next same => exact absurd same (head_written_ne readable rfl rest)
    · next same => exact absurd same (head_written_ne readable rfl rest)
    · next same => exact absurd same (head_written_ne readable rfl rest)
    · exact found

/-- What may come after an item of a subscript. -/
def EndsItem (rest : List Token) : Prop :=
  ∃ s more, rest = .symbol s :: more ∧ (s = .comma ∨ s = .rightBracket)

theorem EndsItem.endsBound (ends : EndsItem rest) : EndsBound rest := by
  obtain ⟨s, more, rfl, isEnd⟩ := ends
  exact ⟨s, more, rfl, .inr isEnd⟩

theorem EndsItem.noColon (ends : EndsItem rest) : rest.head? ≠ some (.symbol .colon) := by
  obtain ⟨s, more, rfl, rfl | rfl⟩ := ends <;> simp

theorem follows_item (more : List Token) : Follows EndsItem (.symbol .rightBracket :: more) where
  comma tokens := ⟨_, _, rfl, .inl rfl⟩
  last := ⟨_, _, rfl, .inr rfl⟩
  noComma := by simp

theorem takes_sliceTail (reads : ReadsWithin n enough expression) {start stop step : Option Expr}
    (readableStop : ∀ e ∈ stop, e.Readable) (readableStep : ∀ e ∈ step, e.Readable)
    (within : (Expr.slice start stop step).written.length ≤ n) (ends : EndsItem rest) :
    Takes enough (sliceTail expression start)
      (.symbol .colon :: (Expr.boundWritten stop ++
        (Expr.optionWritten (.symbol .colon) .conditional step ++ rest)))
      (.slice start stop step) rest := by
  rw [written_slice, List.length_append, List.length_cons, List.length_append] at within
  cases step with
  | none =>
    refine .consume ((takes_sliceBound reads readableStop (by omega) ends.endsBound).bind ?_)
    exact .eatOther ends.noColon (.bind .pure .pure)
  | some e =>
    have shape : Expr.optionWritten (.symbol .colon) .conditional (some e) =
        .symbol .colon :: Expr.boundWritten (some e) :=
      congrArg (Token.symbol .colon :: ·) (writtenAt_conditional e)
    rw [shape, List.length_cons] at within
    rw [shape]
    have endsStop : EndsBound ((.symbol .colon :: Expr.boundWritten (some e)) ++ rest) :=
      ⟨_, _, rfl, .inl rfl⟩
    refine .consume ((takes_sliceBound reads readableStop (by omega) endsStop).bind (.eat ?_))
    exact (takes_sliceBound reads readableStep (by omega) ends.endsBound).bind .pure

theorem takes_sliceItem (reads : ReadsWithin n enough expression) {e : Expr} (item : e.Item)
    (within : e.written.length ≤ n) (ends : EndsItem rest) :
    Takes enough (sliceItem expression) (e.written ++ rest) e rest := by
  cases item with
  | plain readable =>
    refine .isNextOther (head_written_ne readable rfl rest) ?_
    refine (reads e readable within rest ends.endsBound.stops).bind ?_
    exact .isNextOther ends.noColon .pure
  | @slice start stop step bounds =>
    simp only [List.forall_mem_cons] at bounds
    obtain ⟨readableStart, readableStop, readableStep, -⟩ := bounds
    have tail := takes_sliceTail reads readableStop readableStep within ends
    have shape : (Expr.slice start stop step).written ++ rest =
        Expr.boundWritten start ++ .symbol .colon :: (Expr.boundWritten stop ++
          (Expr.optionWritten (.symbol .colon) .conditional step ++ rest)) := by
      simp [written_slice]
    rw [shape]
    cases start with
    | none => exact .isNext tail
    | some e =>
      have readable := readableStart e rfl
      rw [written_slice, List.length_append] at within
      have size : e.written.length ≤ n := by
        change e.written.length + _ ≤ n at within
        omega
      refine .isNextOther (head_written_ne readable rfl _) ?_
      refine (reads e readable size _ (stops_of_continues rfl _)).bind ?_
      exact .isNext tail

theorem head_item {e : Expr} (item : e.Item) (rest : List Token) :
    isSymbol .rightBracket (e.written ++ rest).head? = false := by
  cases item with
  | plain readable => exact isSymbol_eq_false (head_written_ne readable rfl rest)
  | @slice start stop step bounds =>
    rw [written_slice, List.append_assoc]
    cases start with
    | none => rfl
    | some e => exact isSymbol_eq_false (head_written_ne (bounds _ List.mem_cons_self e rfl) rfl _)

theorem takes_subscript (reads : ReadsWithin n enough expression) {e : Expr}
    (subscript : e.Subscript) (within : e.written.length ≤ n) :
    Takes enough (Grammar.subscript expression) (e.written ++ .symbol .rightBracket :: rest) e
      (.symbol .rightBracket :: rest) := by
  have single (item : e.Item) : Takes enough (Grammar.subscript expression)
      (e.written ++ .symbol .rightBracket :: rest) e (.symbol .rightBracket :: rest) := by
    rw [subscript_eq]
    have takes := takes_sliceItem reads item within (follows_item rest).last
    exact takes_commaList_single takes (by simp)
  cases subscript with
  | item item => exact single item
  | @tuple items filled each =>
    cases slices : items.any Expr.isSlice with
    | false =>
      refine single (.plain (.tuple fun e member => ?_))
      rw [List.any_eq_false] at slices
      cases each e member with
      | plain readable => exact readable
      | slice => exact absurd rfl (slices _ member)
    | true =>
      have bare : (Expr.tuple items).written = tupled (items.map Expr.written) := by
        rw [written_tuple, slices, allWritten_eq]
        rfl
      rw [bare] at within ⊢
      rw [subscript_eq]
      refine takes_commaList (follows_item rest) filled (fun _ => rfl)
        fun e member => ⟨head_item (each e member), fun more ends => ?_⟩
      have shorter := length_le_tupled (List.mem_map_of_mem (f := Expr.written) member)
      exact takes_sliceItem reads (each e member) (by omega) ends

end

/-! ### Displays -/

/-- The row of the table that a level of the grammar reads. -/
def Level.rank : Level → Rank
  | .expression => .conditional
  | .disjunction => .disjunction
  | .negation => .negation
  | .factor => .sign

/-- How many levels of nesting a level of the grammar takes by itself. -/
def Level.cost : Level → Nat
  | .expression => 1
  | _ => 0

/-- Readable expressions of fewer than `n` tokens are read inside others. -/
def ReadsBelow (below : Below) (n : Nat) : Prop :=
  ∀ (level : Level) (e : Expr), e.Readable → (e.writtenAt level.rank).length < n →
    ∀ budget rest, Stops level.rank rest →
      Takes ((e.writtenAt level.rank).length + level.cost ≤ budget + 1) (below level budget)
        (e.writtenAt level.rank ++ rest) e rest

section

variable {below : Below} {n budget : Nat} {rest : List Token}

theorem ReadsBelow.expression (reads : ReadsBelow below n) {m : Nat} (short : m < n)
    {enough : Prop} (implies : enough → m ≤ budget) :
    ReadsWithin m enough (below .expression budget) := by
  intro e readable within rest stops
  have inner := reads .expression e readable
  rw [Level.rank, writtenAt_conditional] at inner
  refine (inner (by omega) budget rest stops).mono fun large => ?_
  have large := implies large
  change e.written.length + 1 ≤ budget + 1
  omega

theorem ReadsBelow.isRead (reads : ReadsBelow below n) {e : Expr} (readable : e.Readable)
    (short : e.written.length < n) {enough : Prop} (implies : enough → e.written.length ≤ budget) :
    IsRead enough (below .expression budget) e :=
  ⟨readable, reads.expression short implies e readable (Nat.le_refl _)⟩

/-- What is read at the row of a level that takes no nesting by itself. -/
theorem ReadsBelow.operand (reads : ReadsBelow below n) (level : Level) (place : Rank)
    (row : level.rank = place) (free : level.cost = 0) {e : Expr} (readable : e.Readable)
    (short : (e.writtenAt place).length < n) {enough : Prop}
    (implies : enough → (e.writtenAt place).length ≤ budget + 1) (stops : Stops place rest) :
    Takes enough (below level budget) (e.writtenAt place ++ rest) e rest := by
  subst row
  refine (reads level e readable short budget rest stops).mono fun large => ?_
  rw [free]
  exact implies large

theorem takes_enclosed (reads : ReadsBelow below n) {e : Expr} (readable : e.Readable)
    (within : e.written.length + 2 ≤ n) :
    Takes (e.written.length + 2 ≤ budget + 1) (atom below budget)
      (between .leftParen .rightParen e.written ++ rest) e rest := by
  have inner : ReadsWithin e.written.length (e.written.length + 2 ≤ budget + 1)
      (below .expression budget) := reads.expression (by omega) (by omega)
  rw [between_append]
  refine .peek (.skip (.eatOther (head_written_ne readable rfl _) ?_))
  rw [expressionListOf_eq]
  exact (takes_commaList_single (inner e readable (Nat.le_refl _) _ (stops_of_continues rfl _))
    (by simp)).bind (.consume .pure)

theorem takes_tupleAtom {enough : Prop} {items : List Expr}
    (each : ∀ e ∈ items, IsRead enough (below .expression budget) e) :
    Takes enough (atom below budget) ((Expr.tuple items).written ++ rest) (.tuple items) rest := by
  rw [written_tuple_of_readable fun e member => (each e member).readable, between_append]
  refine .peek (.skip ?_)
  cases items with
  | nil => exact .eat .pure
  | cons e items =>
    have nonempty (rest : List Token) : (tupled ((e :: items).map Expr.written) ++ rest).head? ≠
        some (.symbol .rightParen) := by
      obtain ⟨more, shape⟩ := tupled_cons e.written (items.map Expr.written)
      rw [List.map_cons, shape, List.append_assoc]
      exact head_written_ne (each e List.mem_cons_self).readable rfl _
    refine .eatOther (nonempty _) ?_
    exact (takes_tuple (by simp) each).bind (.consume .pure)

theorem takes_list {enough : Prop} {items : List Expr}
    (each : ∀ e ∈ items, IsRead enough (below .expression budget) e) :
    Takes enough (atom below budget) ((Expr.list items).written ++ rest) (.list items) rest := by
  rw [written_list, between_append]
  refine .peek (.skip ?_)
  cases items with
  | nil => exact .eat .pure
  | cons e items =>
    have first := each e List.mem_cons_self
    have others := fun e' member => each e' (List.mem_cons_of_mem e member)
    rw [List.map_cons, separated, List.append_assoc]
    refine .eatOther (head_written_ne first.readable rfl _) ?_
    refine (first.takes _ (stops_furtherItems rfl _ _)).bind ?_
    refine .eatWordOther ?_ (.left ?_)
    · cases items <;> simp [furtherItems]
    · refine (takes_listTail others ?_).bind (.consume .pure)
      have enoughFuel := length_le_furtherItems (items.map Expr.written)
      rw [List.length_map] at enoughFuel
      rw [List.length_append]
      omega

theorem takes_dict {enough : Prop} {entries : List (Expr × Expr)}
    (keys : ∀ entry ∈ entries, IsRead enough (below .expression budget) entry.1)
    (values : ∀ entry ∈ entries, IsRead enough (below .expression budget) entry.2) :
    Takes enough (atom below budget) ((Expr.dict entries).written ++ rest) (.dict entries) rest := by
  have enoughFuel := length_le_separated_succ (entries.map Expr.entryWritten)
  rw [List.length_map] at enoughFuel
  rw [written_dict, between_append]
  refine .peek (.skip (.left ?_))
  refine .bind (takes_dictEntries keys values ?_) .pure
  rw [List.length_append, List.length_cons]
  omega

theorem takes_comprehension (reads : ReadsBelow below n) {element source : Expr} {target : Target}
    {condition : Option Expr} (readable : (Expr.listComp element target source condition).Readable)
    (within : (Expr.listComp element target source condition).written.length ≤ n) :
    Takes ((Expr.listComp element target source condition).written.length ≤ budget + 1)
      (atom below budget) ((Expr.listComp element target source condition).written ++ rest)
      (.listComp element target source condition) rest := by
  cases readable with
  | listComp readableElement loops readableSource readableCondition =>
  have size : (Expr.listComp element target source condition).written.length =
      element.written.length + target.written.length + (source.writtenAt .disjunction).length +
        (Expr.optionWritten (.keyword .ifKw) .disjunction condition).length + 4 := by
    rw [written_listComp, length_between]
    simp only [List.length_append, List.length_cons]
    omega
  have shape : (Expr.listComp element target source condition).written ++ rest =
      .symbol .leftBracket :: (element.written ++ .keyword .forKw :: (target.written ++
        .keyword .inKw :: (source.writtenAt .disjunction ++
          (Expr.optionWritten (.keyword .ifKw) .disjunction condition ++
            .symbol .rightBracket :: rest)))) := by
    simp [written_listComp, between_append]
  have inner : ReadsWithin element.written.length
      ((Expr.listComp element target source condition).written.length ≤ budget + 1)
      (below .expression budget) := reads.expression (by omega) (by omega)
  rw [shape]
  refine .peek (.skip (.eatOther (head_written_ne readableElement rfl _) ?_))
  refine (inner element readableElement (Nat.le_refl _) _ (stops_of_continues rfl _)).bind ?_
  refine .eatWord (.bind (.mono (takes_targetList loops budget _) (by omega)) (.consumeWord ?_))
  have ends : Stops .disjunction (.symbol .rightBracket :: rest) := stops_of_continues rfl rest
  cases condition with
  | none =>
    refine .bind (reads.operand .disjunction .disjunction rfl rfl readableSource (by omega)
      (by omega) ends) ?_
    exact .eatWordOther (by simp [Expr.optionWritten]) (.bind .pure (.consume .pure))
  | some e =>
    have sizeOption : (Expr.optionWritten (.keyword .ifKw) .disjunction (some e)).length =
        (e.writtenAt .disjunction).length + 1 := rfl
    refine .bind (reads.operand .disjunction .disjunction rfl rfl readableSource (by omega)
      (by omega) (.cons (by decide) _)) (.eatWord ?_)
    exact .bind (.map (reads.operand .disjunction .disjunction rfl rfl (readableCondition e rfl)
      (by omega) (by omega) ends)) (.consume .pure)

end

end DocExamples.Script.Grammar
