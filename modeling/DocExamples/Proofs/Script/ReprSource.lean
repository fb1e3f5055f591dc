import DocExamples.Proofs.Script.ReprTokens
import DocExamples.Proofs.Script.RoundTrip
import DocExamples.Proofs.Script.Runs
/-!
What a session echoes is source: the text of a value that is made of constants, numbers, strings
and containers is a program of one expression, and this expression has the value.
-/
namespace DocExamples.Script

namespace Grammar

variable {fuel budget : Nat} {e : Expr}

/-- What its own row reads is read as a whole expression, which takes one level of nesting. -/
theorem isRead_of_row (readable : e.Readable)
    (takes : ∀ rest, Stops .conditional rest →
      Takes True (reader (expressionWith fuel) e.rank budget) (e.written ++ rest) e rest) :
    IsRead True (expressionWith (fuel + 1) .expression (budget + 1)) e := by
  have begins := begins_writtenAt readable e.rank
  rw [writtenAt_of_le (Nat.le_refl _)] at begins
  refine ⟨readable, fun rest stops => ?_⟩
  have head := begins.head_append rest
  refine .descend (fun _ => Nat.succ_pos budget) fun left isLeft => ?_
  obtain rfl : left = budget := (Nat.succ.inj isLeft).symm
  refine takes_looser .conditional e.rank (Nat.zero_le _) stops (fun lt => ?_) (fun lt => ?_)
    (takes rest stops)
  · rw [head]
    exact begins.positive lt
  · rw [head]
    exact begins.unsigned lt

theorem isRead_leaf (readable : e.Readable) (leaf : isLeaf e = true) :
    IsRead True (expressionWith (fuel + 1) .expression (budget + 1)) e := by
  refine isRead_of_row readable fun rest stops => ?_
  have row : e.rank = .atom := by cases e <;> first | rfl | cases leaf
  rw [row]
  exact takes_leaf leaf (stops.tighter (Nat.zero_le _))

/-- A minus sign in front of a number is one more level. -/
theorem isRead_negative (readable : e.Readable) (leaf : isLeaf e = true) :
    IsRead True (expressionWith (fuel + 2) .expression (budget + 2)) (.unary .neg e) := by
  have row : e.rank = .atom := by cases e <;> first | rfl | cases leaf
  have begins := begins_writtenAt readable .atom
  rw [writtenAt_of_le (Nat.le_of_eq (by rw [row]))] at begins
  have written : (Expr.unary .neg e).written = .symbol .minus :: e.written := by
    rw [written_unary, writtenAt_of_le]
    · rfl
    · rw [row]
      decide
  refine isRead_of_row (.unary readable) fun rest stops => ?_
  have head := begins.head_append rest
  rw [written, List.cons_append]
  refine .peek (.skip (.descend (fun _ => Nat.succ_pos budget) fun left isLeft => ?_))
  obtain rfl : left = budget := (Nat.succ.inj isLeft).symm
  refine .bind ?_ .pure
  refine takes_looser .sign .atom (by decide) (stops.tighter (Nat.zero_le _)) (fun lt => ?_)
    (fun lt => ?_) (takes_leaf leaf (stops.tighter (Nat.zero_le _)))
  · rw [head]
    exact begins.positive lt
  · rw [head]
    exact begins.unsigned lt

end Grammar

/-! ### Values and their expressions -/

theorem pure_bind_eval {α β : Type} (a : α) (f : α → Eval β) : (pure a >>= f : Eval β) = f a := rfl

theorem map_pure_eval {α β : Type} (f : α → β) (a : α) :
    f <$> (pure a : Eval α) = pure (f a) := rfl

/-- The text is that of an expression which is read where `n + 2` levels of nesting are left, and
which has the value in every state without any step. -/
structure Denotes (n : Nat) (text : List Char) (e : Expr) (v : Value) : Prop where
  lexes : Lexes text e.written
  reads : ∀ fuel budget, e.written.length ≤ fuel → n + 2 ≤ budget →
    Grammar.IsRead True (Grammar.expressionWith fuel .expression budget) e
  evaluates : ∀ call, evalExpr call e = pure v

namespace Denotes

variable {n : Nat} {text : List Char} {e : Expr} {v : Value}

theorem readable (denotes : Denotes n text e v) : e.Readable :=
  (denotes.reads e.written.length (n + 2) (Nat.le_refl _) (Nat.le_refl _)).readable

theorem leaf (isLeaf : Grammar.isLeaf e = true) (readable : e.Readable) (lexes : Lexes text e.written)
    (evaluates : ∀ call, evalExpr call e = pure v) : Denotes n text e v where
  lexes := lexes
  evaluates := evaluates
  reads fuel budget enough within := by
    have filled := List.length_pos_iff.mpr (begins_writtenAt readable .conditional).ne_nil
    rw [writtenAt_conditional] at filled
    match fuel, budget, enough, within with
    | fuel + 1, budget + 1, _, _ => exact Grammar.isRead_leaf readable isLeaf
    | 0, _, enough, _ => omega
    | _, 0, _, within => omega

/-- A number with a minus sign in front. -/
theorem negative {magnitude : Value} (isLeaf : Grammar.isLeaf e = true)
    (starts : ∃ c more, c.isDigit = true ∧ text = c :: more) (denotes : Denotes n text e magnitude)
    (negates : unary .neg magnitude = .ok v) : Denotes n ('-' :: text) (.unary .neg e) v := by
  have row : e.rank = .atom := by cases e <;> first | rfl | cases isLeaf
  have written : (Expr.unary .neg e).written = .symbol .minus :: e.written := by
    rw [written_unary, writtenAt_of_le (by rw [row]; decide)]
    rfl
  have filled := List.length_pos_iff.mpr (begins_writtenAt denotes.readable .conditional).ne_nil
  rw [writtenAt_conditional] at filled
  constructor
  · rw [written]
    exact denotes.lexes.minus starts
  · intro fuel budget enough within
    rw [written, List.length_cons] at enough
    match fuel, budget, enough, within with
    | fuel + 2, budget + 2, _, _ => exact Grammar.isRead_negative denotes.readable isLeaf
    | 0, _, enough, _ | 1, _, enough, _ => omega
    | _, 0, _, within | _, 1, _, within => omega
  · intro call
    rw [evalExpr, denotes.evaluates call, pure_bind_eval, negates]
    rfl

/-! ### Containers -/

/-- What an atom reads is read as a whole expression. -/
theorem reads_of_atom {e : Expr} (readable : e.Readable) (row : e.rank = .atom)
    (several : 2 ≤ e.written.length)
    (takes : ∀ fuel budget rest, e.written.length ≤ fuel + 1 → n + 2 ≤ budget →
      Takes True (Grammar.atom (Grammar.expressionWith fuel) budget) (e.written ++ rest) e rest) :
    ∀ fuel budget, e.written.length ≤ fuel → n + 1 + 2 ≤ budget →
      Grammar.IsRead True (Grammar.expressionWith fuel .expression budget) e := by
  intro fuel budget enough within
  match fuel, budget, enough, within with
  | fuel + 1, budget + 1, enough, within =>
    refine Grammar.isRead_of_row readable fun rest _ => ?_
    rw [row]
    exact takes fuel budget rest enough (by omega)
  | 0, _, enough, _ => omega
  | _, 0, _, within => omega

theorem evalAll_map {items : List Value} {f : Value → Expr} {call : Caller}
    (each : ∀ v ∈ items, evalExpr call (f v) = pure v) :
    evalAll call (items.map f) = pure items := by
  induction items with
  | nil => rw [List.map_nil, evalAll]
  | cons v items ih =>
    obtain ⟨first, others⟩ := List.forall_mem_cons.mp each
    rw [List.map_cons, evalAll, first, pure_bind_eval, ih others]
    rfl

variable {items : List Value} {f : Value → Expr}

theorem list (each : ∀ v ∈ items, Denotes n v.repr.toList (f v) v) :
    Denotes (n + 1) (Value.list ⟨items⟩).repr.toList (.list (items.map f)) (.list ⟨items⟩) where
  lexes := by
    have inner := lexes_separated fun v member => (each v member).lexes
    rw [Value.repr_list, Value.toList_between, Value.reprs_eq, written_list, List.map_map]
    exact inner.inBrackets
  reads := by
    have readable : ∀ e ∈ items.map f, e.Readable := by
      simpa using fun v member => (each v member).readable
    refine reads_of_atom (.list readable) rfl (by rw [written_list, length_between]; omega) ?_
    intro fuel budget rest enough within
    refine Grammar.takes_list fun e member => ?_
    obtain ⟨v, isItem, rfl⟩ := List.mem_map.mp member
    have smaller := length_item_list member
    exact (each v isItem).reads fuel budget (by omega) within
  evaluates call := by
    rw [evalExpr, evalAll_map fun v member => (each v member).evaluates call, map_pure_eval]
    rfl

theorem tuple (each : ∀ v ∈ items, Denotes n v.repr.toList (f v) v) :
    Denotes (n + 1) (Value.tuple items).repr.toList (.tuple (items.map f)) (.tuple items) := by
  have readable : ∀ e ∈ items.map f, e.Readable := by
    simpa using fun v member => (each v member).readable
  have written := written_tuple_of_readable readable
  constructor
  · have inner := lexes_separated fun v member => (each v member).lexes
    rw [written, List.map_map, Value.repr_tuple, Value.reprs_eq]
    split
    · next single =>
      obtain ⟨v, rfl⟩ := List.length_eq_one_iff.mp single
      have lone : tupled ([v].map (Expr.written ∘ f)) =
          separated ([v].map (Expr.written ∘ f)) ++ [.symbol .comma] := by
        simp [tupled, separated, furtherItems]
      rw [Value.toList_between, lone]
      have closed := inner.comma.inParens
      rwa [List.append_assoc] at closed
    · next several =>
      have same : tupled (items.map (Expr.written ∘ f)) = separated (items.map (Expr.written ∘ f)) := by
        rcases items with _ | ⟨v, _ | ⟨w, others⟩⟩
        · rfl
        · exact absurd rfl several
        · rfl
      rw [Value.toList_between, same]
      exact inner.inParens
  · refine reads_of_atom (.tuple readable) rfl (by rw [written, length_between]; omega) ?_
    intro fuel budget rest enough within
    refine Grammar.takes_tupleAtom fun e member => ?_
    obtain ⟨v, isItem, rfl⟩ := List.mem_map.mp member
    have smaller := length_item_tuple readable member
    exact (each v isItem).reads fuel budget (by omega) within
  · intro call
    rw [evalExpr, evalAll_map fun v member => (each v member).evaluates call, map_pure_eval]

/-- Keys that are unequal are put one after another. -/
theorem evalEntries_map {entries before : List (Value × Value)} {f g : Value × Value → Expr}
    {call : Caller} (keys : ∀ entry ∈ entries, evalExpr call (f entry) = pure entry.1)
    (values : ∀ entry ∈ entries, evalExpr call (g entry) = pure entry.2)
    (apart : (before ++ entries).Pairwise fun a b => a.1.equals b.1 = false) :
    evalEntries call before (entries.map fun entry => (f entry, g entry)) =
      pure (before ++ entries) := by
  induction entries generalizing before with
  | nil => rw [List.map_nil, evalEntries, List.append_nil]
  | cons entry entries ih =>
    obtain ⟨key, otherKeys⟩ := List.forall_mem_cons.mp keys
    obtain ⟨value, otherValues⟩ := List.forall_mem_cons.mp values
    have absent : underKey? before entry.1 = none := by
      rw [underKey?, Option.map_eq_none_iff, List.find?_eq_none]
      intro earlier member
      rw [(List.pairwise_append.mp apart).2.2 earlier member entry List.mem_cons_self]
      exact Bool.false_ne_true
    have put : putEntry entry.1 entry.2 before = before ++ [entry] := putEntry_of_absent absent
    rw [List.append_cons] at apart ⊢
    rw [List.map_cons, evalEntries, key, pure_bind_eval, value, pure_bind_eval, put,
      ih otherKeys otherValues apart]

theorem dict {entries : List (Value × Value)} {f g : Value × Value → Expr}
    (keys : ∀ entry ∈ entries, Denotes n entry.1.repr.toList (f entry) entry.1)
    (values : ∀ entry ∈ entries, Denotes n entry.2.repr.toList (g entry) entry.2)
    (apart : entries.Pairwise fun a b => a.1.equals b.1 = false) :
    Denotes (n + 1) (Value.dict entries).repr.toList
      (.dict (entries.map fun entry => (f entry, g entry))) (.dict entries) where
  lexes := by
    have inner : ∀ entry ∈ entries, Lexes (entry.1.repr ++ ": " ++ entry.2.repr).toList
        (Expr.entryWritten (f entry, g entry)) := by
      intro entry member
      have shape : (entry.1.repr ++ ": " ++ entry.2.repr).toList =
          entry.1.repr.toList ++ ':' :: ' ' :: entry.2.repr.toList := by simp
      rw [shape]
      exact (keys entry member).lexes.entry (values entry member).lexes
    have inner := lexes_separated inner
    rw [Value.repr_dict, Value.toList_between, Value.entryReprs_eq, written_dict, List.map_map]
    exact inner.inBraces
  reads := by
    have readableKeys : ∀ entry ∈ entries.map fun entry => (f entry, g entry), entry.1.Readable := by
      intro e member
      obtain ⟨entry, isEntry, rfl⟩ := List.mem_map.mp member
      exact (keys entry isEntry).readable
    have readableValues : ∀ entry ∈ entries.map fun entry => (f entry, g entry),
        entry.2.Readable := by
      intro e member
      obtain ⟨entry, isEntry, rfl⟩ := List.mem_map.mp member
      exact (values entry isEntry).readable
    refine reads_of_atom (.dict readableKeys readableValues) rfl
      (by rw [written_dict, length_between]; omega) ?_
    intro fuel budget rest enough within
    refine Grammar.takes_dict (fun e member => ?_) fun e member => ?_
    · have smaller := length_entry_dict member
      obtain ⟨entry, isEntry, rfl⟩ := List.mem_map.mp member
      dsimp only at smaller
      exact (keys entry isEntry).reads fuel budget (by omega) within
    · have smaller := length_entry_dict member
      obtain ⟨entry, isEntry, rfl⟩ := List.mem_map.mp member
      dsimp only at smaller
      exact (values entry isEntry).reads fuel budget (by omega) within
  evaluates call := by
    have evaluated := @evalEntries_map entries [] f g call
      (fun entry member => (keys entry member).evaluates call)
      (fun entry member => (values entry member).evaluates call) apart
    rw [evalExpr, evaluated, map_pure_eval]
    rfl

end Denotes

/-! ### Numbers -/

/-- A whole number, unless its magnitude is out of range. -/
theorem exists_denotes_int {i : Int64} (inRange : i ≠ Int64.minValue) (n : Nat) :
    ∃ e, Denotes n (Value.int i).repr.toList e (.int i) := by
  have text : (Value.int i).repr.toList = (toString i.toInt).toList := rfl
  rw [text, Literal.toList_toString_int]
  by_cases isNegative : i.toInt < 0
  · have lower := i.le_toInt
    have apart : i.toInt ≠ -2 ^ 63 := fun same => inRange (Int64.toInt_inj.mp same)
    have fits : Integer.fits (i.toInt.natAbs : Int) = true := by
      rw [Integer.fits_iff, Integer.least, Integer.greatest]
      omega
    have value := Integer.toInt_ofInt fits
    obtain ⟨c, more, shape⟩ := List.exists_cons_of_ne_nil (Decimal.digitChars_ne_nil i.toInt.natAbs)
    have digit : c.isDigit = true := Decimal.allDigits_digitChars i.toInt.natAbs c (by simp [shape])
    have negates : unary .neg (.int (Int64.ofInt i.toInt.natAbs)) = .ok (.int i) := by
      have opposite : -((i.toInt.natAbs : Nat) : Int) = i.toInt := by omega
      rw [unary, value, opposite, exactInt, Integer.word?_eq_some_iff.mpr rfl]
      rfl
    have magnitude : Denotes n (Decimal.digitChars i.toInt.natAbs)
        (.int (Int64.ofInt i.toInt.natAbs)) (.int (Int64.ofInt i.toInt.natAbs)) :=
      .leaf rfl (.int _) (lexes_digits value) fun call => by rw [evalExpr]
    rw [if_pos isNegative]
    exact ⟨_, magnitude.negative rfl ⟨c, more, digit, shape⟩ negates⟩
  · have value : i.toInt = (i.toInt.natAbs : Int) := by omega
    rw [if_neg isNegative]
    exact ⟨.int i, .leaf rfl (.int i) (lexes_digits value) fun call => by rw [evalExpr]⟩

theorem exists_denotes_float {x : Float} {negative : Bool} {mantissa : Nat} {exponent : Int}
    (finite : Binary64.parts x = .finite negative mantissa exponent) (n : Nat) :
    ∃ e, Denotes n (Value.float x).repr.toList e (.float x) := by
  obtain ⟨body, form, text, read⟩ :=
    @Decimal.render_reads mantissa exponent floatFormat rfl rfl x negative finite
  obtain ⟨isFinite, made⟩ := Binary64.of_parts finite
  have read : Decimal.readFloat? body =
      some (Binary64.withSign false (Binary64.bitsFor mantissa exponent)) := by
    obtain ⟨c, rest, digit, rfl⟩ := form.starts
    exact (Decimal.readFloat?_of_isDigit digit rest).1.trans (read false)
  have magnitude := Denotes.leaf (n := n) rfl (.float _) (lexes_floatText form read)
    fun call => by rw [evalExpr]
  have shown : (Value.float x).repr.toList = if negative then '-' :: body else body := text
  rw [shown]
  cases negative with
  | false =>
    rw [made] at magnitude
    exact ⟨_, magnitude⟩
  | true =>
    have negates : unary .neg (.float (Binary64.withSign false
        (Binary64.bitsFor mantissa exponent))) = .ok (.float x) := by
      rw [unary, Binary64.neg_withSign (Binary64.bitsFor_le isFinite), made]
    exact ⟨_, magnitude.negative rfl form.starts negates⟩

namespace Value

/-- Values whose text is source: constants, strings, numbers that have a literal, and containers of
such values, where dictionaries have unequal keys. -/
inductive IsSource : Value → Prop where
  | none : IsSource none
  | bool (b : Bool) : IsSource (bool b)
  | int {i : Int64} (inRange : i ≠ Int64.minValue) : IsSource (int i)
  | float {x : Float} {negative : Bool} {mantissa : Nat} {exponent : Int}
    (finite : Binary64.parts x = .finite negative mantissa exponent) : IsSource (float x)
  | str (s : String) : IsSource (str s)
  | list {items : Array Value} (all : ∀ v ∈ items.toList, IsSource v) : IsSource (list items)
  | tuple {items : List Value} (all : ∀ v ∈ items, IsSource v) : IsSource (tuple items)
  | dict {entries : List (Value × Value)} (keys : ∀ entry ∈ entries, IsSource entry.1)
    (values : ∀ entry ∈ entries, IsSource entry.2)
    (apart : entries.Pairwise fun a b => a.1.equals b.1 = false) : IsSource (dict entries)

theorem IsSource.exists_denotes {v : Value} (source : v.IsSource) {n : Nat} (below : v.Within n) :
    ∃ e, Denotes n v.repr.toList e v := by
  have : Nonempty Expr := ⟨.none⟩
  induction source generalizing n with
  | none => exact ⟨.none, .leaf rfl .none lexes_none fun call => by rw [evalExpr]⟩
  | bool b => exact ⟨.bool b, .leaf rfl (.bool b) (lexes_bool b) fun call => by rw [evalExpr]⟩
  | int inRange => exact exists_denotes_int inRange n
  | float finite => exact exists_denotes_float finite n
  | str s => exact ⟨.str s, .leaf rfl (.str s) (lexes_str s) fun call => by rw [evalExpr]⟩
  | @list items all ih =>
    obtain ⟨items⟩ := items
    cases n with
    | zero => exact absurd below not_within_list
    | succ n =>
      choose! f denotes using fun v member => ih v member (within_list.mp below v member)
      exact ⟨_, .list denotes⟩
  | tuple all ih =>
    cases n with
    | zero => exact absurd below not_within_tuple
    | succ n =>
      choose! f denotes using fun v member => ih v member (within_tuple.mp below v member)
      exact ⟨_, .tuple denotes⟩
  | dict keys values apart ihKeys ihValues =>
    cases n with
    | zero => exact absurd below not_within_dict
    | succ n =>
      have parts := within_dict.mp below
      choose! f denotesKeys using fun entry member => ihKeys entry member (parts entry member).1
      choose! g denotesValues using fun entry member => ihValues entry member (parts entry member).2
      exact ⟨_, .dict denotesKeys denotesValues apart⟩

end Value

/-! ### The source -/

theorem parse_of_denotes {text : String} {e : Expr} {v : Value}
    (denotes : Denotes (maxNesting - 2) text.toList e v) : parse text = .ok [.expr e] := by
  have starts := startsExpression_written denotes.readable []
  have isRead := denotes.reads (e.written.length + 1) maxNesting (Nat.le_succ _) (Nat.le_refl _)
  have takes : Takes True (Grammar.expression maxNesting) (e.written ++ []) e [] :=
    .left (by simpa using isRead.takes [] (stops_nil _))
  rw [List.append_nil] at starts takes
  have run := (Grammar.program_of_takes starts takes).resolve_right fun failed => failed.1 trivial
  exact bind_eq_ok.mpr ⟨_, denotes.lexes.tokens_eq, bind_eq_ok.mpr ⟨_, run, rfl⟩⟩

/-- What a namespace prints for the value of an expression statement. -/
def Namespace.shown (ns : Namespace) (v : Value) : String :=
  if v.isNone || 0 < ns.machine.scopes.depth then "" else v.repr ++ "\n"

theorem echo_eq (v : Value) (ns : Namespace) :
    (echo v).run ns.machine =
        (.ok (), { ns.machine with output := ns.machine.output.print (ns.shown v) }) ∧
      (echo v).steps ns.machine = [] := by
  have asks : (echo v).run ns.machine = (if !v.isNone && !decide (0 < ns.machine.scopes.depth) then
      Machine.printLine v.repr else pure () : Eval Unit).run ns.machine := rfl
  have same : (echo v).steps ns.machine = (if !v.isNone && !decide (0 < ns.machine.scopes.depth) then
      Machine.printLine v.repr else pure () : Eval Unit).steps ns.machine := rfl
  have silent : ns.machine.output.print "" = ns.machine.output := by simp [Output.print]
  rw [asks, same]
  by_cases hidden : (v.isNone || decide (0 < ns.machine.scopes.depth)) = true
  · have nothing : ns.shown v = "" := if_pos hidden
    rw [nothing, silent, ← Bool.not_or, hidden]
    exact ⟨rfl, rfl⟩
  · have line : ns.machine.output.print (ns.shown v) = ns.machine.output.printLine v.repr := by
      rw [Namespace.shown, if_neg hidden, Output.print, Output.printLine, String.append_assoc]
    rw [line, ← Bool.not_or, Bool.eq_false_of_not_eq_true hidden]
    exact ⟨rfl, rfl⟩

theorem runProgram_of_pure {e : Expr} {v : Value} {limits : Limits} (ns : Namespace)
    (evaluates : evalExpr limits.caller e = pure v) :
    (runProgram limits [.expr e]).run ns.machine =
        (.ok (), { ns.machine with output := ns.machine.output.print (ns.shown v) }) ∧
      (runProgram limits [.expr e]).steps ns.machine = [] := by
  obtain ⟨run, steps⟩ := echo_eq v ns
  rw [runProgram, execBlock, execStmt, evaluates, pure_bind_eval]
  simp only [bind, Eval.bind, run, steps]
  exact ⟨rfl, rfl⟩

/-- What text denotes is what it does as a source: it has the value in every state, prints it and
leaves everything else as it is. -/
theorem execute_of_denotes {text : String} {e : Expr} {v : Value} {limits : Limits} (ns : Namespace)
    (denotes : Denotes (maxNesting - 2) text.toList e v) :
    ns.execute limits text = (⟨ns.machine.output.text ++ ns.shown v, none⟩,
        ⟨{ ns.machine with output := .empty }⟩) ∧
      (runSource limits text).steps ns.machine = [] := by
  have source : runSource limits text = runProgram limits [.expr e] := by
    rw [runSource, parsed, parse_of_denotes denotes]
    rfl
  obtain ⟨run, steps⟩ := runProgram_of_pure ns (denotes.evaluates limits.caller)
  rw [Namespace.execute, source, run]
  exact ⟨rfl, steps⟩

namespace Value

/-- What a session echoes of such a value is a program of one expression. The expression has that
very value in every state and for every caller; a session which executes the text prints it once
more and keeps its bindings and everything else. The tokens of a value within `n` levels of
containers are read within `n + 2` levels, as a number may stand under a minus sign. -/
theorem execute_repr {v : Value} (source : v.IsSource) (below : v.Within (maxNesting - 2)) :
    ∃ e, parse v.repr = .ok [.expr e] ∧ (∀ call, evalExpr call e = pure v) ∧
      ∀ (limits : Limits) (ns : Namespace),
        ns.execute limits v.repr = (⟨ns.machine.output.text ++ ns.shown v, .none⟩,
          ⟨{ ns.machine with output := .empty }⟩) ∧
        (runSource limits v.repr).steps ns.machine = [] := by
  obtain ⟨e, denotes⟩ := source.exists_denotes below
  exact ⟨e, parse_of_denotes denotes, denotes.evaluates, fun _ ns => execute_of_denotes ns denotes⟩

/-- The value of `{"it's": [(-5,), -0.5], (): None}`. -/
def mixedValue : Value :=
  dict [(str "it's", list #[tuple [int (-5)], float (-0.5)]), (tuple [], none)]

theorem execute_repr_mixed :
    mixedValue.IsSource ∧ mixedValue.Within (maxNesting - 2) ∧
      mixedValue.repr = "\x7b\"it's\": [(-5,), -0.5], (): None\x7d" ∧
      ∃ e, parse mixedValue.repr = .ok [.expr e] ∧ (∀ call, evalExpr call e = pure mixedValue) ∧
        ∀ (limits : Limits) (ns : Namespace),
          ns.execute limits mixedValue.repr = (⟨ns.machine.output.text ++ ns.shown mixedValue, .none⟩,
            ⟨{ ns.machine with output := .empty }⟩) ∧
          (runSource limits mixedValue.repr).steps ns.machine = [] := by
  have half : Binary64.parts (-0.5) = .finite true 4503599627370496 (-53) := by rfl
  have numbers : IsSource (list #[tuple [int (-5)], float (-0.5)]) :=
    .list (by simp [IsSource.tuple, IsSource.int, IsSource.float half])
  have apart : (str "it's").equals (tuple []) = false := by
    simp [equals, equalScalars, asNumber?]
  have source : mixedValue.IsSource :=
    .dict (by simp [IsSource.str, IsSource.tuple]) (by simp [numbers, IsSource.none])
      (List.pairwise_pair.mpr apart)
  have below : mixedValue.Within (maxNesting - 2) := by rfl
  exact ⟨source, below, rfl, execute_repr source below⟩

end Value

end DocExamples.Script
