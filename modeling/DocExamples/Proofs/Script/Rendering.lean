import DocExamples.Script.Grammar
/-!
How expressions are written: as tokens, with parentheses only where the table of precedence needs
them.
-/
namespace DocExamples.Script

/-- The rows of the table of precedence, the loosest first. -/
inductive Rank where
  | conditional
  | disjunction
  | conjunction
  | negation
  | comparison
  | sum
  | product
  | sign
  | power
  | trailer
  | atom
  deriving DecidableEq, Repr

namespace Rank

def toNat : Rank → Nat
  | conditional => 0
  | disjunction => 1
  | conjunction => 2
  | negation => 3
  | comparison => 4
  | sum => 5
  | product => 6
  | sign => 7
  | power => 8
  | trailer => 9
  | atom => 10

instance : LE Rank := ⟨fun a b => a.toNat ≤ b.toNat⟩

instance : LT Rank := ⟨fun a b => a.toNat < b.toNat⟩

instance (a b : Rank) : Decidable (a ≤ b) := inferInstanceAs (Decidable (a.toNat ≤ b.toNat))

instance (a b : Rank) : Decidable (a < b) := inferInstanceAs (Decidable (a.toNat < b.toNat))

/-- The row that holds together more tightly by one. -/
def next : Rank → Rank
  | conditional => disjunction
  | disjunction => conjunction
  | conjunction => negation
  | negation => comparison
  | comparison => sum
  | sum => product
  | product => sign
  | sign => power
  | power => trailer
  | trailer | atom => atom

variable {a b c : Rank}

theorem not_lt : ¬ a < b ↔ b ≤ a := Nat.not_lt

theorem lt_of_lt_of_le (first : a < b) (second : b ≤ c) : a < c := Nat.lt_of_lt_of_le first second

theorem eq_of_toNat_eq (same : a.toNat = b.toNat) : a = b := by
  cases a <;> cases b <;> first | rfl | cases same

theorem toNat_next (inner : a ≠ atom) : a.next.toNat = a.toNat + 1 := by
  cases a <;> first | rfl | contradiction

theorem lt_atom (inner : a ≠ atom) : a < atom := by
  cases a <;> first | decide | contradiction

theorem le_next (a : Rank) : a ≤ a.next := by
  cases a <;> decide

theorem lt_next_iff (inner : b ≠ atom) (apart : a ≠ b) : a < b.next ↔ a < b := by
  have apart : a.toNat ≠ b.toNat := fun same => apart (eq_of_toNat_eq same)
  change a.toNat < b.next.toNat ↔ a.toNat < b.toNat
  rw [toNat_next inner]
  omega

/-- What holds of the tightest row and goes from each row to the looser one holds of all. -/
theorem descend {P : Rank → Prop} (tightest : P atom)
    (looser : ∀ rank, rank ≠ atom → P rank.next → P rank) (rank : Rank) : P rank := by
  have trailer := looser trailer (by decide) tightest
  have power := looser power (by decide) trailer
  have sign := looser sign (by decide) power
  have product := looser product (by decide) sign
  have sum := looser sum (by decide) product
  have comparison := looser comparison (by decide) sum
  have negation := looser negation (by decide) comparison
  have conjunction := looser conjunction (by decide) negation
  have disjunction := looser disjunction (by decide) conjunction
  have conditional := looser conditional (by decide) disjunction
  cases rank <;> assumption

end Rank

/-! ### Operators -/

def BinaryOp.token : BinaryOp → Token
  | .add => .symbol .plus
  | .sub => .symbol .minus
  | .mul => .symbol .star
  | .div => .symbol .slash
  | .floorDiv => .symbol .slashSlash
  | .mod => .symbol .percent
  | .pow => .symbol .starStar
  | .matMul => .symbol .atSign

def BinaryOp.rank : BinaryOp → Rank
  | .add | .sub => .sum
  | .mul | .div | .floorDiv | .mod | .matMul => .product
  | .pow => .power

/-- Powers are grouped from the right, the others from the left. -/
def BinaryOp.leftPlace : BinaryOp → Rank
  | .pow => .trailer
  | op => op.rank

def BinaryOp.rightPlace : BinaryOp → Rank
  | .pow => .sign
  | op => op.rank.next

theorem BinaryOp.rank_le_leftPlace (op : BinaryOp) : op.rank ≤ op.leftPlace := by
  cases op <;> decide

def UnaryOp.token : UnaryOp → Token
  | .neg => .symbol .minus
  | .pos => .symbol .plus
  | .not => .keyword .notKw

def UnaryOp.rank : UnaryOp → Rank
  | .neg | .pos => .sign
  | .not => .negation

def CompareOp.tokens : CompareOp → List Token
  | .eq => [.symbol .equalEqual]
  | .notEq => [.symbol .notEqual]
  | .less => [.symbol .less]
  | .lessEq => [.symbol .lessEqual]
  | .greater => [.symbol .greater]
  | .greaterEq => [.symbol .greaterEqual]
  | .isIn => [.keyword .inKw]
  | .notIn => [.keyword .notKw, .keyword .inKw]
  | .is => [.keyword .isKw]
  | .isNot => [.keyword .isKw, .keyword .notKw]

def Expr.rank : Expr → Rank
  | .ifElse .. => .conditional
  | .or .. => .disjunction
  | .and .. => .conjunction
  | .compare .. => .comparison
  | .unary op _ => op.rank
  | .binary op _ _ => op.rank
  | .call .. | .attr .. | .index .. => .trailer
  | _ => .atom

def Expr.isSlice : Expr → Bool
  | .slice .. => true
  | _ => false

def Target.isUnpack : Target → Bool
  | .unpack _ => true
  | _ => false

/-! ### Tokens -/

/-- What is written with a comma before each. -/
def furtherItems (items : List (List Token)) : List Token :=
  items.flatMap (Token.symbol .comma :: ·)

def separated : List (List Token) → List Token
  | [] => []
  | first :: rest => first ++ furtherItems rest

/-- The items of a tuple, where a comma follows one that is alone. -/
def tupled : List (List Token) → List Token
  | [] => []
  | [item] => item ++ [.symbol .comma]
  | first :: rest => first ++ furtherItems rest

def between (opening closing : Symbol) (inner : List Token) : List Token :=
  .symbol opening :: (inner ++ [.symbol closing])

/-- What has a rank, written where at least the rank `place` is needed. -/
def enclosed (place rank : Rank) (tokens : List Token) : List Token :=
  if rank < place then between .leftParen .rightParen tokens else tokens

mutual

def Expr.written : Expr → List Token
  | .int value => [.int value]
  | .float value => [.float value]
  | .str text => [.str text]
  | .bool value => [.keyword (if value then .trueKw else .falseKw)]
  | .none => [.keyword .noneKw]
  | .name n => [.name n]
  | .list items => between .leftBracket .rightBracket (separated (Expr.allWritten items))
  | .tuple items =>
    if items.any Expr.isSlice then tupled (Expr.allWritten items)
    else between .leftParen .rightParen (tupled (Expr.allWritten items))
  | .dict entries => between .leftBrace .rightBrace (separated (Expr.entriesWritten entries))
  | .listComp element target source condition =>
    between .leftBracket .rightBracket (element.written ++ .keyword .forKw :: (target.written ++
      .keyword .inKw :: (enclosed .disjunction source.rank source.written ++
        Expr.optionWritten (.keyword .ifKw) .disjunction condition)))
  | .unary op operand => op.token :: enclosed op.rank operand.rank operand.written
  | .binary op left right =>
    enclosed op.leftPlace left.rank left.written ++
      op.token :: enclosed op.rightPlace right.rank right.written
  | .compare op left right =>
    enclosed .sum left.rank left.written ++
      (op.tokens ++ enclosed .sum right.rank right.written)
  | .and left right =>
    enclosed .conjunction left.rank left.written ++
      .keyword .andKw :: enclosed .negation right.rank right.written
  | .or left right =>
    enclosed .disjunction left.rank left.written ++
      .keyword .orKw :: enclosed .conjunction right.rank right.written
  | .ifElse condition yes no =>
    enclosed .disjunction yes.rank yes.written ++
      .keyword .ifKw :: (enclosed .disjunction condition.rank condition.written ++
        .keyword .elseKw :: no.written)
  | .call callee args kwargs =>
    enclosed .trailer callee.rank callee.written ++ between .leftParen .rightParen
      (separated (Expr.allWritten args ++ Expr.keywordsWritten kwargs))
  | .attr object name =>
    enclosed .trailer object.rank object.written ++ [.symbol .dot, .name name]
  | .index container subscript =>
    enclosed .trailer container.rank container.written ++
      between .leftBracket .rightBracket subscript.written
  | .slice start stop step =>
    Expr.boundWritten start ++ .symbol .colon :: (Expr.boundWritten stop ++
      Expr.optionWritten (.symbol .colon) .conditional step)

def Expr.allWritten : List Expr → List (List Token)
  | [] => []
  | e :: rest => e.written :: Expr.allWritten rest

def Expr.entriesWritten : List (Expr × Expr) → List (List Token)
  | [] => []
  | (key, value) :: rest =>
    (key.written ++ .symbol .colon :: value.written) :: Expr.entriesWritten rest

def Expr.keywordsWritten : List (String × Expr) → List (List Token)
  | [] => []
  | (name, value) :: rest =>
    (.name name :: .symbol .equal :: value.written) :: Expr.keywordsWritten rest

def Expr.boundWritten : Option Expr → List Token
  | none => []
  | some e => e.written

/-- What may be missing, after the token that stands before it. -/
def Expr.optionWritten (token : Token) (place : Rank) : Option Expr → List Token
  | none => []
  | some e => token :: enclosed place e.rank e.written

/-- Targets inside others are in parentheses. -/
def Target.written : Target → List Token
  | .name n => [.name n]
  | .index container subscript =>
    enclosed .trailer container.rank container.written ++
      between .leftBracket .rightBracket subscript.written
  | .unpack targets => tupled (Target.allWritten targets)

def Target.allWritten : List Target → List (List Token)
  | [] => []
  | t :: rest =>
    (if t.isUnpack then between .leftParen .rightParen t.written else t.written) ::
      Target.allWritten rest

end

/-- An expression where at least the rank `place` is needed. -/
def Expr.writtenAt (place : Rank) (e : Expr) : List Token := enclosed place e.rank e.written

section

variable (e left right : Expr)

theorem written_unary (op : UnaryOp) :
    (Expr.unary op e).written = op.token :: e.writtenAt op.rank := rfl

theorem written_binary (op : BinaryOp) :
    (Expr.binary op left right).written =
      left.writtenAt op.leftPlace ++ op.token :: right.writtenAt op.rightPlace := rfl

theorem written_compare (op : CompareOp) :
    (Expr.compare op left right).written =
      left.writtenAt .sum ++ (op.tokens ++ right.writtenAt .sum) := rfl

theorem written_and :
    (Expr.and left right).written =
      left.writtenAt .conjunction ++ .keyword .andKw :: right.writtenAt .negation := rfl

theorem written_or :
    (Expr.or left right).written =
      left.writtenAt .disjunction ++ .keyword .orKw :: right.writtenAt .conjunction := rfl

theorem written_ifElse (condition : Expr) :
    (Expr.ifElse condition left right).written =
      left.writtenAt .disjunction ++ .keyword .ifKw :: (condition.writtenAt .disjunction ++
        .keyword .elseKw :: right.written) := rfl

theorem written_index (subscript : Expr) :
    (Expr.index e subscript).written =
      e.writtenAt .trailer ++ between .leftBracket .rightBracket subscript.written := rfl

theorem written_call (args : List Expr) (kwargs : List (String × Expr)) :
    (Expr.call e args kwargs).written =
      e.writtenAt .trailer ++ between .leftParen .rightParen
        (separated (Expr.allWritten args ++ Expr.keywordsWritten kwargs)) := rfl

theorem written_tuple (items : List Expr) :
    (Expr.tuple items).written =
      if items.any Expr.isSlice then tupled (Expr.allWritten items)
      else between .leftParen .rightParen (tupled (Expr.allWritten items)) := rfl

theorem written_listComp (target : Target) (source : Expr) (condition : Option Expr) :
    (Expr.listComp e target source condition).written =
      between .leftBracket .rightBracket (e.written ++ .keyword .forKw :: (target.written ++
        .keyword .inKw :: (source.writtenAt .disjunction ++
          Expr.optionWritten (.keyword .ifKw) .disjunction condition))) := rfl

theorem written_slice (start stop step : Option Expr) :
    (Expr.slice start stop step).written =
      Expr.boundWritten start ++ .symbol .colon :: (Expr.boundWritten stop ++
        Expr.optionWritten (.symbol .colon) .conditional step) := rfl

end

theorem writtenAt_of_le {place : Rank} {e : Expr} (le : place ≤ e.rank) :
    e.writtenAt place = e.written :=
  if_neg (Rank.not_lt.mpr le)

theorem writtenAt_of_lt {place : Rank} {e : Expr} (lt : e.rank < place) :
    e.writtenAt place = between .leftParen .rightParen e.written :=
  if_pos lt

theorem writtenAt_conditional (e : Expr) : e.writtenAt .conditional = e.written :=
  writtenAt_of_le (Nat.zero_le _)

theorem writtenAt_next {place : Rank} {e : Expr} (inner : place ≠ .atom) (apart : e.rank ≠ place) :
    e.writtenAt place = e.writtenAt place.next := by
  rw [Expr.writtenAt, Expr.writtenAt, enclosed, enclosed]
  simp only [Rank.lt_next_iff inner apart]

theorem allWritten_eq (items : List Expr) : Expr.allWritten items = items.map Expr.written := by
  induction items with
  | nil => rfl
  | cons e rest ih => exact congrArg (e.written :: ·) ih

def Expr.entryWritten (entry : Expr × Expr) : List Token :=
  entry.1.written ++ .symbol .colon :: entry.2.written

theorem entriesWritten_eq (entries : List (Expr × Expr)) :
    Expr.entriesWritten entries = entries.map Expr.entryWritten := by
  induction entries with
  | nil => rfl
  | cons entry rest ih => exact congrArg (Expr.entryWritten entry :: ·) ih

theorem written_list (items : List Expr) :
    (Expr.list items).written =
      between .leftBracket .rightBracket (separated (items.map Expr.written)) := by
  rw [← allWritten_eq]
  rfl

theorem written_dict (entries : List (Expr × Expr)) :
    (Expr.dict entries).written =
      between .leftBrace .rightBrace (separated (entries.map Expr.entryWritten)) := by
  rw [← entriesWritten_eq]
  rfl

def Expr.keywordWritten (kwarg : String × Expr) : List Token :=
  .name kwarg.1 :: .symbol .equal :: kwarg.2.written

theorem keywordsWritten_eq (kwargs : List (String × Expr)) :
    Expr.keywordsWritten kwargs = kwargs.map Expr.keywordWritten := by
  induction kwargs with
  | nil => rfl
  | cons kwarg rest ih => exact congrArg (Expr.keywordWritten kwarg :: ·) ih

/-- A target inside another one. -/
def Target.enclosed (t : Target) : List Token :=
  if t.isUnpack then between .leftParen .rightParen t.written else t.written

theorem allWritten_targets (targets : List Target) :
    Target.allWritten targets = targets.map Target.enclosed := by
  induction targets with
  | nil => rfl
  | cons t rest ih => exact congrArg (t.enclosed :: ·) ih

theorem between_append (opening closing : Symbol) (inner rest : List Token) :
    between opening closing inner ++ rest =
      .symbol opening :: (inner ++ .symbol closing :: rest) := by
  simp [between]

/-! ### Lengths -/

@[simp]
theorem length_between (opening closing : Symbol) (inner : List Token) :
    (between opening closing inner).length = inner.length + 2 := by
  simp [between]

theorem length_lt_furtherItems {item : List Token} {items : List (List Token)}
    (member : item ∈ items) : item.length < (furtherItems items).length := by
  induction items with
  | nil => cases member
  | cons first rest ih =>
    rw [furtherItems, List.flatMap_cons, List.length_append, List.length_cons]
    rcases List.mem_cons.mp member with rfl | later
    · omega
    · have shorter : item.length < (furtherItems rest).length := ih later
      rw [furtherItems] at shorter
      omega

theorem length_le_furtherItems (items : List (List Token)) :
    items.length ≤ (furtherItems items).length := by
  induction items with
  | nil => exact Nat.zero_le _
  | cons first rest ih =>
    rw [furtherItems] at ih
    simp only [furtherItems, List.flatMap_cons, List.length_append, List.length_cons]
    omega

theorem length_le_separated {item : List Token} {items : List (List Token)}
    (member : item ∈ items) : item.length ≤ (separated items).length := by
  cases items with
  | nil => cases member
  | cons first rest =>
    rw [separated, List.length_append]
    rcases List.mem_cons.mp member with rfl | later
    · omega
    · have shorter := length_lt_furtherItems later
      omega

theorem separated_cons_cons (first second : List Token) (rest : List (List Token)) :
    separated (first :: second :: rest) =
      first ++ .symbol .comma :: separated (second :: rest) := rfl

theorem length_le_separated_succ (items : List (List Token)) :
    items.length ≤ (separated items).length + 1 := by
  cases items with
  | nil => exact Nat.zero_le _
  | cons first rest =>
    have bound := length_le_furtherItems rest
    rw [separated, List.length_append, List.length_cons]
    omega

theorem tupled_cons (first : List Token) (rest : List (List Token)) :
    ∃ more, tupled (first :: rest) = first ++ more := by
  cases rest with
  | nil => exact ⟨_, rfl⟩
  | cons second rest => exact ⟨_, rfl⟩

theorem length_separated_tail (item : List Token) (items : List (List Token)) :
    (separated items).length ≤ (separated (item :: items)).length := by
  cases items with
  | nil => exact Nat.zero_le _
  | cons second rest =>
    rw [separated_cons_cons, List.length_append, List.length_cons]
    omega

theorem length_separated_le (items : List (List Token)) :
    (separated items).length ≤ (tupled items).length := by
  match items with
  | [] => exact Nat.le_refl _
  | [item] => simp [separated, tupled, furtherItems]
  | _ :: _ :: _ => exact Nat.le_refl _

theorem length_le_tupled {item : List Token} {items : List (List Token)} (member : item ∈ items) :
    item.length ≤ (tupled items).length :=
  Nat.le_trans (length_le_separated member) (length_separated_le items)

theorem length_item_list {e : Expr} {items : List Expr} (member : e ∈ items) :
    e.written.length + 2 ≤ (Expr.list items).written.length := by
  rw [written_list, length_between]
  exact Nat.add_le_add_right (length_le_separated (List.mem_map_of_mem member)) 2

theorem length_entry_dict {entry : Expr × Expr} {entries : List (Expr × Expr)}
    (member : entry ∈ entries) :
    entry.1.written.length + entry.2.written.length + 3 ≤ (Expr.dict entries).written.length := by
  have whole := length_le_separated (List.mem_map_of_mem (f := Expr.entryWritten) member)
  rw [Expr.entryWritten, List.length_append, List.length_cons] at whole
  rw [written_dict, length_between]
  omega

/-! ### What can be read -/

/-- Targets in parentheses. -/
inductive Target.Nested : Target → Prop where
  | name (n : String) : Nested (.name n)
  | unpack {targets : List Target} (several : 2 ≤ targets.length)
    (each : ∀ t ∈ targets, Nested t) : Nested (.unpack targets)

/-- The targets of a comprehension. -/
inductive Target.InLoop : Target → Prop where
  | name (n : String) : InLoop (.name n)
  | unpack {targets : List Target} (some : targets ≠ []) (each : ∀ t ∈ targets, t.Nested) :
    InLoop (.unpack targets)

theorem Target.Nested.inLoop {t : Target} (nested : t.Nested) : t.InLoop := by
  cases nested with
  | name n => exact .name n
  | unpack several each => exact .unpack (List.ne_nil_of_length_pos (by omega)) each

mutual

/-- Slices stand between brackets after an expression only, and targets have no subscripts. -/
inductive Expr.Readable : Expr → Prop where
  | int (value : Int64) : Readable (.int value)
  | float (value : Float) : Readable (.float value)
  | str (text : String) : Readable (.str text)
  | bool (value : Bool) : Readable (.bool value)
  | none : Readable .none
  | name (n : String) : Readable (.name n)
  | list {items : List Expr} (each : ∀ e ∈ items, Readable e) : Readable (.list items)
  | tuple {items : List Expr} (each : ∀ e ∈ items, Readable e) : Readable (.tuple items)
  | dict {entries : List (Expr × Expr)} (keys : ∀ entry ∈ entries, Readable entry.1)
    (values : ∀ entry ∈ entries, Readable entry.2) : Readable (.dict entries)
  | listComp {e s : Expr} {t : Target} {c : Option Expr} (element : Readable e)
    (target : t.InLoop) (source : Readable s) (condition : ∀ e ∈ c, Readable e) :
    Readable (.listComp e t s c)
  | unary {op : UnaryOp} {e : Expr} (operand : Readable e) : Readable (.unary op e)
  | binary {op : BinaryOp} {l r : Expr} (left : Readable l) (right : Readable r) :
    Readable (.binary op l r)
  | compare {op : CompareOp} {l r : Expr} (left : Readable l) (right : Readable r) :
    Readable (.compare op l r)
  | and {l r : Expr} (left : Readable l) (right : Readable r) : Readable (.and l r)
  | or {l r : Expr} (left : Readable l) (right : Readable r) : Readable (.or l r)
  | ifElse {c y n : Expr} (condition : Readable c) (yes : Readable y) (no : Readable n) :
    Readable (.ifElse c y n)
  | call {e : Expr} {args : List Expr} {kwargs : List (String × Expr)} (callee : Readable e)
    (positional : ∀ e ∈ args, Readable e) (named : ∀ kwarg ∈ kwargs, Readable kwarg.2) :
    Readable (.call e args kwargs)
  | attr {e : Expr} {name : String} (object : Readable e) : Readable (.attr e name)
  | index {e s : Expr} (container : Readable e) (subscript : s.Subscript) :
    Readable (.index e s)

/-- One item between the brackets of a subscript. -/
inductive Expr.Item : Expr → Prop where
  | plain {e : Expr} (readable : Readable e) : Item e
  | slice {start stop step : Option Expr} (bounds : ∀ bound ∈ [start, stop, step],
    ∀ e ∈ bound, Readable e) : Item (.slice start stop step)

inductive Expr.Subscript : Expr → Prop where
  | item {e : Expr} (item : Item e) : Subscript e
  | tuple {items : List Expr} (some : items ≠ []) (each : ∀ e ∈ items, Item e) :
    Subscript (.tuple items)

end

/-! ### Where an expression stops -/

/-- The row to which a token carries an expression on that stands before it. -/
def Token.continues? : Token → Option Rank
  | .str _ => some .atom
  | .symbol .leftParen | .symbol .leftBracket | .symbol .dot => some .trailer
  | .symbol .starStar => some .power
  | .symbol .star | .symbol .slash | .symbol .slashSlash | .symbol .percent | .symbol .atSign =>
    some .product
  | .symbol .plus | .symbol .minus => some .sum
  | .symbol .equalEqual | .symbol .notEqual | .symbol .less | .symbol .lessEqual
  | .symbol .greater | .symbol .greaterEqual | .keyword .inKw | .keyword .notKw | .keyword .isKw =>
    some .comparison
  | .keyword .andKw => some .conjunction
  | .keyword .orKw => some .disjunction
  | .keyword .ifKw => some .conditional
  | _ => none

/-- An expression of the rank ends where these tokens follow. -/
def Stops (rank : Rank) (rest : List Token) : Prop :=
  ∀ found ∈ rest.head?.bind Token.continues?, found < rank

instance (rank : Rank) (rest : List Token) : Decidable (Stops rank rest) :=
  inferInstanceAs (Decidable (∀ found ∈ rest.head?.bind Token.continues?, found < rank))

theorem stops_nil (rank : Rank) : Stops rank [] := by
  intro found continued
  cases continued

theorem Stops.tighter {rank place : Rank} {rest : List Token} (stops : Stops rank rest)
    (le : rank ≤ place) : Stops place rest :=
  fun found continued => Rank.lt_of_lt_of_le (stops found continued) le

theorem Stops.cons {rank : Rank} {token : Token} (lower : ∀ found ∈ token.continues?, found < rank)
    (rest : List Token) : Stops rank (token :: rest) := lower

/-- No token carries an expression on that ends a list or a part of it. -/
theorem stops_of_continues {rank : Rank} {token : Token} (ends : token.continues? = none)
    (rest : List Token) : Stops rank (token :: rest) :=
  .cons (by simp [ends]) rest

theorem Stops.head_ne {rank found : Rank} {token : Token} {rest : List Token}
    (stops : Stops rank rest) (continued : token.continues? = some found) (le : rank ≤ found) :
    rest.head? ≠ some token := by
  intro head
  have lt := stops found (by simp [head, continued])
  exact Rank.not_lt.mpr le lt

/-! ### How an expression begins -/

/-- What the first tokens of an expression of the rank can be. -/
structure BeginsAs (rank : Rank) (tokens : List Token) : Prop where
  starts : Grammar.startsExpression tokens.head? = true
  positive : .negation < rank → tokens.head? ≠ some (.keyword .notKw)
  unsigned : .sign < rank → Grammar.sign? tokens.head? = none
  positional : ∀ n rest, tokens ≠ .name n :: .symbol .equal :: rest

namespace BeginsAs

variable {rank place : Rank} {tokens rest : List Token}

theorem looser (begins : BeginsAs rank tokens) (le : place ≤ rank) : BeginsAs place tokens where
  starts := begins.starts
  positive lt := begins.positive (Rank.lt_of_lt_of_le lt le)
  unsigned lt := begins.unsigned (Rank.lt_of_lt_of_le lt le)
  positional := begins.positional

/-- A token that begins expressions of all ranks. -/
theorem of_token {token : Token} (starts : Grammar.startsExpression (some token) = true)
    (positive : token ≠ .keyword .notKw) (unsigned : Grammar.sign? (some token) = none)
    (unnamed : ∀ n, token ≠ .name n) (rank : Rank) (rest : List Token) :
    BeginsAs rank (token :: rest) where
  starts := starts
  positive _ := by simpa using positive
  unsigned _ := unsigned
  positional n rest same := unnamed n (List.cons.inj same).1

theorem enclosed (begins : BeginsAs rank (tokens ++ rest)) :
    BeginsAs place (enclosed place rank tokens ++ rest) := by
  unfold Script.enclosed
  split
  · exact of_token rfl (by simp) rfl (by simp) _ _
  · next inside => exact begins.looser (Rank.not_lt.mp inside)

end BeginsAs

theorem Expr.Readable.isSlice_eq_false {e : Expr} (readable : e.Readable) : e.isSlice = false := by
  cases readable <;> rfl

theorem written_tuple_of_readable {items : List Expr} (each : ∀ e ∈ items, e.Readable) :
    (Expr.tuple items).written =
      between .leftParen .rightParen (tupled (items.map Expr.written)) := by
  have plain : items.any Expr.isSlice = false := by
    rw [List.any_eq_false]
    intro e member
    simp [(each e member).isSlice_eq_false]
  rw [written_tuple, plain, allWritten_eq]
  rfl

theorem length_item_tuple {e : Expr} {items : List Expr} (each : ∀ e ∈ items, e.Readable)
    (member : e ∈ items) : e.written.length + 2 ≤ (Expr.tuple items).written.length := by
  rw [written_tuple_of_readable each, length_between]
  exact Nat.add_le_add_right (length_le_tupled (List.mem_map_of_mem member)) 2

/-- An expression begins as its first operand does. -/
theorem BeginsAs.operand {rank place : Rank} {e : Expr} {token : Token} {more rest : List Token}
    (begins : ∀ rest : List Token, rest.head? ≠ some (.symbol .equal) →
      BeginsAs e.rank (e.written ++ rest))
    (apart : token ≠ .symbol .equal) (le : rank ≤ place) :
    BeginsAs rank ((e.writtenAt place ++ token :: more) ++ rest) := by
  rw [List.append_assoc]
  exact (BeginsAs.enclosed (begins _ (by simpa using apart))).looser le

theorem Expr.Readable.begins {e : Expr} (readable : e.Readable) (rest : List Token)
    (apart : rest.head? ≠ some (.symbol .equal)) : BeginsAs e.rank (e.written ++ rest) := by
  match e, readable with
  | _, .int _ | _, .float _ | _, .str _ | _, .none =>
    exact .of_token rfl (by simp) rfl (by simp) _ _
  | .bool value, .bool _ => cases value <;> exact .of_token rfl (by simp) rfl (by simp) _ _
  | .name n, .name _ =>
    refine ⟨rfl, fun _ => by simp [Expr.written], fun _ => rfl, fun other more same => apart ?_⟩
    have tail := (List.cons.inj same).2
    change rest = _ at tail
    rw [tail]
    rfl
  | .list _, .list _ | .dict _, .dict .. | .listComp .., .listComp .. =>
    exact .of_token rfl (by simp) rfl (by simp) _ _
  | .tuple items, .tuple each =>
    rw [written_tuple_of_readable each]
    exact .of_token rfl (by simp) rfl (by simp) _ _
  | .unary op operand, .unary _ =>
    cases op with
    | neg | pos =>
      exact ⟨rfl, by simp [written_unary, UnaryOp.token], fun lt => absurd lt (Nat.lt_irrefl _),
        by simp [written_unary, UnaryOp.token]⟩
    | not =>
      exact ⟨rfl, fun lt => absurd lt (Nat.lt_irrefl _), fun _ => rfl,
        by simp [written_unary, UnaryOp.token]⟩
  | .binary op _ _, .binary left _ =>
    exact .operand left.begins (by cases op <;> simp [BinaryOp.token]) op.rank_le_leftPlace
  | .compare op _ _, .compare left _ =>
    cases op <;> exact .operand left.begins (by simp) (Rank.le_next .comparison)
  | .ifElse .., .ifElse _ yes _ => exact .operand yes.begins (by simp) (Rank.le_next .conditional)
  | .and .., .and left _ | .or .., .or left _ =>
    exact .operand left.begins (by simp) (Nat.le_refl _)
  | .call .., .call callee _ _ => exact .operand callee.begins (by simp) (Nat.le_refl _)
  | .attr .., .attr object => exact .operand object.begins (by simp) (Nat.le_refl _)
  | .index .., .index container _ => exact .operand container.begins (by simp) (Nat.le_refl _)
termination_by sizeOf e

theorem begins_writtenAt {e : Expr} (readable : e.Readable) (place : Rank) :
    BeginsAs place (e.writtenAt place) := by
  have begins : BeginsAs place (enclosed place e.rank e.written ++ []) :=
    .enclosed (readable.begins [] (by simp))
  rwa [List.append_nil] at begins

theorem BeginsAs.ne_nil {rank : Rank} {tokens : List Token} (begins : BeginsAs rank tokens) :
    tokens ≠ [] := by
  rintro rfl
  cases begins.starts

theorem BeginsAs.head_append {rank : Rank} {tokens : List Token} (begins : BeginsAs rank tokens)
    (rest : List Token) : (tokens ++ rest).head? = tokens.head? := by
  cases tokens with
  | nil => exact absurd rfl begins.ne_nil
  | cons token more => rfl

theorem startsExpression_written {e : Expr} (readable : e.Readable) (rest : List Token) :
    Grammar.startsExpression (e.written ++ rest).head? = true := by
  have begins := begins_writtenAt readable .conditional
  rw [writtenAt_conditional] at begins
  rw [begins.head_append]
  exact begins.starts

theorem head_written_ne {e : Expr} (readable : e.Readable) {token : Token}
    (other : Grammar.startsExpression (some token) = false) (rest : List Token) :
    (e.written ++ rest).head? ≠ some token := by
  intro same
  have begins := startsExpression_written readable rest
  rw [same, other] at begins
  cases begins

end DocExamples.Script
