import DocExamples.Script.Token
import DocExamples.Script.Tree
/-!
The grammar of expressions, by recursive descent. Readers of the tighter levels come first. What
nests counts against a budget: a reader gets the number of levels that are left to it.
-/
namespace DocExamples.Script

/-- Expressions and blocks nest at most this deep. -/
def maxNesting : Nat := 200

/-- The tokens that are left, and the indentation of the line they are on. -/
structure Cursor where
  tokens : List Token
  indent : Nat

abbrev Parse (α : Type) := StateT Cursor (Except SyntaxFault) α

namespace Parse

def fail {α : Type} (e : SyntaxFault) : Parse α := fun _ => .error e

def peek? : Parse (Option Token) := fun c => .ok (c.tokens.head?, c)

def skip : Parse Unit := fun c => .ok ((), { c with tokens := c.tokens.tail })

/-- How many tokens are left, which bounds the rounds of a loop that takes one in each. -/
def left : Parse Nat := fun c => .ok (c.tokens.length, c)

def unexpected {α : Type} (what : String) : Parse α := fun c =>
  .error (.expected what c.tokens.head?)

def eat (s : Symbol) : Parse Bool := fun c =>
  match c.tokens with
  | .symbol t :: rest => if t = s then .ok (true, { c with tokens := rest }) else .ok (false, c)
  | _ => .ok (false, c)

def eatWord (k : Keyword) : Parse Bool := fun c =>
  match c.tokens with
  | .keyword t :: rest => if t = k then .ok (true, { c with tokens := rest }) else .ok (false, c)
  | _ => .ok (false, c)

def consume (s : Symbol) (what : String) : Parse Unit := do
  if !(← eat s) then unexpected what

def consumeWord (k : Keyword) (what : String) : Parse Unit := do
  if !(← eatWord k) then unexpected what

def name (what : String) : Parse String := fun c =>
  match c.tokens with
  | .name n :: rest => .ok (n, { c with tokens := rest })
  | _ => unexpected what c

def isNext (s : Symbol) : Parse Bool := fun c =>
  match c.tokens with
  | .symbol t :: _ => .ok (t == s, c)
  | _ => .ok (false, c)

def atLineEnd : Parse Bool := fun c =>
  match c.tokens with
  | [] | .newline _ :: _ => .ok (true, c)
  | _ => .ok (false, c)

/-- Takes one level from the budget. -/
def descend : Nat → Parse Nat
  | 0 => fail .tooNested
  | budget + 1 => pure budget

end Parse

namespace Grammar

/-- The levels of the grammar at which expressions nest. -/
inductive Level where
  | expression
  | disjunction
  | negation
  | factor
  deriving DecidableEq, Repr

/-- Reads an expression of a level within a budget. -/
abbrev Below := Level → Nat → Parse Expr

def startsExpression : Option Token → Bool
  | some (.int _) | some (.float _) | some (.str _) | some (.name _) => true
  | some (.keyword k) => [Keyword.trueKw, .falseKw, .noneKw, .notKw].contains k
  | some (.symbol s) =>
    [Symbol.leftParen, .leftBracket, .leftBrace, .minus, .plus].contains s
  | _ => false

/-! ### Loop targets -/

/-- More targets after the first, as long as commas follow. -/
def targetTail (atom : Parse Target) : Nat → Parse (List Target)
  | 0 => pure []
  | fuel + 1 => do
    if !(← Parse.eat .comma) then return []
    match ← Parse.peek? with
    | some (.keyword .inKw) => return []
    | _ =>
      let next ← atom
      return next :: (← targetTail atom fuel)

def targetListOf (atom : Parse Target) : Parse Target := do
  let first ← atom
  if !(← Parse.isNext .comma) then return first
  return .unpack (first :: (← targetTail atom (← Parse.left)))

/-- A loop variable, or targets in parentheses. -/
def targetAtom : Nat → Parse Target
  | 0 => do
    if ← Parse.eat .leftParen then Parse.fail .tooNested
    return .name (← Parse.name "a loop variable")
  | budget + 1 => do
    if ← Parse.eat .leftParen then
      let inner ← targetListOf (targetAtom budget)
      Parse.consume .rightParen "`)`"
      return inner
    return .name (← Parse.name "a loop variable")

def targetList (budget : Nat) : Parse Target := targetListOf (targetAtom budget)

/-! ### Displays, subscripts and arguments -/

/-- More expressions after the first, as long as a comma and the start of one follow. -/
def expressionTail (expression : Parse Expr) : Nat → Parse (List Expr)
  | 0 => pure []
  | fuel + 1 => do
    if !(← Parse.eat .comma) then return []
    if !startsExpression (← Parse.peek?) then return []
    let next ← expression
    return next :: (← expressionTail expression fuel)

/-- Expressions with commas between them; a comma makes a tuple. -/
def expressionListOf (expression : Parse Expr) : Parse Expr := do
  let first ← expression
  if !(← Parse.isNext .comma) then return first
  return .tuple (first :: (← expressionTail expression (← Parse.left)))

/-- More items after the first up to a closing bracket, which stays. -/
def bracketTail (entry : Parse Expr) : Nat → Parse (List Expr)
  | 0 => pure []
  | fuel + 1 => do
    if !(← Parse.eat .comma) then return []
    if ← Parse.isNext .rightBracket then return []
    let next ← entry
    return next :: (← bracketTail entry fuel)

def comprehensionTail (below : Below) (budget : Nat) (element : Expr) : Parse Expr := do
  let target ← targetList budget
  Parse.consumeWord .inKw "`in`"
  let source ← below .disjunction budget
  let condition ← if ← Parse.eatWord .ifKw then some <$> below .disjunction budget else pure none
  Parse.consume .rightBracket "`]`"
  return .listComp element target source condition

def listDisplay (below : Below) (budget : Nat) : Parse Expr := do
  if ← Parse.eat .rightBracket then return .list []
  let first ← below .expression budget
  if ← Parse.eatWord .forKw then comprehensionTail below budget first
  else
    let rest ← bracketTail (below .expression budget) (← Parse.left)
    Parse.consume .rightBracket "`]`"
    return .list (first :: rest)

def dictEntries (expression : Parse Expr) : Nat → Parse (List (Expr × Expr))
  | 0 => Parse.unexpected "`\x7d`"
  | fuel + 1 => do
    if ← Parse.eat .rightBrace then return []
    let key ← expression
    Parse.consume .colon "`:`"
    let value ← expression
    if ← Parse.eat .comma then return (key, value) :: (← dictEntries expression fuel)
    Parse.consume .rightBrace "`\x7d`"
    return [(key, value)]

def dictDisplay (below : Below) (budget : Nat) : Parse Expr := do
  return .dict (← dictEntries (below .expression budget) ((← Parse.left) + 1))

/-- A bound of a slice, which may be missing. -/
def sliceBound (expression : Parse Expr) : Parse (Option Expr) := do
  match ← Parse.peek? with
  | some (.symbol .colon) | some (.symbol .comma) | some (.symbol .rightBracket) => return none
  | _ => some <$> expression

def sliceTail (expression : Parse Expr) (start : Option Expr) : Parse Expr := do
  Parse.consume .colon "`:`"
  let stop ← sliceBound expression
  let step ← if ← Parse.eat .colon then sliceBound expression else pure none
  return .slice start stop step

def sliceItem (expression : Parse Expr) : Parse Expr := do
  if ← Parse.isNext .colon then sliceTail expression none
  else
    let e ← expression
    if ← Parse.isNext .colon then sliceTail expression (some e) else return e

/-- One item between brackets, or a tuple of them. -/
def subscript (expression : Parse Expr) : Parse Expr := do
  let first ← sliceItem expression
  if !(← Parse.isNext .comma) then return first
  return .tuple (first :: (← bracketTail (sliceItem expression) (← Parse.left)))

/-- The name of a keyword argument, if one comes next, with its `=`. -/
def keywordName? : Parse (Option String) := fun c =>
  match c.tokens with
  | .name n :: .symbol .equal :: rest => .ok (some n, { c with tokens := rest })
  | _ => .ok (none, c)

/-- Arguments up to the closing parenthesis; the positional ones come first. -/
def callArguments (expression : Parse Expr) (args : List Expr) (kwargs : List (String × Expr)) :
    Nat → Parse (List Expr × List (String × Expr))
  | 0 => Parse.unexpected "`)`"
  | fuel + 1 => do
    if ← Parse.eat .rightParen then return (args, kwargs)
    let (args, kwargs) ← match ← keywordName? with
      | some n => do
        let value ← expression
        pure (args, kwargs ++ [(n, value)])
      | none => do
        if !kwargs.isEmpty then Parse.fail .positionalAfterKeyword
        let value ← expression
        pure (args ++ [value], kwargs)
    if ← Parse.eat .comma then callArguments expression args kwargs fuel
    else
      Parse.consume .rightParen "`)`"
      return (args, kwargs)

/-! ### Levels -/

/-- The texts of the strings that come next, put together. -/
def moreStrings (text : String) : List Token → String × List Token
  | .str more :: rest => moreStrings (text ++ more) rest
  | rest => (text, rest)

/-- A string together with the strings that come next. -/
def joinedString (text : String) : Parse Expr := fun c =>
  let (text, rest) := moreStrings text c.tokens
  .ok (.str text, { c with tokens := rest })

def atom (below : Below) (budget : Nat) : Parse Expr := do
  match ← Parse.peek? with
  | none => Parse.fail .unexpectedEnd
  | some token =>
    Parse.skip
    match token with
    | .int value => return .int value
    | .float value => return .float value
    | .str text => joinedString text
    | .name n => return .name n
    | .keyword .trueKw => return .bool true
    | .keyword .falseKw => return .bool false
    | .keyword .noneKw => return Expr.none
    | .symbol .leftParen =>
      if ← Parse.eat .rightParen then return .tuple []
      let inner ← expressionListOf (below .expression budget)
      Parse.consume .rightParen "`)`"
      return inner
    | .symbol .leftBracket => listDisplay below budget
    | .symbol .leftBrace => dictDisplay below budget
    | other => Parse.fail (.misplaced other)

/-- One call, subscript or attribute after an expression, if one comes next. -/
def trailer? (below : Below) (budget : Nat) (e : Expr) : Option Token → Option (Parse Expr)
  | some (.symbol .leftParen) => some do
    Parse.skip
    let (args, kwargs) ← callArguments (below .expression budget) [] [] ((← Parse.left) + 1)
    return .call e args kwargs
  | some (.symbol .leftBracket) => some do
    Parse.skip
    let s ← subscript (below .expression budget)
    Parse.consume .rightBracket "`]`"
    return .index e s
  | some (.symbol .dot) => some do
    Parse.skip
    return .attr e (← Parse.name "an attribute name")
  | _ => none

/-- The calls, subscripts and attributes after an expression, each one level deeper than the one
before. -/
def trailers (below : Below) : Nat → Expr → Parse Expr
  | 0, e => do
    if (trailer? below 0 e (← Parse.peek?)).isSome then Parse.fail .tooNested
    return e
  | budget + 1, e => do
    match trailer? below budget e (← Parse.peek?) with
    | none => return e
    | some next => trailers below budget (← next)

def postfixed (below : Below) (budget : Nat) : Parse Expr := do
  trailers below budget (← atom below budget)

def power (below : Below) (budget : Nat) : Parse Expr := do
  let base ← postfixed below budget
  if !(← Parse.eat .starStar) then return base
  let exponent ← below .factor (← Parse.descend budget)
  return .binary .pow base exponent

def sign? : Option Token → Option UnaryOp
  | some (.symbol .minus) => some .neg
  | some (.symbol .plus) => some .pos
  | _ => none

def factor (below : Below) (budget : Nat) : Parse Expr := do
  match sign? (← Parse.peek?) with
  | none => power below budget
  | some op =>
    Parse.skip
    let operand ← below .factor (← Parse.descend budget)
    return .unary op operand

/-- Operands joined from the left by the operators that `join?` knows; each operator is one level
deeper than the one before. -/
def leftChain (join? : Token → Option (Expr → Expr → Expr)) (operand : Nat → Parse Expr) :
    Nat → Expr → Parse Expr
  | 0, left => do
    if ((← Parse.peek?).bind join?).isSome then Parse.fail .tooNested
    return left
  | budget + 1, left => do
    match (← Parse.peek?).bind join? with
    | none => return left
    | some join =>
      Parse.skip
      let right ← operand budget
      leftChain join? operand budget (join left right)

def chain (join? : Token → Option (Expr → Expr → Expr)) (operand : Nat → Parse Expr)
    (budget : Nat) : Parse Expr := do
  leftChain join? operand budget (← operand budget)

def termOp? : Token → Option (Expr → Expr → Expr)
  | .symbol .star => some (.binary .mul)
  | .symbol .slash => some (.binary .div)
  | .symbol .slashSlash => some (.binary .floorDiv)
  | .symbol .percent => some (.binary .mod)
  | .symbol .atSign => some (.binary .matMul)
  | _ => none

def sumOp? : Token → Option (Expr → Expr → Expr)
  | .symbol .plus => some (.binary .add)
  | .symbol .minus => some (.binary .sub)
  | _ => none

def andOp? : Token → Option (Expr → Expr → Expr)
  | .keyword .andKw => some .and
  | _ => none

def orOp? : Token → Option (Expr → Expr → Expr)
  | .keyword .orKw => some .or
  | _ => none

def term (below : Below) : Nat → Parse Expr := chain termOp? (factor below)

def sum (below : Below) : Nat → Parse Expr := chain sumOp? (term below)

/-- The comparison at the front of the tokens, which takes one or two of them. -/
def comparison? : List Token → Option (CompareOp × List Token)
  | .symbol .equalEqual :: rest => some (.eq, rest)
  | .symbol .notEqual :: rest => some (.notEq, rest)
  | .symbol .less :: rest => some (.less, rest)
  | .symbol .lessEqual :: rest => some (.lessEq, rest)
  | .symbol .greater :: rest => some (.greater, rest)
  | .symbol .greaterEqual :: rest => some (.greaterEq, rest)
  | .keyword .inKw :: rest => some (.isIn, rest)
  | .keyword .notKw :: .keyword .inKw :: rest => some (.notIn, rest)
  | .keyword .isKw :: .keyword .notKw :: rest => some (.isNot, rest)
  | .keyword .isKw :: rest => some (.is, rest)
  | _ => none

def takeComparison : Parse (Option CompareOp) := fun c =>
  match comparison? c.tokens with
  | some (op, rest) => .ok (some op, { c with tokens := rest })
  | none => .ok (none, c)

def joinComparison (before : Option Expr) (this : Expr) : Expr :=
  match before with
  | some b => .and b this
  | none => this

/-- The comparisons after the first operand. A chain is the conjunction of the comparisons of
neighbours. -/
def comparisons (operand : Nat → Parse Expr) : Nat → Option Expr → Expr → Parse Expr
  | 0, before, left => do
    if (← takeComparison).isSome then Parse.fail .tooNested
    return before.getD left
  | budget + 1, before, left => do
    match ← takeComparison with
    | none => return before.getD left
    | some op =>
      let right ← operand budget
      comparisons operand budget (some (joinComparison before (.compare op left right))) right

def comparison (below : Below) (budget : Nat) : Parse Expr := do
  comparisons (sum below) budget none (← sum below budget)

def negation (below : Below) (budget : Nat) : Parse Expr := do
  if ← Parse.eatWord .notKw then
    let operand ← below .negation (← Parse.descend budget)
    return .unary .not operand
  comparison below budget

def conjunction (below : Below) : Nat → Parse Expr := chain andOp? (negation below)

def disjunction (below : Below) : Nat → Parse Expr := chain orOp? (conjunction below)

def conditional (below : Below) (budget : Nat) : Parse Expr := do
  let yes ← disjunction below budget
  if !(← Parse.eatWord .ifKw) then return yes
  let condition ← disjunction below budget
  Parse.consumeWord .elseKw "`else`"
  let no ← below .expression budget
  return .ifElse condition yes no

/-- One level of the grammar, the nested expressions read by `below`. -/
def atLevel (below : Below) (level : Level) (budget : Nat) : Parse Expr :=
  match level with
  | .expression => do conditional below (← Parse.descend budget)
  | .disjunction => disjunction below budget
  | .negation => negation below budget
  | .factor => factor below budget

/-- An expression of at most `fuel` tokens. A token stands between each nested expression and the
one around it, so that the tokens bound the recursion. -/
def expressionWith : Nat → Below
  | 0, _, _ => Parse.fail .tooNested
  | fuel + 1, level, budget => atLevel (expressionWith fuel) level budget

def expression (budget : Nat) : Parse Expr := do
  expressionWith ((← Parse.left) + 1) .expression budget

end Grammar

end DocExamples.Script
