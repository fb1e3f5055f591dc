import DocExamples.Script.Grammar
import DocExamples.Script.Lexer
/-!
The grammar of statements and programs, over a reader of expressions. A colon at the end of a line
opens a block, whose lines are indented deeper than the statement that owns it.
-/
namespace DocExamples.Script

namespace Parse

/-- The indentation after the line ends at the front of the tokens, and the tokens after them. -/
def dropNewlines (indent : Nat) : List Token → Nat × List Token
  | .newline width :: rest => dropNewlines width rest
  | rest => (indent, rest)

def skipNewlines : Parse Unit := fun c =>
  let (indent, tokens) := dropNewlines c.indent c.tokens
  .ok ((), { tokens, indent })

end Parse

namespace Grammar

def toTarget (e : Expr) : Parse Target :=
  match e.toTarget? with
  | some t => pure t
  | none => Parse.fail .notAssignable

/-! ### Names of modules -/

def dottedTail (name : String) : Nat → Parse String
  | 0 => pure name
  | fuel + 1 => do
    if !(← Parse.eat .dot) then return name
    let next ← Parse.name "a module name"
    dottedTail (name ++ "." ++ next) fuel

def dottedName : Parse String := do
  let first ← Parse.name "a module name"
  dottedTail first (← Parse.left)

def newName? : Parse (Option String) := do
  if ← Parse.eatWord .asKw then some <$> Parse.name "an alias" else return none

def importedNames : Nat → Parse (List (String × Option String))
  | 0 => Parse.unexpected "a name to import"
  | fuel + 1 => do
    let name ← Parse.name "a name to import"
    let newName ← newName?
    if ← Parse.eat .comma then return (name, newName) :: (← importedNames fuel)
    return [(name, newName)]

def augmentedOp? : Option Token → Option BinaryOp
  | some (.symbol .plusEqual) => some .add
  | some (.symbol .minusEqual) => some .sub
  | some (.symbol .starEqual) => some .mul
  | some (.symbol .slashEqual) => some .div
  | _ => none

/-! ### Simple statements -/

section

-- The reader of expressions within a budget.
variable (expression : Nat → Parse Expr)

def expressionList (budget : Nat) : Parse Expr := expressionListOf (expression budget)

def optionalExpressionList (budget : Nat) : Parse (Option Expr) := do
  if (← Parse.atLineEnd) || (← Parse.isNext .semicolon) then return none
  some <$> expressionList expression budget

/-- The targets and the value of an assignment after its first `=`. -/
def assignmentTail (budget : Nat) (targets : List Target) : Nat → Parse Stmt
  | 0 => Parse.fail .unexpectedEnd
  | fuel + 1 => do
    let value ← expressionList expression budget
    if ← Parse.eat .equal then
      let next ← toTarget value
      assignmentTail budget (targets ++ [next]) fuel
    else return .assign targets value

def expressionStatement (budget : Nat) : Parse Stmt := do
  let first ← expressionList expression budget
  match augmentedOp? (← Parse.peek?) with
  | some op =>
    Parse.skip
    let value ← expressionList expression budget
    return .augAssign (← toTarget first) op value
  | none =>
    if !(← Parse.eat .equal) then return .expr first
    let target ← toTarget first
    assignmentTail expression budget [target] ((← Parse.left) + 1)

def simpleStatement (budget : Nat) : Parse Stmt := do
  if ← Parse.eatWord .passKw then return .pass
  if ← Parse.eatWord .breakKw then return .leaveLoop
  if ← Parse.eatWord .continueKw then return .nextRound
  if ← Parse.eatWord .returnKw then return .giveBack (← optionalExpressionList expression budget)
  if ← Parse.eatWord .raiseKw then return .raise (← optionalExpressionList expression budget)
  if ← Parse.eatWord .assertKw then
    let condition ← expression budget
    let message ← if ← Parse.eat .comma then some <$> expression budget else pure none
    return .assert condition message
  if ← Parse.eatWord .delKw then return .delete (← toTarget (← expression budget))
  if ← Parse.eatWord .importKw then
    let module ← dottedName
    return .importModule module (← newName?)
  if ← Parse.eatWord .fromKw then
    let module ← dottedName
    Parse.consumeWord .importKw "`import`"
    return .importNames module (← importedNames ((← Parse.left) + 1))
  expressionStatement expression budget

/-- More simple statements after the first, with semicolons between them. -/
def statementTail (budget : Nat) : Nat → Parse (List Stmt)
  | 0 => pure []
  | fuel + 1 => do
    if !(← Parse.eat .semicolon) then return []
    if ← Parse.atLineEnd then return []
    let next ← simpleStatement expression budget
    return next :: (← statementTail budget fuel)

def simpleLine (budget : Nat) : Parse (List Stmt) := do
  let first ← simpleStatement expression budget
  let rest ← statementTail expression budget (← Parse.left)
  if !(← Parse.atLineEnd) then Parse.unexpected "end of line"
  return first :: rest

/-! ### Compound statements -/

/-- The lines of a block at the indentation `inner`, each read by `line`. -/
def blockLines (line : Parse (List Stmt)) (inner : Nat) : Nat → Parse (List Stmt)
  | 0 => pure []
  | fuel + 1 => do
    let stmts ← line
    Parse.skipNewlines
    let c ← get
    if c.tokens.isEmpty || c.indent < inner then return stmts
    if inner < c.indent then Parse.fail .unexpectedIndent
    return stmts ++ (← blockLines line inner fuel)

/-- The block of a statement at the indentation `indent`: the rest of its line, or the deeper
lines below it. -/
def block (line : Nat → Parse (List Stmt)) (budget indent : Nat) : Parse (List Stmt) := do
  Parse.consume .colon "`:`"
  if !(← Parse.atLineEnd) then simpleLine expression budget
  else
    Parse.skipNewlines
    let c ← get
    if c.tokens.isEmpty || c.indent ≤ indent then Parse.fail .missingBlock
    blockLines (line c.indent) c.indent c.tokens.length

/-- The further branches of a conditional at the indentation `indent`. -/
def branches (suite : Parse (List Stmt)) (budget indent : Nat) :
    Nat → Parse (List (Expr × List Stmt) × List Stmt)
  | 0 => pure ([], [])
  | fuel + 1 => do
    let saved ← get
    Parse.skipNewlines
    if (← get).indent = indent then
      if ← Parse.eatWord .elifKw then
        let condition ← expression budget
        let body ← suite
        let (more, otherwise) ← branches suite budget indent fuel
        return ((condition, body) :: more, otherwise)
      if ← Parse.eatWord .elseKw then return ([], ← suite)
    set saved
    return ([], [])

/-- Parameters up to the closing parenthesis. -/
def parameters (budget : Nat) : Nat → Parse (List (String × Option Expr))
  | 0 => Parse.unexpected "`)`"
  | fuel + 1 => do
    if ← Parse.eat .rightParen then return []
    let name ← Parse.name "a parameter name"
    let default ← if ← Parse.eat .equal then some <$> expression budget else pure none
    if ← Parse.eat .comma then return (name, default) :: (← parameters budget fuel)
    Parse.consume .rightParen "`)`"
    return [(name, default)]

/-- A statement with blocks, or the simple statements of a line. -/
def lineWith (suite : Parse (List Stmt)) (budget indent : Nat) : Parse (List Stmt) := do
  if ← Parse.eatWord .forKw then
    let target ← targetList budget
    Parse.consumeWord .inKw "`in`"
    let source ← expressionList expression budget
    return [.forLoop target source (← suite)]
  if ← Parse.eatWord .whileKw then
    let condition ← expression budget
    return [.whileLoop condition (← suite)]
  if ← Parse.eatWord .ifKw then
    let condition ← expression budget
    let body ← suite
    let (more, otherwise) ← branches expression suite budget indent ((← Parse.left) + 1)
    return [.ifElse ((condition, body) :: more) otherwise]
  if ← Parse.eatWord .defKw then
    let name ← Parse.name "a function name"
    Parse.consume .leftParen "`(`"
    let params ← parameters expression budget ((← Parse.left) + 1)
    return [.define name params (← suite)]
  simpleLine expression budget

/-- A logical line, with blocks that nest within the budget. -/
def line : Nat → Nat → Parse (List Stmt)
  | 0, indent => lineWith expression (Parse.fail .tooNested) 0 indent
  | budget + 1, indent =>
    lineWith expression (block expression (line budget) budget indent) (budget + 1) indent

/-- All lines of a program. Every line takes a token, so that the number of tokens bounds the rounds. -/
def programLines (base : Nat) : Nat → Parse (List Stmt)
  | 0 => Parse.fail .unexpectedEnd
  | fuel + 1 => do
    let c ← get
    if c.tokens.isEmpty then return []
    if c.indent ≠ base then Parse.fail .unexpectedIndent
    let stmts ← line expression maxNesting base
    Parse.skipNewlines
    return stmts ++ (← programLines base fuel)

def program : Parse (List Stmt) := do
  Parse.skipNewlines
  let c ← get
  programLines expression c.indent (c.tokens.length + 1)

end

end Grammar

def parse (source : String) : Except SyntaxFault (List Stmt) := do
  let tokens ← tokens source
  let (stmts, _) ← Grammar.program Grammar.expression { tokens, indent := 0 }
  return stmts

end DocExamples.Script
