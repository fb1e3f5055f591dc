/-!
Programs as trees: expressions, the targets of assignments, statements.
-/
namespace DocExamples.Script

inductive BinaryOp where
  | add | sub | mul | div | floorDiv | mod | pow | matMul
  deriving DecidableEq, Repr

/-- How errors show an operator. -/
def BinaryOp.symbol : BinaryOp → String
  | .add => "+"
  | .sub => "-"
  | .mul => "*"
  | .div => "/"
  | .floorDiv => "//"
  | .mod => "%"
  | .pow => "** or pow()"
  | .matMul => "@"

inductive CompareOp where
  | eq | notEq | less | lessEq | greater | greaterEq | isIn | notIn | is | isNot
  deriving DecidableEq, Repr

def CompareOp.symbol : CompareOp → String
  | .eq => "=="
  | .notEq => "!="
  | .less => "<"
  | .lessEq => "<="
  | .greater => ">"
  | .greaterEq => ">="
  | .isIn => "in"
  | .notIn => "not in"
  | .is => "is"
  | .isNot => "is not"

inductive UnaryOp where
  | neg | pos | not
  deriving DecidableEq, Repr

mutual

inductive Expr where
  | int (value : Int64)
  | float (value : Float)
  | str (text : String)
  | bool (value : Bool)
  | none
  | name (name : String)
  | list (items : List Expr)
  | tuple (items : List Expr)
  | dict (entries : List (Expr × Expr))
  /-- The elements for those items of `source` that meet the condition. -/
  | listComp (element : Expr) (target : Target) (source : Expr) (condition : Option Expr)
  | unary (op : UnaryOp) (operand : Expr)
  | binary (op : BinaryOp) (left right : Expr)
  | compare (op : CompareOp) (left right : Expr)
  | and (left right : Expr)
  | or (left right : Expr)
  | ifElse (condition yes no : Expr)
  | call (callee : Expr) (args : List Expr) (kwargs : List (String × Expr))
  | attr (object : Expr) (name : String)
  | index (container subscript : Expr)
  /-- Has a meaning as a subscript only. -/
  | slice (start stop step : Option Expr)

/-- What an assignment or a loop binds. -/
inductive Target where
  | name (name : String)
  | index (container subscript : Expr)
  | unpack (targets : List Target)

end

inductive Stmt where
  | expr (e : Expr)
  /-- Assigns one value to every target. -/
  | assign (targets : List Target) (value : Expr)
  | augAssign (target : Target) (op : BinaryOp) (value : Expr)
  | forLoop (target : Target) (source : Expr) (body : List Stmt)
  | whileLoop (condition : Expr) (body : List Stmt)
  | ifElse (branches : List (Expr × List Stmt)) (otherwise : List Stmt)
  | define (name : String) (params : List (String × Option Expr)) (body : List Stmt)
  | giveBack (value : Option Expr)
  | raise (value : Option Expr)
  | assert (condition : Expr) (message : Option Expr)
  | importModule (module : String) (boundAs : Option String)
  | importNames (module : String) (names : List (String × Option String))
  | delete (target : Target)
  | pass
  | leaveLoop
  | nextRound

mutual

/-- The target that an expression denotes on the left of an assignment. -/
def Expr.toTarget? : Expr → Option Target
  | .name n => some (.name n)
  | .index container subscript => some (.index container subscript)
  | .tuple items | .list items => (Expr.toTargets? items).map .unpack
  | _ => Option.none

def Expr.toTargets? : List Expr → Option (List Target)
  | [] => some []
  | e :: rest => do return (← e.toTarget?) :: (← Expr.toTargets? rest)

end

/-- The expression that reads what a target holds. -/
def Target.toExpr? : Target → Option Expr
  | .name n => some (.name n)
  | .index container subscript => some (.index container subscript)
  | .unpack _ => none

mutual

def Target.names : Target → List String
  | .name n => [n]
  | .index .. => []
  | .unpack targets => Target.allNames targets

def Target.allNames : List Target → List String
  | [] => []
  | t :: rest => t.names ++ Target.allNames rest

end

end DocExamples.Script
