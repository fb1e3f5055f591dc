import DocExamples.Script.Library
import DocExamples.Script.TensorText
import DocExamples.Script.Tree
/-!
The values of the language. A value holds its parts, so that a copy never changes with what it was
copied from.
-/
namespace DocExamples.Script

inductive Value where
  | none
  | bool (b : Bool)
  | int (i : Int64)
  | float (x : Float)
  | str (s : String)
  | list (items : Array Value)
  | tuple (items : List Value)
  /-- Entries in the order in which their keys were added. -/
  | dict (entries : List (Value × Value))
  | tensor (t : Tensor)
  /-- A function that a program defined; every definition that runs has a number of its own. -/
  | function (id : Nat) (name : String) (params : List (String × Option Value)) (body : List Stmt)
  | builtin (b : Builtin)
  /-- A method looked up on a value. -/
  | method (receiver : Value) (name : String)
  | module (name : String)
  | exceptionType (kind : String)
  | exception (kind message : String)

/-- The deepest nesting of containers that a bound value may have. -/
def maxValueNesting : Nat := 200

namespace Value

def typeName : Value → String
  | .none => "NoneType"
  | .bool _ => "bool"
  | .int _ => "int"
  | .float _ => "float"
  | .str _ => "str"
  | .list _ => "list"
  | .tuple _ => "tuple"
  | .dict _ => "dict"
  | .tensor _ => "numpy.ndarray"
  | .function .. => "function"
  | .builtin _ | .method .. => "builtin_function_or_method"
  | .module _ => "module"
  | .exceptionType _ => "type"
  | .exception kind _ => kind

def isNone : Value → Bool
  | .none => true
  | _ => false

def ofNat (n : Nat) : Value := .int (Int64.ofInt n)

def ofList (items : List Value) : Value := .list items.toArray

/-- The truth value that conditions see. -/
def truth : Value → Except Fault Bool
  | .none => .ok false
  | .bool b => .ok b
  | .int i => .ok (i != 0)
  | .float x => .ok (x != 0.0)
  | .str s => .ok (!s.isEmpty)
  | .list items => .ok (!items.isEmpty)
  | .tuple items => .ok (!items.isEmpty)
  | .dict entries => .ok (!entries.isEmpty)
  | .tensor t =>
    if t.size = 1 then .ok (t.get 0 != 0.0) else .error (.value .ambiguousTruth)
  | _ => .ok true

def asInt? : Value → Option Int64
  | .int i => some i
  | .bool b => some (if b then 1 else 0)
  | _ => Option.none

def asNumber? : Value → Option Float
  | .int i => some (Binary64.ofInt i.toInt)
  | .float x => some x
  | .bool b => some (Binary64.ofBool b)
  | _ => Option.none

/-- The number that a scalar or an array of one element is. -/
def asFloat? : Value → Option Float
  | .tensor t => if t.size = 1 then some (t.get 0) else Option.none
  | v => v.asNumber?

mutual

/-- Whether containers nest more than `limit` levels deep. Values without parts have no levels,
and an empty container has one. -/
def nestsDeeperThan (limit : Nat) : Value → Bool
  | .list ⟨items⟩ | .tuple items => limit == 0 || anyNestsDeeperThan (limit - 1) items
  | .dict entries => limit == 0 || entryNestsDeeperThan (limit - 1) entries
  | .method receiver _ => limit == 0 || nestsDeeperThan (limit - 1) receiver
  | _ => false

def anyNestsDeeperThan (limit : Nat) : List Value → Bool
  | [] => false
  | v :: rest => nestsDeeperThan limit v || anyNestsDeeperThan limit rest

def entryNestsDeeperThan (limit : Nat) : List (Value × Value) → Bool
  | [] => false
  | (key, value) :: rest =>
    nestsDeeperThan limit key || nestsDeeperThan limit value || entryNestsDeeperThan limit rest

end

/-- Equality of values without parts. Numbers of different types compare as doubles. -/
def equalScalars : Value → Value → Bool
  | .none, .none => true
  | .str a, .str b => a == b
  | .tensor a, .tensor b => a.shape == b.shape && a.data == b.data
  | .module a, .module b => a == b
  | .exceptionType a, .exceptionType b => a == b
  | .builtin a, .builtin b => a == b
  | .function a .., .function b .. => a == b
  | .int a, .int b => a == b
  | a, b =>
    match a.asNumber?, b.asNumber? with
    | some x, some y => x == y
    | _, _ => false

mutual

/-- Equality of values: sequences part by part, dictionaries by key. -/
def equals : Value → Value → Bool
  | .list ⟨as⟩, .list ⟨bs⟩ => allEqual as bs
  | .tuple as, .tuple bs => allEqual as bs
  | .dict as, .dict bs => as.length == bs.length && entriesEqual as bs
  | a, b => equalScalars a b
termination_by a b => sizeOf a + sizeOf b

def allEqual : List Value → List Value → Bool
  | [], [] => true
  | a :: as, b :: bs => equals a b && allEqual as bs
  | _, _ => false
termination_by as bs => sizeOf as + sizeOf bs

/-- Every entry of the first list equals the first one under its key in the second. -/
def entriesEqual : List (Value × Value) → List (Value × Value) → Bool
  | [], _ => true
  | (key, value) :: rest, entries => entryEquals key value entries && entriesEqual rest entries
termination_by as bs => sizeOf as + sizeOf bs

def entryEquals (key value : Value) : List (Value × Value) → Bool
  | [] => false
  | (k, v) :: rest => if equals k key then equals v value else entryEquals key value rest
termination_by bs => sizeOf key + sizeOf value + sizeOf bs

end

end Value

end DocExamples.Script
