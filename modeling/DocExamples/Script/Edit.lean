import DocExamples.Script.Arguments
import DocExamples.Script.Subscript
/-!
Edits of containers. Whether a container takes an edit is decided before the edit is made: making
it cannot fail, and a container that refuses an edit stays as it was.
-/
namespace DocExamples.Script

inductive ListEdit where
  | set (position : Nat) (v : Value)
  | remove (position : Nat)
  | insert (position : Nat) (v : Value)
  | extend (items : List Value)
  | reverse

inductive DictEdit where
  | put (key v : Value)
  | remove (key : Value)

inductive Edit where
  | list (e : ListEdit)
  | dict (e : DictEdit)
  /-- Puts numbers at positions of an array. -/
  | tensor (positions : List Nat) (numbers : List Float)

/-! ### Making an edit -/

def ListEdit.apply : ListEdit → Array Value → Array Value
  | .set position v, items => items.setIfInBounds position v
  | .remove position, items => items.eraseIdxIfInBounds position
  | .insert position v, items => items.insertIdxIfInBounds position v
  | .extend more, items => items ++ more
  | .reverse, items => items.reverse

/-- Replaces the value under a key, or adds an entry at the end. -/
def putEntry (key value : Value) : List (Value × Value) → List (Value × Value)
  | [] => [(key, value)]
  | (k, v) :: rest => if k.equals key then (k, value) :: rest else (k, v) :: putEntry key value rest

def DictEdit.apply : DictEdit → List (Value × Value) → List (Value × Value)
  | .put key v, entries => putEntry key v entries
  | .remove key, entries => entries.eraseP (·.1.equals key)

/-- Puts numbers at positions. Whole numbers keep their integer part only. -/
def Tensor.store (t : Tensor) (positions : List Nat) (numbers : List Float) : Tensor :=
  let ⟨data, shape, kind⟩ := t
  let data := (positions.zip numbers).foldl (fun acc (p, x) => acc.setIfInBounds p x) data
  ⟨if kind = .int then data.map Binary64.trunc else data, shape, kind⟩

/-- The value after an edit of a value of that type. -/
def Edit.apply : Edit → Value → Value
  | .list e, .list items => .list (e.apply items)
  | .dict e, .dict entries => .dict (e.apply entries)
  | .tensor positions numbers, .tensor t => .tensor (t.store positions numbers)
  | _, v => v

/-! ### Edits of items -/

/-- The position in a list of `length` items that a subscript stores at. -/
def storePosition (length : Nat) : Subscript → Except Fault Nat
  | .item v => do
    let index ← indexOf "list" v
    (position? index length).elim (.error (.index .assignmentOutOfRange)) .ok
  | _ => .error (.type .badListIndex)

/-- What `container[subscript] = value` does to the container. -/
def storeEdit (container : Value) (s : Subscript) (value : Value) : Except Fault Edit :=
  match container with
  | .list items => do return .list (.set (← storePosition items.size s) value)
  | .dict _ => do return .dict (.put (← s.toKey) value)
  | .tensor t => do
    let selection ← select t s
    return .tensor selection.positions (← numbersFor selection.positions.length value)
  | v => .error (.type (.noItemAssignment v.typeName))

/-- What `del container[subscript]` does to the container. -/
def deleteEdit (container : Value) (s : Subscript) : Except Fault Edit :=
  match container with
  | .list items => do return .list (.remove (← storePosition items.size s))
  | .dict entries => do
    let key ← s.toKey
    if (underKey? entries key).isNone then throw (.missingKey key.repr)
    return .dict (.remove key)
  | v => .error (.type (.noItemDeletion v.typeName))

/-! ### Mutating methods of lists -/

inductive Mutator where
  | append | extend | pop | insert | reverse
  deriving DecidableEq, Repr

namespace Mutator

def ofName? : String → Option Mutator
  | "append" => some .append
  | "extend" => some .extend
  | "pop" => some .pop
  | "insert" => some .insert
  | "reverse" => some .reverse
  | _ => none

/-- An index counted from the end if it is negative; none if that is before the start. -/
def fromStart? (index : Int64) (length : Nat) : Option Nat :=
  let i := index.toInt
  if 0 ≤ i then some i.toNat else if 0 ≤ i + length then some (i + length).toNat else none

/-- The index that `pop` is given, by default that of the last item. -/
def popIndex : List Value → Except Fault Int64
  | v :: _ => v.toInt
  | [] => .ok (-1)

/-- Removes the item at an index. -/
def popEdit (items : Array Value) (args : List Value) : Except Fault (ListEdit × Value) := do
  if items.isEmpty then throw (.index .popFromEmpty)
  let index ← popIndex args
  match (fromStart? index items.size).bind fun at' => (items[at']?).map (·, at') with
  | some (item, at') => return (.remove at', item)
  | none => throw (.index (.outOfRange "pop"))

/-- Puts a value before the item at an index; an index beyond either end, and one before the
start, is that of the end. -/
def insertEdit (length : Nat) (args : List Value) : Except Fault ListEdit := do
  let (index, v) ← twoOf "insert" args
  return .insert (min ((fromStart? (← index.toInt) length).getD length) length) v

/-- What a mutating method does to a list, and its result. -/
def edit (m : Mutator) (items : Array Value) (args : List Value) :
    Except Fault (ListEdit × Value) :=
  match m with
  | .append => do return (.extend [← oneOf "append" args], .none)
  | .extend => do return (.extend (← (← oneOf "extend" args).flatItems), .none)
  | .insert => do return (← insertEdit items.size args, .none)
  | .reverse => .ok (.reverse, .none)
  | .pop => popEdit items args

end Mutator

end DocExamples.Script
