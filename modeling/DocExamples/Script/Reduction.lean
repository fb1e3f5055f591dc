import DocExamples.Script.Arguments
import DocExamples.Script.Comparison
import DocExamples.Sorting.Runs
/-!
Sums, means, extremes, lengths and sorted order.
-/
namespace DocExamples.Script

def lengthOf : Value → Except Fault Value
  | .str s => .ok (.ofNat s.length)
  | .list items => .ok (.ofNat items.size)
  | .tuple items => .ok (.ofNat items.length)
  | .dict entries => .ok (.ofNat entries.length)
  | .tensor t =>
    match t.shape with
    | n :: _ => .ok (.ofNat n)
    | [] => .error (.type .unsizedArray)
  | v => .error (.type (.noLength v.typeName))

inductive Extreme where
  | least
  | greatest
  deriving DecidableEq, Repr

namespace Extreme

def name : Extreme → String
  | .least => "min"
  | .greatest => "max"

/-- The reduction's name in errors. -/
def operation : Extreme → String
  | .least => "minimum"
  | .greatest => "maximum"

/-- The more extreme of two doubles; what is not a number wins. -/
def pick (e : Extreme) (a b : Float) : Float :=
  let better := match e with
    | .least => b < a
    | .greatest => b > a
  if !a.isNaN && (b.isNaN || better) then b else a

/-- The value that every double is at least as extreme as. -/
def start : Extreme → Float
  | .least => Binary64.infinity
  | .greatest => Binary64.negInfinity

def prefers (e : Extreme) (o : Ordering) : Bool :=
  match e with
  | .least => o == .lt
  | .greatest => o == .gt

end Extreme

def reducedValue (t : Tensor) (x : Float) : Value := Tensor.elementValue t.kind.reduced x

def sumTensor (t : Tensor) : Value := reducedValue t (Binary64.sum t.data.toList)

def extremeTensor (e : Extreme) (t : Tensor) : Value :=
  reducedValue t (t.data.toList.foldl e.pick e.start)

def sumValues (items : List Value) : Except Fault Value :=
  items.foldlM (fun total item => binary .add total item) (.int 0)

/-- The sum of an array's elements or of a sequence's items. -/
def sumOf : Value → Except Fault Value
  | .tensor t => .ok (sumTensor t)
  | v => do sumValues (← v.iterate)

def columnSums (t : Tensor) (rows cols : Nat) : Array Float :=
  ((List.range cols).map fun c =>
    Binary64.sum ((List.range rows).map fun r => t.get (r * cols + c))).toArray

def rowSums (t : Tensor) (rows cols : Nat) : Array Float :=
  ((List.range rows).map fun r =>
    Binary64.sum ((List.range cols).map fun c => t.get (r * cols + c))).toArray

/-- The sums along an axis of a vector or a matrix; rows without elements are refused. -/
def sumAlong (v : Value) (axis : Value) : Except Fault Value := do
  let t ← Tensor.ofValue v
  let axis := (← axis.toInt).toInt
  match t.shape with
  | [_] => if axis = 0 ∨ axis = -1 then return sumTensor t
  | [rows, cols] =>
    if axis = 0 ∨ axis = -2 then
      return .tensor (.vector (columnSums t rows cols) t.kind.reduced)
    if axis = 1 ∨ axis = -1 then
      if cols = 0 then throw (.value .emptyRows)
      return .tensor (.vector (rowSums t rows cols) t.kind.reduced)
  | _ => pure ()
  throw (.outOfAxes axis t.dimensions)

def meanOf (v : Value) : Except Fault Value := do
  let t ← Tensor.ofValue v
  return .float (Binary64.sum t.data.toList / Binary64.ofNat t.size)

/-- The first of the most extreme values after `best`. -/
def extremeAfter (e : Extreme) (best : Value) : List Value → Except Fault Value
  | [] => .ok best
  | v :: rest => do
    let o ← sortOrder v best
    extremeAfter e (if e.prefers o then v else best) rest

def extremeOf (e : Extreme) (args : List Value) : Except Fault Value := do
  match args with
  | [.tensor t] =>
    if t.size = 0 then throw (.value (.emptyReduction e.operation))
    return extremeTensor e t
  | args =>
    let items ← match args with
      | [v] => v.iterate
      | items => pure items
    match items with
    | [] => throw (.value (.emptySequence e.name))
    | v :: rest => extremeAfter e v rest

/-- The values in increasing order; equal ones, and those without an order, keep theirs. -/
def sortValues : List Value → Except Fault (List Value) :=
  Sorting.sort fun a b => do return (← sortOrder a b) == .lt

end DocExamples.Script
