import DocExamples.Binary64
import DocExamples.Script.Fault
/-!
Dense numeric arrays in row-major order, and the shapes they may have.
-/
namespace DocExamples.Script

inductive ElementKind where
  | bool | int | float
  deriving DecidableEq, Repr

def ElementKind.name : ElementKind → String
  | .bool => "bool"
  | .int => "int64"
  | .float => "float64"

/-- The kind of what two kinds combine to; it is never `bool`. -/
def ElementKind.join (a b : ElementKind) : ElementKind :=
  if a = .float ∨ b = .float then .float else .int

/-- The kind of sums and extremes of elements. -/
def ElementKind.reduced : ElementKind → ElementKind
  | .bool => .int
  | kind => kind

/-- Longer sequences and arrays are refused. -/
def maxSequenceLength : Nat := 10000000

structure Tensor where
  data : Array Float
  shape : List Nat
  kind : ElementKind

def volume (shape : List Nat) : Nat := shape.foldr (· * ·) 1

/-- The product of sizes from the left, as long as it fits a machine word. -/
def sizeWithin (size : Nat) : List Nat → Option Nat
  | [] => some size
  | n :: rest => if size * n < UInt64.size then sizeWithin (size * n) rest else none

/-- The number of elements of a shape that is not too large. -/
def checkedSize (shape : List Nat) : Except Fault Nat :=
  if maxDimensions < shape.length then .error (.value (.tooManyDimensions shape.length))
  else
    match sizeWithin 1 shape with
    | some size => if size ≤ maxSequenceLength then .ok size else .error (.tooLarge "array")
    | none => .error (.tooLarge "array")

namespace Tensor

def vector (data : Array Float) (kind : ElementKind) : Tensor := ⟨data, [data.size], kind⟩

def size (t : Tensor) : Nat := t.data.size

def dimensions (t : Tensor) : Nat := t.shape.length

/-- The element at a position, which has to be one of the array's. -/
def get (t : Tensor) (position : Nat) : Float := t.data.getD position 0.0

def map (t : Tensor) (kind : ElementKind) (f : Float → Float) : Tensor :=
  ⟨t.data.map f, t.shape, kind⟩

/-- The elements of row `index` along the first axis. -/
def rowData (t : Tensor) (index : Nat) : Array Float :=
  let stride := volume t.shape.tail
  t.data.extract (index * stride) (index * stride + stride)

def reshape (t : Tensor) (shape : List Nat) : Except Fault Tensor := do
  let size ← checkedSize shape
  if size ≠ t.size then throw (.value (.wrongReshape t.size shape))
  return { t with shape }

/-- Swaps the axes of a matrix; arrays of other dimensions stay as they are. -/
def transpose (t : Tensor) : Tensor :=
  match t.shape with
  | [rows, cols] =>
    { t with
      data := ((List.range cols).flatMap fun c =>
        (List.range rows).map fun r => t.get (r * cols + c)).toArray
      shape := [cols, rows] }
  | _ => t

/-- Changes the kind of the elements: whole numbers by cutting toward zero, truth values by
comparison with zero. -/
def cast (t : Tensor) : ElementKind → Tensor
  | .float => t.map .float id
  | .int => t.map .int Binary64.trunc
  | .bool => t.map .bool fun x => Binary64.ofBool (x != 0.0)

end Tensor

end DocExamples.Script
