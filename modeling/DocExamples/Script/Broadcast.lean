import DocExamples.Script.Arithmetic
import DocExamples.Script.Elements
/-!
Operators on arrays. Shapes are aligned at their last axes, and an axis of size one stretches to
the size of the other's.
-/
namespace DocExamples.Script

/-- A shape with axes of size one in front, up to `dimensions` axes. -/
def padShape (dimensions : Nat) (shape : List Nat) : List Nat :=
  List.replicate (dimensions - shape.length) 1 ++ shape

/-- The sizes of two shapes of one length together; none if an axis has two sizes other than
one. -/
def alignedShape? : List Nat → List Nat → Option (List Nat)
  | x :: xs, y :: ys =>
    if x = y ∨ y = 1 then (alignedShape? xs ys).map (x :: ·)
    else if x = 1 then (alignedShape? xs ys).map (y :: ·)
    else none
  | _, _ => some []

/-- The position in an array of shape `inner` of what stands at `flat` in the broadcast array of
shape `outer`: along an axis of size one there is one place for all. -/
def sourcePosition : (outer inner : List Nat) → Nat → Nat
  | _ :: outer, m :: inner, flat =>
    let along := flat / volume outer
    (if m = 1 then 0 else along * volume inner) +
      sourcePosition outer inner (flat % volume outer)
  | _, _, _ => 0

def broadcast (a b : Tensor) (kind : ElementKind) (f : Float → Float → Float) :
    Except Fault Tensor := do
  let dimensions := max a.dimensions b.dimensions
  let left := padShape dimensions a.shape
  let right := padShape dimensions b.shape
  match alignedShape? left right with
  | none => throw (.value (.shapeMismatch a.shape b.shape))
  | some shape =>
    let size ← checkedSize shape
    let data := (Array.range size).map fun flat =>
      f (a.get (sourcePosition shape left flat)) (b.get (sourcePosition shape right flat))
    return ⟨data, shape, kind⟩

/-- The rows and columns of a left operand: a vector is one row. -/
def leftExtent : List Nat → Nat × Nat
  | [n] => (1, n)
  | shape => (shape.headD 0, shape.tail.headD 0)

/-- The rows and columns of a right operand: a vector is one column. -/
def rightExtent : List Nat → Nat × Nat
  | [n] => (n, 1)
  | shape => (shape.headD 0, shape.tail.headD 0)

/-- The product of matrices; the axis that stands for a vector is dropped from the result. -/
def matMul (a b : Tensor) : Except Fault Value := do
  if a.dimensions = 0 ∨ b.dimensions = 0 then throw (.value .matMulScalar)
  if 2 < a.dimensions ∨ 2 < b.dimensions then throw (.value .matMulDimensions)
  let (rows, inner) := leftExtent a.shape
  let (innerRows, cols) := rightExtent b.shape
  if inner ≠ innerRows then throw (.value (.matMulMismatch innerRows inner))
  let size ← checkedSize [rows, cols]
  let entry (position : Nat) : Float :=
    let r := position / cols
    let c := position % cols
    Binary64.sum ((List.range inner).map fun k => a.get (r * inner + k) * b.get (k * cols + c))
  let shape := (if a.dimensions = 2 then [rows] else []) ++ (if b.dimensions = 2 then [cols] else [])
  return Tensor.toValue ⟨(Array.range size).map entry, shape, a.kind.join b.kind⟩

/-- What an operator does to two elements; the matrix product has no such function. -/
def elementwise? : BinaryOp → Option (Float → Float → Float)
  | .add => some fun x y => x + y
  | .sub => some fun x y => x - y
  | .mul => some fun x y => x * y
  | .div => some fun x y => x / y
  | .floorDiv => some fun x y => Binary64.floor (x / y)
  | .mod => some fun x y => x - y * Binary64.floor (x / y)
  | .pow => some Float.pow
  | .matMul => none

/-- Whole numbers have no place for what is not finite; they hold zero instead. -/
def zeroUnlessFinite (x : Float) : Float := if x.isFinite then x else 0.0

def tensorBinary (op : BinaryOp) (left right : Value) : Except Fault Value := do
  let a ← Tensor.ofValue left
  let b ← Tensor.ofValue right
  let joined := a.kind.join b.kind
  if op = .pow ∧ joined = .int ∧ b.data.any (· < 0.0) then throw (.value .negativePower)
  match elementwise? op with
  | none => matMul a b
  | some f =>
    let kind := if op = .div then .float else joined
    let result ← broadcast a b kind f
    return .tensor (if kind = .int then result.map .int zeroUnlessFinite else result)

def binary (op : BinaryOp) (left right : Value) : Except Fault Value :=
  match left, right with
  | .tensor _, _ | _, .tensor _ => tensorBinary op left right
  | _, _ => scalarBinary op left right

def unary (op : UnaryOp) (operand : Value) : Except Fault Value :=
  match op, operand with
  | .not, v => do return .bool (!(← v.truth))
  | .neg, .int i => exactInt "negation" (-i.toInt)
  | .neg, .bool b => .ok (.int (if b then -1 else 0))
  | .neg, .float x => .ok (.float (-x))
  | .neg, .tensor t => .ok (.tensor (t.map (t.kind.join .int) fun x => -x))
  | .pos, .bool b => .ok (.int (if b then 1 else 0))
  | .pos, .int i => .ok (.int i)
  | .pos, .float x => .ok (.float x)
  | .pos, .tensor t => .ok (.tensor t)
  | .neg, v => .error (.type (.badUnaryOperand "-" v.typeName))
  | .pos, v => .error (.type (.badUnaryOperand "+" v.typeName))

end DocExamples.Script
