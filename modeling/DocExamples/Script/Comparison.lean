import DocExamples.Script.Broadcast
import DocExamples.Text.Pieces
/-!
Order, membership and identity of values.
-/
namespace DocExamples.Script

/-- The order of doubles; there is none with what is not a number. -/
def orderFloats (x y : Float) : Option Ordering :=
  if x < y then some .lt else if x == y then some .eq else if y < x then some .gt else none

def orderStrings (a b : String) : Ordering := if a < b then .lt else if a = b then .eq else .gt

def orderScalars (op : CompareOp) (a b : Value) : Except Fault (Option Ordering) :=
  match a.asInt?, b.asInt? with
  | some i, some j => .ok (some (compare i.toInt j.toInt))
  | _, _ =>
    match a.asNumber?, b.asNumber? with
    | some x, some y => .ok (orderFloats x y)
    | _, _ =>
      match a, b with
      | .str s, .str t => .ok (some (orderStrings s t))
      | _, _ => .error (.type (.notOrderable op.symbol a.typeName b.typeName))

mutual

/-- The order of two values, if they have one; errors name the operator. Sequences go by their
first unequal items. -/
def order (op : CompareOp) : Value → Value → Except Fault (Option Ordering)
  | .list ⟨as⟩, .list ⟨bs⟩ | .tuple as, .tuple bs => orderItems op as bs
  | a, b => orderScalars op a b

def orderItems (op : CompareOp) : List Value → List Value → Except Fault (Option Ordering)
  | a :: as, b :: bs => if a.equals b then orderItems op as bs else order op a b
  | [], [] => .ok (some .eq)
  | [], _ :: _ => .ok (some .lt)
  | _ :: _, [] => .ok (some .gt)

end

/-- The order by which values are sorted: values without an order tie. -/
def sortOrder (a b : Value) : Except Fault Ordering := do
  return ((← order .less a b).getD .eq)

/-- Whether an ordering is one that the operator holds for. -/
def CompareOp.holds (op : CompareOp) (o : Ordering) : Bool :=
  match op with
  | .less => o == .lt
  | .lessEq => o != .gt
  | .greater => o == .gt
  | _ => o != .lt

/-- What a comparison does to two elements of arrays. -/
def CompareOp.onFloats (op : CompareOp) (x y : Float) : Bool :=
  match op with
  | .eq => x == y
  | .notEq => x != y
  | .less => x < y
  | .lessEq => x ≤ y
  | .greater => x > y
  | _ => x ≥ y

def compareTensors (op : CompareOp) (left right : Value) : Except Fault Value := do
  let a ← Tensor.ofValue left
  let b ← Tensor.ofValue right
  return .tensor (← broadcast a b .bool fun x y => Binary64.ofBool (op.onFloats x y))

def contains (container item : Value) : Except Fault Bool :=
  match container with
  | .list items => .ok (items.any (·.equals item))
  | .tuple items => .ok (items.any (·.equals item))
  | .dict entries => .ok (entries.any (·.1.equals item))
  | .str text =>
    match item with
    | .str needle => .ok (Text.occursIn needle.toList text.toList)
    | v => .error (.type (.badTextMember v.typeName))
  | .tensor t => .ok (item.asNumber?.any fun x => t.data.any (· == x))
  | v => .error (.type (.noMembership v.typeName))

/-- Identity of values, which only those have that are not made of parts. -/
def identical : Value → Value → Bool
  | .none, .none => true
  | .bool a, .bool b => a == b
  | .int a, .int b => a == b
  | .module a, .module b => a == b
  | .exceptionType a, .exceptionType b => a == b
  | .builtin a, .builtin b => a == b
  | .function a .., .function b .. => a == b
  | _, _ => false

def compareOrdered (op : CompareOp) (left right : Value) : Except Fault Value :=
  match left, right with
  | .tensor _, _ | _, .tensor _ => compareTensors op left right
  | _, _ =>
    match op with
    | .eq => .ok (.bool (left.equals right))
    | .notEq => .ok (.bool (!left.equals right))
    | op => do return .bool ((← order op left right).any op.holds)

def compareValues (op : CompareOp) (left right : Value) : Except Fault Value :=
  match op with
  | .isIn => do return .bool (← contains right left)
  | .notIn => do return .bool (!(← contains right left))
  | .is => .ok (.bool (identical left right))
  | .isNot => .ok (.bool (!identical left right))
  | op => compareOrdered op left right

end DocExamples.Script
