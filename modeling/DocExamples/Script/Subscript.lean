import DocExamples.Script.Elements
import DocExamples.Script.ValueText
/-!
Subscripts: what `x[i]`, `x[a:b:c]` and `x[i, j]` denote.
-/
namespace DocExamples.Script

inductive Subscript where
  | item (v : Value)
  | slice (start stop step : Option Int64)
  | multi (parts : List Subscript)

mutual

def Subscript.toKey : Subscript → Except Fault Value
  | .item v => .ok v
  | .slice .. => .error (.type .unhashableSlice)
  | .multi parts => (Subscript.toKeys parts).map .tuple

def Subscript.toKeys : List Subscript → Except Fault (List Value)
  | [] => .ok []
  | s :: rest => do return (← s.toKey) :: (← Subscript.toKeys rest)

end

/-! ### Positions -/

/-- The position that an index denotes: negative ones count from the end. -/
def position? (index : Int64) (length : Nat) : Option Nat :=
  let i := index.toInt
  let shifted := if i < 0 then i + length else i
  if 0 ≤ shifted ∧ shifted < length then some shifted.toNat else none

def clamp (low high i : Int) : Int := min (max i low) high

/-- `first`, `first + step`, … as long as `stop` is not reached. -/
def stepRange (first stop step : Int) : List Nat :=
  let rounds :=
    if 0 < step then (stop - first + step - 1) / step else (first - stop - step - 1) / (-step)
  (List.range rounds.toNat).map fun (k : Nat) => (first + k * step).toNat

/-- The positions of a slice of a sequence. Bounds are clamped to the sequence; a missing one is
the end that the step leads away from, or to. -/
def slicePositions (length : Nat) (start stop step : Option Int64) : Except Fault (List Nat) :=
  let n : Int := length
  let step : Int := step.elim 1 Int64.toInt
  let shifted (i : Int64) : Int := if i.toInt < 0 then i.toInt + n else i.toInt
  if step = 0 then .error (.value .zeroSliceStep)
  else if 0 < step then
    let first := start.elim 0 fun i => clamp 0 n (shifted i)
    let last := stop.elim n fun i => clamp 0 n (shifted i)
    .ok (stepRange first last step)
  else
    let first := start.elim (n - 1) fun i => clamp (-1) (n - 1) (shifted i)
    let last := stop.elim (-1) fun i => clamp (-1) (n - 1) (shifted i)
    .ok (stepRange first last step)

/-- The index that a value is; errors name what is indexed. -/
def indexOf (what : String) (v : Value) : Except Fault Int64 :=
  v.asInt?.elim (.error (.type (.badIndex what v.typeName))) .ok

def pick {α : Type} (items : Array α) (positions : List Nat) : List α :=
  positions.filterMap (items[·]?)

/-- The item at the position that a value denotes. -/
def itemAt {α : Type} (what : String) (items : Array α) (v : Value) : Except Fault α := do
  let index ← indexOf what v
  match (position? index items.size).bind (items[·]?) with
  | some item => return item
  | none => throw (.index (.outOfRange what))

/-! ### Arrays -/

/-- The positions chosen along one axis, and whether the axis stays. -/
structure AxisChoice where
  positions : List Nat
  stays : Bool
  deriving DecidableEq, Repr

def axisPosition (axis size : Nat) (v : Value) : Except Fault Nat := do
  let index ← indexOf "array" v
  match position? index size with
  | some p => return p
  | none => throw (.index (.outOfAxis index.toInt axis size))

def chooseAlong (axis size : Nat) : Subscript → Except Fault AxisChoice
  | .slice start stop step => do return ⟨← slicePositions size start stop step, true⟩
  | .item (.list ⟨items⟩) => do return ⟨← items.mapM (axisPosition axis size), true⟩
  | .item (.tensor t) => do return ⟨← t.elements.mapM (axisPosition axis size), true⟩
  | .item v => do return ⟨[← axisPosition axis size v], false⟩
  | .multi _ => .error (.index .badArrayIndex)

/-- The choices along every axis from `axis` on; an axis without a subscript is taken whole. -/
def axisChoices (axis : Nat) : (shape : List Nat) → List Subscript → Except Fault (List AxisChoice)
  | [], _ => .ok []
  | size :: shape, [] => do
    return ⟨List.range size, true⟩ :: (← axisChoices (axis + 1) shape [])
  | size :: shape, s :: rest => do
    let choice ← chooseAlong axis size s
    return choice :: (← axisChoices (axis + 1) shape rest)

/-- The flat positions of the product of the choices, in row-major order. -/
def productPositions : (shape : List Nat) → List AxisChoice → List Nat
  | _ :: shape, choice :: rest =>
    let inner := productPositions shape rest
    let stride := volume shape
    choice.positions.flatMap fun i => inner.map (i * stride + ·)
  | _, _ => [0]

/-- The positions that a subscript selects, and the shape of the selection. -/
structure Selection where
  positions : List Nat
  shape : List Nat
  deriving DecidableEq, Repr

def selectMask (t mask : Tensor) : Except Fault Selection :=
  if mask.shape ≠ t.shape then .error (.index .maskMismatch)
  else
    let positions := (List.range mask.size).filter fun i => mask.get i != 0.0
    .ok ⟨positions, [positions.length]⟩

def selectAxes (t : Tensor) (subscripts : List Subscript) : Except Fault Selection := do
  if t.dimensions < subscripts.length then
    throw (.index (.tooManyIndices t.dimensions subscripts.length))
  let choices ← axisChoices 0 t.shape subscripts
  return ⟨productPositions t.shape choices,
    (choices.filter (·.stays)).map (·.positions.length)⟩

/-- A truth-valued array selects where it holds; other subscripts select along the axes. -/
def select (t : Tensor) : Subscript → Except Fault Selection
  | .item (.tensor mask) =>
    if mask.kind = .bool then selectMask t mask else selectAxes t [.item (.tensor mask)]
  | .multi parts => selectAxes t parts
  | s => selectAxes t [s]

def tensorItem (t : Tensor) (s : Subscript) : Except Fault Value := do
  let selection ← select t s
  return Tensor.toValue ⟨(selection.positions.map t.get).toArray, selection.shape, t.kind⟩

/-- The numbers that a value puts at `count` positions: one number at all of them, or one at
each. -/
def numbersFor (count : Nat) (v : Value) : Except Fault (List Float) := do
  let source ← Tensor.ofValue v
  if source.size = 1 then return List.replicate count (source.get 0)
  else if source.size = count then return source.data.toList
  else throw (.value (.wrongItemCount source.size count))

/-! ### Dictionaries -/

def underKey? (entries : List (Value × Value)) (key : Value) : Option Value :=
  (entries.find? (·.1.equals key)).map (·.2)

/-! ### Containers -/

def getItem (container : Value) (s : Subscript) : Except Fault Value :=
  match container with
  | .list items =>
    match s with
    | .item v => itemAt "list" items v
    | .slice start stop step => do
      return .ofList (pick items (← slicePositions items.size start stop step))
    | .multi _ => .error (.type (.badIndex "list" "tuple"))
  | .tuple items =>
    match s with
    | .item v => itemAt "tuple" items.toArray v
    | .slice start stop step => do
      return .tuple (pick items.toArray (← slicePositions items.length start stop step))
    | .multi _ => .error (.type (.badIndex "tuple" "tuple"))
  | .str text =>
    match s with
    | .item v => do return .str (String.singleton (← itemAt "string" text.toList.toArray v))
    | .slice start stop step => do
      let chars := text.toList.toArray
      return .str (String.ofList (pick chars (← slicePositions chars.size start stop step)))
    | .multi _ => .error (.type .badStringIndex)
  | .dict entries => do
    let key ← s.toKey
    match underKey? entries key with
    | some v => return v
    | none => throw (.missingKey key.repr)
  | .tensor t => tensorItem t s
  | v => .error (.type (.notSubscriptable v.typeName))

end DocExamples.Script
