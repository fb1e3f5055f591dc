import DocExamples.Integer
import DocExamples.Script.Arguments
/-!
Sequences and arrays from bounds and steps.
-/
namespace DocExamples.Script

/-- Whether a count by `step` that is to end before `stop` goes on with `current`. -/
def goesOn (stop step current : Int64) : Bool :=
  (0 < step && current < stop) || (step < 0 && stop < current)

/-- Adds the numbers from `current` by `step` that come before `stop` to those found before. The
count ends as well where the next number has no word. It is refused where more than `room` numbers
would be added. -/
def countWords (stop step : Int64) (found : Array Value) (current : Int64) :
    (room : Nat) → Except Fault (Array Value)
  | 0 => if goesOn stop step current then .error (.tooLarge "range") else .ok found
  | room + 1 =>
    if goesOn stop step current then
      let found := found.push (.int current)
      match Integer.word? (current.toInt + step.toInt) with
      | some next => countWords stop step found next room
      | none => .ok found
    else .ok found

/-- The numbers from `start` by `step` up to `stop`, which is left out. -/
def rangeItems (start stop step : Int64) : Except Fault Value :=
  if step = 0 then .error (.value .zeroRangeStep)
  else (countWords stop step #[] start maxSequenceLength).map .list

def rangeOf (args : List Value) : Except Fault Value := do
  match ← args.mapM Value.toInt with
  | [stop] => rangeItems 0 stop 1
  | [start, stop] => rangeItems start stop 1
  | [start, stop, step] => rangeItems start stop step
  | _ => throw (.type (.tooManyRangeArguments args.length))

/-- `start + k * step` for every `k` below `count`. -/
def spaced (start step : Float) (count : Nat) : Array Float :=
  (Array.range count).map fun k => start + Binary64.ofNat k * step

/-- An array of numbers by a step that need not be whole. -/
def arrayRange (start stop step : Float) (kind : ElementKind) : Except Fault Value :=
  if step == 0.0 || !step.isFinite then .error (.value .badStep)
  else
    let exact := Binary64.ceil ((stop - start) / step)
    let count := if 0.0 < exact then exact else 0.0
    if !count.isFinite || count > Binary64.ofNat maxSequenceLength then
      .error (.tooLarge "arange")
    else .ok (.tensor (.vector (spaced start step (Binary64.toInt64 count).toInt.toNat) kind))

def arangeOf (args : List Value) : Except Fault Value := do
  let kind := if args.all (·.asInt?.isSome) then .int else .float
  match ← args.mapM Value.toFloat with
  | [stop] => arrayRange 0.0 stop 1.0 kind
  | [start, stop] => arrayRange start stop 1.0 kind
  | [start, stop, step] => arrayRange start stop step kind
  | _ => throw (.type (.wrongArgumentCount "arange" 3 args.length))

/-- `count` numbers at equal distances from `start` on; `stop` is the last one or the one after
it. -/
def evenlySpaced (start stop : Float) (count : Nat) (endpoint : Bool) : Array Float :=
  let divisions := if endpoint then count - 1 else count
  let step := if divisions = 0 then 0.0 else (stop - start) / Binary64.ofNat divisions
  let data := spaced start step count
  if endpoint && 1 < count then data.setIfInBounds (count - 1) stop else data

def linspaceOf (args : List Value) (kwargs : Keywords) : Except Fault Value := do
  let (start, stop, num) ← match args with
    | [start, stop] => pure (← start.toFloat, ← stop.toFloat, none)
    | [start, stop, num] => pure (← start.toFloat, ← stop.toFloat, some num)
    | _ => throw (.type (.wrongArgumentCount "linspace" 3 args.length))
  let count ← match num <|> kwargs.get? "num" with
    | some n => n.toExtent
    | none => pure 50
  if maxSequenceLength < count then throw (.tooLarge "linspace")
  let endpoint ← match kwargs.get? "endpoint" with
    | some v => v.truth
    | none => pure true
  return .tensor (.vector (evenlySpaced start stop count endpoint) .float)

/-- An array of one number everywhere. -/
def filled (x : Float) (function : String) (args : List Value) (kwargs : Keywords) :
    Except Fault Value := do
  checkKeywords function kwargs ["dtype"]
  let shape ← (← oneOf function args).toShape
  let kind ← match kwargs.get? "dtype" with
    | some v => v.toKind
    | none => pure .float
  let size ← checkedSize shape
  return .tensor ⟨Array.replicate size x, shape, kind⟩

end DocExamples.Script
