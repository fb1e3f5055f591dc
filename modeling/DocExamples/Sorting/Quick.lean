import DocExamples.Sorting.Short
/-!
Sorting by partition. A pivot splits a list into what is less and what is not; a pivot that
nothing is less than takes its equals out of the list.
-/
namespace DocExamples.Sorting

variable {α ε : Type} (less : α → α → Except ε Bool)

/-- The most items that are sorted without a pivot. -/
def mostInShort : Nat := 32

/-! ### Pivots -/

def lessAt (items : Array α) (i j : Nat) : Except ε Bool :=
  match items[i]?, items[j]? with
  | some x, some y => less x y
  | _, _ => .ok false

/-- Which of three positions holds the middle item. -/
def middle (items : Array α) (a b c : Nat) : Except ε Nat := do
  let ab ← lessAt less items a b
  let ac ← lessAt less items a c
  if ab != ac then return a
  let bc ← lessAt less items b c
  return if bc != ab then c else b

/-- The middle one of three items, each of which is for long spans a middle one itself. The spans
have length `n` and start at `a`, `b` and `c`. -/
def middleOfSpans (items : Array α) (a b c n : Nat) : Except ε Nat :=
  if n < 8 then middle less items a b c
  else do
    let m := n / 8
    let a ← middleOfSpans items a (a + 4 * m) (a + 7 * m) m
    let b ← middleOfSpans items b (b + 4 * m) (b + 7 * m) m
    let c ← middleOfSpans items c (c + 4 * m) (c + 7 * m) m
    middle less items a b c
termination_by n

def pivotPosition (items : Array α) : Except ε Nat :=
  let n := items.size / 8
  middleOfSpans less items 0 (4 * n) (7 * n) n

/-! ### Partitions -/

/-- Adds items to two lists, which are held backward: to the first those that pass a test. -/
def splitOnto (test : α → Except ε Bool) (yes no : List α) :
    List α → Except ε (List α × List α)
  | [] => .ok (yes, no)
  | x :: rest => do
    if ← test x then splitOnto test (x :: yes) no rest
    else splitOnto test yes (x :: no) rest

/-- The items that pass a test, and the others. The item at `position` is not tested: it counts as
passing if `passes` says so. -/
def splitAround (test : α → Except ε Bool) (items : List α) (position : Nat) (passes : Bool) :
    Except ε (List α × List α) := do
  let pivot := (items.drop position).take 1
  let (yes, no) ← splitOnto test [] [] (items.take position)
  let (yes, no) := if passes then (pivot ++ yes, no) else (yes, pivot ++ no)
  let (yes, no) ← splitOnto test yes no (items.drop (position + 1))
  return (yes.reverse, no.reverse)

/-- Sorts by partition, at most `limit` times one within another; what is left unsorted then is
sorted by `otherwise`. No item is less than `floor`. -/
def sortByPivots (otherwise : List α → Except ε (List α)) :
    (limit : Nat) → (floor : Option α) → List α → Except ε (List α)
  | limit, floor, items => do
    if items.length ≤ mostInShort then return ← sortShort less items
    match limit with
    | 0 => otherwise items
    | limit + 1 =>
      let all := items.toArray
      let position ← pivotPosition less all
      match all[position]? with
      | none => otherwise items
      | some pivot =>
        let isFloor ← match floor with
          | some x => do pure !(← less x pivot)
          | none => pure false
        let (lower, upper) ←
          if isFloor then pure ([], items)
          else splitAround (fun x => less x pivot) items position false
        if lower.isEmpty then
          let notGreater (x : α) : Except ε Bool := do return !(← less pivot x)
          let (equal, greater) ← splitAround notGreater items position true
          return equal ++ (← sortByPivots otherwise limit none greater)
        else
          let upper ← sortByPivots otherwise limit (some pivot) upper
          return (← sortByPivots otherwise limit floor lower) ++ upper

end DocExamples.Sorting
