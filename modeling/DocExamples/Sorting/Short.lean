/-!
Sorting of short lists and merging of sorted ones, by an order that may refuse to compare two
items. Equal items keep their order. The first refusal ends the sorting, so that which items are
compared, and in which order, can be seen.
-/
namespace DocExamples.Sorting

variable {α ε : Type} (less : α → α → Except ε Bool)

/-! ### Insertion -/

/-- Puts an item into a list that is sorted from its greatest item down, before the first item
that it is not less than. -/
def insertDescending (x : α) : List α → Except ε (List α)
  | [] => .ok [x]
  | y :: rest => do
    if ← less x y then return y :: (← insertDescending x rest)
    return x :: y :: rest

/-- Puts items one after another into a sorted list. -/
def insertAll (sorted items : List α) : Except ε (List α) := do
  return (← items.foldlM (fun acc x => insertDescending less x acc) sorted.reverse).reverse

/-! ### Merging -/

/-- Merges two sorted lists from the front; `out` holds what is in its place, backward. -/
def mergeUp (out : List α) : List α → List α → Except ε (List α)
  | a :: left, b :: right => do
    if ← less b a then mergeUp (b :: out) (a :: left) right
    else mergeUp (a :: out) left (b :: right)
  | left, right => .ok (out.reverseAux (left ++ right))
termination_by left right => left.length + right.length

/-- Merges two sorted lists from the back, which are given backward. -/
def mergeDown (out : List α) : List α → List α → Except ε (List α)
  | a :: left, b :: right => do
    if ← less b a then mergeDown (a :: out) left (b :: right)
    else mergeDown (b :: out) (a :: left) right
  | left, right => .ok (left.reverseAux (right.reverseAux out))
termination_by left right => left.length + right.length

/-- Merges two sorted lists from the end at which the shorter one lies. -/
def merge (left right : List α) : Except ε (List α) :=
  if left.length ≤ right.length then mergeUp less [] left right
  else mergeDown less [] left.reverse right.reverse

/-- Merges two sorted lists from both ends at once, one item at either end in each round. The last
two lists are the first two backward. One item remains between the ends if the lengths of the
lists differ. -/
def mergeEnds (half : Nat) (odd : Bool) :
    (rounds : Nat) → (left right leftBack rightBack : List α) → Except ε (List α)
  | rounds + 1, a :: left, b :: right, c :: leftBack, d :: rightBack => do
    let early ← less b a
    let late ← less d c
    let inner ← mergeEnds half odd rounds
      (if early then a :: left else left) (if early then right else b :: right)
      (if late then leftBack else c :: leftBack) (if late then d :: rightBack else rightBack)
    return (if early then b else a) :: inner ++ [if late then c else d]
  | _, left, right, leftBack, _ =>
    .ok <|
      if !odd then []
      else if half < left.length + leftBack.length then left.take 1
      else right.take 1

/-! ### Short lists -/

def sortFour (w x y z : α) : Except ε (List α) := do
  let firstSwapped ← less x w
  let lastSwapped ← less z y
  let (a, b) := if firstSwapped then (x, w) else (w, x)
  let (c, d) := if lastSwapped then (z, y) else (y, z)
  let lowRight ← less c a
  let highLeft ← less d b
  let low := if lowRight then c else a
  let high := if highLeft then b else d
  let left := if lowRight then a else if highLeft then c else b
  let right := if highLeft then d else if lowRight then b else c
  if ← less right left then return [low, right, left, high]
  return [low, left, right, high]

/-- The first four items sorted, and the items after them. -/
def sortStart : List α → Except ε (List α × List α)
  | w :: x :: y :: z :: rest => do return (← sortFour less w x y z, rest)
  | items => .ok ([], items)

/-- The length from which on the halves of a short list start with four sorted items. -/
def leastWithStart : Nat := 8

/-- Sorts both halves and merges them. -/
def sortShort (items : List α) : Except ε (List α) := do
  let half := items.length / 2
  let start := if items.length < leastWithStart then fun part => .ok ([], part) else sortStart less
  let (left, leftRest) ← start (items.take half)
  let (right, rightRest) ← start (items.drop half)
  let left ← insertAll less left leftRest
  let right ← insertAll less right rightRest
  mergeEnds less half (items.length % 2 == 1) half left right left.reverse right.reverse

end DocExamples.Sorting
