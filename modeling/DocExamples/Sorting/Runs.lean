import DocExamples.Sorting.Quick
/-!
Stable sorting of lists. A list is cut into runs: pieces that are in order already, or of a fixed
length. Neighbouring runs are merged in an order that the positions of their borders decide.
-/
namespace DocExamples.Sorting

/-- A piece of a list, sorted or still to be sorted. -/
inductive Run (α : Type) where
  | sorted (items : List α)
  | loose (items : List α)

variable {α ε : Type}

def Run.items : Run α → List α
  | .sorted items | .loose items => items

def Run.sort (sortLoose : List α → Except ε (List α)) : Run α → Except ε (List α)
  | .sorted items => .ok items
  | .loose items => sortLoose items

variable (less : α → α → Except ε Bool)

/-! ### Cutting off a run -/

/-- Goes on with a run as long as it descends strictly or, as may be wanted, does not. The run is
held backward; `last` is its last item. -/
def continueRun (descending : Bool) (last : α) (run : List α) :
    List α → Except ε (List α × List α)
  | [] => .ok (run, [])
  | x :: rest => do
    if (← less x last) == descending then continueRun descending x (x :: run) rest
    else return (run, x :: rest)

/-- The longest start that descends strictly or does not descend, in increasing order, and the
items after it. -/
def naturalRun : List α → Except ε (List α × List α)
  | x :: y :: rest => do
    let descending ← less y x
    let (run, rest) ← continueRun less descending y [y, x] rest
    return (if descending then run else run.reverse, rest)
  | items => .ok (items, [])

/-- How runs are cut off. -/
structure Cutting where
  /-- The least length of a run that is taken as it is found. -/
  good : Nat
  /-- Whether other runs are sorted when they are cut off. -/
  eager : Bool

/-- The next run of the items, of which there are `length`, and the items after it. -/
def Cutting.next (cutting : Cutting) (length : Nat) (items : List α) :
    Except ε (Run α × List α) := do
  if cutting.good ≤ length then
    let (run, rest) ← naturalRun less items
    if cutting.good ≤ run.length then return (.sorted run, rest)
  if cutting.eager then
    return (.sorted (← sortShort less (items.take mostInShort)), items.drop mostInShort)
  else return (.loose (items.take cutting.good), items.drop cutting.good)

/-! ### Merging runs -/

/-- Neighbouring runs that are both to be sorted are first put together. -/
def Run.join (sortLoose : List α → Except ε (List α)) : Run α → Run α → Except ε (Run α)
  | .loose a, .loose b => .ok (.loose (a ++ b))
  | left, right => do
    let a ← left.sort sortLoose
    let b ← right.sort sortLoose
    return .sorted (← merge less a b)

/-- The level at which two neighbouring runs are merged, in a tree over `length` items: that of
the first binary digit in which the middles of the runs, as fractions of the list, differ. -/
def mergeLevel (length start border stop : Nat) : Nat :=
  let scale := ((1 <<< 62) + length - 1) / length
  ((scale * (start + border)) ^^^ (scale * (border + stop))).log2

/-- A level above all others. -/
def topLevel : Nat := 64

/-- Merges a run with those before it that are merged up to a level with what comes after them. -/
def joinUpTo (sortLoose : List α → Except ε (List α)) (level : Nat) (run : Run α) :
    List (Run α × Nat) → Except ε (Run α × List (Run α × Nat))
  | [] => .ok (run, [])
  | (left, l) :: before =>
    if l ≤ level then do joinUpTo sortLoose level (← left.join less sortLoose run) before
    else .ok (run, (left, l) :: before)

/-- Cuts runs off the items that are left and merges them. `last` is the run that ends at
`position`, of `length` items in all; `before` are the runs before it, each with the level at
which it is merged with the next one. -/
def mergeRuns (sortLoose : List α → Except ε (List α)) (cutting : Cutting) (length : Nat) :
    (fuel : Nat) → (position : Nat) → (last : Run α) → (before : List (Run α × Nat)) →
    List α → Except ε (List α)
  | fuel + 1, position, last, before, x :: rest => do
    let (run, rest) ← cutting.next less (length - position) (x :: rest)
    let stop := position + run.items.length
    let level := mergeLevel length (position - last.items.length) position stop
    let (last, before) ← joinUpTo less sortLoose level last before
    mergeRuns sortLoose cutting length fuel stop run ((last, level) :: before) rest
  | _, _, last, before, _ => do
    (← joinUpTo less sortLoose topLevel last before).1.sort sortLoose

/-! ### Sorting -/

/-- Near the square root of a number. -/
def nearRoot (n : Nat) : Nat :=
  let shift := (1 + n.log2) / 2
  ((1 <<< shift) + (n >>> shift)) / 2

/-- Runs of long lists are as long as there are runs; those of short ones have at most 64 items. -/
def goodLength (length : Nat) : Nat :=
  if length ≤ 64 * 64 then min (length - length / 2) 64 else nearRoot length

def sortRuns (sortLoose : List α → Except ε (List α)) (eager : Bool) (items : List α) :
    Except ε (List α) := do
  let length := items.length
  let cutting : Cutting := ⟨goodLength length, eager⟩
  let (run, rest) ← cutting.next less length items
  mergeRuns less sortLoose cutting length length run.items.length run [] rest

/-- Sorts by partition; lists that stay unsorted for too long are sorted by runs. -/
def sortLoose (items : List α) : Except ε (List α) :=
  sortByPivots less (sortRuns less .ok true) (2 * items.length.log2) none items

/-- The most items that are sorted by insertion. -/
def mostByInsertion : Nat := 20

/-- The items in increasing order; equal ones keep theirs. -/
def sort (items : List α) : Except ε (List α) :=
  if items.length ≤ mostByInsertion then insertAll less [] items
  else sortRuns less (sortLoose less) (items.length ≤ 2 * mostInShort) items

end DocExamples.Sorting
