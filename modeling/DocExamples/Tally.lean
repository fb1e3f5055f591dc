/-!
Counts of a run, and the history that adds them up per unit in the order of first runs.
-/
namespace DocExamples

structure Counts where
  attempted : Nat
  failed : Nat
  skipped : Nat
  deriving DecidableEq, Repr

namespace Counts

def zero : Counts := ⟨0, 0, 0⟩

def passed (c : Counts) : Nat := c.attempted - c.failed

def hasFailures (c : Counts) : Bool := 0 < c.failed

def add (a b : Counts) : Counts :=
  ⟨a.attempted + b.attempted, a.failed + b.failed, a.skipped + b.skipped⟩

def render (c : Counts) : String :=
  "attempted=" ++ toString c.attempted ++ ", failed=" ++ toString c.failed ++ ", skipped=" ++
    toString c.skipped

end Counts

/-- The counts of every unit, in the order in which units were first recorded. -/
structure History where
  entries : List (String × Counts)
  /-- The position of every unit's entry. -/
  slots : List (String × Nat)
  deriving DecidableEq, Repr

namespace History

def empty : History := ⟨[], []⟩

/-- Adds counts to the entry of `name`, or a new entry at the end. -/
def record (h : History) (name : String) (counts : Counts) : History :=
  match h.slots.lookup name with
  | some slot => { h with entries := h.entries.modify slot fun (n, c) => (n, c.add counts) }
  | none =>
    { entries := h.entries ++ [(name, counts)]
      slots := (name, h.entries.length) :: h.slots }

/-- Records the entries of another history after those of this one. -/
def merge (h other : History) : History :=
  other.entries.foldl (fun acc entry => acc.record entry.1 entry.2) h

def get? (h : History) (name : String) : Option Counts :=
  (h.slots.lookup name).bind fun slot => h.entries[slot]?.map (·.2)

def names (h : History) : List String := h.entries.map (·.1)

def totals (h : History) : Counts := h.entries.foldl (fun acc entry => acc.add entry.2) .zero

theorem merge_empty (h : History) : h.merge empty = h := rfl

end History

end DocExamples
