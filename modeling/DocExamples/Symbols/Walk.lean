import DocExamples.Symbols.Tree
/-!
The walk along all paths that visit no symbol twice, with a stack of what is still to be visited.
There may be cycles: only the symbols on the way to a place are not entered again from there, so
the walk ends because there are finitely many such paths.
-/
namespace DocExamples

/-- A symbol and the dotted name that it was reached by. -/
structure NamedSymbol where
  symbol : SymbolId
  name : String
  deriving DecidableEq, Repr

/-- A visit of a symbol under a name, by a path that leads through the symbols `above`. -/
structure Visit extends NamedSymbol where
  above : List SymbolId
  fresh : symbol ∉ above

namespace SymbolTree

/-- The visit of a child, unless the path led through it. -/
def visitChild? (t : SymbolTree) (v : Visit) (child : SymbolId) : Option Visit :=
  if fresh : child ∈ v.symbol :: v.above then none
  else some ⟨⟨child, v.name ++ "." ++ (t.get child).name⟩, v.symbol :: v.above, fresh⟩

/-- The stack with the children of a symbol on it. They are put there from the last one to the
first, which is visited next. -/
def pushChildren (t : SymbolTree) (v : Visit) (stack : List Visit) : List Visit :=
  (t.get v.symbol).children.reverse.foldl
    (fun stack child => (t.visitChild? v child).elim stack (· :: stack)) stack

theorem pushChildren_eq (t : SymbolTree) (v : Visit) (stack : List Visit) :
    t.pushChildren v stack = (t.get v.symbol).children.filterMap (t.visitChild? v) ++ stack := by
  rw [pushChildren, List.foldl_reverse]
  induction (t.get v.symbol).children with
  | nil => rfl
  | cons child rest ih =>
    rw [List.foldr_cons, ih]
    cases h : t.visitChild? v child <;> simp [h]

/-! ### How many visits are left -/

/-- How many symbols are not among `above`. -/
def room (t : SymbolTree) (above : List SymbolId) : Nat := t.ids.countP (· ∉ above)

/-- How many paths there are from a symbol that visit no symbol twice and none of `above`; `fuel`
bounds the symbols on a path. -/
def pathCount (t : SymbolTree) : (fuel : Nat) → List SymbolId → SymbolId → Nat
  | 0, _, _ => 0
  | fuel + 1, above, here =>
    let through (child : SymbolId) : Nat :=
      if child ∈ here :: above then 0 else pathCount t fuel (here :: above) child
    (t.get here).children.foldr (fun child count => through child + count) 1

/-- How many visits follow from one, which is counted too. -/
def visitCount (t : SymbolTree) (v : Visit) : Nat := t.pathCount (t.room v.above + 1) v.above v.symbol

/-- How many visits follow from those on the stack. -/
def visitCounts (t : SymbolTree) : List Visit → Nat
  | [] => 0
  | v :: stack => t.visitCount v + visitCounts t stack

theorem visitCounts_append (t : SymbolTree) (first second : List Visit) :
    t.visitCounts (first ++ second) = t.visitCounts first + t.visitCounts second := by
  induction first with
  | nil => exact (Nat.zero_add _).symm
  | cons v rest ih => rw [List.cons_append, visitCounts, visitCounts, ih, Nat.add_assoc]

theorem children_of_size_le {t : SymbolTree} {id : SymbolId} (out : t.size ≤ id) :
    (t.get id).children = [] := by
  have absent : t.symbols[id]? = none := Array.getElem?_eq_none out
  simp [get, Array.getD_eq_getD_getElem?, absent]

theorem countP_of_notMem {ids above : List SymbolId} {id : SymbolId} (other : id ∉ ids) :
    ids.countP (· ∉ id :: above) = ids.countP (· ∉ above) := by
  refine List.countP_congr fun x member => ?_
  have different : x ≠ id := fun same => other (same ▸ member)
  simp [different]

theorem countP_of_fresh {ids above : List SymbolId} {id : SymbolId} (distinct : ids.Nodup)
    (inside : id ∈ ids) (fresh : id ∉ above) :
    ids.countP (· ∉ above) = ids.countP (· ∉ id :: above) + 1 := by
  induction ids with
  | nil => cases inside
  | cons first rest ih =>
    obtain ⟨other, distinct⟩ := List.nodup_cons.mp distinct
    rcases List.mem_cons.mp inside with rfl | inside
    · rw [List.countP_cons, List.countP_cons, countP_of_notMem other]
      simp [fresh]
    · have different : first ≠ id := fun same => other (same ▸ inside)
      simp only [List.countP_cons, ih distinct inside, List.mem_cons, different, false_or]
      exact Nat.add_right_comm _ _ _

theorem room_cons {t : SymbolTree} {id : SymbolId} {above : List SymbolId} (inside : id < t.size)
    (fresh : id ∉ above) : t.room above = t.room (id :: above) + 1 :=
  countP_of_fresh List.nodup_range (List.mem_range.mpr inside) fresh

theorem visitCount_child {t : SymbolTree} {v : Visit} (inside : v.symbol < t.size)
    (child : SymbolId) :
    (t.visitChild? v child).elim 0 t.visitCount =
      if child ∈ v.symbol :: v.above then 0
      else t.pathCount (t.room v.above) (v.symbol :: v.above) child := by
  unfold visitChild?
  split
  · rfl
  · rw [room_cons inside v.fresh]
    rfl

/-- A visit is followed by the visits of the children. -/
theorem visitCount_eq (t : SymbolTree) (v : Visit) :
    t.visitCount v = t.visitCounts ((t.get v.symbol).children.filterMap (t.visitChild? v)) + 1 := by
  rw [visitCount, pathCount]
  by_cases inside : v.symbol < t.size
  · induction (t.get v.symbol).children with
    | nil => rfl
    | cons child rest ih =>
      rw [List.foldr_cons, ih]
      dsimp only
      rw [← visitCount_child inside child]
      cases h : t.visitChild? v child <;> simp [h, visitCounts, Nat.add_assoc]
  · rw [children_of_size_le (Nat.le_of_not_lt inside)]
    rfl

/-! ### The walk -/

/-- The places that are visited, in order, when these visits are on the stack. -/
def walk (t : SymbolTree) : (stack : List Visit) → List NamedSymbol
  | [] => []
  | v :: stack => v.toNamedSymbol :: walk t (t.pushChildren v stack)
termination_by stack => t.visitCounts stack
decreasing_by
  rw [pushChildren_eq, visitCounts_append, visitCounts, visitCount_eq t v]
  omega

/-- The root under its own name. -/
def namedRoot (t : SymbolTree) : NamedSymbol := ⟨root, (t.get root).name⟩

def rootVisit (t : SymbolTree) : Visit := ⟨t.namedRoot, [], List.not_mem_nil⟩

/-- Everything that can be reached, once for each path. -/
def allPaths (t : SymbolTree) : List NamedSymbol := t.walk [t.rootVisit]

end SymbolTree

end DocExamples
