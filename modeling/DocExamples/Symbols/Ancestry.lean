import DocExamples.Symbols.Tree
import DocExamples.Text.Blank
/-!
Base classes, and the documentation that a symbol inherits from them.
-/
namespace DocExamples.SymbolTree

/-- A walk through base classes: those met so far, and those still to be looked at, the next one
first. -/
structure BaseWalk where
  met : List SymbolId
  pending : List SymbolId

/-- Looks at a base. A class is entered once, and `start` never; the bases of one that is entered
are looked at next. -/
def lookAt (t : SymbolTree) (start base : SymbolId) (w : BaseWalk) : BaseWalk :=
  if base = start ∨ base ∈ w.met then w
  else ⟨w.met ++ [base], (t.get base).bases ++ w.pending⟩

/-- How many bases the classes of a list have that were not met. -/
def basesUnmet (t : SymbolTree) (met : List SymbolId) : List SymbolId → Nat
  | [] => 0
  | id :: rest => (if id ∈ met then 0 else (t.get id).bases.length) + t.basesUnmet met rest

/-- A bound on how many bases a walk still looks at. -/
def roundsLeft (t : SymbolTree) (w : BaseWalk) : Nat :=
  t.basesUnmet w.met t.ids + w.pending.length

section Rounds

variable {t : SymbolTree} {start id : SymbolId} {met met' rest ids : List SymbolId}

theorem lookAt_known (known : id = start ∨ id ∈ met) :
    t.lookAt start id ⟨met, rest⟩ = ⟨met, rest⟩ := if_pos known

theorem lookAt_new (new : ¬ (id = start ∨ id ∈ met)) :
    t.lookAt start id ⟨met, rest⟩ = ⟨met ++ [id], (t.get id).bases ++ rest⟩ := if_neg new

theorem bases_of_size_le (outside : t.size ≤ id) : (t.get id).bases = [] := by
  unfold get
  rw [Array.getD_eq_getD_getElem?, Array.getElem?_eq_none outside, Option.getD_none]

theorem basesUnmet_le (more : met ⊆ met') (ids : List SymbolId) :
    t.basesUnmet met' ids ≤ t.basesUnmet met ids := by
  induction ids with
  | nil => exact Nat.le_refl _
  | cons other rest ih =>
    refine Nat.add_le_add ?_ ih
    by_cases after : other ∈ met'
    · rw [if_pos after]
      exact Nat.zero_le _
    · have before : other ∉ met := fun member => after (more member)
      exact Nat.le_of_eq ((if_neg after).trans (if_neg before).symm)

/-- The bases of a class no longer count once it is met. -/
theorem basesUnmet_add_le (listed : id ∈ ids) (new : id ∉ met) :
    t.basesUnmet (met ++ [id]) ids + (t.get id).bases.length ≤ t.basesUnmet met ids := by
  have more : met ⊆ met ++ [id] := List.subset_append_left met [id]
  induction ids with
  | nil => cases listed
  | cons other rest ih =>
    rw [basesUnmet, basesUnmet]
    rcases List.mem_cons.mp listed with rfl | later
    · have fewer : t.basesUnmet (met ++ [id]) rest ≤ _ := basesUnmet_le more rest
      rw [if_pos (List.mem_append_right met List.mem_cons_self), if_neg new]
      omega
    · have here : t.basesUnmet (met ++ [id]) [other] ≤ _ := basesUnmet_le more [other]
      have fewer := ih later
      simp only [basesUnmet] at here
      omega

theorem roundsLeft_lookAt_lt (t : SymbolTree) (start base : SymbolId) (met rest : List SymbolId) :
    t.roundsLeft (t.lookAt start base ⟨met, rest⟩) < t.roundsLeft ⟨met, base :: rest⟩ := by
  by_cases known : base = start ∨ base ∈ met
  · rw [lookAt_known known]
    exact Nat.lt_succ_self _
  · have fewer : t.basesUnmet (met ++ [base]) t.ids + (t.get base).bases.length ≤
        t.basesUnmet met t.ids := by
      by_cases inside : base < t.size
      · exact basesUnmet_add_le (List.mem_range.mpr inside) (not_or.mp known).2
      · rw [bases_of_size_le (Nat.not_lt.mp inside)]
        exact basesUnmet_le (List.subset_append_left met [base]) t.ids
    rw [lookAt_new known]
    simp only [roundsLeft, List.length_append, List.length_cons]
    omega

end Rounds

/-- The classes that a walk meets. -/
def walkBases (t : SymbolTree) (start : SymbolId) : BaseWalk → List SymbolId
  | ⟨met, []⟩ => met
  | ⟨met, base :: rest⟩ => t.walkBases start (t.lookAt start base ⟨met, rest⟩)
termination_by w => t.roundsLeft w
decreasing_by exact t.roundsLeft_lookAt_lt start base met rest

/-- The base classes of a class, depth-first in the order of declaration, each once. -/
def ancestry (t : SymbolTree) (id : SymbolId) : List SymbolId :=
  t.walkBases id ⟨[], (t.get id).bases⟩

/-- Documentation that is more than blanks. -/
def ownDoc? (t : SymbolTree) (id : SymbolId) : Option String :=
  (t.get id).doc.filter fun text => !Text.allBlank text.toList

def hasOwnDoc (t : SymbolTree) (id : SymbolId) : Bool := (t.ownDoc? id).isSome

/-- The member of that name of the first ancestor whose member of that name is documented. -/
def inheritedMember? (t : SymbolTree) (owner : SymbolId) (name : String) : Option SymbolId :=
  (t.ancestry owner).findSome? fun base => (t.childNamed? base name).filter t.hasOwnDoc

/-- The symbol whose documentation counts for `id`: itself; else for a class the first documented
ancestor; else for a member of a class the inherited member of its name. -/
def docSource? (t : SymbolTree) (id : SymbolId) : Option SymbolId :=
  let s := t.get id
  if t.hasOwnDoc id then some id
  else if s.kind = .classType then (t.ancestry id).find? t.hasOwnDoc
  else
    match s.owner with
    | some owner =>
      if (t.get owner).kind = .classType then t.inheritedMember? owner s.name else none
    | none => none

end DocExamples.SymbolTree
