import Mathlib
import DocExamples.Symbols.Ancestry
/-!
The walk through the bases of a class. It ends on every graph, with cycles and diamonds too, and
lists what can be reached by bases, in the order of a depth-first search.
-/
namespace DocExamples.SymbolTree

/-- The second class is a base of the first. -/
def IsBase (t : SymbolTree) (id base : SymbolId) : Prop := base ∈ (t.get id).bases

/-- How many bases all symbols have together. -/
def baseCount (t : SymbolTree) : Nat := (t.ids.map fun id => (t.get id).bases.length).sum

/-- A walk after one more round; nothing changes once no base is pending. -/
def nextRound (t : SymbolTree) (start : SymbolId) : BaseWalk → BaseWalk
  | ⟨met, []⟩ => ⟨met, []⟩
  | ⟨met, base :: rest⟩ => t.lookAt start base ⟨met, rest⟩

/-- A depth-first search through classes one after another, with the classes that were found before
it and after it: each new class is followed by what its bases lead to. -/
inductive DepthFirst (t : SymbolTree) : (before classes after : List SymbolId) → Prop where
  | nil {found : List SymbolId} : DepthFirst t found [] found
  | known {found rest after : List SymbolId} {id : SymbolId} (known : id ∈ found)
    (later : DepthFirst t found rest after) : DepthFirst t found (id :: rest) after
  | new {found rest between after : List SymbolId} {id : SymbolId} (new : id ∉ found)
    (inside : DepthFirst t (found ++ [id]) (t.get id).bases between)
    (later : DepthFirst t between rest after) : DepthFirst t found (id :: rest) after

section Walk

variable {t : SymbolTree} {start id base : SymbolId} {met rest : List SymbolId} {w : BaseWalk}

theorem walkBases_nil : t.walkBases start ⟨met, []⟩ = met := by
  rw [walkBases]

theorem walkBases_cons : t.walkBases start ⟨met, base :: rest⟩ =
    t.walkBases start (t.lookAt start base ⟨met, rest⟩) := by
  rw [walkBases]

/-! ### The end of the walk -/

theorem iterate_nextRound {n : Nat} (enough : t.roundsLeft w ≤ n) :
    (t.nextRound start)^[n] w = ⟨t.walkBases start w, []⟩ := by
  induction n generalizing w with
  | zero =>
    obtain ⟨met, pending⟩ := w
    have none : pending.length = 0 := by
      simp only [roundsLeft] at enough
      omega
    obtain rfl := List.eq_nil_of_length_eq_zero none
    rw [walkBases_nil]
    rfl
  | succ n ih =>
    rw [Function.iterate_succ_apply]
    obtain ⟨met, _ | ⟨base, rest⟩⟩ := w
    · rw [walkBases_nil]
      exact Function.iterate_fixed rfl n
    · have fewer := t.roundsLeft_lookAt_lt start base met rest
      rw [walkBases_cons]
      exact ih (Nat.le_of_lt_succ (Nat.lt_of_lt_of_le fewer enough))

theorem basesUnmet_nil (ids : List SymbolId) :
    t.basesUnmet [] ids = (ids.map fun id => (t.get id).bases.length).sum := by
  induction ids with
  | nil => rfl
  | cons id rest ih =>
    rw [basesUnmet, if_neg List.not_mem_nil, ih]
    rfl

theorem roundsLeft_start : t.roundsLeft ⟨[], (t.get id).bases⟩ =
    t.baseCount + (t.get id).bases.length := by
  rw [roundsLeft, basesUnmet_nil]
  rfl

/-! ### What the walk meets -/

/-- What every round keeps. The bases of what was met are met or pending, and nothing else is. -/
structure WalkInvariant (t : SymbolTree) (start : SymbolId) (w : BaseWalk) : Prop where
  once : w.met.Nodup
  apart : start ∉ w.met
  reached : ∀ a, a ∈ w.met ∨ a ∈ w.pending → Relation.TransGen t.IsBase start a
  closed : ∀ a b, a = start ∨ a ∈ w.met → t.IsBase a b → b = start ∨ b ∈ w.met ∨ b ∈ w.pending

theorem walkInvariant_bases (t : SymbolTree) (id : SymbolId) :
    t.WalkInvariant id ⟨[], (t.get id).bases⟩ where
  once := List.nodup_nil
  apart := List.not_mem_nil
  reached _ listed := .single (listed.resolve_left List.not_mem_nil)
  closed a b known isBase := by
    obtain rfl := known.resolve_right List.not_mem_nil
    exact .inr (.inr isBase)

theorem WalkInvariant.skip (kept : t.WalkInvariant start ⟨met, base :: rest⟩)
    (known : base = start ∨ base ∈ met) : t.WalkInvariant start ⟨met, rest⟩ where
  once := kept.once
  apart := kept.apart
  reached a listed := kept.reached a (listed.imp_right (List.mem_cons_of_mem base))
  closed a b from' isBase := by
    rcases kept.closed a b from' isBase with same | before | pending
    · exact .inl same
    · exact .inr (.inl before)
    · rcases List.mem_cons.mp pending with rfl | later
      · exact known.imp_right .inl
      · exact .inr (.inr later)

theorem WalkInvariant.enter (kept : t.WalkInvariant start ⟨met, base :: rest⟩)
    (other : base ≠ start) (new : base ∉ met) :
    t.WalkInvariant start ⟨met ++ [base], (t.get base).bases ++ rest⟩ where
  once := by
    rw [List.nodup_append]
    refine ⟨kept.once, List.nodup_singleton base, fun a before b last => ?_⟩
    rw [List.mem_singleton.mp last]
    rintro rfl
    exact new before
  apart := by
    rw [List.mem_append, List.mem_singleton, not_or]
    exact ⟨kept.apart, Ne.symm other⟩
  reached a listed := by
    have here := kept.reached base (.inr List.mem_cons_self)
    simp only [List.mem_append, List.mem_singleton] at listed
    rcases listed with (before | rfl) | further | pending
    · exact kept.reached a (.inl before)
    · exact here
    · exact here.tail further
    · exact kept.reached a (.inr (List.mem_cons_of_mem base pending))
  closed a b from' isBase := by
    simp only [List.mem_append, List.mem_singleton] at from' ⊢
    have old (from' : a = start ∨ a ∈ met) :
        b = start ∨ (b ∈ met ∨ b = base) ∨ b ∈ (t.get base).bases ∨ b ∈ rest := by
      rcases kept.closed a b from' isBase with same | before | pending
      · exact .inl same
      · exact .inr (.inl (.inl before))
      · rcases List.mem_cons.mp pending with same | later
        · exact .inr (.inl (.inr same))
        · exact .inr (.inr (.inr later))
    rcases from' with same | before | rfl
    · exact old (.inl same)
    · exact old (.inr before)
    · exact .inr (.inr (.inl isBase))

theorem WalkInvariant.walkBases (kept : t.WalkInvariant start w) :
    t.WalkInvariant start ⟨t.walkBases start w, []⟩ := by
  induction w using SymbolTree.walkBases.induct t start with
  | case1 met =>
    rw [walkBases_nil]
    exact kept
  | case2 met base rest ih =>
    rw [walkBases_cons]
    refine ih ?_
    by_cases known : base = start ∨ base ∈ met
    · rw [lookAt_known known]
      exact kept.skip known
    · rw [lookAt_new known]
      obtain ⟨other, new⟩ := not_or.mp known
      exact kept.enter other new

/-- Once nothing is pending, everything that bases lead to was met. -/
theorem WalkInvariant.mem_iff (kept : t.WalkInvariant start ⟨met, []⟩) :
    id ∈ met ↔ id ≠ start ∧ Relation.TransGen t.IsBase start id := by
  have within {a b : SymbolId} (from' : a = start ∨ a ∈ met) (isBase : t.IsBase a b) :
      b = start ∨ b ∈ met := by
    rcases kept.closed a b from' isBase with same | before | none
    · exact .inl same
    · exact .inr before
    · cases none
  constructor
  · intro member
    refine ⟨?_, kept.reached id (.inl member)⟩
    rintro rfl
    exact kept.apart member
  · rintro ⟨other, path⟩
    have found {b : SymbolId} (path : Relation.TransGen t.IsBase start b) :
        b = start ∨ b ∈ met := by
      induction path with
      | single isBase => exact within (.inl rfl) isBase
      | tail _ isBase ih => exact within ih isBase
    exact (found path).resolve_left other

/-! ### The order of the walk -/

theorem DepthFirst.prefix_of {found classes after : List SymbolId}
    (search : t.DepthFirst found classes after) : found <+: after := by
  induction search with
  | nil => exact List.prefix_rfl
  | known _ _ ih => exact ih
  | new _ _ _ ih₁ ih₂ => exact ((List.prefix_append _ _).trans ih₁).trans ih₂

/-- The walk goes where the search goes, and leaves what was pending for later. -/
theorem DepthFirst.walkBases {found classes after : List SymbolId}
    (search : t.DepthFirst found classes after) (same : found = start :: met)
    (rest : List SymbolId) :
    ∃ met', after = start :: met' ∧
      t.walkBases start ⟨met, classes ++ rest⟩ = t.walkBases start ⟨met', rest⟩ := by
  induction search generalizing met rest with
  | nil => exact ⟨met, same, rfl⟩
  | @known found classes after id known later ih =>
    obtain ⟨met', rfl, run⟩ := ih same rest
    refine ⟨met', rfl, ?_⟩
    rw [List.cons_append, walkBases_cons, lookAt_known, run]
    rwa [same, List.mem_cons] at known
  | @new found classes between after id new inside later ih₁ ih₂ =>
    rw [same, List.mem_cons] at new
    obtain ⟨met', rfl, run⟩ := ih₁ (by rw [same, List.cons_append]) (classes ++ rest)
    obtain ⟨met'', rfl, run'⟩ := ih₂ rfl rest
    refine ⟨met'', rfl, ?_⟩
    rw [List.cons_append, walkBases_cons, lookAt_new new, run, run']

theorem roundsLeft_le {met' pending pending' : List SymbolId} (more : met ⊆ met')
    (fewer : pending'.length ≤ pending.length) :
    t.roundsLeft ⟨met', pending'⟩ ≤ t.roundsLeft ⟨met, pending⟩ :=
  Nat.add_le_add (basesUnmet_le more t.ids) fewer

/-- The search has an end, whatever was found before. -/
theorem exists_depthFirst (t : SymbolTree) (start : SymbolId) (met pending : List SymbolId) :
    ∃ after, t.DepthFirst (start :: met) pending after := by
  -- on the rounds that are left: both searches behind a new class have fewer
  induction rounds : t.roundsLeft ⟨met, pending⟩ using Nat.strongRecOn
    generalizing met pending with
  | ind n ih =>
    subst rounds
    cases pending with
    | nil => exact ⟨_, .nil⟩
    | cons base rest =>
      have fewer := t.roundsLeft_lookAt_lt start base met rest
      by_cases known : base ∈ start :: met
      · rw [lookAt_known (List.mem_cons.mp known)] at fewer
        obtain ⟨after, later⟩ := ih _ fewer met rest rfl
        exact ⟨after, .known known later⟩
      · rw [lookAt_new (fun found => known (List.mem_cons.mpr found))] at fewer
        have shorter : (t.get base).bases.length ≤ ((t.get base).bases ++ rest).length := by simp
        have shorter' : rest.length ≤ ((t.get base).bases ++ rest).length := by simp
        obtain ⟨between, inside⟩ := ih _
          (Nat.lt_of_le_of_lt (roundsLeft_le (List.Subset.refl _) shorter) fewer)
          (met ++ [base]) (t.get base).bases rfl
        obtain ⟨more, rfl⟩ := inside.prefix_of
        obtain ⟨after, later⟩ := ih _
          (Nat.lt_of_le_of_lt (roundsLeft_le (List.subset_append_left _ more) shorter') fewer)
          (met ++ [base] ++ more) rest rfl
        exact ⟨after, .new known inside later⟩

theorem depthFirst_iff {order : List SymbolId} :
    t.DepthFirst [] [id] order ↔ order = id :: t.ancestry id := by
  have ends {order : List SymbolId} (search : t.DepthFirst [] [id] order) :
      order = id :: t.ancestry id := by
    cases search with
    | known known _ => cases known
    | new _ inside later =>
      cases later
      obtain ⟨met, rfl, run⟩ := inside.walkBases rfl []
      rw [List.append_nil, walkBases_nil] at run
      rw [ancestry, run]
  refine ⟨ends, ?_⟩
  rintro rfl
  obtain ⟨after, inside⟩ := exists_depthFirst t id [] (t.get id).bases
  have search : t.DepthFirst [] [id] after := .new List.not_mem_nil inside .nil
  rwa [ends search] at search

end Walk

/-- The ancestry of a class. The walk comes to its end within as many rounds as there are bases, and
has met the classes that bases lead to from this one, which is not among them, each once. They are
in the order in which a depth-first search from the class finds them. -/
theorem ancestry_order (t : SymbolTree) (id : SymbolId) :
    (t.nextRound id)^[t.baseCount + (t.get id).bases.length] ⟨[], (t.get id).bases⟩ =
      ⟨t.ancestry id, []⟩ ∧
    (∀ a, a ∈ t.ancestry id ↔ a ≠ id ∧ Relation.TransGen t.IsBase id a) ∧
    (t.ancestry id).Nodup ∧
    ∀ order, t.DepthFirst [] [id] order ↔ order = id :: t.ancestry id := by
  have kept : t.WalkInvariant id ⟨t.ancestry id, []⟩ := (walkInvariant_bases t id).walkBases
  have rounds : t.roundsLeft ⟨[], (t.get id).bases⟩ ≤ t.baseCount + (t.get id).bases.length :=
    roundsLeft_start.le
  exact ⟨iterate_nextRound rounds, fun a => kept.mem_iff, kept.once, fun order => depthFirst_iff⟩

/-- Classes 2 and 3 are bases of class 1 and share the base 4, which is based on class 1. -/
def diamondInCycle : SymbolTree :=
  ((((ofRoot "m").add root "D" .classType).add root "B" .classType).add root "C" .classType).add
    root "A" .classType |>.addBase 1 2 |>.addBase 1 3 |>.addBase 2 4 |>.addBase 3 4 |>.addBase 4 1

example : diamondInCycle.ancestry 1 = [2, 4, 3] := by decide +kernel

end DocExamples.SymbolTree
