import DocExamples.Symbols.Discovery
import Mathlib.Data.List.Forall2
/-!
The walk visits each path that visits no symbol twice once, in depth-first order. A path is a list
of positions among children, from the root on; the order of paths as lists of numbers is the order
of a depth-first walk that meets a symbol before its children and these as they are declared.
-/
namespace DocExamples.SymbolTree

variable {t : SymbolTree}

/-- The symbols that a path leads through, the first one included. -/
def visited? (t : SymbolTree) : SymbolId → List Nat → Option (List SymbolId)
  | here, [] => some [here]
  | here, k :: rest =>
    (t.get here).children[k]?.bind fun child => (visited? t child rest).map (here :: ·)

/-- A path to a symbol that is tested, and what it is tested as. -/
structure TestedAlong (t : SymbolTree) (settings : Settings) (path : List Nat) (c : Candidate) :
    Prop where
  visits : ∃ visited, t.visited? root path = some visited ∧ visited.Nodup ∧
    visited.getLast? = some c.symbol ∧
    c.name = ".".intercalate (visited.map fun id => (t.get id).name)
  documented : t.docSource? c.symbol = some c.source
  kept : settings.isSkipped c.name = false
  keptQualified : settings.isSkipped (t.qualifiedName c.symbol) = false

theorem visited?_cons {here : SymbolId} {k : Nat} {rest : List Nat} {visited : List SymbolId} :
    t.visited? here (k :: rest) = some visited ↔
      ∃ child tail, (t.get here).children[k]? = some child ∧
        t.visited? child rest = some tail ∧ visited = here :: tail := by
  simp only [visited?, Option.bind_eq_some_iff, Option.map_eq_some_iff]
  constructor
  · rintro ⟨child, found, tail, along, same⟩
    exact ⟨child, tail, found, along, same.symm⟩
  · rintro ⟨child, tail, found, along, same⟩
    exact ⟨child, found, tail, along, same.symm⟩

theorem eq_cons_of_visited? {here : SymbolId} {path : List Nat} {visited : List SymbolId}
    (along : t.visited? here path = some visited) : ∃ tail, visited = here :: tail := by
  cases path with
  | nil =>
    cases along
    exact ⟨[], rfl⟩
  | cons k rest =>
    obtain ⟨_, tail, -, -, same⟩ := visited?_cons.mp along
    exact ⟨tail, same⟩

/-! ### Enumerating the paths -/

/-- The paths from a symbol that visit no symbol twice and none of `above`, in depth-first order;
`fuel` bounds the symbols on a path. -/
def pathsWithin (t : SymbolTree) : (fuel : Nat) → List SymbolId → SymbolId → List (List Nat)
  | 0, _, _ => []
  | fuel + 1, above, here =>
    [] :: (t.get here).children.zipIdx.flatMap fun (child, k) =>
      if child ∈ here :: above then []
      else (pathsWithin t fuel (here :: above) child).map (k :: ·)

def pathsFrom (t : SymbolTree) (v : Visit) : List (List Nat) :=
  t.pathsWithin (t.room v.above + 1) v.above v.symbol

theorem lt_size_of_child {here child : SymbolId} {k : Nat}
    (found : (t.get here).children[k]? = some child) : here < t.size := by
  apply Nat.lt_of_not_le
  intro out
  rw [children_of_size_le out] at found
  cases found

theorem cons_mem_pathsWithin {fuel k : Nat} {above : List SymbolId} {here : SymbolId}
    {rest : List Nat} :
    k :: rest ∈ t.pathsWithin (fuel + 1) above here ↔
      ∃ child, (t.get here).children[k]? = some child ∧ child ∉ here :: above ∧
        rest ∈ t.pathsWithin fuel (here :: above) child := by
  simp only [pathsWithin, List.mem_cons, List.mem_flatMap, reduceCtorEq, false_or]
  constructor
  · rintro ⟨⟨child, i⟩, member, inside⟩
    rw [List.mem_zipIdx_iff_getElem?] at member
    dsimp only at inside
    split at inside
    · cases inside
    · next fresh =>
      obtain ⟨tail, inTail, same⟩ := List.mem_map.mp inside
      cases same
      exact ⟨child, member, by simpa using fresh, inTail⟩
  · rintro ⟨child, found, fresh, inTail⟩
    refine ⟨(child, k), List.mem_zipIdx_iff_getElem?.mpr found, ?_⟩
    have fresh' : ¬ (child = here ∨ child ∈ above) := by simpa using fresh
    simp only [fresh', if_false]
    exact List.mem_map.mpr ⟨rest, inTail, rfl⟩

/-- Every path that visits no symbol twice and none of `above` is among the paths. A path takes one
symbol more at each step, so there is room for all of it. -/
theorem mem_pathsWithin {above : List SymbolId} {here : SymbolId} (fresh : here ∉ above)
    {path : List Nat} :
    path ∈ t.pathsWithin (t.room above + 1) above here ↔
      ∃ visited, t.visited? here path = some visited ∧ visited.Nodup ∧ ∀ id ∈ visited, id ∉ above := by
  induction path generalizing above here with
  | nil => simp [pathsWithin, visited?, fresh]
  | cons k rest ih =>
    rw [cons_mem_pathsWithin]
    constructor
    · rintro ⟨child, found, freshChild, inside⟩
      rw [room_cons (lt_size_of_child found) fresh] at inside
      obtain ⟨tail, along, distinct, outside⟩ := (ih freshChild).mp inside
      refine ⟨here :: tail, visited?_cons.mpr ⟨child, tail, found, along, rfl⟩, ?_, ?_⟩
      · refine List.nodup_cons.mpr ⟨fun member => ?_, distinct⟩
        exact outside here member List.mem_cons_self
      · refine List.forall_mem_cons.mpr ⟨fresh, fun id member inAbove => ?_⟩
        exact outside id member (List.mem_cons_of_mem _ inAbove)
    · rintro ⟨visited, whole, distinct, outside⟩
      obtain ⟨child, tail, found, along, rfl⟩ := visited?_cons.mp whole
      obtain ⟨notHere, distinct⟩ := List.nodup_cons.mp distinct
      have apart : ∀ id ∈ tail, id ∉ here :: above := by
        intro id member inside
        rcases List.mem_cons.mp inside with rfl | inAbove
        · exact notHere member
        · exact outside id (List.mem_cons_of_mem _ member) inAbove
      have first : child ∈ tail := by
        obtain ⟨_, rfl⟩ := eq_cons_of_visited? along
        exact List.mem_cons_self
      refine ⟨child, found, apart child first, ?_⟩
      rw [room_cons (lt_size_of_child found) fresh]
      exact (ih (apart child first)).mpr ⟨tail, along, distinct, apart⟩

/-- The order is that of a depth-first walk, and no path occurs twice. -/
theorem pairwise_pathsWithin (fuel : Nat) (above : List SymbolId) (here : SymbolId) :
    (t.pathsWithin fuel above here).Pairwise (· < ·) := by
  induction fuel generalizing above here with
  | zero => exact List.Pairwise.nil
  | succ fuel ih =>
    have starts {child : SymbolId} {k : Nat} {path : List Nat}
        (member : path ∈ if child ∈ here :: above then []
          else (t.pathsWithin fuel (here :: above) child).map (k :: ·)) :
        ∃ rest, path = k :: rest := by
      split at member
      · cases member
      · obtain ⟨rest, -, same⟩ := List.mem_map.mp member
        exact ⟨rest, same.symm⟩
    refine List.pairwise_cons.mpr ⟨fun path member => ?_, List.pairwise_flatMap.mpr ⟨?_, ?_⟩⟩
    · obtain ⟨_, -, inside⟩ := List.mem_flatMap.mp member
      obtain ⟨rest, rfl⟩ := starts inside
      exact List.nil_lt_cons _ _
    · rintro ⟨child, k⟩ -
      dsimp only
      split
      · exact List.Pairwise.nil
      · refine List.pairwise_map.mpr ((ih (here :: above) child).imp fun less => ?_)
        exact List.cons_lt_cons_self.mpr less
    · have increasing : (t.get here).children.zipIdx.Pairwise fun a b => a.2 < b.2 := by
        rw [← List.pairwise_map (f := Prod.snd), List.zipIdx_map_snd]
        exact List.pairwise_lt_range'
      refine increasing.imp fun less first inFirst second inSecond => ?_
      obtain ⟨_, rfl⟩ := starts inFirst
      obtain ⟨_, rfl⟩ := starts inSecond
      exact List.cons_lt_cons_iff.mpr (.inl less)

/-! ### The walk -/

/-- Where a path leads, under the name that its symbols give. -/
def placeAlong (t : SymbolTree) : NamedSymbol → List Nat → NamedSymbol
  | here, [] => here
  | here, k :: rest =>
    match (t.get here.symbol).children[k]? with
    | some child => placeAlong t ⟨child, here.name ++ "." ++ (t.get child).name⟩ rest
    | none => here

theorem flatMap_elim {α β γ : Type} (f : α → Option β) (g : β → List γ) (l : List α) :
    (l.flatMap fun a => (f a).elim [] g) = (l.filterMap f).flatMap g := by
  induction l with
  | nil => rfl
  | cons a rest ih =>
    rw [List.flatMap_cons, ih, List.filterMap_cons]
    cases f a <;> rfl

/-- What is visited along the paths from a visit: first its place, then what is visited along the
paths from its children. -/
theorem map_placeAlong_pathsFrom (v : Visit) :
    (t.pathsFrom v).map (t.placeAlong v.toNamedSymbol) =
      v.toNamedSymbol :: ((t.get v.symbol).children.filterMap (t.visitChild? v)).flatMap fun c =>
        (t.pathsFrom c).map (t.placeAlong c.toNamedSymbol) := by
  rw [pathsFrom, pathsWithin, List.map_cons, List.map_flatMap]
  have along : ∀ entry ∈ (t.get v.symbol).children.zipIdx,
      (if entry.1 ∈ v.symbol :: v.above then []
        else (t.pathsWithin (t.room v.above) (v.symbol :: v.above) entry.1).map
          (entry.2 :: ·)).map (t.placeAlong v.toNamedSymbol) =
        (t.visitChild? v entry.1).elim [] fun c =>
          (t.pathsFrom c).map (t.placeAlong c.toNamedSymbol) := by
    rintro ⟨child, k⟩ member
    have found := List.mem_zipIdx_iff_getElem?.mp member
    unfold visitChild?
    dsimp only
    split
    · rfl
    · rw [room_cons (lt_size_of_child found) v.fresh, List.map_map]
      apply List.map_congr_left
      intro rest _
      simp [placeAlong, found]
  have children : (t.get v.symbol).children.zipIdx.flatMap (fun entry =>
      (t.visitChild? v entry.1).elim [] fun c =>
        (t.pathsFrom c).map (t.placeAlong c.toNamedSymbol)) =
      ((t.get v.symbol).children.filterMap (t.visitChild? v)).flatMap fun c =>
        (t.pathsFrom c).map (t.placeAlong c.toNamedSymbol) := by
    rw [← flatMap_elim, ← List.zipIdx_map_fst 0 (t.get v.symbol).children, List.flatMap_map,
      List.zipIdx_map_fst]
  exact congrArg _ ((List.flatMap_congr along).trans children)

theorem walk_eq (stack : List Visit) :
    t.walk stack = stack.flatMap fun v => (t.pathsFrom v).map (t.placeAlong v.toNamedSymbol) := by
  induction stack using walk.induct t with
  | case1 => rw [walk, List.flatMap_nil]
  | case2 v stack ih =>
    rw [walk, ih, pushChildren_eq, List.flatMap_append, List.flatMap_cons,
      map_placeAlong_pathsFrom, List.cons_append]

/-- A path leads to the last of its symbols, under the names of all of them; what stands before
the first name stays in front. -/
theorem placeAlong_eq {here : SymbolId} {path : List Nat} {visited : List SymbolId}
    (along : t.visited? here path = some visited) (front : String) :
    ∃ last, visited.getLast? = some last ∧
      t.placeAlong ⟨here, front ++ (t.get here).name⟩ path =
        ⟨last, front ++ ".".intercalate (visited.map fun id => (t.get id).name)⟩ := by
  induction path generalizing here visited front with
  | nil =>
    cases along
    exact ⟨here, rfl, by simp [placeAlong]⟩
  | cons k rest ih =>
    obtain ⟨child, tail, found, onward, rfl⟩ := visited?_cons.mp along
    obtain ⟨last, atEnd, place⟩ := ih onward (front ++ (t.get here).name ++ ".")
    obtain ⟨others, rfl⟩ := eq_cons_of_visited? onward
    refine ⟨last, by rwa [List.getLast?_cons_cons], ?_⟩
    rw [placeAlong]
    dsimp only
    rw [found]
    dsimp only
    rw [place]
    simp [String.append_assoc]

/-! ### Candidates -/

theorem forall₂_filter_filterMap {α β : Type} (f : α → Option β) (l : List α) :
    List.Forall₂ (fun a b => a ∈ l ∧ f a = some b) (l.filter fun a => (f a).isSome)
      (l.filterMap f) := by
  induction l with
  | nil => exact List.Forall₂.nil
  | cons a rest ih =>
    have later := ih.imp fun x b given => And.intro (List.mem_cons_of_mem a given.1) given.2
    cases here : f a with
    | none => simpa [List.filter_cons, List.filterMap_cons, here] using later
    | some b =>
      rw [List.filter_cons_of_pos (by simp [here]), List.filterMap_cons_some here]
      exact List.Forall₂.cons ⟨List.mem_cons_self, here⟩ later

def rootPaths (t : SymbolTree) : List (List Nat) := t.pathsFrom t.rootVisit

theorem mem_rootPaths {path : List Nat} :
    path ∈ t.rootPaths ↔ ∃ visited, t.visited? root path = some visited ∧ visited.Nodup := by
  refine (mem_pathsWithin List.not_mem_nil).trans ?_
  simp only [List.not_mem_nil, not_false_eq_true, implies_true, and_true]
  rfl

theorem candidates_all_eq (settings : Settings) :
    t.candidates settings .all =
      t.rootPaths.filterMap fun path => t.candidateAt? settings (t.placeAlong t.namedRoot path) := by
  rw [candidates, allPaths, walk_eq, List.flatMap_singleton, documented, List.filterMap_map]
  rfl

theorem candidateAt?_placeAlong {settings : Settings} {path : List Nat} {c : Candidate}
    (simple : path ∈ t.rootPaths) :
    t.candidateAt? settings (t.placeAlong t.namedRoot path) = some c ↔
      t.TestedAlong settings path c := by
  obtain ⟨visited, along, distinct⟩ := mem_rootPaths.mp simple
  obtain ⟨last, atEnd, place⟩ := placeAlong_eq along ""
  have place : t.placeAlong t.namedRoot path =
      ⟨last, ".".intercalate (visited.map fun id => (t.get id).name)⟩ := by
    simpa [namedRoot] using place
  rw [candidateAt?, place, isSkipped]
  constructor
  · intro given
    split at given
    · cases given
    · next kept =>
      obtain ⟨source, documented, rfl⟩ := Option.map_eq_some_iff.mp given
      have kept := by simpa using kept
      exact ⟨⟨visited, along, distinct, atEnd, rfl⟩, documented, kept.1, kept.2⟩
  · rintro ⟨⟨visited', along', -, atEnd', name⟩, documented, kept, keptQualified⟩
    rw [along] at along'
    cases along'
    rw [atEnd] at atEnd'
    cases atEnd'
    simp only [← name, kept, keptQualified, documented, Bool.or_self, Bool.false_eq_true, if_false,
      Option.map_some]

end DocExamples.SymbolTree
