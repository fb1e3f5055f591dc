import Mathlib
import DocExamples.Proofs.Script.ArrayShapes
/-!
Where operations on arrays read and write. Every position that they compute is one of the array's,
if the arrays that they are given are well-shaped.
-/
namespace DocExamples.Script

/-- The array has all of the positions, and these numbers are at them. -/
def Tensor.Reads (t : Tensor) (positions : List Nat) (xs : List Float) : Prop :=
  positions.map (t.data[·]?) = xs.map some

namespace Tensor

variable {t a b : Tensor}

theorem getElem?_eq_get {p : Nat} (within : p < t.size) : t.data[p]? = some (t.get p) := by
  rw [get, Array.getD_eq_getD_getElem?, Array.getElem?_eq_getElem within]
  rfl

theorem reads_get {positions : List Nat} (within : ∀ p ∈ positions, p < t.size) :
    t.Reads positions (positions.map t.get) := by
  rw [Reads, List.map_map]
  exact List.map_congr_left fun p member => getElem?_eq_get (within p member)

/-- What is read at positions that are computed from other ones. -/
theorem reads_map {α : Type} {items : List α} {position : α → Nat}
    (within : ∀ i ∈ items, position i < t.size) :
    t.Reads (items.map position) (items.map fun i => t.get (position i)) := by
  have reads := reads_get (t := t) (List.forall_mem_map.mpr within)
  rwa [List.map_map] at reads

theorem reads_of_size_eq_one (single : t.size = 1) : t.Reads [0] [t.get 0] :=
  reads_get (List.forall_mem_singleton.mpr (single ▸ Nat.one_pos))

/-- The number in an array without axes. -/
theorem reads_element (shaped : t.WellShaped) (shape : t.shape = []) : t.Reads [0] [t.get 0] :=
  reads_of_size_eq_one (shaped.size_eq.trans (by rw [shape]; rfl))

/-! ### Rows and columns -/

theorem reads_rowData {n : Nat} {rest : List Nat} {index : Nat} (shaped : t.WellShaped)
    (shape : t.shape = n :: rest) (inside : index < n) :
    t.Reads (List.range' (index * volume rest) (volume rest)) (t.rowData index).toList := by
  have bound := row_end_le inside (volume rest)
  have all : t.data.size = n * volume rest := shaped.size_eq.trans (by rw [shape]; rfl)
  have length := size_rowData shaped shape inside
  apply List.ext_getElem
  · simp [length]
  · intro i here there
    rw [List.length_map, List.length_range'] at here
    have within : index * volume rest + i < t.data.size := by omega
    simp [rowData, shape, Array.getElem?_eq_getElem within]

theorem matrix_size {rows cols : Nat} (shaped : t.WellShaped) (shape : t.shape = [rows, cols]) :
    t.size = rows * cols :=
  shaped.size_eq.trans (by rw [shape]; exact congrArg (rows * ·) (volume_singleton cols))

/-- A place in a matrix. -/
theorem place_lt {rows cols r c : Nat} (row : r < rows) (col : c < cols) :
    r * cols + c < rows * cols := by
  have := row_end_le row cols
  omega

/-- The row is found again from where an element of it stands, as the column is by the remainder. -/
theorem place_div {cols c : Nat} (col : c < cols) (r : Nat) : (r * cols + c) / cols = r := by
  rw [Nat.mul_comm, Nat.mul_add_div (Nat.zero_lt_of_lt col), Nat.div_eq_of_lt col, Nat.add_zero]

theorem reads_transpose {rows cols : Nat} (shaped : t.WellShaped)
    (shape : t.shape = [rows, cols]) :
    t.Reads ((List.range cols).flatMap fun c => (List.range rows).map fun r => r * cols + c)
      t.transpose.data.toList := by
  have within : ∀ p ∈ (List.range cols).flatMap fun c => (List.range rows).map fun r => r * cols + c,
      p < t.size := by
    intro p member
    obtain ⟨c, col, member⟩ := List.mem_flatMap.mp member
    obtain ⟨r, row, rfl⟩ := List.mem_map.mp member
    rw [matrix_size shaped shape]
    exact place_lt (List.mem_range.mp row) (List.mem_range.mp col)
  have same : t.transpose.data.toList =
      ((List.range cols).flatMap fun c => (List.range rows).map fun r => r * cols + c).map t.get := by
    rw [List.map_flatMap]
    unfold transpose
    rw [shape]
    simp only [List.map_map]
    rfl
  rw [same]
  exact reads_get within

end Tensor

theorem exists_column_sum {t : Tensor} {rows cols c : Nat} (shaped : t.WellShaped)
    (shape : t.shape = [rows, cols]) (col : c < cols) :
    ∃ xs, t.Reads ((List.range rows).map fun r => r * cols + c) xs ∧
      (columnSums t rows cols)[c]? = some (Binary64.sum xs) := by
  refine ⟨_, Tensor.reads_map fun r row => ?_, ?_⟩
  · rw [Tensor.matrix_size shaped shape]
    exact Tensor.place_lt (List.mem_range.mp row) col
  · simp [columnSums, col]

theorem exists_row_sum {t : Tensor} {rows cols r : Nat} (shaped : t.WellShaped)
    (shape : t.shape = [rows, cols]) (row : r < rows) :
    ∃ xs, t.Reads ((List.range cols).map fun c => r * cols + c) xs ∧
      (rowSums t rows cols)[r]? = some (Binary64.sum xs) := by
  refine ⟨_, Tensor.reads_map fun c col => ?_, ?_⟩
  · rw [Tensor.matrix_size shaped shape]
    exact Tensor.place_lt row (List.mem_range.mp col)
  · simp [rowSums, row]

/-! ### Stretched axes -/

/-- The axis of an operand as long as that of the result, or of size one. -/
def Stretches (size own : Nat) : Prop := own = size ∨ own = 1

theorem volume_padShape (dimensions : Nat) (shape : List Nat) :
    volume (padShape dimensions shape) = volume shape := by
  have ones (n : Nat) : volume (List.replicate n 1) = 1 := by
    induction n with
    | zero => rfl
    | succ n ih => exact (Nat.one_mul _).trans ih
  rw [padShape, volume_append, ones, Nat.one_mul]

theorem stretches_of_alignedShape {left right shape : List Nat} (same : left.length = right.length)
    (aligned : alignedShape? left right = some shape) :
    List.Forall₂ Stretches shape left ∧ List.Forall₂ Stretches shape right := by
  induction left generalizing right shape with
  | nil =>
    obtain rfl := List.length_eq_zero_iff.mp same.symm
    cases aligned
    exact ⟨.nil, .nil⟩
  | cons x xs ih =>
    cases right with
    | nil => cases same
    | cons y ys =>
      rw [alignedShape?] at aligned
      split at aligned
      · next fits =>
        obtain ⟨rest, later, rfl⟩ := Option.map_eq_some_iff.mp aligned
        obtain ⟨first, second⟩ := ih (Nat.succ.inj same) later
        exact ⟨.cons (.inl rfl) first, .cons (fits.imp Eq.symm id) second⟩
      · split at aligned
        · next one =>
          obtain ⟨rest, later, rfl⟩ := Option.map_eq_some_iff.mp aligned
          obtain ⟨first, second⟩ := ih (Nat.succ.inj same) later
          exact ⟨.cons (.inr one) first, .cons (.inl rfl) second⟩
        · cases aligned

/-- The place in an operand of a place in the result. -/
theorem sourcePosition_lt {outer inner : List Nat} {flat : Nat}
    (stretches : List.Forall₂ Stretches outer inner) (within : flat < volume outer) :
    sourcePosition outer inner flat < volume inner := by
  induction stretches generalizing flat with
  | nil => exact Nat.one_pos
  | @cons n m outer inner here _ ih =>
    have some : 0 < volume outer := Nat.pos_of_mul_pos_left (Nat.zero_lt_of_lt within)
    have rest := ih (Nat.mod_lt flat some)
    have along : flat / volume outer < n := Nat.div_lt_of_lt_mul (Nat.mul_comm n _ ▸ within)
    rw [sourcePosition]
    change _ < m * volume inner
    split
    · next one =>
      rw [one, Nat.one_mul, Nat.zero_add]
      exact rest
    · next several =>
      obtain rfl := here.resolve_right several
      have row := row_end_le along (volume inner)
      omega

theorem length_padShape {dimensions : Nat} {shape : List Nat} (few : shape.length ≤ dimensions) :
    (padShape dimensions shape).length = dimensions := by
  rw [padShape, List.length_append, List.length_replicate]
  omega

/-- Both operands have what the result is computed from. -/
theorem exists_of_broadcast {a b result : Tensor} {kind : ElementKind} {f : Float → Float → Float}
    (shapedLeft : a.WellShaped) (shapedRight : b.WellShaped)
    (given : broadcast a b kind f = .ok result) :
    ∃ xs ys,
      a.Reads ((List.range result.size).map
        (sourcePosition result.shape (padShape (max a.dimensions b.dimensions) a.shape))) xs ∧
      b.Reads ((List.range result.size).map
        (sourcePosition result.shape (padShape (max a.dimensions b.dimensions) b.shape))) ys ∧
      result.data.toList = List.zipWith f xs ys := by
  unfold broadcast at given
  dsimp only at given
  split at given
  · cases given
  · next shape aligned =>
    have left := length_padShape (Nat.le_max_left a.dimensions b.dimensions)
    have right := length_padShape (Nat.le_max_right a.dimensions b.dimensions)
    obtain ⟨first, second⟩ := stretches_of_alignedShape (left.trans right.symm) aligned
    obtain ⟨size, checked, given⟩ := bind_eq_ok.mp given
    obtain ⟨rfl, -⟩ := ensures_checkedSize shape size checked
    cases given
    have within {t : Tensor} (shaped : t.WellShaped) {dimensions : Nat}
        (stretches : List.Forall₂ Stretches shape (padShape dimensions t.shape)) :
        ∀ flat ∈ List.range (volume shape),
          sourcePosition shape (padShape dimensions t.shape) flat < t.size := by
      intro flat inside
      rw [shaped.size_eq, ← volume_padShape dimensions]
      exact sourcePosition_lt stretches (List.mem_range.mp inside)
    have reads {t : Tensor} (shaped : t.WellShaped) {dimensions : Nat}
        (stretches : List.Forall₂ Stretches shape (padShape dimensions t.shape)) :=
      Tensor.reads_map (within shaped stretches)
    rw [Tensor.size, Array.size_map, Array.size_range]
    refine ⟨_, _, reads shapedLeft first, reads shapedRight second, ?_⟩
    rw [List.zipWith_map, List.zipWith_self, Array.toList_map, Array.toList_range]

/-- The factors of a product have the row and the column of every entry, and the product has the
entry. -/
theorem exists_of_matMul {a b : Tensor} {v : Value} (shapedLeft : a.WellShaped)
    (shapedRight : b.WellShaped) (given : matMul a b = .ok v) :
    ∃ (rows inner cols : Nat) (product : Tensor), v = product.toValue ∧ product.WellShaped ∧
      ∀ r c, r < rows → c < cols → ∃ xs ys,
        a.Reads ((List.range inner).map fun k => r * inner + k) xs ∧
        b.Reads ((List.range inner).map fun k => k * cols + c) ys ∧
        product.Reads [r * cols + c] [Binary64.sum (List.zipWith (· * ·) xs ys)] := by
  obtain ⟨rows, inner, cols, product, rfl, shaped, left, right, -, data⟩ :=
    Tensor.exists_of_matMul_eq_ok given
  refine ⟨rows, inner, cols, product, rfl, shaped, fun r c row col => ?_⟩
  have sizeLeft : a.size = rows * inner := by
    rcases left with ⟨shape, rfl⟩ | shape
    · rw [shapedLeft.size_eq, shape, volume_singleton, Nat.one_mul]
    · exact Tensor.matrix_size shapedLeft shape
  have sizeRight : b.size = inner * cols := by
    rcases right with ⟨shape, rfl⟩ | shape
    · rw [shapedRight.size_eq, shape, volume_singleton, Nat.mul_one]
    · exact Tensor.matrix_size shapedRight shape
  refine ⟨_, _, Tensor.reads_map fun k inside => ?_, Tensor.reads_map fun k inside => ?_, ?_⟩
  · exact sizeLeft ▸ Tensor.place_lt row (List.mem_range.mp inside)
  · exact sizeRight ▸ Tensor.place_lt (List.mem_range.mp inside) col
  · have place := Tensor.place_lt row col
    have rowOf := Tensor.place_div col r
    have columnOf : (r * cols + c) % cols = c := Nat.mul_add_mod_of_lt col
    simp [Tensor.Reads, data, place, rowOf, columnOf, List.zipWith_map, List.zipWith_self]

/-! ### Selections -/

theorem lt_of_selectMask {t mask : Tensor} (shaped : t.WellShaped) (shapedMask : mask.WellShaped) :
    Ensures (fun selection => ∀ p ∈ selection.positions, p < t.size) (selectMask t mask) := by
  unfold selectMask
  split
  · exact .error
  · next same =>
    refine .ok fun p member => ?_
    have inside := List.mem_range.mp (List.mem_filter.mp member).1
    rwa [shapedMask.size_eq, Decidable.not_not.mp same, ← shaped.size_eq] at inside

theorem lt_of_selectAxes {t : Tensor} (shaped : t.WellShaped) (subscripts : List Subscript) :
    Ensures (fun selection => ∀ p ∈ selection.positions, p < t.size) (selectAxes t subscripts) := by
  unfold selectAxes
  split
  · exact .error
  · refine .bind (fits_axisChoices 0 t.shape subscripts) fun choices fits => .pure ?_
    exact shaped.size_eq ▸ productPositions_lt fits

theorem lt_of_select {t : Tensor} (shaped : t.WellShaped) {s : Subscript}
    (inside : s.ArraysShaped) :
    Ensures (fun selection => ∀ p ∈ selection.positions, p < t.size) (select t s) := by
  unfold select
  split
  · next mask =>
    cases inside with
    | item holds =>
      split
      · exact lt_of_selectMask shaped (Value.has_tensor.mp holds)
      · exact lt_of_selectAxes shaped _
  · exact lt_of_selectAxes shaped _
  · exact lt_of_selectAxes shaped _

theorem length_numbersFor (count : Nat) (v : Value) :
    Ensures (fun numbers => numbers.length = count) (numbersFor count v) := by
  refine .bind .any fun source _ => ?_
  split
  · exact .pure List.length_replicate
  · split
    · next same => exact .pure same
    · exact .error

/-- Where an assignment to items of an array stores, and how many numbers. -/
theorem stores_within {t : Tensor} (shaped : t.WellShaped) {s : Subscript}
    (inside : s.ArraysShaped) (v : Value) :
    Ensures (fun e => ∃ positions numbers, e = .tensor positions numbers ∧
        (∀ p ∈ positions, p < t.size) ∧ numbers.length = positions.length)
      (storeEdit (.tensor t) s v) := by
  refine .bind (lt_of_select shaped inside) fun selection within => ?_
  refine .bind (length_numbersFor selection.positions.length v) fun numbers length => ?_
  exact .pure ⟨_, _, rfl, within, length⟩

/-! ### All positions -/

/-- Operations on well-shaped arrays read and write in range. -/
structure ReadsInRange : Prop where
  element (t : Tensor) : t.WellShaped → t.shape = [] → t.Reads [0] [t.get 0]
  single (t : Tensor) : t.size = 1 → t.Reads [0] [t.get 0]
  row (t : Tensor) (n : Nat) (rest : List Nat) (index : Nat) : t.WellShaped → t.shape = n :: rest →
    index < n →
    t.Reads (List.range' (index * volume rest) (volume rest)) (t.rowData index).toList
  /-- The rows are listed in turn. -/
  toList (t : Tensor) (n : Nat) (rest : List Nat) : t.WellShaped → t.shape = n :: rest →
    t.toList = .ofList ((List.range n).map fun index =>
        Tensor.toList ⟨t.rowData index, rest, t.kind⟩) ∧
      ∀ index < n, Tensor.WellShaped ⟨t.rowData index, rest, t.kind⟩
  transpose (t : Tensor) (rows cols : Nat) : t.WellShaped → t.shape = [rows, cols] →
    t.Reads ((List.range cols).flatMap fun c => (List.range rows).map fun r => r * cols + c)
      t.transpose.data.toList
  broadcast (a b result : Tensor) (kind : ElementKind) (f : Float → Float → Float) :
    a.WellShaped → b.WellShaped → broadcast a b kind f = .ok result →
    ∃ xs ys,
      a.Reads ((List.range result.size).map
        (sourcePosition result.shape (padShape (max a.dimensions b.dimensions) a.shape))) xs ∧
      b.Reads ((List.range result.size).map
        (sourcePosition result.shape (padShape (max a.dimensions b.dimensions) b.shape))) ys ∧
      result.data.toList = List.zipWith f xs ys
  matMul (a b : Tensor) (v : Value) : a.WellShaped → b.WellShaped → matMul a b = .ok v →
    ∃ (rows inner cols : Nat) (product : Tensor), v = product.toValue ∧ product.WellShaped ∧
      ∀ r c, r < rows → c < cols → ∃ xs ys,
        a.Reads ((List.range inner).map fun k => r * inner + k) xs ∧
        b.Reads ((List.range inner).map fun k => k * cols + c) ys ∧
        product.Reads [r * cols + c] [Binary64.sum (List.zipWith (· * ·) xs ys)]
  getItem (t : Tensor) (s : Subscript) (selection : Selection) : t.WellShaped → s.ArraysShaped →
    select t s = .ok selection →
    t.Reads selection.positions (selection.positions.map t.get)
  setItem (t : Tensor) (s : Subscript) (v : Value) : t.WellShaped → s.ArraysShaped →
    Ensures (fun e => ∃ positions numbers, e = .tensor positions numbers ∧
        (∀ p ∈ positions, p < t.size) ∧ numbers.length = positions.length)
      (storeEdit (.tensor t) s v)
  columnSum (t : Tensor) (rows cols c : Nat) : t.WellShaped → t.shape = [rows, cols] → c < cols →
    ∃ xs, t.Reads ((List.range rows).map fun r => r * cols + c) xs ∧
      (columnSums t rows cols)[c]? = some (Binary64.sum xs)
  rowSum (t : Tensor) (rows cols r : Nat) : t.WellShaped → t.shape = [rows, cols] → r < rows →
    ∃ xs, t.Reads ((List.range cols).map fun c => r * cols + c) xs ∧
      (rowSums t rows cols)[r]? = some (Binary64.sum xs)
  /-- The last of evenly spaced numbers, which is stored again. -/
  evenlySpaced (start step : Float) (count : Nat) : 1 < count →
    count - 1 < (spaced start step count).size

theorem readsInRange : ReadsInRange where
  element _ := Tensor.reads_element
  single _ := Tensor.reads_of_size_eq_one
  row _ _ _ _ := Tensor.reads_rowData
  toList t n rest shaped shape := by
    refine ⟨?_, fun index => Tensor.wellShaped_row shaped shape⟩
    rw [Tensor.toList, shape, Tensor.nestedLists]
    simp only [Tensor.toList, Tensor.rowData, shape, List.tail_cons]
  transpose _ _ _ := Tensor.reads_transpose
  broadcast _ _ _ _ _ := exists_of_broadcast
  matMul _ _ _ := exists_of_matMul
  getItem _ _ selection shaped inside given :=
    Tensor.reads_get (lt_of_select shaped inside selection given)
  setItem _ _ v shaped inside := stores_within shaped inside v
  columnSum _ _ _ _ := exists_column_sum
  rowSum _ _ _ _ := exists_row_sum
  evenlySpaced start step count several := by
    rw [spaced, Array.size_map, Array.size_range]
    omega

/-- The arrays of programs. Every operation, evaluation and statement makes well-shaped arrays of
such arrays, and at every point of a session all arrays in bound values are well-shaped; so no
operation on them reads or writes outside of an array. -/
theorem arrays_shaped (limits : Limits) (globals : List (String × String)) (directory : Directory)
    (sources : List String) (rounds levels : Nat) :
    ShapesKept ∧ ReadsInRange ∧
    (∀ e m, m.scopes.All Value.ArraysShaped →
      Ensures Value.ArraysShaped ((evalExpr (callWithin rounds levels) e).run m).1 ∧
        ((evalExpr (callWithin rounds levels) e).run m).2.scopes.All Value.ArraysShaped) ∧
    (∀ s m, m.scopes.All Value.ArraysShaped →
      ((execStmt (callWithin rounds levels) rounds s).run m).2.scopes.All Value.ArraysShaped) ∧
    ∀ front, front <+: sessionSteps limits globals directory sources →
      (replay front .empty).All Value.ArraysShaped := by
  have closed := Keeps.compositional lawful_wellShaped
  have calls := closed.callWithin rounds levels
  refine ⟨shapesKept, readsInRange, fun e m shaped => ?_, fun s m shaped => ?_, fun front => ?_⟩
  · have kept := (closed.evaluative 0).evalExpr calls e
    exact ⟨(kept m shaped).2, kept.after shaped⟩
  · exact ((closed.evaluative 0).execStmt calls rounds s).after shaped
  · exact lawful_wellShaped.throughout

/-- The last column of a bound matrix, from the last row on. -/
theorem arrays_shaped_column :
    let t : Tensor := ⟨#[1, 2, 3, 4, 5, 6], [2, 3], .int⟩
    let s : Subscript := .multi [.slice none none (some (-1)), .item (.int (-1))]
    let m : Machine := { Machine.start .empty with scopes := ⟨[("x", .tensor t)], []⟩ }
    t.WellShaped ∧ s.ArraysShaped ∧ m.scopes.All Value.ArraysShaped ∧
      select t s = .ok ⟨[5, 2], [2]⟩ ∧ t.Reads [5, 2] [6, 3] ∧
      Ensures Value.ArraysShaped ((evalExpr (callWithin 0 0) (.name "x")).run m).1 := by
  intro t s m
  have shaped : t.WellShaped := ⟨rfl, by decide⟩
  have inside : s.ArraysShaped := by
    refine .multi (List.forall_mem_cons.mpr ⟨.slice _ _ _, List.forall_mem_singleton.mpr ?_⟩)
    exact .item (Value.has_of_isAtomic rfl)
  have bound : m.scopes.All Value.ArraysShaped :=
    ⟨List.forall_mem_singleton.mpr (Value.has_tensor.mpr shaped), fun _ none => nomatch none⟩
  have selected : select t s = .ok ⟨[5, 2], [2]⟩ := by cbv
  obtain ⟨-, reads, evaluations, -⟩ := arrays_shaped .defaults [] .empty [] 0 0
  exact ⟨shaped, inside, bound, selected, reads.getItem t s _ shaped inside selected,
    (evaluations _ _ bound).1⟩

end DocExamples.Script
