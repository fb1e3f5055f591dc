import DocExamples.Proofs.Script.BoundTraits
import Mathlib.Data.List.Forall2
/-!
The shapes of arrays. An array has as many elements as its shape says and no more axes than are
allowed, if this holds of the arrays that it is made from.
-/
namespace DocExamples.Script

/-- As many elements as the shape says, and no more axes than are allowed. -/
structure Tensor.WellShaped (t : Tensor) : Prop where
  size_eq : t.size = volume t.shape
  dimensions_le : t.dimensions ≤ maxDimensions

/-- Every array in the value is well-shaped. -/
abbrev Value.ArraysShaped (v : Value) : Prop := v.Has (.onArrays Tensor.WellShaped)

/-! ### Sizes -/

theorem volume_singleton (n : Nat) : volume [n] = n := Nat.mul_one n

theorem volume_append (first second : List Nat) :
    volume (first ++ second) = volume first * volume second := by
  induction first with
  | nil => exact (Nat.one_mul _).symm
  | cons n rest ih =>
    change n * volume (rest ++ second) = n * volume rest * volume second
    rw [ih, Nat.mul_assoc]

theorem sizeWithin_eq_some {size n : Nat} {shape : List Nat}
    (given : sizeWithin size shape = some n) : n = size * volume shape := by
  induction shape generalizing size with
  | nil =>
    cases given
    exact (Nat.mul_one _).symm
  | cons m rest ih =>
    rw [sizeWithin] at given
    split at given
    · exact (ih given).trans (Nat.mul_assoc size m (volume rest))
    · cases given

theorem ensures_checkedSize (shape : List Nat) :
    Ensures (fun size => size = volume shape ∧ shape.length ≤ maxDimensions)
      (checkedSize shape) := by
  unfold checkedSize
  split
  · exact .error
  · next few =>
    split
    · next size within =>
      split
      · exact .ok ⟨(sizeWithin_eq_some within).trans (Nat.one_mul _), Nat.le_of_not_lt few⟩
      · exact .error
    · exact .error

/-- Row `index` of `n` rows of one length ends where all of them end, or before. -/
theorem row_end_le {index n : Nat} (inside : index < n) (stride : Nat) :
    index * stride + stride ≤ n * stride := by
  rw [← Nat.succ_mul]
  exact Nat.mul_le_mul_right stride inside

/-! ### Nested sequences -/

mutual

/-- The numbers found in a value are as many as its shape says. -/
theorem size_gather : ∀ (v : Value) (g : Gathered),
    (∀ t, (Value.tensor t).Inside v → t.WellShaped) →
    Ensures (fun found => found.1.data.size = g.data.size + volume found.2) (gather v g)
  | .int _, _, _ => .ok (Array.size_push _)
  | .bool _, _, _ => .ok (Array.size_push _)
  | .float _, _, _ => .ok (Array.size_push _)
  | .tensor t, g, shaped => by
    refine .ok ?_
    rw [Array.size_append, ← (shaped t (.here _)).size_eq]
    rfl
  | .list ⟨items⟩, g, shaped => by
    refine .bind (size_gatherAll items none g fun v member t inside => ?_) fun found sized => ?_
    · exact shaped t (.part member inside)
    · exact .pure sized.1
  | .tuple items, g, shaped => by
    refine .bind (size_gatherAll items none g fun v member t inside => ?_) fun found sized => ?_
    · exact shaped t (.part member inside)
    · exact .pure sized.1
  | .none, _, _ => .error
  | .str _, _, _ => .error
  | .dict _, _, _ => .error
  | .function .., _, _ => .error
  | .builtin _, _, _ => .error
  | .method .., _, _ => .error
  | .module _, _, _ => .error
  | .exceptionType _, _, _ => .error
  | .exception .., _, _ => .error

/-- Values that are all of one shape. -/
theorem size_gatherAll : ∀ (items : List Value) (inner : Option (List Nat)) (g : Gathered),
    (∀ v ∈ items, ∀ t, (Value.tensor t).Inside v → t.WellShaped) →
    Ensures (fun found =>
        found.1.data.size = g.data.size + volume (items.length :: found.2.getD []) ∧
          ∀ shape, inner = some shape → found.2 = some shape)
      (gatherAll items inner g)
  | [], inner, g, _ => by
    refine .ok ⟨?_, fun shape first => first⟩
    change g.data.size = g.data.size + 0 * _
    rw [Nat.zero_mul, Nat.add_zero]
  | v :: rest, inner, g, shaped => by
    obtain ⟨here, others⟩ := List.forall_mem_cons.mp shaped
    refine .bind (size_gather v g here) fun found sized => ?_
    obtain ⟨next, shape⟩ := found
    dsimp only at sized ⊢
    split
    · exact .error
    · next agrees =>
      refine .mono (size_gatherAll rest (some shape) next others) fun found later => ?_
      obtain ⟨all, same⟩ := later
      rw [same shape rfl] at all ⊢
      refine ⟨?_, fun first isFirst => ?_⟩
      · rw [all, sized]
        change _ + _ + rest.length * volume shape = _ + (rest.length + 1) * volume shape
        rw [Nat.succ_mul]
        omega
      · rw [isFirst] at agrees
        simpa using Eq.symm (by simpa using agrees : first = shape)

end

namespace Tensor

variable {t a b : Tensor}

theorem wellShaped_ofValue {v : Value}
    (shaped : ∀ t, (Value.tensor t).Inside v → t.WellShaped) : Ensures WellShaped (ofValue v) := by
  unfold ofValue
  split
  · exact .ok (shaped _ (.here _))
  · refine .bind (size_gather _ _ shaped) fun found sized => ?_
    refine .bind (ensures_checkedSize found.2) fun _ checked => .pure ⟨?_, checked.2⟩
    exact sized.trans (Nat.zero_add _)

/-! ### Rows, new shapes and swapped axes -/

theorem size_rowData {n : Nat} {rest : List Nat} {index : Nat} (shaped : t.WellShaped)
    (shape : t.shape = n :: rest) (inside : index < n) :
    (t.rowData index).size = volume rest := by
  have bound := row_end_le inside (volume rest)
  have all : t.data.size = n * volume rest := shaped.size_eq.trans (by rw [shape]; rfl)
  rw [rowData, shape, List.tail_cons, Array.size_extract, all]
  omega

theorem wellShaped_row {n : Nat} {rest : List Nat} {index : Nat} (shaped : t.WellShaped)
    (shape : t.shape = n :: rest) (inside : index < n) :
    WellShaped ⟨t.rowData index, rest, t.kind⟩ where
  size_eq := size_rowData shaped shape inside
  dimensions_le := by
    have few := shaped.dimensions_le
    rw [dimensions, shape, List.length_cons] at few
    exact Nat.le_of_succ_le few

theorem wellShaped_reshape (shape : List Nat) : Ensures WellShaped (t.reshape shape) := by
  refine .bind (ensures_checkedSize shape) fun size checked => ?_
  dsimp only
  split
  · exact .error
  · next same => exact .pure ⟨(Decidable.not_not.mp same).symm.trans checked.1, checked.2⟩

theorem length_columns {α : Type} (rows cols : Nat) (f : Nat → Nat → α) :
    ((List.range cols).flatMap fun c => (List.range rows).map (f c)).length = cols * rows := by
  simp [List.length_flatMap, List.map_const']

theorem wellShaped_transpose (shaped : t.WellShaped) : t.transpose.WellShaped := by
  unfold transpose
  split
  · next rows cols shape =>
    refine ⟨?_, (by decide : 2 ≤ maxDimensions)⟩
    rw [size, List.size_toArray, length_columns]
    exact congrArg (cols * ·) (Nat.mul_one rows).symm
  · exact shaped

/-! ### Two arrays -/

theorem wellShaped_broadcast {kind : ElementKind} {f : Float → Float → Float} :
    Ensures WellShaped (broadcast a b kind f) := by
  unfold broadcast
  dsimp only
  split
  · exact .error
  · next shape _ =>
    refine .bind (ensures_checkedSize shape) fun size checked => .pure ⟨?_, checked.2⟩
    rw [Tensor.size, Array.size_map, Array.size_range]
    exact checked.1

theorem shape_of_dimensions (some : t.dimensions ≠ 0) (few : t.dimensions ≤ 2) :
    (∃ n, t.shape = [n]) ∨ ∃ n m, t.shape = [n, m] := by
  obtain ⟨data, shape, kind⟩ := t
  match shape with
  | [] => exact absurd rfl some
  | [n] => exact .inl ⟨n, rfl⟩
  | [n, m] => exact .inr ⟨n, m, rfl⟩
  | _ :: _ :: _ :: rest => exact absurd few (by simp [dimensions])

/-- The axis of a product that a left factor gives. -/
theorem left_axis (some : t.dimensions ≠ 0) (few : t.dimensions ≤ 2) :
    ∃ rows inner, leftExtent t.shape = (rows, inner) ∧
      (t.shape = [inner] ∧ rows = 1 ∨ t.shape = [rows, inner]) ∧
      volume (if t.dimensions = 2 then [rows] else []) = rows := by
  unfold dimensions
  rcases shape_of_dimensions some few with ⟨n, shape⟩ | ⟨n, m, shape⟩
  · exact ⟨1, n, by rw [shape]; rfl, .inl ⟨shape, rfl⟩, by rw [shape]; rfl⟩
  · exact ⟨n, m, by rw [shape]; rfl, .inr shape, by rw [shape]; exact volume_singleton n⟩

/-- The axis of a product that a right factor gives. -/
theorem right_axis (some : t.dimensions ≠ 0) (few : t.dimensions ≤ 2) :
    ∃ inner cols, rightExtent t.shape = (inner, cols) ∧
      (t.shape = [inner] ∧ cols = 1 ∨ t.shape = [inner, cols]) ∧
      volume (if t.dimensions = 2 then [cols] else []) = cols := by
  unfold dimensions
  rcases shape_of_dimensions some few with ⟨n, shape⟩ | ⟨n, m, shape⟩
  · exact ⟨n, 1, by rw [shape]; rfl, .inl ⟨shape, rfl⟩, by rw [shape]; rfl⟩
  · exact ⟨n, m, by rw [shape]; rfl, .inr shape, by rw [shape]; exact volume_singleton m⟩

/-- The factors of a product agree along the inner axis; a vector is one row on the left and one
column on the right. -/
theorem exists_of_matMul_eq_ok {v : Value} (given : matMul a b = .ok v) :
    ∃ (rows inner cols : Nat) (product : Tensor), v = product.toValue ∧ product.WellShaped ∧
      (a.shape = [inner] ∧ rows = 1 ∨ a.shape = [rows, inner]) ∧
      (b.shape = [inner] ∧ cols = 1 ∨ b.shape = [inner, cols]) ∧
      product.kind = a.kind.join b.kind ∧
      product.data = (Array.range (rows * cols)).map fun position =>
        Binary64.sum ((List.range inner).map fun k =>
          a.get (position / cols * inner + k) * b.get (k * cols + position % cols)) := by
  unfold matMul at given
  dsimp only at given
  split at given
  · cases given
  · next some =>
    split at given
    · cases given
    · next few =>
      obtain ⟨someLeft, someRight⟩ := not_or.mp some
      obtain ⟨fewLeft, fewRight⟩ := not_or.mp few
      obtain ⟨rows, inner, left, leftShape, above⟩ := left_axis someLeft (Nat.le_of_not_lt fewLeft)
      obtain ⟨innerRows, cols, right, rightShape, beside⟩ :=
        right_axis someRight (Nat.le_of_not_lt fewRight)
      rw [left, right] at given
      dsimp only at given
      split at given
      · cases given
      · next agree =>
        rw [Decidable.not_not] at agree
        obtain ⟨size, checked, given⟩ := bind_eq_ok.mp given
        have sized : size = rows * cols :=
          (ensures_checkedSize _ size checked).1.trans (congrArg (rows * ·) (volume_singleton cols))
        subst sized
        cases given
        refine ⟨rows, inner, cols, _, rfl, ⟨?_, ?_⟩, leftShape, ?_, rfl, rfl⟩
        · rw [size, Array.size_map, Array.size_range, volume_append, above, beside]
        · have few : ((if a.dimensions = 2 then [rows] else []) ++
              if b.dimensions = 2 then [cols] else []).length ≤ 2 := by
            split <;> split <;> simp
          exact Nat.le_trans few (by decide)
        · rw [agree]
          exact rightShape

theorem wellShaped_matMul : Ensures (fun v => ∀ t, v = .tensor t → t.WellShaped) (matMul a b) := by
  intro v given t isArray
  obtain ⟨-, -, -, product, rfl, shaped, -⟩ := exists_of_matMul_eq_ok given
  unfold toValue at isArray
  split at isArray
  · revert isArray
    cases product.kind <;> exact fun isArray => nomatch isArray
  · cases isArray
    exact shaped

end Tensor

/-! ### Positions that subscripts choose -/

/-- Every chosen position is one on an axis of that size; an axis that does not stay has one. -/
structure AxisChoice.Fits (size : Nat) (choice : AxisChoice) : Prop where
  within : ∀ p ∈ choice.positions, p < size
  single : choice.stays = false → choice.positions.length = 1

theorem position_lt {index : Int64} {length p : Nat} (found : position? index length = some p) :
    p < length := by
  unfold position? at found
  dsimp only at found
  generalize (if index.toInt < 0 then _ else _) = shifted at found
  split at found
  · next within =>
    cases found
    omega
  · cases found

/-- The numbers of a range by steps lie between its ends. -/
theorem stepRange_lt {length : Nat} {first stop step : Int} (some : step ≠ 0)
    (ends : if 0 < step then 0 ≤ first ∧ stop ≤ length else first < length ∧ -1 ≤ stop) :
    ∀ p ∈ stepRange first stop step, p < length := by
  intro p member
  obtain ⟨k, inside, rfl⟩ := List.mem_map.mp member
  have round := List.mem_range.mp inside
  have steps : 0 ≤ (k : Int) := Int.natCast_nonneg k
  split at ends
  · next upward =>
    rw [if_pos upward] at round
    have within : (k + 1 : Int) ≤ (stop - first + step - 1) / step := by omega
    have reached := (Int.le_ediv_iff_mul_le upward).mp within
    have away := Int.mul_nonneg steps (Int.le_of_lt upward)
    rw [Int.add_mul] at reached
    omega
  · next downward =>
    rw [if_neg downward] at round
    have within : (k + 1 : Int) ≤ (first - stop - step - 1) / (-step) := by omega
    have reached := (Int.le_ediv_iff_mul_le (by omega)).mp within
    have away := Int.mul_nonneg steps (by omega : 0 ≤ -step)
    rw [Int.add_mul, Int.mul_neg] at reached
    rw [Int.mul_neg] at away
    omega

/-- An end of a slice lies within the clamped range if the one for a missing bound does. -/
theorem end_bounds {low high missing : Int} (bound : Option Int64) (shifted : Int64 → Int)
    (least : low ≤ missing) (most : missing ≤ high) :
    low ≤ bound.elim missing (fun i => clamp low high (shifted i)) ∧
      bound.elim missing (fun i => clamp low high (shifted i)) ≤ high := by
  cases bound with
  | none => exact ⟨least, most⟩
  | some i =>
    change low ≤ clamp low high (shifted i) ∧ clamp low high (shifted i) ≤ high
    unfold clamp
    omega

/-- The positions of a slice are a range by steps with its ends within the sequence. -/
theorem exists_stepRange (length : Nat) (start stop step : Option Int64) :
    Ensures (fun positions => ∃ first last step : Int, step ≠ 0 ∧
        (if 0 < step then 0 ≤ first ∧ last ≤ length else first < length ∧ -1 ≤ last) ∧
        positions = stepRange first last step)
      (slicePositions length start stop step) := by
  unfold slicePositions
  generalize step.elim 1 Int64.toInt = step
  dsimp only
  split
  · exact .error
  · next some =>
    split
    · next upward =>
      refine .ok ⟨_, _, step, some, ?_, rfl⟩
      rw [if_pos upward]
      exact ⟨(end_bounds start _ (by omega) (by omega)).1,
        (end_bounds stop _ (by omega) (by omega)).2⟩
    · next downward =>
      refine .ok ⟨_, _, step, some, ?_, rfl⟩
      rw [if_neg downward]
      exact ⟨Int.lt_of_le_sub_one (end_bounds start _ (by omega) (by omega)).2,
        (end_bounds stop _ (by omega) (by omega)).1⟩

theorem ensures_slicePositions (length : Nat) (start stop step : Option Int64) :
    Ensures (fun positions => ∀ p ∈ positions, p < length)
      (slicePositions length start stop step) := by
  refine (exists_stepRange length start stop step).mono ?_
  rintro _ ⟨first, last, step, some, ends, rfl⟩
  exact stepRange_lt some ends

theorem ensures_axisPosition (axis size : Nat) (v : Value) :
    Ensures (· < size) (axisPosition axis size v) := by
  refine .bind .any fun index _ => ?_
  split
  · next p found => exact .pure (position_lt found)
  · exact .error

theorem fits_chooseAlong (axis size : Nat) (s : Subscript) :
    Ensures (AxisChoice.Fits size) (chooseAlong axis size s) := by
  unfold chooseAlong
  split
  · refine .bind (ensures_slicePositions size _ _ _) fun positions within => .pure ⟨within, ?_⟩
    exact fun goes => nomatch goes
  · refine .bind (.mapM fun v _ => ensures_axisPosition axis size v) fun positions within => ?_
    exact .pure ⟨within, fun goes => nomatch goes⟩
  · refine .bind (.mapM fun v _ => ensures_axisPosition axis size v) fun positions within => ?_
    exact .pure ⟨within, fun goes => nomatch goes⟩
  · refine .bind (ensures_axisPosition axis size _) fun p within => .pure ⟨?_, fun _ => rfl⟩
    exact List.forall_mem_singleton.mpr within
  · exact .error

theorem fits_axisChoices (axis : Nat) (shape : List Nat) (subscripts : List Subscript) :
    Ensures (List.Forall₂ AxisChoice.Fits shape) (axisChoices axis shape subscripts) := by
  induction shape generalizing axis subscripts with
  | nil =>
    rw [axisChoices]
    exact .ok .nil
  | cons size rest ih =>
    cases subscripts with
    | nil =>
      refine .bind (ih (axis + 1) []) fun choices fits => .pure (.cons ⟨?_, ?_⟩ fits)
      · exact fun p inside => List.mem_range.mp inside
      · exact fun goes => nomatch goes
    | cons s others =>
      refine .bind (fits_chooseAlong axis size s) fun choice here => ?_
      exact .bind (ih (axis + 1) others) fun choices fits => .pure (.cons here fits)

section Product

variable {shape : List Nat} {choices : List AxisChoice}
  (fits : List.Forall₂ AxisChoice.Fits shape choices)
include fits

/-- A selection has as many positions as the shape of the axes that stay says. -/
theorem length_productPositions :
    (productPositions shape choices).length =
      volume ((choices.filter (·.stays)).map (·.positions.length)) := by
  induction fits with
  | nil => rfl
  | @cons size choice shape choices here _ ih =>
    have length : (productPositions (size :: shape) (choice :: choices)).length =
        choice.positions.length * (productPositions shape choices).length := by
      simp [productPositions, List.length_flatMap, List.map_const']
    rw [length, ih, List.filter_cons]
    split
    · rfl
    · next goes =>
      rw [here.single (eq_false_of_ne_true goes), Nat.one_mul]

theorem productPositions_lt : ∀ p ∈ productPositions shape choices, p < volume shape := by
  induction fits with
  | nil => exact List.forall_mem_singleton.mpr Nat.one_pos
  | @cons size choice shape choices here _ ih =>
    intro p member
    obtain ⟨i, chosen, member⟩ := List.mem_flatMap.mp member
    obtain ⟨q, inner, rfl⟩ := List.mem_map.mp member
    have row := row_end_le (here.within i chosen) (volume shape)
    have := ih q inner
    change _ < size * volume shape
    omega

end Product

/-- A selection has as many positions as its shape says, and not more axes than are allowed. -/
structure Selection.WellShaped (selection : Selection) : Prop where
  length_eq : selection.positions.length = volume selection.shape
  dimensions_le : selection.shape.length ≤ maxDimensions

theorem wellShaped_selectAxes {t : Tensor} (few : t.dimensions ≤ maxDimensions)
    (subscripts : List Subscript) :
    Ensures Selection.WellShaped (selectAxes t subscripts) := by
  unfold selectAxes
  split
  · exact .error
  · refine .bind (fits_axisChoices 0 t.shape subscripts) fun choices fits => .pure ⟨?_, ?_⟩
    · exact length_productPositions fits
    · have axes : ((choices.filter (·.stays)).map (·.positions.length)).length ≤ choices.length := by
        rw [List.length_map]
        exact List.length_filter_le _ _
      exact Nat.le_trans (Nat.le_trans axes (Nat.le_of_eq fits.length_eq.symm)) few

theorem wellShaped_select {t : Tensor} (few : t.dimensions ≤ maxDimensions) (s : Subscript) :
    Ensures Selection.WellShaped (select t s) := by
  unfold select
  split
  · split
    · unfold selectMask
      split
      · exact .error
      · exact .ok ⟨(volume_singleton _).symm, (by decide : 1 ≤ maxDimensions)⟩
    · exact wellShaped_selectAxes few _
  · exact wellShaped_selectAxes few _
  · exact wellShaped_selectAxes few _

namespace Tensor

variable {t : Tensor}

/-! ### The laws -/

/-- An array after numbers are put at positions, one after the other. -/
def written (data : Array Float) (writes : List (Nat × Float)) : Array Float :=
  writes.foldl (fun acc (p, x) => acc.setIfInBounds p x) data

theorem size_written (data : Array Float) (writes : List (Nat × Float)) :
    (written data writes).size = data.size := by
  induction writes generalizing data with
  | nil => rfl
  | cons write rest ih => exact (ih _).trans Array.size_setIfInBounds

theorem size_store (t : Tensor) (positions : List Nat) (numbers : List Float) :
    (t.store positions numbers).size = t.size := by
  unfold store size
  dsimp only
  split
  · exact (Array.size_map ..).trans (size_written _ _)
  · exact size_written _ _

theorem wellShaped_laws : TensorLaws WellShaped where
  ofValue := wellShaped_ofValue
  map _ _ shaped := ⟨(Array.size_map ..).trans shaped.size_eq, shaped.dimensions_le⟩
  row := wellShaped_row
  reshape _ := wellShaped_reshape _
  transpose := wellShaped_transpose
  broadcast _ _ := wellShaped_broadcast
  matMul _ _ := wellShaped_matMul
  selected shaped given := by
    have selection := wellShaped_select shaped.dimensions_le _ _ given
    refine ⟨?_, selection.dimensions_le⟩
    rw [Tensor.size, List.size_toArray, List.length_map, selection.length_eq]
  store positions numbers shaped :=
    ⟨(size_store _ positions numbers).trans shaped.size_eq, shaped.dimensions_le⟩
  vector data _ := ⟨(volume_singleton data.size).symm, (by decide : 1 ≤ maxDimensions)⟩
  sized _ checked := by
    obtain ⟨size, few⟩ := ensures_checkedSize _ _ checked
    exact ⟨size, few⟩

end Tensor

/-- The condition that all arrays are well-shaped. -/
theorem lawful_wellShaped : (Trait.onArrays Tensor.WellShaped).Lawful := Tensor.wellShaped_laws.lawful

/-! ### Operations -/

/-- All arrays in the subscript are well-shaped. -/
abbrev Subscript.ArraysShaped (s : Subscript) : Prop := s.Has (.onArrays Tensor.WellShaped)

/-- From values whose arrays are well-shaped, operations make values of the same kind. -/
structure ShapesKept : Prop where
  ofValue (v : Value) : v.ArraysShaped → Ensures Tensor.WellShaped (Tensor.ofValue v)
  reshape (t : Tensor) (shape : List Nat) : Ensures Tensor.WellShaped (t.reshape shape)
  transpose (t : Tensor) : t.WellShaped → t.transpose.WellShaped
  map (t : Tensor) (kind : ElementKind) (f : Float → Float) :
    t.WellShaped → (t.map kind f).WellShaped
  cast (t : Tensor) (kind : ElementKind) : t.WellShaped → (t.cast kind).WellShaped
  iterate (v : Value) : v.ArraysShaped →
    Ensures (fun items => ∀ item ∈ items, item.ArraysShaped) v.iterate
  toList (t : Tensor) : t.toList.ArraysShaped
  binary (op : BinaryOp) (left right : Value) : left.ArraysShaped → right.ArraysShaped →
    Ensures Value.ArraysShaped (binary op left right)
  unary (op : UnaryOp) (v : Value) : v.ArraysShaped → Ensures Value.ArraysShaped (unary op v)
  compare (op : CompareOp) (left right : Value) : left.ArraysShaped → right.ArraysShaped →
    Ensures Value.ArraysShaped (compareValues op left right)
  getItem (container : Value) (s : Subscript) : container.ArraysShaped →
    Ensures Value.ArraysShaped (getItem container s)
  setItem (container v : Value) (s : Subscript) : container.ArraysShaped → v.ArraysShaped →
    s.ArraysShaped → Ensures (fun e => (e.apply container).ArraysShaped) (storeEdit container s v)
  attributeOf (v : Value) (name : String) : v.ArraysShaped →
    Ensures Value.ArraysShaped (attributeOf v name)
  callMethod (receiver : Value) (name : String) (args : List Value) (kwargs : Keywords) :
    receiver.ArraysShaped → (∀ v ∈ args, v.ArraysShaped) →
    Ensures Value.ArraysShaped (callMethod receiver name args kwargs)
  /-- Among them those that make arrays from bounds, sizes and random numbers, and sums along an
  axis. -/
  builtin (b : Builtin) (args : List Value) (kwargs : Keywords) (m : Machine) :
    m.scopes.All Value.ArraysShaped → (∀ v ∈ args, v.ArraysShaped) →
    Ensures Value.ArraysShaped ((b.call args kwargs).run m).1

theorem shapesKept : ShapesKept where
  ofValue _ shaped := lawful_wellShaped.tensorOf shaped
  reshape _ shape := Tensor.wellShaped_reshape shape
  transpose _ := Tensor.wellShaped_transpose
  map _ := Tensor.wellShaped_laws.map
  cast t kind shaped := by cases kind <;> exact Tensor.wellShaped_laws.map _ _ shaped
  iterate _ := lawful_wellShaped.iterate
  toList _ := has_nestedLists _ _ _
  binary _ _ _ := lawful_wellShaped.binary
  unary _ _ := lawful_wellShaped.unary
  compare _ _ _ := lawful_wellShaped.compareValues
  getItem _ _ := lawful_wellShaped.getItem
  setItem _ _ _ shaped stored inside :=
    (has_storeEdit inside stored).mono fun _ puts => lawful_wellShaped.applyEdit puts shaped
  attributeOf _ := lawful_wellShaped.attributeOf
  callMethod _ name _ _ shaped argsShaped := lawful_wellShaped.callMethod argsShaped name shaped
  builtin b _ kwargs m scopes argsShaped :=
    ((Keeps.sequential lawful_wellShaped).builtinCall b kwargs argsShaped m scopes).2

end DocExamples.Script
