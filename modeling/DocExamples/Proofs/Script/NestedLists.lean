import DocExamples.Proofs.Script.Broadcasting
/-!
Arrays of doubles and nested lists of doubles. An array that has elements is read back from its
nested lists, and from the list of its rows; nested lists of one length on each level are read back
from the array that they are taken for.
-/
namespace DocExamples.Script

variable {shape : List Nat} {v : Value} {xs : List Float} {items : List Value}
  {parts : List (List Float)} {n s : Nat}

/-! ### Lines of one length -/

/-- The first `n` lines of length `s`. -/
def linesOf (n s : Nat) (xs : List Float) : List (List Float) :=
  (List.range n).map fun i => (xs.drop (i * s)).take s

theorem flatten_linesOf (n s : Nat) (xs : List Float) :
    (linesOf n s xs).flatten = xs.take (n * s) := by
  rw [linesOf, ← List.flatMap_def]
  induction n with
  | zero => simp
  | succ n ih =>
    rw [List.range_succ, List.flatMap_append, ih, List.flatMap_singleton, Nat.succ_mul,
      List.take_add]

theorem linesOf_flatten (same : ∀ p ∈ parts, p.length = s) :
    linesOf parts.length s parts.flatten = parts := by
  induction parts with
  | nil => rfl
  | cons p rest ih =>
    obtain ⟨rfl, others⟩ := List.forall_mem_cons.mp same
    rw [linesOf, List.length_cons, List.range_succ_eq_map, List.map_cons, List.map_map,
      List.flatten_cons]
    congr 1
    · simp
    · refine Eq.trans (List.map_congr_left fun i _ => ?_) (ih others)
      rw [Function.comp_apply, Nat.succ_mul, Nat.add_comm, List.drop_length_add_append]

/-- The row behind `i` rows of that length. -/
theorem extract_row (data : Array Float) (i s : Nat) :
    data.extract (i * s) (i * s + s) = ((data.toList.drop (i * s)).take s).toArray := by
  apply Array.toList_inj.mp
  rw [Array.toList_extract, List.extract_eq_take_drop, Nat.add_sub_cancel_left]

theorem nestedLists_cons (kind : ElementKind) (data : Array Float) :
    Tensor.nestedLists kind (n :: shape) data = .ofList
      ((linesOf n (volume shape) data.toList).map fun line =>
        Tensor.nestedLists kind shape line.toArray) := by
  rw [Tensor.nestedLists, linesOf, List.map_map]
  congr 1
  exact List.map_congr_left fun i _ => congrArg _ (extract_row data i _)

/-! ### What is gathered -/

/-- Reading the value adds these doubles and finds this shape. -/
def Gathers (shape : List Nat) (v : Value) (xs : List Float) : Prop :=
  ∀ g, gather v g = .ok (⟨g.data ++ xs.toArray, .float⟩, shape)

theorem gathers_float (x : Float) : Gathers [] (.float x) [x] := fun _ => rfl

theorem gathers_tensor {t : Tensor} (doubles : t.kind = .float) :
    Gathers t.shape (.tensor t) t.data.toList := by
  intro g
  rw [gather, doubles, ElementKind.join, if_pos (.inr rfl), Array.toArray_toList]

theorem gatherAll_eq (each : List.Forall₂ (Gathers shape) items parts) (data : Array Float) :
    gatherAll items (some shape) ⟨data, .float⟩ =
      .ok (⟨data ++ parts.flatten.toArray, .float⟩, some shape) := by
  induction each generalizing data with
  | nil => simp [gatherAll]
  | cons here _ ih =>
    rw [gatherAll, here]
    change (if (shape != shape) = true then _ else _) = _
    rw [bne_self_eq_false, if_neg Bool.false_ne_true]
    refine (ih _).trans ?_
    simp

theorem gatherAll_of_ne_nil (each : List.Forall₂ (Gathers shape) items parts) (some : items ≠ [])
    (g : Gathered) : gatherAll items none g =
      .ok (⟨g.data ++ parts.flatten.toArray, .float⟩, .some shape) := by
  cases each with
  | nil => exact absurd rfl some
  | cons here others =>
    rw [gatherAll, here]
    refine (gatherAll_eq others _).trans ?_
    simp

theorem gathers_list (each : List.Forall₂ (Gathers shape) items parts) (some : items ≠ []) :
    Gathers (items.length :: shape) (.list ⟨items⟩) parts.flatten := by
  intro g
  rw [gather, gatherAll_of_ne_nil each some]
  rfl

/-- A tuple is read as the list of its items. -/
theorem gather_tuple (items : List Value) : gather (.tuple items) = gather (.list ⟨items⟩) := by
  funext g
  rw [gather, gather]

/-- Items that are made from the lines of an array, one from each. -/
theorem gathers_lines {data : Array Float} {item : List Float → Value}
    (size : data.size = n * volume shape) (filled : 0 < n)
    (each : ∀ line ∈ linesOf n (volume shape) data.toList, Gathers shape (item line) line) :
    Gathers (n :: shape) (.ofList ((linesOf n (volume shape) data.toList).map item))
      data.toList := by
  have lines : (linesOf n (volume shape) data.toList).length = n := by simp [linesOf]
  have all : (linesOf n (volume shape) data.toList).flatten = data.toList := by
    rw [flatten_linesOf, ← size]
    exact List.take_length
  have gathered : Gathers (_ :: shape) _ _ := gathers_list
    (List.forall₂_map_left_iff.mpr (List.forall₂_same.mpr each)) (by
      rw [ne_eq, List.map_eq_nil_iff, ← List.length_eq_zero_iff, lines]
      exact filled.ne')
  rwa [List.length_map, lines, all] at gathered

theorem length_of_mem_linesOf {line : List Float} (length : xs.length = n * s)
    (member : line ∈ linesOf n s xs) : line.length = s := by
  obtain ⟨i, inside, rfl⟩ := List.mem_map.mp member
  have row := row_end_le (List.mem_range.mp inside) s
  rw [List.length_take, List.length_drop]
  omega

/-- An array's nested lists give its elements back. -/
theorem gathers_nestedLists {data : Array Float} (size : data.size = volume shape)
    (filled : 0 < volume shape) :
    Gathers shape (Tensor.nestedLists .float shape data) data.toList := by
  induction shape generalizing data with
  | nil =>
    obtain ⟨x, rfl⟩ := Array.size_eq_one_iff.mp size
    exact gathers_float x
  | cons n shape ih =>
    have length : data.toList.length = n * volume shape := size
    rw [nestedLists_cons]
    refine gathers_lines size (Nat.pos_of_mul_pos_right filled) fun line member => ?_
    exact @ih line.toArray (length_of_mem_linesOf length member)
      (Nat.pos_of_mul_pos_left filled)

/-! ### Arrays from nested lists -/

theorem not_tooLarge (filled : 0 < volume shape) (few : volume shape ≤ maxSequenceLength) :
    ¬ TooLarge shape := by
  rintro (many | ⟨front, ⟨rest, rfl⟩, large⟩)
  · exact Nat.not_lt_of_le few many
  · rw [volume_append] at filled few
    have least := Nat.le_mul_of_pos_right (volume front) (Nat.pos_of_mul_pos_left filled)
    have bound : maxSequenceLength < UInt64.size := by decide
    omega

theorem ofValue_of_gathers (gathers : Gathers shape v xs) (nested : ∀ t, v ≠ .tensor t)
    (axes : shape.length ≤ maxDimensions) (filled : 0 < volume shape)
    (few : volume shape ≤ maxSequenceLength) :
    Tensor.ofValue v = .ok ⟨xs.toArray, shape, .float⟩ := by
  unfold Tensor.ofValue
  split
  · next t => exact absurd rfl (nested t)
  · rw [gathers]
    change checkedSize shape >>= _ = _
    rw [checkedSize_of_not_tooLarge axes (not_tooLarge filled few)]
    simp [bind, Except.bind, pure, Except.pure]

theorem nestedLists_ne_tensor (data : Array Float) (t : Tensor) :
    Tensor.nestedLists .float shape data ≠ .tensor t := by
  cases shape <;> simp [Tensor.nestedLists, Tensor.elementValue, Value.ofList]

namespace Tensor

variable {t : Tensor}

theorem ofValue_toList (shaped : t.WellShaped) (doubles : t.kind = .float) (filled : 0 < t.size)
    (few : t.size ≤ maxSequenceLength) : ofValue t.toList = .ok t := by
  obtain ⟨data, shape, kind⟩ := t
  obtain rfl : kind = .float := doubles
  have size : data.size = volume shape := shaped.size_eq
  have filled : 0 < volume shape := size ▸ filled
  exact ofValue_of_gathers (gathers_nestedLists size filled) (nestedLists_ne_tensor data)
    shaped.dimensions_le filled (size ▸ few)

theorem gathers_toValue (doubles : t.kind = .float) (size : t.size = volume t.shape) :
    Gathers t.shape t.toValue t.data.toList := by
  unfold toValue
  split
  · next shape =>
    rw [shape] at size ⊢
    obtain ⟨x, single⟩ := Array.size_eq_one_iff.mp size
    rw [doubles, get, single]
    exact gathers_float x
  · exact gathers_tensor doubles

theorem rows_eq_linesOf (shape' : t.shape = n :: shape) :
    t.rows = (linesOf n (volume shape) t.data.toList).map fun line =>
      toValue ⟨line.toArray, shape, t.kind⟩ := by
  rw [rows, shape', linesOf, List.map_map]
  refine List.map_congr_left fun i _ => congrArg (fun data => toValue ⟨data, shape, t.kind⟩) ?_
  rw [rowData, shape', List.tail_cons]
  exact extract_row t.data i (volume shape)

theorem ofValue_rows (shaped : t.WellShaped) (doubles : t.kind = .float) (filled : 0 < t.size)
    (few : t.size ≤ maxSequenceLength) (axes : t.shape ≠ []) :
    ofValue (.ofList t.rows) = .ok t := by
  obtain ⟨n, shape, isShape⟩ := List.exists_cons_of_ne_nil axes
  have size : t.data.toList.length = n * volume shape := by
    have all := shaped.size_eq
    rwa [isShape] at all
  have some : 0 < n * volume shape := size ▸ filled
  have gathers : Gathers t.shape (.ofList t.rows) t.data.toList := by
    rw [isShape, rows_eq_linesOf isShape]
    refine gathers_lines size (Nat.pos_of_mul_pos_right some) fun line member => ?_
    exact gathers_toValue (t := ⟨line.toArray, shape, t.kind⟩) doubles
      (length_of_mem_linesOf size member)
  have given := ofValue_of_gathers gathers (fun _ => by simp [Value.ofList]) shaped.dimensions_le
    (shaped.size_eq ▸ filled) (shaped.size_eq ▸ few)
  rw [given, Array.toArray_toList, ← doubles]

end Tensor

/-! ### Nested lists -/

/-- Lists and tuples that nest as deep as there are sizes, of these lengths from the outside in,
with doubles inside. None is empty. -/
inductive Rectangular : List Nat → Value → Prop where
  | float (x : Float) : Rectangular [] (.float x)
  | list {shape : List Nat} {items : List Value} : items ≠ [] →
    (∀ v ∈ items, Rectangular shape v) → Rectangular (items.length :: shape) (.list ⟨items⟩)
  | tuple {shape : List Nat} {items : List Value} : items ≠ [] →
    (∀ v ∈ items, Rectangular shape v) → Rectangular (items.length :: shape) (.tuple items)

mutual

/-- A value with tuples read as lists, on every level of nested lists and tuples. -/
def Value.withLists : Value → Value
  | .list ⟨items⟩ | .tuple items => .list ⟨withListsAll items⟩
  | v => v

def withListsAll : List Value → List Value
  | [] => []
  | v :: rest => v.withLists :: withListsAll rest

end

/-- The doubles of nested lists, and that their array has these lists. -/
structure Unfolds (shape : List Nat) (v : Value) (xs : List Float) : Prop where
  gathers : Gathers shape v xs
  length_eq : xs.length = volume shape
  nestedLists_eq : Tensor.nestedLists .float shape xs.toArray = v.withLists

theorem exists_forall₂ {α β : Type} {R : α → β → Prop} {as : List α}
    (each : ∀ a ∈ as, ∃ b, R a b) : ∃ bs, List.Forall₂ R as bs := by
  induction as with
  | nil => exact ⟨[], .nil⟩
  | cons a rest ih =>
    obtain ⟨⟨b, here⟩, others⟩ := List.forall_mem_cons.mp each
    obtain ⟨bs, later⟩ := ih others
    exact ⟨b :: bs, .cons here later⟩

theorem nestedLists_flatten (each : List.Forall₂ (Unfolds shape) items parts) :
    parts.flatten.length = volume (items.length :: shape) ∧
      Tensor.nestedLists .float (items.length :: shape) parts.flatten.toArray =
        .list ⟨withListsAll items⟩ := by
  have lengths := each.length_eq
  obtain ⟨same, lists⟩ : (∀ p ∈ parts, p.length = volume shape) ∧
      parts.map (fun line => Tensor.nestedLists .float shape line.toArray) =
        withListsAll items := by
    clear lengths
    induction each with
    | nil => simp [withListsAll]
    | cons here _ ih =>
      exact ⟨List.forall_mem_cons.mpr ⟨here.length_eq, ih.1⟩, by
        rw [List.map_cons, withListsAll, here.nestedLists_eq, ih.2]⟩
  constructor
  · rw [List.length_flatten, List.map_congr_left same, List.map_const', List.sum_replicate, lengths]
    rfl
  · rw [nestedLists_cons, lengths, linesOf_flatten same, lists]
    rfl

theorem unfolds_float (x : Float) : Unfolds [] (.float x) [x] where
  gathers := gathers_float x
  length_eq := rfl
  nestedLists_eq := by simp [Tensor.nestedLists, Value.withLists, Tensor.elementValue]

theorem exists_unfolds (some : items ≠ []) (each : ∀ w ∈ items, ∃ xs, Unfolds shape w xs) :
    ∃ xs, Unfolds (items.length :: shape) (.list ⟨items⟩) xs := by
  obtain ⟨parts, each⟩ := exists_forall₂ each
  obtain ⟨length, lists⟩ := nestedLists_flatten each
  refine ⟨parts.flatten, gathers_list (each.imp fun _ _ part => part.gathers) some, length, ?_⟩
  rw [lists, Value.withLists]

theorem Unfolds.tuple (list : Unfolds shape (.list ⟨items⟩) xs) :
    Unfolds shape (.tuple items) xs where
  gathers g := by
    rw [gather_tuple]
    exact list.gathers g
  length_eq := list.length_eq
  nestedLists_eq := by rw [list.nestedLists_eq, Value.withLists, Value.withLists]

theorem Rectangular.unfolds (nested : Rectangular shape v) : ∃ xs, Unfolds shape v xs := by
  induction nested with
  | float x => exact ⟨[x], unfolds_float x⟩
  | list some _ ih => exact exists_unfolds some ih
  | tuple some _ ih =>
    obtain ⟨xs, list⟩ := exists_unfolds some ih
    exact ⟨xs, list.tuple⟩

theorem Rectangular.volume_pos (nested : Rectangular shape v) : 0 < volume shape := by
  induction nested with
  | float => exact Nat.one_pos
  | list some _ ih | tuple some _ ih =>
    obtain ⟨item, member⟩ := List.exists_mem_of_ne_nil _ some
    exact Nat.mul_pos (List.length_pos_of_mem member) (ih item member)

theorem Rectangular.ne_tensor (nested : Rectangular shape v) (t : Tensor) : v ≠ .tensor t := by
  rintro rfl
  cases nested

/-- Arrays of doubles that have elements, and nested lists of doubles without empty ones, stand for
each other. The array is read back from its nested lists and from the list of its rows, with all of
its elements, its shape and its kind. Nested lists and tuples that are the same length on each level
are taken for an array of that shape, whose nested lists are they again, with lists for tuples. -/
theorem arrays_and_nested_lists :
    (∀ t : Tensor, t.WellShaped → t.kind = .float → 0 < t.size → t.size ≤ maxSequenceLength →
      Tensor.ofValue t.toList = .ok t ∧
      (t.shape ≠ [] → ∃ rows, (Value.tensor t).iterate = .ok rows ∧
        Tensor.ofValue (.ofList rows) = .ok t)) ∧
    ∀ (shape : List Nat) (v : Value), Rectangular shape v → shape.length ≤ maxDimensions →
      volume shape ≤ maxSequenceLength → ∃ t, Tensor.ofValue v = .ok t ∧ t.WellShaped ∧
        t.shape = shape ∧ t.kind = .float ∧ t.toList = v.withLists := by
  refine ⟨fun t shaped doubles filled few => ⟨?_, fun axes => ⟨t.rows, ?_, ?_⟩⟩, ?_⟩
  · exact Tensor.ofValue_toList shaped doubles filled few
  · rw [Value.iterate, if_neg (by simpa using axes)]
  · exact Tensor.ofValue_rows shaped doubles filled few axes
  · intro shape v nested axes few
    obtain ⟨xs, gathers, length, lists⟩ := nested.unfolds
    exact ⟨_, ofValue_of_gathers gathers nested.ne_tensor axes nested.volume_pos few,
      ⟨length, axes⟩, rfl, rfl, lists⟩

/-- A matrix from its nested lists and from the list of its rows, and one given as a tuple. -/
theorem arrays_and_nested_lists_matrix :
    let t : Tensor := ⟨#[1, 2, 3, 4], [2, 2], .float⟩
    let v : Value := .tuple [.list #[.float 1, .float 2], .tuple [.float 3, .float 4]]
    t.WellShaped ∧ Tensor.ofValue t.toList = .ok t ∧ Tensor.ofValue (.ofList t.rows) = .ok t ∧
      Rectangular [2, 2] v ∧ ∃ u, Tensor.ofValue v = .ok u ∧ u.toList =
        .list #[.list #[.float 1, .float 2], .list #[.float 3, .float 4]] := by
  intro t v
  have shaped : t.WellShaped := ⟨rfl, by decide⟩
  have pair (x y : Float) : ∀ w ∈ [Value.float x, .float y], Rectangular [] w :=
    List.forall_mem_cons.mpr ⟨.float x, List.forall_mem_singleton.mpr (.float y)⟩
  have nested : Rectangular [2, 2] v := by
    refine .tuple (List.cons_ne_nil _ _) (List.forall_mem_cons.mpr ⟨?_,
      List.forall_mem_singleton.mpr ?_⟩)
    · exact .list (List.cons_ne_nil _ _) (pair 1 2)
    · exact .tuple (List.cons_ne_nil _ _) (pair 3 4)
  obtain ⟨fromArray, fromLists⟩ := arrays_and_nested_lists
  obtain ⟨lists, rows⟩ := fromArray t shaped rfl (by decide) (by decide)
  obtain ⟨_, iterated, fromRows⟩ := rows (List.cons_ne_nil _ _)
  cases iterated
  obtain ⟨u, given, -, -, -, back⟩ := fromLists [2, 2] v nested (by decide) (by decide)
  refine ⟨shaped, lists, fromRows, nested, u, given, back.trans ?_⟩
  simp [v, Value.withLists, withListsAll]

end DocExamples.Script
