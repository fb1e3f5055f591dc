import DocExamples.Proofs.Script.ArrayReads
import DocExamples.Proofs.Script.ElementKinds
/-!
Arrays and their elements as values: the elements of well-kinded arrays compare, add up and print as
the array does.
-/
namespace DocExamples.Script

open Binary64

/-- A number that is of the kind, and an integer of sixty-four bits if it is to be whole. -/
structure ElementKind.Fits (kind : ElementKind) (x : Float) : Prop where
  holds : kind.Holds x
  inWord : kind = .int → InWord x

/-- A well-kinded array whose whole numbers are integers of sixty-four bits. -/
def Tensor.Fits (t : Tensor) : Prop := ∀ x ∈ t.data, t.kind.Fits x

variable {kind other : ElementKind} {x y x' y' : Float}

/-! ### Elements as numbers -/

/-- Truth values and whole numbers are integers as elements. -/
theorem exists_asInt (holds : kind.Holds x) (whole : kind ≠ .float) :
    ∃ n, (Tensor.elementValue kind x).asInt? = some n ∧ n.toInt = (toInt64 x).toInt := by
  cases kind with
  | float => exact absurd rfl whole
  | int => exact ⟨toInt64 x, rfl, rfl⟩
  | bool =>
    rcases ElementKind.eq_of_holds_bool holds with rfl | rfl | rfl
    · exact ⟨0, by decide +kernel, by decide +kernel⟩
    · exact ⟨0, by decide +kernel, by decide +kernel⟩
    · exact ⟨1, by decide +kernel, by decide +kernel⟩

theorem ElementKind.Fits.represents (fits : kind.Fits x) (whole : kind ≠ .float) :
    Represents (toInt64 x).toInt x.toModel.unpack := by
  have isWhole := fits.holds.isWhole whole
  cases kind with
  | float => exact absurd rfl whole
  | int => exact represents_toInt64 isWhole (fits.inWord rfl)
  | bool =>
    apply represents_of_small isWhole
    rcases ElementKind.eq_of_holds_bool fits.holds with rfl | rfl | rfl <;> decide +kernel

theorem asNumber_of_asInt {v : Value} {n : Int64} (isInteger : v.asInt? = some n) :
    v.asNumber? = some (ofInt n.toInt) := by
  cases v with
  | int i =>
    cases isInteger
    rfl
  | bool b =>
    cases isInteger
    cases b <;> decide +kernel
  | none | float | str | list | tuple | dict | tensor | function | builtin | method | module
  | exceptionType | exception => cases isInteger

/-- An element is the number in the array, up to the sign of a zero. -/
theorem exists_asNumber (fits : kind.Fits x) :
    ∃ y, (Tensor.elementValue kind x).asNumber? = some y ∧ (y = x ∨ (y == x) = true) := by
  by_cases float : kind = .float
  · subst float
    exact ⟨x, rfl, .inl rfl⟩
  · obtain ⟨n, isInteger, same⟩ := exists_asInt fits.holds float
    refine ⟨_, asNumber_of_asInt isInteger, .inr ?_⟩
    rw [same]
    exact ofInt_of_represents (fits.represents float)

theorem ordering_eq (left : x' = x ∨ (x' == x) = true) (right : y' = y ∨ (y' == y) = true) :
    ordering? x' y' = ordering? x y := by
  have first : ordering? x' y' = ordering? x y' := by
    rcases left with rfl | same
    · rfl
    · exact (ordering_congr same y').1
  have second : ordering? x y' = ordering? x y := by
    rcases right with rfl | same
    · rfl
    · exact (ordering_congr same x).2
  exact first.trans second

/-! ### Comparisons -/

theorem orderFloats_eq (x y : Float) : orderFloats x y = ordering? x y := by
  unfold orderFloats
  have swapped := ordering_swap x y
  simp only [lt_iff, beq_eq, swapped]
  cases ordering? x y with
  | none => rfl
  | some o => cases o <;> rfl

/-- The operators that compare by order. -/
def CompareOp.Orders (op : CompareOp) : Prop := op ∉ [.isIn, .notIn, .is, .isNot]

instance : DecidablePred CompareOp.Orders := fun _ => inferInstanceAs (Decidable (_ ∉ _))

/-- What an operator says of two elements of arrays is read off their order. -/
theorem onFloats_eq (op : CompareOp) (x y : Float) :
    op.onFloats x y = match op with
      | .eq => ordering? x y == some .eq
      | .notEq => ordering? x y != some .eq
      | op => (ordering? x y).any op.holds := by
  have swapped := ordering_swap x y
  cases op <;> simp only [CompareOp.onFloats, bne, beq_eq, lt_iff, le_iff, gt_iff_lt, ge_iff_le,
    swapped] <;> cases ordering? x y with
  | none => rfl
  | some o => cases o <;> rfl

/-- Elements that are integers are ordered as these. -/
theorem ordering_elements {n m : Int64} (left : kind.Fits x) (right : other.Fits y)
    (first : (Tensor.elementValue kind x).asInt? = some n)
    (second : (Tensor.elementValue other y).asInt? = some m) :
    ordering? x y = some (compare n.toInt m.toInt) := by
  have integer {kind : ElementKind} {x : Float} {n : Int64} (fits : kind.Fits x)
      (isInteger : (Tensor.elementValue kind x).asInt? = some n) :
      Represents n.toInt x.toModel.unpack := by
    have whole : kind ≠ .float := by
      rintro rfl
      cases isInteger
    obtain ⟨n', isInteger', same⟩ := exists_asInt fits.holds whole
    rw [isInteger] at isInteger'
    cases isInteger'
    exact same ▸ fits.represents whole
  exact ordering_of_represents (integer left first) (integer right second)

theorem order_elements (op : CompareOp) (left : kind.Fits x) (right : other.Fits y) :
    order op (Tensor.elementValue kind x) (Tensor.elementValue other y) = .ok (ordering? x y) := by
  have scalars : order op (Tensor.elementValue kind x) (Tensor.elementValue other y) =
      orderScalars op (Tensor.elementValue kind x) (Tensor.elementValue other y) := by
    cases kind <;> cases other <;> rfl
  obtain ⟨x', first, sameLeft⟩ := exists_asNumber left
  obtain ⟨y', second, sameRight⟩ := exists_asNumber right
  rw [scalars]
  unfold orderScalars
  split
  · next n m first second => rw [ordering_elements left right first second]
  · simp only [first, second, orderFloats_eq, ordering_eq sameLeft sameRight]

theorem equals_elements (left : kind.Fits x) (right : other.Fits y) :
    (Tensor.elementValue kind x).equals (Tensor.elementValue other y) =
      (ordering? x y == some .eq) := by
  obtain ⟨x', first, sameLeft⟩ := exists_asNumber left
  obtain ⟨y', second, sameRight⟩ := exists_asNumber right
  have numbers : (x' == y') = (ordering? x y == some .eq) := by
    rw [beq_eq, ordering_eq sameLeft sameRight]
  by_cases whole : kind = .int ∧ other = .int
  · obtain ⟨rfl, rfl⟩ := whole
    rw [ordering_elements left right rfl rfl]
    simp only [Tensor.elementValue, Value.equals, Value.equalScalars]
    rw [Bool.eq_iff_iff, beq_iff_eq, beq_iff_eq, Option.some.injEq, Int.compare_eq_eq,
      Int64.toInt_inj]
  · rw [← numbers]
    cases kind <;> cases other <;> cases first <;> cases second <;>
      first
      | exact absurd ⟨rfl, rfl⟩ whole
      | simp only [Tensor.elementValue, Value.equals, Value.equalScalars, Value.asNumber?]

theorem compareValues_elements {op : CompareOp} (orders : op.Orders) (left : kind.Fits x)
    (right : other.Fits y) :
    compareValues op (Tensor.elementValue kind x) (Tensor.elementValue other y) =
      .ok (.bool (op.onFloats x y)) := by
  have byOrder (op : CompareOp)
      (scalars : compareValues op (Tensor.elementValue kind x) (Tensor.elementValue other y) = (do
        return .bool ((← order op (Tensor.elementValue kind x)
          (Tensor.elementValue other y)).any op.holds)))
      (same : op.onFloats x y = (ordering? x y).any op.holds) :
      compareValues op (Tensor.elementValue kind x) (Tensor.elementValue other y) =
        .ok (.bool (op.onFloats x y)) := by
    rw [scalars, order_elements op left right, same]
    rfl
  cases op with
  | isIn | notIn | is | isNot => exact absurd (by decide) orders
  | eq =>
    have scalars : compareValues .eq (Tensor.elementValue kind x) (Tensor.elementValue other y) =
        .ok (.bool ((Tensor.elementValue kind x).equals (Tensor.elementValue other y))) := by
      cases kind <;> cases other <;> rfl
    rw [scalars, equals_elements left right]
    rfl
  | notEq =>
    have scalars : compareValues .notEq (Tensor.elementValue kind x) (Tensor.elementValue other y) =
        .ok (.bool (!(Tensor.elementValue kind x).equals (Tensor.elementValue other y))) := by
      cases kind <;> cases other <;> rfl
    rw [scalars, equals_elements left right]
    rfl
  | less => exact byOrder .less (by cases kind <;> cases other <;> rfl) (onFloats_eq _ x y)
  | lessEq => exact byOrder .lessEq (by cases kind <;> cases other <;> rfl) (onFloats_eq _ x y)
  | greater => exact byOrder .greater (by cases kind <;> cases other <;> rfl) (onFloats_eq _ x y)
  | greaterEq =>
    exact byOrder .greaterEq (by cases kind <;> cases other <;> rfl) (onFloats_eq _ x y)

theorem Tensor.mem_of_reads {t : Tensor} {positions : List Nat} {xs : List Float}
    (reads : t.Reads positions xs) : ∀ x ∈ xs, x ∈ t.data := by
  intro x member
  have found : some x ∈ positions.map (t.data[·]?) := by
    rw [reads]
    exact List.mem_map_of_mem member
  obtain ⟨p, -, here⟩ := List.mem_map.mp found
  exact Array.mem_of_getElem? here

/-- A comparison of arrays says of every two elements what a comparison of these says. -/
theorem compare_elements {op : CompareOp} (orders : op.Orders) {left right : Value}
    {a b result : Tensor} (first : Tensor.ofValue left = .ok a) (second : Tensor.ofValue right = .ok b)
    (shapedLeft : a.WellShaped) (shapedRight : b.WellShaped) (fitsLeft : a.Fits) (fitsRight : b.Fits)
    (given : compareValues op left right = .ok (.tensor result)) :
    ∃ xs ys,
      a.Reads ((List.range result.size).map
        (sourcePosition result.shape (padShape (max a.dimensions b.dimensions) a.shape))) xs ∧
      b.Reads ((List.range result.size).map
        (sourcePosition result.shape (padShape (max a.dimensions b.dimensions) b.shape))) ys ∧
      List.zipWith (fun x y => compareValues op (Tensor.elementValue a.kind x)
        (Tensor.elementValue b.kind y)) xs ys = result.elements.map .ok := by
  have arrays : compareTensors op left right = .ok (.tensor result) := by
    have ordered : compareOrdered op left right = .ok (.tensor result) := by
      cases op with
      | isIn | notIn | is | isNot => exact absurd (by decide) orders
      | eq | notEq | less | lessEq | greater | greaterEq => exact given
    unfold compareOrdered at ordered
    split at ordered
    · exact ordered
    · exact ordered
    · split at ordered
      · cases ordered
      · cases ordered
      · obtain ⟨o, -, other⟩ := bind_eq_ok.mp ordered
        cases other
  obtain ⟨a', first', arrays⟩ := bind_eq_ok.mp arrays
  obtain ⟨b', second', arrays⟩ := bind_eq_ok.mp arrays
  obtain ⟨result', made, same⟩ := bind_eq_ok.mp arrays
  cases first.symm.trans first'
  cases second.symm.trans second'
  cases same
  obtain ⟨kind, -⟩ := Tensor.mem_broadcast _ made
  obtain ⟨xs, ys, readsLeft, readsRight, data⟩ := exists_of_broadcast shapedLeft shapedRight made
  refine ⟨xs, ys, readsLeft, readsRight, ?_⟩
  have truth (c : Bool) : Tensor.elementValue .bool (ofBool c) = .bool c :=
    congrArg Value.bool (by cases c <;> decide +kernel)
  rw [Tensor.elements, data, kind, List.map_map, List.map_zipWith, ← List.map_uncurry_zip_eq_zipWith,
    ← List.map_uncurry_zip_eq_zipWith]
  refine List.map_congr_left fun both member => ?_
  obtain ⟨here, there⟩ := List.of_mem_zip member
  have same := compareValues_elements orders (fitsLeft _ (Tensor.mem_of_reads readsLeft _ here))
    (fitsRight _ (Tensor.mem_of_reads readsRight _ there))
  exact same.trans (congrArg Except.ok (truth _).symm)

/-! ### Sums -/

theorem sumTensor_eq {t : Tensor} (whole : t.kind ≠ .float) :
    sumTensor t = .int (toInt64 (Binary64.sum t.data.toList)) := by
  unfold sumTensor reducedValue
  cases kind : t.kind with
  | bool | int => rfl
  | float => exact absurd kind whole

/-- The sum of an array is the sum, as doubles, of the numbers that its elements are. -/
theorem sumTensor_numbers {t : Tensor} (fits : t.Fits) (whole : t.kind ≠ .float) :
    ∃ ys, t.elements.map Value.asNumber? = ys.map some ∧
      sumTensor t = .int (toInt64 (Binary64.sum ys)) := by
  have numbers (xs : List Float) (fits : ∀ x ∈ xs, t.kind.Fits x) : ∃ ys,
      (xs.map (Tensor.elementValue t.kind)).map Value.asNumber? = ys.map some ∧
        List.Forall₂ (fun y x => Alike y.toModel.unpack x.toModel.unpack) ys xs := by
    induction xs with
    | nil => exact ⟨[], rfl, .nil⟩
    | cons x rest ih =>
      obtain ⟨here, others⟩ := List.forall_mem_cons.mp fits
      obtain ⟨ys, same, alike⟩ := ih others
      obtain ⟨y, number, equal⟩ := exists_asNumber here
      refine ⟨y :: ys, ?_, .cons ?_ alike⟩
      · rw [List.map_cons, List.map_cons, List.map_cons, number, same]
      · rcases equal with rfl | equal
        · exact .inl rfl
        · exact alike_of_beq equal
  obtain ⟨ys, same, alike⟩ := numbers t.data.toList fun x member =>
    fits x (Array.mem_toList_iff.mp member)
  refine ⟨ys, same, ?_⟩
  rw [sumTensor_eq whole, ← toInt64_congr (alike_sum alike)]

/-- Adding up elements from a number on, as long as the total stays below `2 ^ 53`. -/
theorem foldlM_elements {xs : List Float} (holds : ∀ x ∈ xs, kind.Holds x) (whole : kind ≠ .float)
    (n : Int64)
    (small : n.toInt.natAbs + (xs.map fun x => (toInt64 x).toInt.natAbs).sum < 2 ^ 53) :
    ∃ m : Int64, m.toInt = n.toInt + (xs.map fun x => (toInt64 x).toInt).sum ∧
      (xs.map (Tensor.elementValue kind)).foldlM (binary .add) (.int n) = .ok (.int m) := by
  induction xs generalizing n with
  | nil => exact ⟨n, (Int.add_zero _).symm, rfl⟩
  | cons x rest ih =>
    obtain ⟨here, others⟩ := List.forall_mem_cons.mp holds
    obtain ⟨i, isInteger, value⟩ := exists_asInt here whole
    rw [List.map_cons, List.sum_cons] at small
    have fits : Integer.fits (n.toInt + i.toInt) = true := by
      rw [Integer.fits_iff, Integer.least, Integer.greatest, value]
      omega
    have total := Integer.toInt_ofInt fits
    obtain ⟨m, sum, added⟩ := ih others (Int64.ofInt (n.toInt + i.toInt)) (by rw [total]; omega)
    refine ⟨m, ?_, ?_⟩
    · rw [sum, total, value, List.map_cons, List.sum_cons, Int.add_assoc]
    · have step : binary .add (.int n) (Tensor.elementValue kind x) =
          .ok (.int (Int64.ofInt (n.toInt + i.toInt))) := by
        have scalar : binary .add (.int n) (Tensor.elementValue kind x) =
            scalarBinary .add (.int n) (Tensor.elementValue kind x) := by
          cases kind <;> rfl
        rw [scalar, scalarBinary, isInteger]
        dsimp only [Value.asInt?, intBinary]
        rw [exactInt, Integer.word?_eq_some_iff.mpr total]
        rfl
      rw [List.map_cons, List.foldlM_cons, step]
      exact added

/-- The sum of an array is that of the list of its elements, as long as it stays below `2 ^ 53`. -/
theorem sumOf_elements {t : Tensor} (kinded : t.WellKinded) (whole : t.kind ≠ .float)
    (small : (t.data.toList.map fun x => (toInt64 x).toInt.natAbs).sum < 2 ^ 53) :
    sumOf (.ofList t.elements) = sumOf (.tensor t) := by
  have holds : ∀ x ∈ t.data.toList, t.kind.Holds x := fun x member =>
    kinded x (Array.mem_toList_iff.mp member)
  obtain ⟨m, sum, added⟩ := foldlM_elements holds whole 0 (by simpa using small)
  have wholes : ∀ x ∈ t.data.toList, IsWhole x := fun x member => (holds x member).isWhole whole
  have exact' := (toInt64_sum wholes small).2
  have same : m = toInt64 (Binary64.sum t.data.toList) := by
    rw [← Int64.toInt_inj, exact', sum]
    exact Int.zero_add _
  calc
    sumOf (.ofList t.elements) = .ok (.int m) := added
    _ = sumOf (.tensor t) := by
      rw [same, ← sumTensor_eq whole]
      rfl

/-! ### Texts -/

/-- The texts of truth values and whole numbers in an array are those of its elements. -/
theorem elementTexts_eq (whole : kind ≠ .float) (xs : List Float) :
    elementTexts kind xs = alignRight (xs.map fun x => (Tensor.elementValue kind x).repr) := by
  cases kind with
  | bool | int => rfl
  | float => exact absurd rfl whole

/-! ### All operations -/

/-- Operations make well-kinded arrays of such arrays. -/
structure KindsKept : Prop where
  ofValue (v : Value) : v.ArraysKinded → Ensures Tensor.WellKinded (Tensor.ofValue v)
  reshape (t : Tensor) (shape : List Nat) : t.WellKinded →
    Ensures Tensor.WellKinded (t.reshape shape)
  transpose (t : Tensor) : t.WellKinded → t.transpose.WellKinded
  iterate (v : Value) : v.ArraysKinded →
    Ensures (fun items => ∀ item ∈ items, item.ArraysKinded) v.iterate
  toList (t : Tensor) : t.toList.ArraysKinded
  binary (op : BinaryOp) (left right : Value) : op ≠ .matMul → op ≠ .pow → left.ArraysKinded →
    right.ArraysKinded → Ensures Value.ArraysKinded (binary op left right)
  unary (op : UnaryOp) (v : Value) : v.ArraysKinded → Ensures Value.ArraysKinded (unary op v)
  /-- Whatever is compared. -/
  compare (op : CompareOp) (left right : Value) :
    Ensures Value.ArraysKinded (compareValues op left right)
  getItem (container : Value) (s : Subscript) : container.ArraysKinded →
    Ensures Value.ArraysKinded (getItem container s)
  /-- Assignments to items of lists and dictionaries. -/
  setItem (container v : Value) (s : Subscript) : (∀ t, container ≠ .tensor t) →
    container.ArraysKinded → v.ArraysKinded → s.ArraysKinded →
    Ensures (fun e => (e.apply container).ArraysKinded) (storeEdit container s v)
  absolute (v : Value) : v.ArraysKinded → Ensures Value.ArraysKinded (absolute v)
  rounded (v : Value) : v.ArraysKinded → Ensures Value.ArraysKinded (rounded v none)
  /-- Functions of doubles, rounding functions among them. -/
  onElements (f : Float → Float) (v : Value) : Ensures Value.ArraysKinded (onElements f v)
  zeros (args : List Value) (kwargs : Keywords) :
    Ensures Value.ArraysKinded (filled 0.0 "zeros" args kwargs)
  ones (args : List Value) (kwargs : Keywords) :
    Ensures Value.ArraysKinded (filled 1.0 "ones" args kwargs)
  arange (args : List Value) : Ensures Value.ArraysKinded (arangeOf args)
  linspace (args : List Value) (kwargs : Keywords) :
    Ensures Value.ArraysKinded (linspaceOf args kwargs)

theorem kindsKept : KindsKept where
  ofValue _ kinded := Tensor.wellKinded_parts.tensorOf kinded
  reshape _ _ := Tensor.wellKinded_parts.reshape
  transpose _ := Tensor.wellKinded_parts.transpose
  iterate _ := Tensor.wellKinded_parts.iterate
  toList _ := has_nestedLists _ _ _
  binary _ _ _ := kinded_binary
  unary _ _ := kinded_unary
  compare := kinded_compareValues
  getItem _ _ := Tensor.wellKinded_parts.getItem
  setItem _ _ _ others kinded stored inside :=
    kinded_storeEdit kinded inside stored fun t _ _ same => absurd same (others t)
  absolute _ := kinded_absolute
  rounded _ := kinded_rounded
  onElements := kinded_onElements
  zeros := kinded_filled ElementKind.holds_zero "zeros"
  ones := kinded_filled ElementKind.holds_one "ones"
  arange := kinded_arangeOf
  linspace := kinded_linspaceOf

/-- When the other operations, stores aside, make well-kinded arrays of such arrays. -/
structure KindsKeptWhen : Prop where
  /-- All elements that are cast to whole numbers are finite. -/
  cast (t : Tensor) (kind : ElementKind) :
    (t.cast kind).WellKinded ↔ kind = .int → ∀ x ∈ t.data, x.isFinite = true
  /-- The roundings of all elements to so many places are again of the kind. -/
  rounded (t : Tensor) (places : Int64) : t.WellKinded →
    Ensures (fun v => ∃ result : Tensor, v = .tensor result ∧
        (result.WellKinded ↔ ∀ x ∈ t.data, t.kind.Holds (roundTo places.toInt x)))
      (rounded (.tensor t) (some places))
  /-- Powers of whole numbers, always finite, are whole. -/
  power (left right : Value) : left.ArraysKinded → right.ArraysKinded →
    Ensures (fun v => ∃ result : Tensor, v = .tensor result ∧
        (result.WellKinded ↔ result.kind = .int → ∀ z ∈ result.data, WholeIfFinite z))
      (tensorBinary .pow left right)
  /-- The elements of a product of whole numbers are finite. -/
  matMul (a b : Tensor) : a.WellKinded → b.WellKinded →
    Ensures (fun v => ∃ product : Tensor, v = product.toValue ∧
        (product.WellKinded ↔ product.kind = .int → ∀ z ∈ product.data, z.isFinite = true))
      (matMul a b)
  /-- The sums of whole numbers along an axis are finite. -/
  sumAlong (v axis : Value) : v.ArraysKinded →
    Ensures (fun w => w.isAtomic = true ∨ ∃ sums : Tensor, w = .tensor sums ∧
        (sums.WellKinded ↔ sums.kind = .int → ∀ z ∈ sums.data, z.isFinite = true))
      (sumAlong v axis)

theorem kindsKeptWhen : KindsKeptWhen where
  cast _ _ := wellKinded_cast_iff
  rounded t places kinded := .ok ⟨_, rfl, Tensor.wellKinded_map_iff⟩
  power left right first second := by
    refine (kind_of_tensorBinary (by decide) first second).mono ?_
    rintro _ ⟨t, rfl, notBool, finite, -⟩
    refine ⟨t, rfl, fun kinded whole z member => ?_, fun powers z member => ?_⟩
    · have holds := kinded z member
      rw [whole] at holds
      exact holds.wholeIfFinite
    · cases kind : t.kind with
      | bool => exact absurd kind notBool
      | int => exact isWhole_iff.mpr ⟨finite kind z member, powers kind z member⟩
      | float => trivial
  matMul a b first second := by
    refine (kind_of_matMul first second).mono ?_
    rintro _ ⟨product, rfl, -, kinded⟩
    exact ⟨product, rfl, kinded⟩
  sumAlong _ _ := kind_of_sumAlong

/-- Sums, comparisons and texts of arrays agree with the elements. -/
structure ElementsAgree : Prop where
  /-- A single item that is read is the element there. -/
  item (t : Tensor) (s : Subscript) (p : Nat) : select t s = .ok ⟨[p], []⟩ → p < t.size →
    ∃ v, t.elements[p]? = some v ∧ getItem (.tensor t) s = .ok v
  compare (op : CompareOp) (left right : Value) (a b result : Tensor) : op.Orders →
    Tensor.ofValue left = .ok a → Tensor.ofValue right = .ok b → a.WellShaped → b.WellShaped →
    a.Fits → b.Fits → compareValues op left right = .ok (.tensor result) →
    ∃ xs ys,
      a.Reads ((List.range result.size).map
        (sourcePosition result.shape (padShape (max a.dimensions b.dimensions) a.shape))) xs ∧
      b.Reads ((List.range result.size).map
        (sourcePosition result.shape (padShape (max a.dimensions b.dimensions) b.shape))) ys ∧
      List.zipWith (fun x y => compareValues op (Tensor.elementValue a.kind x)
        (Tensor.elementValue b.kind y)) xs ys = result.elements.map .ok
  /-- The elements are numbers, and their sum as doubles is the sum of the array. -/
  sum (t : Tensor) : t.Fits → t.kind ≠ .float →
    ∃ ys, t.elements.map Value.asNumber? = ys.map some ∧
      sumTensor t = .int (toInt64 (Binary64.sum ys))
  /-- The list of the elements has the same sum, as long as doubles do not round it. -/
  exactSum (t : Tensor) : t.WellKinded → t.kind ≠ .float →
    (t.data.toList.map fun x => (toInt64 x).toInt.natAbs).sum < 2 ^ 53 →
    sumOf (.ofList t.elements) = sumOf (.tensor t)
  texts (t : Tensor) : t.kind ≠ .float → t.isAbbreviated = false →
    t.texts = alignRight (t.elements.map Value.repr)
  abbreviated (t : Tensor) : t.kind ≠ .float → t.isAbbreviated = true →
    let shown := t.elements.take edgeItems ++ t.elements.drop (t.size - edgeItems)
    let texts := alignRight (shown.map Value.repr)
    t.texts = texts.take edgeItems ++ "..." :: texts.drop edgeItems

theorem elementsAgree : ElementsAgree where
  item t s p selected within := by
    have here : t.get p = t.data[p] := by
      rw [Tensor.get, Array.getD_eq_getD_getElem?, Array.getElem?_eq_getElem within]
      rfl
    refine ⟨Tensor.elementValue t.kind (t.get p), ?_, ?_⟩
    · rw [Tensor.elements, List.getElem?_map, Array.getElem?_toList,
        Array.getElem?_eq_getElem within, here]
      rfl
    · simp only [getItem, tensorItem, selected]
      rfl
  compare _ _ _ _ _ _ orders first second shapedLeft shapedRight fitsLeft fitsRight given :=
    compare_elements orders first second shapedLeft shapedRight fitsLeft fitsRight given
  sum _ := sumTensor_numbers
  exactSum _ := sumOf_elements
  texts t whole entire := by
    simp only [Tensor.texts, entire, Bool.false_eq_true, if_false, elementTexts_eq whole,
      Tensor.elements, List.map_map]
    rfl
  abbreviated t whole shortened := by
    simp only [Tensor.texts, shortened, if_true, elementTexts_eq whole, Tensor.elements,
      ← List.map_take, ← List.map_drop, ← List.map_append, List.map_map]
    rfl

/-- An array keeps elements of its kind in a store if and only if the numbers that stay are truth
values in an array of truth values, and finite in one of whole numbers. Which of the other
operations make such arrays, when the rest do, and that sums, comparisons and texts of such arrays
agree with their elements. -/
theorem element_kinds (t : Tensor) (s : Subscript) (v : Value) (selection : Selection)
    (numbers : List Float) (kinded : t.WellKinded) (selected : select t s = .ok selection)
    (found : numbersFor selection.positions.length v = .ok numbers) :
    storeEdit (.tensor t) s v = .ok (.tensor selection.positions numbers) ∧
      ((t.store selection.positions numbers).WellKinded ↔
        ∀ p x, p < t.size → LastAt (selection.positions.zip numbers) p x → t.kind.Accepts x) ∧
      KindsKept ∧ KindsKeptWhen ∧ ElementsAgree := by
  have made : storeEdit (.tensor t) s v = .ok (.tensor selection.positions numbers) :=
    bind_eq_ok.mpr ⟨selection, selected, bind_eq_ok.mpr ⟨numbers, found, rfl⟩⟩
  exact ⟨made, wellKinded_store_iff kinded _ _, kindsKept, kindsKeptWhen, elementsAgree⟩

/-- A truth value is stored among truth values; the array then compares and adds up as these do. -/
theorem element_kinds_truths :
    let before : Tensor := ⟨#[1.0, 0.0], [2], .bool⟩
    let after : Tensor := ⟨#[1.0, 1.0], [2], .bool⟩
    let s : Subscript := .item (.int 1)
    before.WellKinded ∧ storeEdit (.tensor before) s (.bool true) = .ok (.tensor [1] [1.0]) ∧
      before.store [1] [1.0] = after ∧ after.WellKinded ∧
      Ensures Value.ArraysKinded (binary .add (.tensor after) (.tensor after)) ∧
      (∃ v, after.elements[1]? = some v ∧ getItem (.tensor after) s = .ok v) ∧
      (∃ xs ys, after.Reads [0, 1] xs ∧ after.Reads [0, 1] ys ∧
        List.zipWith (fun x y => compareValues .eq (.bool (x != 0.0)) (.bool (y != 0.0))) xs ys =
          [.ok (.bool true), .ok (.bool true)]) ∧
      sumOf (.ofList [.bool true, .bool true]) = sumOf (.tensor after) := by
  intro before after s
  have kinded : before.WellKinded := by
    intro x member
    simp only [before, List.mem_toArray, List.mem_cons, List.not_mem_nil, or_false] at member
    rcases member with rfl | rfl
    · exact ElementKind.holds_one .bool
    · exact ElementKind.holds_zero .bool
  have selected : select before s = .ok ⟨[1], []⟩ := by rfl
  obtain ⟨stored, keeps, kept, -, agree⟩ :=
    element_kinds before s (.bool true) ⟨[1], []⟩ [1.0] kinded selected (by rfl)
  have written : before.store [1] [1.0] = after := by rfl
  have kindedAfter : after.WellKinded := by
    rw [← written]
    refine keeps.mpr fun p x _ last => ?_
    obtain ⟨front, back, same, -⟩ := last
    have alone : [(1, (1.0 : Float))] = front ++ (p, x) :: back := same
    have member : (p, x) ∈ [(1, (1.0 : Float))] := alone ▸ List.mem_append_right _ (.head _)
    obtain ⟨-, rfl⟩ := Prod.mk.inj (List.mem_singleton.mp member)
    exact (ElementKind.holds_one .bool).accepts
  have fits : after.Fits := fun x member => ⟨kindedAfter x member, fun other => nomatch other⟩
  have shaped : after.WellShaped := ⟨rfl, by decide⟩
  have holds : Value.ArraysKinded (.tensor after) := Value.has_tensor.mpr kindedAfter
  have compared : compareValues .eq (.tensor after) (.tensor after) =
      .ok (.tensor ⟨#[ofBool ((1.0 : Float) == 1.0), ofBool ((1.0 : Float) == 1.0)], [2], .bool⟩) := by
    with_unfolding_all rfl
  have same : ((1.0 : Float) == 1.0) = true := by decide +kernel
  rw [same] at compared
  exact ⟨kinded, stored, written, kindedAfter,
    kept.binary .add _ _ (by decide) (by decide) holds holds,
    agree.item after s 1 (by rfl) (by decide),
    agree.compare .eq _ _ after after _ (by decide) rfl rfl shaped shaped fits fits compared,
    agree.exactSum after kindedAfter (by decide) (by decide +kernel)⟩

/-- A number that is stored among truth values stays a number: the element reads as true, and the
sum takes the number. -/
theorem element_kinds_lost :
    let numbers : Tensor := ⟨#[1.0, 2.0], [2], .int⟩
    let before : Tensor := ⟨#[1.0, 0.0], [2], .bool⟩
    let after : Tensor := ⟨#[5.0, 0.0], [2], .bool⟩
    numbers.WellKinded ∧ compareValues .eq (.tensor numbers) (.int 1) = .ok (.tensor before) ∧
      before.WellKinded ∧
      (storeEdit (.tensor before) (.item (.int 0)) (.int 5)).map (·.apply (.tensor before)) =
        .ok (.tensor after) ∧
      ¬after.WellKinded ∧ after.elements = [.bool true, .bool false] ∧
      sumOf (.tensor after) = .ok (.int 5) ∧ sumOf (.ofList after.elements) = .ok (.int 1) ∧
      after.print = "[ True False]" := by
  intro numbers before after
  have kinded : numbers.WellKinded := by
    intro x member
    simp only [numbers, List.mem_toArray, List.mem_cons, List.not_mem_nil, or_false] at member
    rcases member with rfl | rfl
    · exact isWhole_ofInt 1
    · exact isWhole_ofInt 2
  have compared : compareValues .eq (.tensor numbers) (.int 1) =
      .ok (.tensor ⟨#[ofBool ((1.0 : Float) == ofInt 1), ofBool ((2.0 : Float) == ofInt 1)], [2],
        .bool⟩) := by
    with_unfolding_all rfl
  have first : ((1.0 : Float) == ofInt 1) = true := by decide +kernel
  have second : ((2.0 : Float) == ofInt 1) = false := by decide +kernel
  rw [first, second] at compared
  have lost : ¬after.WellKinded := by
    intro kinded
    rcases kinded 5.0 (by simp [after]) with zero | one
    · exact absurd zero (by decide +kernel)
    · exact absurd one (by decide +kernel)
  have total : sumOf (.tensor ⟨#[5.0, 0.0], [2], .bool⟩) = .ok (.int 5) := by rfl
  refine ⟨kinded, compared, ?_, by rfl, lost, by rfl, total, by rfl, by rfl⟩
  exact Value.has_tensor.mp (kinded_compareValues .eq (.tensor numbers) (.int 1) _ compared)

end DocExamples.Script
