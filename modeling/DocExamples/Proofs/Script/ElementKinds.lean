import DocExamples.Proofs.ExactDoubles
import DocExamples.Proofs.Script.ArrayShapes
/-!
The kinds of array elements: truth values are zero or one, and whole numbers are finite and have no
fraction. Which operations make such arrays of such arrays, and when the others do.
-/
namespace DocExamples.Script

open Binary64

/-- The numbers that elements of the kind are. -/
def ElementKind.Holds : ElementKind → Float → Prop
  | .bool, x => (x == 0.0) = true ∨ (x == 1.0) = true
  | .int, x => IsWhole x
  | .float, _ => True

/-- The numbers that may be stored among elements of the kind; whole numbers are cut toward zero
there. -/
def ElementKind.Accepts : ElementKind → Float → Prop
  | .bool, x => (x == 0.0) = true ∨ (x == 1.0) = true
  | .int, x => x.isFinite = true
  | .float, _ => True

/-- All elements are of the array's kind. -/
def Tensor.WellKinded (t : Tensor) : Prop := ∀ x ∈ t.data, t.kind.Holds x

/-- The elements of every array in the value are of the array's kind. -/
abbrev Value.ArraysKinded (v : Value) : Prop := v.Has (.onArrays Tensor.WellKinded)

/-- Also for the values that a subscript consists of. -/
abbrev Subscript.ArraysKinded (s : Subscript) : Prop := s.Has (.onArrays Tensor.WellKinded)

/-! ### Elements -/

namespace ElementKind

variable {kind other : ElementKind} {x : Float}

theorem holds_zero (kind : ElementKind) : kind.Holds 0.0 := by
  cases kind with
  | bool => exact .inl (by decide +kernel)
  | int => exact isWhole_zero
  | float => trivial

theorem holds_one (kind : ElementKind) : kind.Holds 1.0 := by
  cases kind with
  | bool => exact .inr (by decide +kernel)
  | int => exact isWhole_one
  | float => trivial

theorem holds_ofBool (kind : ElementKind) (b : Bool) : kind.Holds (ofBool b) := by
  cases b with
  | false => exact kind.holds_zero
  | true => exact kind.holds_one

theorem eq_of_holds_bool (holds : ElementKind.bool.Holds x) : x = 0.0 ∨ x = -0.0 ∨ x = 1.0 := by
  rcases holds with zero | one
  · obtain ⟨-, -, same | ⟨same, -⟩ | ⟨same, -⟩⟩ := Float.beq_iff_ne_nan_and_eq.mp zero
    · exact .inl same
    · exact .inl same
    · exact .inr (.inl same)
  · obtain ⟨-, -, same | ⟨-, other⟩ | ⟨-, other⟩⟩ := Float.beq_iff_ne_nan_and_eq.mp one
    · exact .inr (.inr same)
    · exact absurd (congrArg Float.toBits other) (by decide +kernel)
    · exact absurd (congrArg Float.toBits other) (by decide +kernel)

/-- Truth values are whole numbers. -/
theorem Holds.isWhole (holds : kind.Holds x) (whole : kind ≠ .float) : IsWhole x := by
  cases kind with
  | bool =>
    rcases eq_of_holds_bool holds with rfl | rfl | rfl
    · exact isWhole_zero
    · exact isWhole_zero.neg
    · exact isWhole_one
  | int => exact holds
  | float => exact absurd rfl whole

theorem join_ne_bool (kind other : ElementKind) : kind.join other ≠ .bool := by
  cases kind <;> cases other <;> decide

/-- Elements that are combined with others are of the kind of the result. -/
theorem Holds.join_left (holds : kind.Holds x) (other : ElementKind) : (kind.join other).Holds x := by
  cases kind with
  | bool | int => cases other <;> first | trivial | exact holds.isWhole (by decide)
  | float => trivial

theorem Holds.join_right (holds : kind.Holds x) (other : ElementKind) :
    (other.join kind).Holds x := by
  cases kind with
  | bool | int => cases other <;> first | trivial | exact holds.isWhole (by decide)
  | float => cases other <;> trivial

end ElementKind

namespace Tensor

variable {t a b : Tensor}

/-- Also of what stands in for an element that is not there. -/
theorem WellKinded.holds_get (kinded : t.WellKinded) (p : Nat) : t.kind.Holds (t.get p) := by
  rw [get, Array.getD_eq_getD_getElem?]
  cases found : t.data[p]? with
  | none => exact t.kind.holds_zero
  | some x => exact kinded x (Array.mem_of_getElem? found)

theorem wellKinded_float (data : Array Float) (shape : List Nat) : WellKinded ⟨data, shape, .float⟩ :=
  fun _ _ => trivial

end Tensor

/-! ### Nested sequences -/

/-- The numbers found so far are of the kind of what they combine to. -/
structure Gathered.WellKinded (g : Gathered) : Prop where
  ne_bool : g.kind ≠ .bool
  holds : ∀ x ∈ g.data, g.kind.Holds x

theorem Gathered.WellKinded.push {g : Gathered} (kinded : g.WellKinded) {x : Float}
    (whole : IsWhole x) : WellKinded { g with data := g.data.push x } where
  ne_bool := kinded.ne_bool
  holds y member := by
    rcases Array.mem_push.mp member with before | rfl
    · exact kinded.holds y before
    · have some := kinded.ne_bool
      cases kind : g.kind with
      | bool => exact absurd kind some
      | int => exact whole
      | float => trivial

mutual

theorem wellKinded_gather : ∀ (v : Value) (g : Gathered),
    (∀ t, (Value.tensor t).Inside v → t.WellKinded) → g.WellKinded →
    Ensures (fun found => found.1.WellKinded) (gather v g)
  | .int i, _, _, kinded => .ok (kinded.push (isWhole_ofInt i))
  | .bool b, _, _, kinded => .ok (kinded.push (isWhole_ofBool b))
  | .float _, _, _, _ => .ok ⟨(fun same => nomatch same), fun _ _ => trivial⟩
  | .tensor t, g, arrays, kinded => by
    refine .ok ⟨g.kind.join_ne_bool t.kind, fun x member => ?_⟩
    rcases Array.mem_append.mp member with before | here
    · exact (kinded.holds x before).join_left _
    · exact (arrays t (.here _) x here).join_right _
  | .list ⟨items⟩, g, arrays, kinded => by
    refine .bind (wellKinded_gatherAll items none g (fun v member t inside => ?_) kinded) ?_
    · exact arrays t (.part member inside)
    · exact fun found kinded => .pure kinded
  | .tuple items, g, arrays, kinded => by
    refine .bind (wellKinded_gatherAll items none g (fun v member t inside => ?_) kinded) ?_
    · exact arrays t (.part member inside)
    · exact fun found kinded => .pure kinded
  | .none, _, _, _ => .error
  | .str _, _, _, _ => .error
  | .dict _, _, _, _ => .error
  | .function .., _, _, _ => .error
  | .builtin _, _, _, _ => .error
  | .method .., _, _, _ => .error
  | .module _, _, _, _ => .error
  | .exceptionType _, _, _, _ => .error
  | .exception .., _, _, _ => .error

theorem wellKinded_gatherAll : ∀ (items : List Value) (inner : Option (List Nat)) (g : Gathered),
    (∀ v ∈ items, ∀ t, (Value.tensor t).Inside v → t.WellKinded) → g.WellKinded →
    Ensures (fun found => found.1.WellKinded) (gatherAll items inner g)
  | [], _, _, _, kinded => .ok kinded
  | v :: rest, inner, g, arrays, kinded => by
    obtain ⟨here, others⟩ := List.forall_mem_cons.mp arrays
    refine .bind (wellKinded_gather v g here kinded) fun found kinded => ?_
    dsimp only
    split
    · exact .error
    · exact wellKinded_gatherAll rest _ _ others kinded

end

namespace Tensor

variable {t a b : Tensor}

theorem wellKinded_ofValue {v : Value} (arrays : ∀ t, (Value.tensor t).Inside v → t.WellKinded) :
    Ensures WellKinded (ofValue v) := by
  unfold ofValue
  split
  · exact .ok (arrays _ (.here _))
  · have none : Gathered.WellKinded ⟨#[], .int⟩ :=
      ⟨by decide, fun _ member => absurd member (Array.not_mem_empty _)⟩
    refine .bind (wellKinded_gather _ _ arrays none) fun found kinded => ?_
    exact .bind .any fun _ _ => .pure kinded.holds

/-! ### Parts of arrays -/

theorem wellKinded_parts : TensorParts WellKinded where
  ofValue := wellKinded_ofValue
  row {t n rest index} kinded _ _ x member := by
    have inside := Array.mem_toList_iff.mpr member
    change x ∈ (t.data.extract _ _).toList at inside
    rw [Array.toList_extract, List.extract_eq_take_drop] at inside
    exact kinded x (Array.mem_toList_iff.mp (List.mem_of_mem_drop (List.mem_of_mem_take inside)))
  reshape {t shape} kinded := by
    refine .bind .any fun size _ => ?_
    split
    · exact .error
    · exact .pure kinded
  transpose {t} kinded := by
    unfold transpose
    split
    · intro x member
      simp only [List.mem_toArray, List.mem_flatMap, List.mem_map] at member
      obtain ⟨c, -, r, -, rfl⟩ := member
      exact kinded.holds_get _
    · exact kinded
  selected {t s selection} kinded _ x member := by
    simp only [List.mem_toArray, List.mem_map] at member
    obtain ⟨p, -, rfl⟩ := member
    exact kinded.holds_get p

theorem wellKinded_map_iff {kind : ElementKind} {f : Float → Float} :
    (t.map kind f).WellKinded ↔ ∀ x ∈ t.data, kind.Holds (f x) :=
  Array.forall_mem_map

/-- Every element of the result is computed from one of each array. -/
theorem mem_broadcast {kind : ElementKind} {f : Float → Float → Float} :
    Ensures (fun result => result.kind = kind ∧
      ∀ z ∈ result.data, ∃ p q, z = f (a.get p) (b.get q)) (broadcast a b kind f) := by
  unfold broadcast
  dsimp only
  split
  · exact .error
  · refine .bind .any fun size _ => .pure ⟨rfl, fun z member => ?_⟩
    obtain ⟨flat, -, rfl⟩ := Array.mem_map.mp member
    exact ⟨_, _, rfl⟩

end Tensor

/-! ### Operators -/

theorem isFinite_zeroUnlessFinite (x : Float) : (zeroUnlessFinite x).isFinite = true := by
  unfold zeroUnlessFinite
  split
  · next finite => exact finite
  · exact (isWhole_iff.mp isWhole_zero).1

theorem isWhole_zeroUnlessFinite {x : Float} (whole : WholeIfFinite x) :
    IsWhole (zeroUnlessFinite x) := by
  unfold zeroUnlessFinite
  split
  · next finite => exact isWhole_iff.mpr ⟨finite, whole⟩
  · exact isWhole_zero

/-- Whole operands have whole results, as far as these are finite. -/
theorem wholeIfFinite_elementwise {op : BinaryOp} {f : Float → Float → Float} {x y : Float}
    (same : elementwise? op = some f) (notDiv : op ≠ .div) (notPow : op ≠ .pow) (left : IsWhole x)
    (right : IsWhole y) : WholeIfFinite (f x y) := by
  have first := left.wholeIfFinite
  have second := right.wholeIfFinite
  have quotient : WholeIfFinite (floor (x / y)) := wholeIfFinite_roundWith _ _
  cases op with
  | add =>
    cases same
    exact first.add second
  | sub =>
    cases same
    exact first.sub second
  | mul =>
    cases same
    exact first.mul second
  | floorDiv =>
    cases same
    exact quotient
  | mod =>
    cases same
    exact first.sub (second.mul quotient)
  | div => exact absurd rfl notDiv
  | pow => exact absurd rfl notPow
  | matMul => cases same

/-- The kind of the results of an operator on elements. -/
theorem resultKind_cases (op : BinaryOp) (a b : ElementKind) :
    (if op = .div then .float else a.join b) = .float ∨
      (if op = .div then .float else a.join b) = .int ∧ op ≠ .div ∧ a ≠ .float ∧ b ≠ .float := by
  by_cases division : op = .div
  · exact .inl (if_pos division)
  · rw [if_neg division]
    cases a <;> cases b <;> simp [division, ElementKind.join]

variable {a b : Tensor}

/-- What an operator other than the matrix product makes of two arrays. Whole numbers are finite,
and an array of them is well-kinded if the operator keeps whole numbers. -/
theorem kind_of_tensorBinary {op : BinaryOp} {left right : Value} (elementwise : op ≠ .matMul)
    (first : left.ArraysKinded) (second : right.ArraysKinded) :
    Ensures (fun v => ∃ t, v = .tensor t ∧ t.kind ≠ .bool ∧
        (t.kind = .int → ∀ z ∈ t.data, z.isFinite = true) ∧ (op ≠ .pow → t.WellKinded))
      (tensorBinary op left right) := by
  refine .bind (Tensor.wellKinded_parts.tensorOf first) fun a kindedLeft => ?_
  refine .bind (Tensor.wellKinded_parts.tensorOf second) fun b kindedRight => ?_
  dsimp only
  split
  · exact .error
  · split
    · next none =>
      cases op with
      | matMul => exact absurd rfl elementwise
      | add | sub | mul | div | floorDiv | mod | pow => cases none
    · next f same =>
      refine .bind Tensor.mem_broadcast fun result made => .pure ⟨_, rfl, ?_⟩
      obtain ⟨kind, members⟩ := made
      obtain float | ⟨whole, notDiv, wholeLeft, wholeRight⟩ := resultKind_cases op a.kind b.kind
      · rw [float] at kind ⊢
        rw [if_neg (by decide), kind]
        refine ⟨by decide, fun other => (nomatch other), fun _ z _ => ?_⟩
        rw [kind]
        trivial
      · rw [if_pos whole]
        refine ⟨(fun other => nomatch other), fun _ z member => ?_, fun notPow z member => ?_⟩
        · obtain ⟨y, -, rfl⟩ := Array.mem_map.mp member
          exact isFinite_zeroUnlessFinite y
        · obtain ⟨y, inside, rfl⟩ := Array.mem_map.mp member
          obtain ⟨p, q, rfl⟩ := members y inside
          apply isWhole_zeroUnlessFinite
          exact wholeIfFinite_elementwise same notDiv notPow
            ((kindedLeft.holds_get p).isWhole wholeLeft) ((kindedRight.holds_get q).isWhole wholeRight)

section Operators

variable {left right operand : Value}

theorem kinded_binary {op : BinaryOp} (notMatMul : op ≠ .matMul) (notPow : op ≠ .pow)
    (first : left.ArraysKinded) (second : right.ArraysKinded) :
    Ensures Value.ArraysKinded (binary op left right) := by
  have onTensors : Ensures Value.ArraysKinded (tensorBinary op left right) := by
    refine (kind_of_tensorBinary notMatMul first second).mono ?_
    rintro _ ⟨t, rfl, -, -, kinded⟩
    exact Value.has_tensor.mpr (kinded notPow)
  unfold binary
  split
  · exact onTensors
  · exact onTensors
  · exact has_scalarBinary first second

theorem kinded_unary {op : UnaryOp} (holds : operand.ArraysKinded) :
    Ensures Value.ArraysKinded (unary op operand) := by
  unfold unary
  split
  · exact .bind .any fun _ _ => .pure (Value.has_of_isAtomic rfl)
  · exact (atom_exactInt _ _).has
  · exact .ok (Value.has_of_isAtomic rfl)
  · exact .ok (Value.has_of_isAtomic rfl)
  · next t =>
    refine .ok (Value.has_tensor.mpr (Tensor.wellKinded_map_iff.mpr fun x member => ?_))
    have kinded := Value.has_tensor.mp holds x member
    cases kind : t.kind with
    | float => trivial
    | bool | int => exact (kinded.isWhole (by rw [kind]; decide)).neg
  · exact .ok (Value.has_of_isAtomic rfl)
  · exact .ok (Value.has_of_isAtomic rfl)
  · exact .ok (Value.has_of_isAtomic rfl)
  · exact .ok holds
  · exact .error
  · exact .error

theorem kinded_compareTensors (op : CompareOp) (left right : Value) :
    Ensures Value.ArraysKinded (compareTensors op left right) := by
  refine .bind .any fun a _ => .bind .any fun b _ => ?_
  refine .bind Tensor.mem_broadcast fun result made => .pure (Value.has_tensor.mpr fun z member => ?_)
  obtain ⟨kind, members⟩ := made
  obtain ⟨p, q, rfl⟩ := members z member
  exact ElementKind.holds_ofBool _ _

/-- A comparison makes truth values, whatever it compares. -/
theorem kinded_compareValues (op : CompareOp) (left right : Value) :
    Ensures Value.ArraysKinded (compareValues op left right) := by
  have truth {x : Except Fault Bool} :
      Ensures Value.ArraysKinded (do return Value.bool (← x)) :=
    .bind .any fun _ _ => .pure (Value.has_of_isAtomic rfl)
  unfold compareValues
  split
  · exact truth
  · exact .bind .any fun _ _ => .pure (Value.has_of_isAtomic rfl)
  · exact .ok (Value.has_of_isAtomic rfl)
  · exact .ok (Value.has_of_isAtomic rfl)
  · unfold compareOrdered
    split
    · exact kinded_compareTensors _ _ _
    · exact kinded_compareTensors _ _ _
    · split
      · exact .ok (Value.has_of_isAtomic rfl)
      · exact .ok (Value.has_of_isAtomic rfl)
      · exact .bind .any fun _ _ => .pure (Value.has_of_isAtomic rfl)

/-- The product of matrices is well-kinded just if its elements, as far as they are to be whole
numbers, are finite. -/
theorem kind_of_matMul (kindedLeft : a.WellKinded) (kindedRight : b.WellKinded) :
    Ensures (fun v => ∃ product : Tensor, v = product.toValue ∧
        product.kind = a.kind.join b.kind ∧
        (product.WellKinded ↔ product.kind = .int → ∀ z ∈ product.data, z.isFinite = true))
      (matMul a b) := by
  intro v given
  obtain ⟨rows, inner, cols, product, rfl, -, -, -, kind, data⟩ :=
    Tensor.exists_of_matMul_eq_ok given
  refine ⟨product, rfl, kind, fun kinded whole z member => ?_, fun finite z member => ?_⟩
  · have holds := kinded z member
    rw [whole] at holds
    exact (isWhole_iff.mp holds).1
  · obtain float | ⟨whole, -, wholeLeft, wholeRight⟩ := resultKind_cases .add a.kind b.kind
    · rw [kind, show a.kind.join b.kind = .float from float]
      trivial
    · have whole : product.kind = .int := kind.trans whole
      rw [whole]
      refine isWhole_iff.mpr ⟨finite whole z member, ?_⟩
      rw [data] at member
      obtain ⟨position, -, rfl⟩ := Array.mem_map.mp member
      apply wholeIfFinite_sum
      intro x inside
      obtain ⟨k, -, rfl⟩ := List.mem_map.mp inside
      exact ((kindedLeft.holds_get _).isWhole wholeLeft).wholeIfFinite.mul
        ((kindedRight.holds_get _).isWhole wholeRight).wholeIfFinite

end Operators

/-! ### Casts and roundings -/

theorem kinded_absolute {v : Value} (holds : v.ArraysKinded) :
    Ensures Value.ArraysKinded (absolute v) := by
  unfold absolute
  split
  · exact (atom_exactInt _ _).has
  · exact .ok (Value.has_of_isAtomic rfl)
  · exact .ok (Value.has_of_isAtomic rfl)
  · next t =>
    refine .ok (Value.has_tensor.mpr (Tensor.wellKinded_map_iff.mpr fun x member => ?_))
    have kinded := Value.has_tensor.mp holds x member
    cases kind : t.kind with
    | float => trivial
    | int =>
      rw [kind] at kinded
      exact IsWhole.abs kinded
    | bool =>
      rw [kind] at kinded
      rcases ElementKind.eq_of_holds_bool kinded with rfl | rfl | rfl
      · exact .inl (by decide +kernel)
      · exact .inl (by decide +kernel)
      · exact .inr (by decide +kernel)
  · exact .error

/-- Only a cast to whole numbers may fail to make elements of its kind, for those that are not
finite. -/
theorem wellKinded_cast_iff {t : Tensor} {kind : ElementKind} :
    (t.cast kind).WellKinded ↔ kind = .int → ∀ x ∈ t.data, x.isFinite = true := by
  cases kind with
  | float => exact ⟨fun _ other => (nomatch other), fun _ _ _ => trivial⟩
  | bool =>
    refine ⟨fun _ other => (nomatch other), fun _ => ?_⟩
    exact Tensor.wellKinded_map_iff.mpr fun x _ => ElementKind.holds_ofBool _ _
  | int =>
    refine Tensor.wellKinded_map_iff.trans ?_
    simp only [forall_const]
    exact forall₂_congr fun x _ => isWhole_trunc_iff

/-- Rounding to whole numbers leaves whole numbers as they are. -/
theorem roundTo_zero {x : Float} (whole : IsWhole x) : roundTo 0 x = x := by
  have finite := (isWhole_iff.mp whole).1
  have scale : power 10.0 (max (-maxPlaces) (min maxPlaces 0)) = 1.0 := by decide +kernel
  rw [roundTo, scale]
  rw [mul_one_of_isFinite finite, roundEven, roundWith_of_whole _ whole.wholeIfFinite,
    div_one_of_isFinite finite]

theorem kinded_rounded {v : Value} (holds : v.ArraysKinded) :
    Ensures Value.ArraysKinded (rounded v none) := by
  unfold rounded
  split
  · exact .bind .any fun _ _ => .pure (Value.has_of_isAtomic rfl)
  · exact .bind .any fun _ _ => .pure (Value.has_of_isAtomic rfl)
  · exact (atom_roundToWhole _).has
  · exact .ok (Value.has_of_isAtomic rfl)
  · next t =>
    refine .ok (Value.has_tensor.mpr (Tensor.wellKinded_map_iff.mpr fun x member => ?_))
    have kinded := Value.has_tensor.mp holds x member
    by_cases float : t.kind = .float
    · rw [float]
      trivial
    · change t.kind.Holds (roundTo 0 x)
      rwa [roundTo_zero (kinded.isWhole float)]
  · exact .error

theorem kinded_onElements (f : Float → Float) (v : Value) :
    Ensures Value.ArraysKinded (onElements f v) := by
  unfold onElements
  split
  · exact .bind .any fun t _ => .pure (Value.has_tensor.mpr (Tensor.wellKinded_float _ _))
  · exact .bind .any fun _ _ => .pure (Value.has_of_isAtomic rfl)

/-! ### Stores -/

/-- The number is the last one that is put at the position. -/
def LastAt (writes : List (Nat × Float)) (p : Nat) (x : Float) : Prop :=
  ∃ before after, writes = before ++ (p, x) :: after ∧ ∀ write ∈ after, write.1 ≠ p

section Writes

variable {data : Array Float} {writes : List (Nat × Float)} {p : Nat} {x : Float}

theorem lastAt_or_apart (writes : List (Nat × Float)) (p : Nat) :
    (∃ x, LastAt writes p x) ∨ ∀ write ∈ writes, write.1 ≠ p := by
  induction writes with
  | nil => exact .inr fun _ member => nomatch member
  | cons write rest ih =>
    obtain ⟨x, before, after, rfl, apart⟩ | apart := ih
    · exact .inl ⟨x, write :: before, after, rfl, apart⟩
    · by_cases here : write.1 = p
      · exact .inl ⟨write.2, [], rest, by rw [← here]; rfl, apart⟩
      · exact .inr (List.forall_mem_cons.mpr ⟨here, apart⟩)

theorem getElem?_written_of_apart (apart : ∀ write ∈ writes, write.1 ≠ p) :
    (Tensor.written data writes)[p]? = data[p]? := by
  induction writes generalizing data with
  | nil => rfl
  | cons write rest ih =>
    obtain ⟨here, others⟩ := List.forall_mem_cons.mp apart
    exact (ih others).trans (Array.getElem?_setIfInBounds_ne here)

theorem getElem?_written_of_lastAt (within : p < data.size) (last : LastAt writes p x) :
    (Tensor.written data writes)[p]? = some x := by
  obtain ⟨before, after, rfl, apart⟩ := last
  have split : Tensor.written data (before ++ (p, x) :: after) =
      Tensor.written ((Tensor.written data before).setIfInBounds p x) after :=
    List.foldl_append
  rw [split, getElem?_written_of_apart apart]
  exact Array.getElem?_setIfInBounds_self_of_lt ((Tensor.size_written data before).symm ▸ within)

/-- What is in an array after stores was there before, or was put there last. -/
theorem forall_mem_written_iff {P : Float → Prop} (before : ∀ x ∈ data, P x) :
    (∀ x ∈ Tensor.written data writes, P x) ↔
      ∀ p x, p < data.size → LastAt writes p x → P x := by
  constructor
  · exact fun after p x within last =>
      after x (Array.mem_of_getElem? (getElem?_written_of_lastAt within last))
  · intro stored x member
    obtain ⟨p, within, rfl⟩ := Array.mem_iff_getElem.mp member
    rw [Tensor.size_written] at within
    have found : (Tensor.written data writes)[p]? = some _ :=
      Array.getElem?_eq_getElem (Tensor.size_written data writes ▸ within)
    obtain ⟨x, last⟩ | apart := lastAt_or_apart writes p
    · rw [getElem?_written_of_lastAt within last] at found
      exact Option.some.inj found ▸ stored p x within last
    · rw [getElem?_written_of_apart apart] at found
      exact before _ (Array.mem_of_getElem? found)

end Writes

theorem ElementKind.Holds.accepts {kind : ElementKind} {x : Float} (holds : kind.Holds x) :
    kind.Accepts x := by
  cases kind with
  | bool => exact holds
  | int => exact (isWhole_iff.mp holds).1
  | float => trivial

/-- A store leaves elements of the kind just if it accepts the numbers that stay. -/
theorem wellKinded_store_iff {t : Tensor} (kinded : t.WellKinded) (positions : List Nat)
    (numbers : List Float) :
    (t.store positions numbers).WellKinded ↔
      ∀ p x, p < t.size → LastAt (positions.zip numbers) p x → t.kind.Accepts x := by
  have cut : (t.store positions numbers).WellKinded ↔
      ∀ x ∈ Tensor.written t.data (positions.zip numbers), t.kind.Accepts x := by
    obtain ⟨data, shape, kind⟩ := t
    cases kind with
    | bool | float => rfl
    | int => exact Array.forall_mem_map.trans (forall₂_congr fun x _ => isWhole_trunc_iff)
  exact cut.trans (forall_mem_written_iff fun x member => (kinded x member).accepts)

/-- An assignment to an item keeps every container but an array, which takes the numbers of the
value at the places that are selected. -/
theorem kinded_storeEdit {container v : Value} {s : Subscript} (holds : container.ArraysKinded)
    (inside : s.ArraysKinded) (stored : v.ArraysKinded)
    (accepts : ∀ t selection numbers, container = .tensor t → select t s = .ok selection →
      numbersFor selection.positions.length v = .ok numbers →
      ∀ p x, p < t.size → LastAt (selection.positions.zip numbers) p x → t.kind.Accepts x) :
    Ensures (fun e => (e.apply container).ArraysKinded) (storeEdit container s v) := by
  intro e given
  refine DictLaws.any.applyEdit (has_storeEdit inside stored e given) holds ?_
  rintro t positions numbers rfl rfl
  obtain ⟨selection, selected, given⟩ := bind_eq_ok.mp given
  obtain ⟨numbers', found, given⟩ := bind_eq_ok.mp given
  cases given
  exact (wellKinded_store_iff (Value.has_tensor.mp holds) _ _).mpr
    (accepts t selection numbers rfl selected found)

/-! ### New arrays -/

theorem Tensor.wellKinded_vector_iff {data : Array Float} {kind : ElementKind} :
    (Tensor.vector data kind).WellKinded ↔ ∀ x ∈ data, kind.Holds x := .rfl

/-- An array of one number everywhere, of zeros or of ones. -/
theorem kinded_filled {x : Float} (holds : ∀ kind : ElementKind, kind.Holds x) (function : String)
    (args : List Value) (kwargs : Keywords) :
    Ensures Value.ArraysKinded (filled x function args kwargs) := by
  refine (ensures_filled x function args kwargs).mono ?_
  rintro _ ⟨size, shape, kind, -, rfl⟩
  refine Value.has_tensor.mpr fun y member => ?_
  rw [(Array.mem_replicate.mp member).2]
  exact holds kind

/-- A number made from an integer of sixty-four bits. -/
structure FromInteger (x : Float) : Prop where
  whole : IsWhole x
  small : AtMost 13 x.toModel.unpack

theorem fromInteger_ofInt (i : Int64) : FromInteger (ofInt i.toInt) := by
  have low := i.le_toInt
  have high := i.toInt_lt
  exact ⟨isWhole_ofInt i, atMost_ofRatio (by omega) _⟩

theorem fromInteger_ofBool (b : Bool) : FromInteger (ofBool b) := by
  have same : ofBool b = ofInt (if b then 1 else 0 : Int64).toInt := by
    cases b <;> decide +kernel
  exact same ▸ fromInteger_ofInt _

theorem fromInteger_toFloat {v : Value} (isInteger : v.asInt?.isSome = true) :
    Ensures FromInteger v.toFloat := by
  cases v with
  | int i => exact .ok (fromInteger_ofInt i)
  | bool b => exact .ok (fromInteger_ofBool b)
  | none | float | str | list | tuple | dict | tensor | function | builtin | method | module
  | exceptionType | exception => cases isInteger

theorem kinded_arrayRange {start stop step : Float} {kind : ElementKind} (notBool : kind ≠ .bool)
    (whole : kind = .int → FromInteger start ∧ FromInteger step) :
    Ensures Value.ArraysKinded (arrayRange start stop step kind) := by
  refine (ensures_arrayRange start stop step kind).mono ?_
  rintro _ ⟨count, below, rfl⟩
  refine Value.has_tensor.mpr fun x member => ?_
  obtain ⟨k, inside, rfl⟩ := Array.mem_map.mp member
  have inside := Array.mem_range.mp inside
  change kind.Holds _
  cases kind with
  | bool => exact absurd rfl notBool
  | int =>
    obtain ⟨first, distance⟩ := whole rfl
    exact isWhole_spaced first.whole distance.whole first.small distance.small (by omega)
  | float => trivial

theorem kinded_arangeOf (args : List Value) : Ensures Value.ArraysKinded (arangeOf args) := by
  have zero : FromInteger 0.0 := fromInteger_ofBool false
  have one : FromInteger 1.0 := fromInteger_ofBool true
  have notBool : (if args.all (·.asInt?.isSome) then ElementKind.int else .float) ≠ .bool := by
    split <;> decide
  refine .bind (R := fun bounds =>
    (if args.all (·.asInt?.isSome) then ElementKind.int else .float) = .int →
      ∀ x ∈ bounds, FromInteger x) ?_ fun bounds numbers => ?_
  · intro bounds given whole
    have integers : args.all (·.asInt?.isSome) = true := by
      by_contra other
      rw [if_neg other] at whole
      cases whole
    rw [List.all_eq_true] at integers
    exact Ensures.mapM (fun v member => fromInteger_toFloat (integers v member)) bounds given
  · split
    · exact kinded_arrayRange notBool fun _ => ⟨zero, one⟩
    · exact kinded_arrayRange notBool fun whole => ⟨numbers whole _ (by simp), one⟩
    · exact kinded_arrayRange notBool fun whole =>
        ⟨numbers whole _ (by simp), numbers whole _ (by simp)⟩
    · exact .error

theorem kinded_linspaceOf (args : List Value) (kwargs : Keywords) :
    Ensures Value.ArraysKinded (linspaceOf args kwargs) := by
  refine (ensures_linspaceOf args kwargs).mono ?_
  rintro _ ⟨data, rfl⟩
  exact Value.has_tensor.mpr fun _ _ => trivial

/-! ### Sums along an axis -/

/-- The sums along an axis are well-kinded just if those that are to be whole numbers are finite. -/
theorem kind_of_sumAlong {v axis : Value} (holds : v.ArraysKinded) :
    Ensures (fun w => w.isAtomic = true ∨ ∃ sums : Tensor, w = .tensor sums ∧
        (sums.WellKinded ↔ sums.kind = .int → ∀ z ∈ sums.data, z.isFinite = true))
      (sumAlong v axis) := by
  have made {t : Tensor} (kinded : t.WellKinded) {data : Array Float}
      (summed : ∀ z ∈ data, ∃ xs : List Nat, z = Binary64.sum (xs.map t.get)) :
      (Tensor.vector data t.kind.reduced).WellKinded ↔
        t.kind.reduced = .int → ∀ z ∈ data, z.isFinite = true := by
    rw [Tensor.wellKinded_vector_iff]
    constructor
    · intro each whole z member
      have here := each z member
      rw [whole] at here
      exact (isWhole_iff.mp here).1
    · intro finite z member
      by_cases float : t.kind = .float
      · rw [float]
        trivial
      · have whole : t.kind.reduced = .int := by
          cases kind : t.kind with
          | bool | int => rfl
          | float => exact absurd kind float
        rw [whole]
        refine isWhole_iff.mpr ⟨finite whole z member, ?_⟩
        obtain ⟨xs, rfl⟩ := summed z member
        apply wholeIfFinite_sum
        intro x inside
        obtain ⟨p, -, rfl⟩ := List.mem_map.mp inside
        exact ((kinded.holds_get p).isWhole float).wholeIfFinite
  refine .bind (Tensor.wellKinded_parts.tensorOf holds) fun t kinded => .bind .any fun i _ => ?_
  dsimp only
  split
  · split
    · refine .pure (.inl ?_)
      unfold sumTensor reducedValue Tensor.elementValue
      split <;> rfl
    · exact .error
  · next rows cols shape =>
    split
    · refine .pure (.inr ⟨_, rfl, made kinded fun z member => ?_⟩)
      simp only [columnSums, List.mem_toArray, List.mem_map] at member
      obtain ⟨c, -, rfl⟩ := member
      exact ⟨(List.range rows).map fun r => r * cols + c, by rw [List.map_map]; rfl⟩
    · split
      · split
        · exact .error
        · refine .pure (.inr ⟨_, rfl, made kinded fun z member => ?_⟩)
          simp only [rowSums, List.mem_toArray, List.mem_map] at member
          obtain ⟨r, -, rfl⟩ := member
          exact ⟨(List.range cols).map fun c => r * cols + c, by rw [List.map_map]; rfl⟩
      · exact .error
  · exact .error

end DocExamples.Script
