import DocExamples.Proofs.ExactDoubles
import DocExamples.Proofs.Script.ArrayShapes
/-!
How long sequences and arrays get. Operations that make them refuse to exceed the greatest length,
but for the subscripts of arrays: a choice on every axis makes the product of as many elements as
are chosen on each, and that is checked nowhere.
-/
namespace DocExamples.Script

/-- How many bytes a text has, and how many items or elements a sequence or an array. -/
def Value.length : Value → Nat
  | .str s => s.utf8ByteSize
  | .list items => items.size
  | .tuple items => items.length
  | .tensor t => t.size
  | _ => 0

/-- Not longer than sequences and arrays may be. -/
def Value.Bounded (v : Value) : Prop := v.length ≤ maxSequenceLength

/-! ### Sequences -/

theorem ensures_boundedLength (what : String) (n : Nat) :
    Ensures (fun _ => n ≤ maxSequenceLength) (boundedLength what n) := by
  unfold boundedLength
  split
  · next few => exact .ok few
  · exact .error

theorem utf8ByteSize_appendTimes (acc text : String) (n : Nat) :
    (appendTimes acc text n).utf8ByteSize = acc.utf8ByteSize + text.utf8ByteSize * n := by
  induction n generalizing acc with
  | zero => simp [appendTimes]
  | succ n ih =>
    rw [appendTimes, ih, String.utf8ByteSize_append, Nat.mul_succ]
    omega

theorem length_repeatItems (items : List Value) (n : Nat) :
    (repeatItems items n).length = items.length * n := by
  unfold repeatItems
  split
  · next none => simp [List.isEmpty_iff.mp none]
  · simp [Nat.mul_comm]

theorem bounded_repeated? {count : Int64} {v : Value} {made : Except Fault Value}
    (given : repeated? count v = some made) : Ensures Value.Bounded made := by
  unfold repeated? at given
  split at given
  · next s =>
    cases given
    refine .bind (ensures_boundedLength "str" _) fun _ few => .pure ?_
    rw [Value.Bounded, Value.length]
    split
    · exact Nat.zero_le _
    · simpa [utf8ByteSize_appendTimes] using few
  · next items =>
    cases given
    refine .bind (ensures_boundedLength "list" _) fun _ few => .pure ?_
    simpa [Value.Bounded, Value.length, Value.ofList, length_repeatItems] using few
  · next items =>
    cases given
    refine .bind (ensures_boundedLength "tuple" _) fun _ few => .pure ?_
    simpa [Value.Bounded, Value.length, length_repeatItems] using few
  · cases given

theorem bounded_repetition? {left right : Value} {made : Except Fault Value}
    (given : repetition? left right = some made) : Ensures Value.Bounded made := by
  rw [repetition?, Option.orElse_eq_orElse, Option.orElse_eq_or, Option.or_eq_some_iff] at given
  rcases given with given | ⟨-, given⟩
  · obtain ⟨count, -, given⟩ := Option.bind_eq_some_iff.mp given
    exact bounded_repeated? given
  · obtain ⟨count, -, given⟩ := Option.bind_eq_some_iff.mp given
    exact bounded_repeated? given

theorem bounded_sequenceBinary (op : BinaryOp) (left right : Value) :
    Ensures Value.Bounded (sequenceBinary op left right) := by
  unfold sequenceBinary
  dsimp only
  split
  · refine .bind (ensures_boundedLength "str" _) fun _ few => .pure ?_
    simpa [Value.Bounded, Value.length] using few
  · refine .bind (ensures_boundedLength "list" _) fun _ few => .pure ?_
    simpa [Value.Bounded, Value.length] using few
  · refine .bind (ensures_boundedLength "tuple" _) fun _ few => .pure ?_
    simpa [Value.Bounded, Value.length] using few
  · cases made : repetition? left right with
    | none => exact .error
    | some result => exact bounded_repetition? made
  · exact .error

/-! ### Numbers -/

/-- Numbers have no length. -/
abbrev EnsuresUnsized (x : Except Fault Value) : Prop := Ensures (fun v => v.length = 0) x

theorem unsized_exactInt (operation : String) (i : Int) : EnsuresUnsized (exactInt operation i) := by
  unfold exactInt
  cases Integer.word? i with
  | none => exact .error
  | some n => exact .ok rfl

theorem unsized_floatBinary (op : BinaryOp) (x y : Float) : EnsuresUnsized (floatBinary op x y) := by
  have unlessZero (f : Fault) (z : Float) :
      EnsuresUnsized (if y == 0.0 then .error f else .ok (.float z)) := by
    split
    · exact .error
    · exact .ok rfl
  cases op with
  | add | sub | mul | pow => exact .ok rfl
  | div | floorDiv | mod => exact unlessZero _ _
  | matMul => exact .error

theorem unsized_intPower (x : Int) (n : Nat) : EnsuresUnsized (intPower x n) := by
  unfold intPower
  dsimp only
  split
  · exact .error
  · split
    · exact unsized_exactInt _ _
    · split
      · exact .error
      · exact unsized_exactInt _ _

theorem unsized_intBinary (op : BinaryOp) (a b : Int64) : EnsuresUnsized (intBinary op a b) := by
  have quotient (operation : String) (i : Int) : EnsuresUnsized
      (if b.toInt = 0 then .error .moduloByZero
        else if divisionOverflows a.toInt b.toInt then .error (.integerOverflow operation)
        else exactInt operation i) := by
    split
    · exact .error
    · split
      · exact .error
      · exact unsized_exactInt _ _
  cases op with
  | add | sub | mul => exact unsized_exactInt _ _
  | div =>
    unfold intBinary
    dsimp only
    split
    · exact .error
    · exact .ok rfl
  | floorDiv | mod => exact quotient _ _
  | pow =>
    unfold intBinary
    dsimp only
    split
    · exact unsized_intPower _ _
    · exact unsized_floatBinary _ _ _
  | matMul => exact .error

theorem EnsuresUnsized.bounded {x : Except Fault Value} (unsized : EnsuresUnsized x) :
    Ensures Value.Bounded x :=
  unsized.mono fun v none => by simp [Value.Bounded, none]

theorem bounded_scalarBinary (op : BinaryOp) (left right : Value) :
    Ensures Value.Bounded (scalarBinary op left right) := by
  unfold scalarBinary
  split
  · exact (unsized_intBinary _ _ _).bounded
  · split
    · exact (unsized_floatBinary _ _ _).bounded
    · exact bounded_sequenceBinary op left right

/-! ### Arrays -/

theorem checkedSize_le (shape : List Nat) :
    Ensures (fun size => size = volume shape ∧ size ≤ maxSequenceLength) (checkedSize shape) := by
  intro size checked
  refine ⟨(ensures_checkedSize shape size checked).1, ?_⟩
  unfold checkedSize at checked
  split at checked
  · cases checked
  · split at checked
    · split at checked
      · next few =>
        cases checked
        exact few
      · cases checked
    · cases checked

theorem length_elementValue (kind : ElementKind) (x : Float) :
    (Tensor.elementValue kind x).length = 0 := by
  cases kind <;> rfl

theorem length_toValue (t : Tensor) : t.toValue.length = if t.shape = [] then 0 else t.size := by
  unfold Tensor.toValue
  split
  · next shape => rw [if_pos shape, length_elementValue]
  · next some => rw [if_neg some, Value.length]

theorem length_toValue_le (t : Tensor) : t.toValue.length ≤ t.size := by
  rw [length_toValue]
  split
  · exact Nat.zero_le _
  · exact Nat.le_refl _

theorem size_broadcast_le {a b : Tensor} {kind : ElementKind} {f : Float → Float → Float} :
    Ensures (fun t : Tensor => t.size ≤ maxSequenceLength) (broadcast a b kind f) := by
  unfold broadcast
  dsimp only
  split
  · exact .error
  · next shape _ =>
    refine .bind (checkedSize_le shape) fun size checked => .pure ?_
    simpa [Tensor.size] using checked.2

theorem bounded_matMul (a b : Tensor) : Ensures Value.Bounded (matMul a b) := by
  unfold matMul
  dsimp only
  split
  · exact .error
  · split
    · exact .error
    · split
      · exact .error
      · refine .bind (checkedSize_le _) fun size checked => .pure ?_
        refine Nat.le_trans (length_toValue_le _) ?_
        simpa [Tensor.size] using checked.2

theorem bounded_tensorBinary (op : BinaryOp) (left right : Value) :
    Ensures Value.Bounded (tensorBinary op left right) := by
  unfold tensorBinary
  refine .bind .any fun a _ => .bind .any fun b _ => ?_
  dsimp only
  split
  · exact .error
  · split
    · exact bounded_matMul a b
    · refine .bind size_broadcast_le fun result few => .pure ?_
      have same (kind : ElementKind) :
          (if kind = .int then result.map .int zeroUnlessFinite else result).size = result.size := by
        split
        · simp [Tensor.map, Tensor.size]
        · rfl
      exact Nat.le_trans (Nat.le_of_eq (same _)) few

theorem bounded_binary (op : BinaryOp) (left right : Value) :
    Ensures Value.Bounded (binary op left right) := by
  unfold binary
  split
  · exact bounded_tensorBinary _ _ _
  · exact bounded_tensorBinary _ _ _
  · exact bounded_scalarBinary _ _ _

theorem size_reshape_le (t : Tensor) (shape : List Nat) :
    Ensures (fun t : Tensor => t.size ≤ maxSequenceLength) (t.reshape shape) := by
  refine .bind (checkedSize_le shape) fun size checked => ?_
  dsimp only
  split
  · exact .error
  · next same =>
    refine .pure ?_
    have same := Decidable.not_not.mp same
    exact Nat.le_trans (Nat.le_of_eq same.symm) checked.2

/-- An array made from nested sequences; an array stays as it is. -/
theorem size_ofValue_le {v : Value} (shaped : v.ArraysShaped) (bounded : v.Bounded) :
    Ensures (fun t : Tensor => t.size ≤ maxSequenceLength) (Tensor.ofValue v) := by
  unfold Tensor.ofValue
  split
  · exact .ok bounded
  · refine .bind (size_gather _ _ fun t inside => shaped _ inside) fun found sized => ?_
    refine .bind (checkedSize_le found.2) fun size checked => .pure ?_
    obtain ⟨rfl, few⟩ := checked
    have sized : found.1.data.size = volume found.2 := sized.trans (Nat.zero_add _)
    exact Nat.le_trans (Nat.le_of_eq sized) few

/-! ### Ranges -/

theorem size_spaced (start step : Float) (count : Nat) : (spaced start step count).size = count := by
  simp [spaced]

theorem bounded_rangeItems (start stop step : Int64) :
    Ensures Value.Bounded (rangeItems start stop step) := by
  intro range given
  obtain ⟨numbers, few, rfl⟩ := ensures_rangeItems start stop step range given
  simpa [Value.Bounded, Value.length, Value.ofList] using few

theorem bounded_rangeOf (args : List Value) : Ensures Value.Bounded (rangeOf args) := by
  refine .bind .any fun numbers _ => ?_
  split
  · exact bounded_rangeItems _ _ _
  · exact bounded_rangeItems _ _ _
  · exact bounded_rangeItems _ _ _
  · exact .error

open Binary64 in
/-- A whole double that is not beyond the greatest length is no larger as an integer. -/
theorem toNat_toInt64_le {x : Float} (whole : IsWhole x)
    (few : ¬ ofNat maxSequenceLength < x) : (toInt64 x).toInt.toNat ≤ maxSequenceLength := by
  obtain ⟨i, represents⟩ := exists_represents whole
  have greatest : (toInt64 (ofNat maxSequenceLength)).toInt = maxSequenceLength := by
    decide +kernel
  have bound : Represents maxSequenceLength (ofNat maxSequenceLength).toModel.unpack := by
    rw [← greatest]
    have small : (toInt64 (ofNat maxSequenceLength)).toInt.natAbs < 2 ^ 53 := by
      rw [greatest]
      decide
    exact represents_of_small (isWhole_ofRatio (by decide) false) small
  have order := ordering_of_represents bound represents
  have least : i ≤ maxSequenceLength := by
    by_contra beyond
    apply few
    rw [lt_iff, order, Int.compare_eq_lt.mpr (Int.not_le.mp beyond)]
  rw [toInt64_of_represents represents]
  by_cases low : -2 ^ 63 ≤ i
  · have fits : i < 2 ^ 63 := Int.lt_of_le_of_lt least (by decide)
    rw [toInt_ofIntClamp low fits]
    omega
  · rw [Int64.ofIntClamp, dif_neg (by change ¬ -9223372036854775808 ≤ i; omega)]
    decide

theorem bounded_arrayRange (start stop step : Float) (kind : ElementKind) :
    Ensures Value.Bounded (arrayRange start stop step kind) := by
  have whole (x : Float) :
      Binary64.WholeIfFinite (if 0.0 < Binary64.ceil x then Binary64.ceil x else 0.0) := by
    split
    · exact Binary64.wholeIfFinite_roundWith _ x
    · exact Binary64.isWhole_zero.wholeIfFinite
  unfold arrayRange
  split
  · exact .error
  · specialize whole ((stop - start) / step)
    dsimp only
    generalize (if 0.0 < Binary64.ceil ((stop - start) / step) then _ else _) = count at whole ⊢
    split
    · exact .error
    · next accepted =>
      obtain ⟨finite, few⟩ : count.isFinite = true ∧ ¬ Binary64.ofNat maxSequenceLength < count := by
        simpa using accepted
      refine .ok ?_
      rw [Value.Bounded, Value.length, Tensor.vector, Tensor.size, size_spaced]
      exact toNat_toInt64_le (Binary64.isWhole_iff.mpr ⟨finite, whole⟩) few

theorem bounded_arangeOf (args : List Value) : Ensures Value.Bounded (arangeOf args) := by
  refine .bind .any fun numbers _ => ?_
  split
  · exact bounded_arrayRange _ _ _ _
  · exact bounded_arrayRange _ _ _ _
  · exact bounded_arrayRange _ _ _ _
  · exact .error

theorem size_evenlySpaced (start stop : Float) (count : Nat) (endpoint : Bool) :
    (evenlySpaced start stop count endpoint).size = count := by
  unfold evenlySpaced
  dsimp only
  split
  · rw [Array.size_setIfInBounds, size_spaced]
  · exact size_spaced _ _ _

theorem bounded_evenlySpaced {count : Nat} (few : ¬ maxSequenceLength < count)
    (start stop : Float) (endpoint : Bool) :
    (Value.tensor (.vector (evenlySpaced start stop count endpoint) .float)).Bounded := by
  rw [Value.Bounded, Value.length, Tensor.vector, Tensor.size, size_evenlySpaced]
  exact Nat.le_of_not_lt few

theorem bounded_linspaceOf (args : List Value) (kwargs : Keywords) :
    Ensures Value.Bounded (linspaceOf args kwargs) := by
  unfold linspaceOf
  dsimp only
  -- Whatever the arguments say, the count is looked at before the array is made.
  repeat' first
    | exact .error
    | exact .pure (bounded_evenlySpaced ‹¬ maxSequenceLength < _› _ _ _)
    | split
    | refine .bind .any fun _ _ => ?_

theorem bounded_filled (x : Float) (function : String) (args : List Value) (kwargs : Keywords) :
    Ensures Value.Bounded (filled x function args kwargs) := by
  refine (ensures_filled x function args kwargs).mono ?_
  rintro _ ⟨size, shape, kind, checked, rfl⟩
  have few := (checkedSize_le shape size checked).2
  simpa [Value.Bounded, Value.length, Tensor.size] using few

theorem bounded_arrayCall {args : List Value} (kwargs : Keywords)
    (argsFine : ∀ v ∈ args, v.ArraysShaped ∧ v.Bounded) :
    Ensures Value.Bounded (arrayCall args kwargs) := by
  have sole : Ensures (fun v => v.ArraysShaped ∧ v.Bounded) (oneOf "array" args) := by
    intro v given
    apply argsFine
    simp [oneOf_eq_ok.mp given]
  refine .bind .any fun _ _ => .bind sole fun v fine => ?_
  refine .bind (size_ofValue_le fine.1 fine.2) fun t few => ?_
  split
  · refine .bind .any fun kind _ => .pure ?_
    cases kind <;> simpa [Value.Bounded, Value.length, Tensor.cast, Tensor.map, Tensor.size] using few
  · exact .pure few

theorem bounded_reshape (t : Tensor) (args : List Value) (kwargs : Keywords) :
    Ensures Value.Bounded (callMethod (.tensor t) "reshape" args kwargs) :=
  .bind .any fun shape _ => .bind (size_reshape_le t shape) fun _ few => .pure few

/-! ### Built-in functions -/

/-- The functions that make sequences and arrays of a size that their arguments give. -/
def Builtin.makesSequence : Builtin → Bool
  | .range | .arange | .linspace | .zeros | .ones | .rand | .array => true
  | _ => false

/-- Sequences of computations, by what they give alone. -/
theorem sequential_gives :
    Sequential .any fun {α} (R : α → Prop) (x : Eval α) => True ∧ x.Gives R :=
  .of_gives (fun _ _ _ => trivial) (fun _ => trivial) (fun _ => trivial) fun _ _ => trivial

theorem bounded_randCall (args : List Value) (kwargs : Keywords) :
    (randCall args kwargs).Gives Value.Bounded := by
  refine Eval.gives_true.bind fun _ _ => ?_
  split
  · exact Eval.gives_true.bind fun _ _ => (sequential_gives.pure (R := Value.Bounded) (Nat.zero_le _)).2
  · refine Eval.gives_true.bind fun shape _ => ?_
    refine (sequential_gives.lift (checkedSize_le shape)).2.bind fun size checked => ?_
    refine (sequential_gives.drawMany size).2.bind fun xs length => (sequential_gives.pure ?_).2
    rw [Value.Bounded, Value.length, Tensor.size, List.size_toArray, length]
    exact checked.2

theorem bounded_call {b : Builtin} (makes : b.makesSequence = true) {args : List Value}
    (kwargs : Keywords) (argsFine : ∀ v ∈ args, v.ArraysShaped ∧ v.Bounded) :
    (b.call args kwargs).Gives Value.Bounded := by
  have lifted {x : Except Fault Value} (ensures : Ensures Value.Bounded x) :
      (liftM x : Eval Value).Gives Value.Bounded := (sequential_gives.lift ensures).2
  cases b with
  | range => exact Eval.gives_true.bind fun _ _ => lifted (bounded_rangeOf args)
  | arange => exact Eval.gives_true.bind fun _ _ => lifted (bounded_arangeOf args)
  | linspace => exact Eval.gives_true.bind fun _ _ => lifted (bounded_linspaceOf args kwargs)
  | zeros | ones => exact lifted (bounded_filled _ _ args kwargs)
  | rand => exact bounded_randCall args kwargs
  | array => exact lifted (bounded_arrayCall kwargs argsFine)
  | _ => cases makes

/-! ### Subscripts -/

namespace Subscript

/-- The subscripts for the single axes. -/
def parts : Subscript → List Subscript
  | .multi parts => parts
  | s => [s]

/-- Whether a subscript lists the places that it chooses. -/
def isIndexList : Subscript → Bool
  | .item (.list _) | .item (.tensor _) => true
  | _ => false

/-- How many places a subscript chooses at most on an axis of some size. -/
def reach (size : Nat) : Subscript → Nat
  | .slice .. => size
  | .item (.list items) => items.size
  | .item (.tensor t) => t.size
  | .item _ => min 1 size
  | .multi _ => 0

/-- Not longer than sequences may be, if the subscript is a value. -/
def Bounded : Subscript → Prop
  | .item v => v.Bounded
  | _ => True

end Subscript

/-- How many places are chosen at most on all axes together. -/
def reachAlong : (shape : List Nat) → List Subscript → Nat
  | [], _ => 1
  | size :: shape, [] => size * reachAlong shape []
  | size :: shape, s :: rest => s.reach size * reachAlong shape rest

/-- How many elements of an array a subscript selects at most. -/
def Subscript.reachIn (t : Tensor) : Subscript → Nat
  | .item (.tensor mask) =>
    if mask.kind = .bool then mask.size else reachAlong t.shape [.item (.tensor mask)]
  | s => reachAlong t.shape s.parts

/-- A range by steps between the ends of a sequence is not longer than it. -/
theorem length_stepRange_le {length : Nat} {first stop step : Int} (some : step ≠ 0)
    (ends : if 0 < step then 0 ≤ first ∧ stop ≤ length else first < length ∧ -1 ≤ stop) :
    (stepRange first stop step).length ≤ length := by
  have fewer {span unit : Int} (positive : 0 < unit) (within : span ≤ length) :
      (span + unit - 1) / unit ≤ length := by
    by_contra beyond
    have reached := (Int.le_ediv_iff_mul_le positive).mp (Int.not_le.mp beyond)
    have one : (length : Int) * 1 ≤ length * unit :=
      Int.mul_le_mul_of_nonneg_left (by omega) (Int.natCast_nonneg length)
    rw [Int.add_mul] at reached
    omega
  rw [stepRange, List.length_map, List.length_range]
  split at ends
  · next upward =>
    rw [if_pos upward]
    have bound := fewer upward (by omega : stop - first ≤ length)
    omega
  · next downward =>
    rw [if_neg downward]
    have bound := fewer (by omega : 0 < -step) (by omega : first - stop ≤ length)
    have same : first - stop + -step - 1 = first - stop - step - 1 := by omega
    rw [same] at bound
    omega

theorem length_slicePositions_le (length : Nat) (start stop step : Option Int64) :
    Ensures (fun positions => positions.length ≤ length)
      (slicePositions length start stop step) := by
  refine (exists_stepRange length start stop step).mono ?_
  rintro _ ⟨first, last, step, some, ends, rfl⟩
  exact length_stepRange_le some ends

theorem length_of_mapM {ε α β : Type} {f : α → Except ε β} {items : List α} :
    Ensures (fun results : List β => results.length = items.length) (items.mapM f) := by
  induction items with
  | nil => exact .pure rfl
  | cons a rest ih =>
    rw [List.mapM_cons]
    exact .bind .any fun b _ => .bind ih fun others length => .pure (congrArg (· + 1) length)

/-- What is chosen on an axis: an index list chooses as many places as it lists, and the axis
stays. -/
structure AxisChoice.Reaches (s : Subscript) (size : Nat) (choice : AxisChoice) : Prop where
  le : choice.positions.length ≤ s.reach size
  eq : s.isIndexList = true → choice.positions.length = s.reach size
  stays : s.isIndexList = true → choice.stays = true

theorem reaches_chooseAlong (axis size : Nat) (s : Subscript) :
    Ensures (AxisChoice.Reaches s size) (chooseAlong axis size s) := by
  unfold chooseAlong
  split
  · refine .bind (length_slicePositions_le size _ _ _) fun positions few => .pure ⟨few, ?_, ?_⟩
    · exact fun lists => nomatch lists
    · exact fun lists => nomatch lists
  · refine .bind length_of_mapM fun positions length => ?_
    exact .pure ⟨Nat.le_of_eq length, fun _ => length, fun _ => rfl⟩
  · next t =>
    refine .bind length_of_mapM fun positions length => ?_
    have length : positions.length = t.size := by simpa [Tensor.elements, Tensor.size] using length
    exact .pure ⟨Nat.le_of_eq length, fun _ => length, fun _ => rfl⟩
  · next v notList notTensor =>
    refine .bind (ensures_axisPosition axis size v) fun p within => .pure ?_
    have one : (Subscript.item v).reach size = min 1 size := by
      cases v with
      | list items => exact absurd rfl (notList items.toList)
      | tensor t => exact absurd rfl (notTensor t)
      | _ => rfl
    have single : (Subscript.item v).isIndexList = false := by
      cases v with
      | list items => exact absurd rfl (notList items.toList)
      | tensor t => exact absurd rfl (notTensor t)
      | _ => rfl
    constructor
    · rw [one, List.length_singleton]
      omega
    · simp [single]
    · simp [single]
  · exact .error

/-- What is chosen on all axes. Index lists choose as many places as they list, so that their
numbers multiply. -/
theorem reaches_axisChoices (axis : Nat) (shape : List Nat) (subscripts : List Subscript) :
    Ensures (fun choices => (productPositions shape choices).length ≤ reachAlong shape subscripts ∧
        ((∀ s ∈ subscripts, s.isIndexList = true) →
          (productPositions shape choices).length = reachAlong shape subscripts ∧
            ∀ c ∈ choices, c.stays = true))
      (axisChoices axis shape subscripts) := by
  have product (size : Nat) (shape : List Nat) (choice : AxisChoice) (choices : List AxisChoice) :
      (productPositions (size :: shape) (choice :: choices)).length =
        choice.positions.length * (productPositions shape choices).length := by
    simp [productPositions, List.length_flatMap, List.map_const']
  induction shape generalizing axis subscripts with
  | nil =>
    rw [axisChoices]
    exact .ok ⟨Nat.le_refl 1, fun _ => ⟨rfl, by simp⟩⟩
  | cons size shape ih =>
    cases subscripts with
    | nil =>
      refine .bind (ih (axis + 1) []) fun choices later => .pure ?_
      obtain ⟨few, precise⟩ := later
      rw [product, List.length_range, reachAlong]
      refine ⟨Nat.mul_le_mul_left size few, fun _ => ?_⟩
      obtain ⟨same, stay⟩ := precise (by simp)
      rw [same]
      exact ⟨rfl, by simpa using stay⟩
    | cons s rest =>
      refine .bind (reaches_chooseAlong axis size s) fun choice here => ?_
      refine .bind (ih (axis + 1) rest) fun choices later => .pure ?_
      obtain ⟨few, precise⟩ := later
      rw [product, reachAlong]
      refine ⟨Nat.mul_le_mul here.le few, fun lists => ?_⟩
      obtain ⟨isList, others⟩ := List.forall_mem_cons.mp lists
      obtain ⟨same, stay⟩ := precise others
      rw [here.eq isList, same]
      exact ⟨rfl, List.forall_mem_cons.mpr ⟨here.stays isList, stay⟩⟩

/-- What is selected along the axes, and whether an axis stays. -/
theorem reaches_selectAxes (t : Tensor) (subscripts : List Subscript) :
    Ensures (fun selection => selection.positions.length ≤ reachAlong t.shape subscripts ∧
        (t.shape ≠ [] → (∀ s ∈ subscripts, s.isIndexList = true) →
          selection.positions.length = reachAlong t.shape subscripts ∧ selection.shape ≠ []))
      (selectAxes t subscripts) := by
  unfold selectAxes
  split
  · exact .error
  · intro selection given
    obtain ⟨choices, chosen, given⟩ := bind_eq_ok.mp given
    cases given
    obtain ⟨few, precise⟩ := reaches_axisChoices 0 t.shape subscripts choices chosen
    refine ⟨few, fun some lists => ?_⟩
    obtain ⟨same, stay⟩ := precise lists
    refine ⟨same, ?_⟩
    have axes := (fits_axisChoices 0 t.shape subscripts choices chosen).length_eq
    have all : choices.filter (·.stays) = choices := List.filter_eq_self.mpr stay
    have nonempty : choices ≠ [] := by
      rintro rfl
      exact some (List.length_eq_zero_iff.mp axes)
    simpa [all] using nonempty

theorem length_select_le (t : Tensor) (s : Subscript) :
    Ensures (fun selection => selection.positions.length ≤ s.reachIn t) (select t s) := by
  unfold select
  split
  · next mask =>
    rw [Subscript.reachIn]
    split
    · unfold selectMask
      split
      · exact .error
      · refine .ok ?_
        have kept := List.length_filter_le (fun i => mask.get i != 0.0) (List.range mask.size)
        simpa using kept
    · exact (reaches_selectAxes t _).mono fun _ reaches => reaches.1
  · next parts => exact (reaches_selectAxes t parts).mono fun _ reaches => reaches.1
  · next notTensor notMulti =>
    have single : s.reachIn t = reachAlong t.shape [s] := by
      cases s with
      | item v =>
        cases v with
        | tensor mask => exact absurd rfl (notTensor mask)
        | _ => rfl
      | slice => rfl
      | multi parts => exact absurd rfl (notMulti parts)
    rw [single]
    exact (reaches_selectAxes t [s]).mono fun _ reaches => reaches.1

/-- An item of an array has as many elements as the subscript reaches at most. -/
theorem length_tensorItem_le (t : Tensor) (s : Subscript) :
    Ensures (fun v => v.length ≤ s.reachIn t) (tensorItem t s) := by
  refine .bind (length_select_le t s) fun selection few => .pure ?_
  refine Nat.le_trans (length_toValue_le _) ?_
  simpa [Tensor.size] using few

theorem length_tensorItem_lists {t : Tensor} {parts : List Subscript} (some : t.shape ≠ [])
    (lists : ∀ s ∈ parts, s.isIndexList = true) :
    Ensures (fun v => v.length = reachAlong t.shape parts) (tensorItem t (.multi parts)) := by
  refine .bind (reaches_selectAxes t parts) fun selection reaches => .pure ?_
  obtain ⟨same, stays⟩ := reaches.2 some lists
  rw [length_toValue, if_neg stays]
  simpa [Tensor.size] using same

theorem reach_le_size {s : Subscript} (plain : s.isIndexList = false) (size : Nat) :
    s.reach size ≤ size := by
  cases s with
  | slice => exact Nat.le_refl size
  | multi => exact Nat.zero_le size
  | item v =>
    cases v with
    | list | tensor => cases plain
    | _ => exact Nat.min_le_right 1 size

theorem reachAlong_le_volume {shape : List Nat} {subscripts : List Subscript}
    (plain : ∀ s ∈ subscripts, s.isIndexList = false) :
    reachAlong shape subscripts ≤ volume shape := by
  induction shape generalizing subscripts with
  | nil => exact Nat.le_refl 1
  | cons size shape ih =>
    cases subscripts with
    | nil => exact Nat.mul_le_mul_left size (ih plain)
    | cons s rest =>
      obtain ⟨here, others⟩ := List.forall_mem_cons.mp plain
      exact Nat.mul_le_mul (reach_le_size here size) (ih others)

/-- Slices and integers select no more than the array has. -/
theorem reachIn_le_size {t : Tensor} (shaped : t.WellShaped) {s : Subscript}
    (plain : ∀ p ∈ s.parts, p.isIndexList = false) : s.reachIn t ≤ t.size := by
  rw [shaped.size_eq]
  unfold Subscript.reachIn
  split
  · next mask =>
    have isPlain : Subscript.isIndexList (.item (.tensor mask)) = false :=
      plain _ (by simp [Subscript.parts])
    cases isPlain
  · exact reachAlong_le_volume plain

theorem reach_le_bound {s : Subscript} {size : Nat} (few : size ≤ maxSequenceLength)
    (bounded : s.Bounded) : s.reach size ≤ maxSequenceLength := by
  by_cases lists : s.isIndexList = true
  · cases s with
    | slice | multi => cases lists
    | item v =>
      cases v with
      | list | tensor => exact bounded
      | _ => cases lists
  · have plain : s.isIndexList = false := by simpa using lists
    exact Nat.le_trans (reach_le_size plain size) few

/-- On a single axis an index list selects as many elements as it lists. -/
theorem reachIn_le_bound {t : Tensor} {n : Nat} (shape : t.shape = [n])
    (few : n ≤ maxSequenceLength) {s : Subscript} (bounded : ∀ p ∈ s.parts, p.Bounded) :
    s.reachIn t ≤ maxSequenceLength := by
  have along (parts : List Subscript) (bounded : ∀ p ∈ parts, p.Bounded) :
      reachAlong t.shape parts ≤ maxSequenceLength := by
    rw [shape]
    cases parts with
    | nil => simpa [reachAlong] using few
    | cons p rest =>
      have first := reach_le_bound few (bounded p List.mem_cons_self)
      cases rest <;> simpa [reachAlong] using first
  unfold Subscript.reachIn
  split
  · next mask =>
    split
    · exact bounded (.item (.tensor mask)) (by simp [Subscript.parts])
    · exact along _ bounded
  · exact along _ bounded

/-! ### All operations -/

/-- What a value or an array gives is no longer than sequences and arrays may be, but for what
several index lists select. -/
structure LengthsBounded (v : Value) (t : Tensor) (s : Subscript) : Prop where
  /-- Among them concatenation, repetition, broadcasting and the product of matrices. -/
  binary (op : BinaryOp) (right : Value) : Ensures Value.Bounded (binary op v right)
  /-- Ranges, evenly spaced numbers, arrays of one number or of random ones, and arrays from nested
  sequences. -/
  builtin (b : Builtin) (args : List Value) (kwargs : Keywords) : b.makesSequence = true →
    (∀ v ∈ args, v.ArraysShaped ∧ v.Bounded) → (b.call args kwargs).Gives Value.Bounded
  ofValue : v.ArraysShaped → v.Bounded →
    Ensures (fun t : Tensor => t.size ≤ maxSequenceLength) (Tensor.ofValue v)
  reshape (args : List Value) (kwargs : Keywords) :
    Ensures Value.Bounded (callMethod (.tensor t) "reshape" args kwargs)
  /-- Integers and slices select some of the elements of an array. -/
  plain : t.WellShaped → (Value.tensor t).Bounded → (∀ p ∈ s.parts, p.isIndexList = false) →
    Ensures Value.Bounded (getItem (.tensor t) s)
  mask (mask : Tensor) : mask.kind = .bool → (Value.tensor mask).Bounded →
    Ensures Value.Bounded (getItem (.tensor t) (.item (.tensor mask)))
  vector (n : Nat) : t.WellShaped → (Value.tensor t).Bounded → t.shape = [n] →
    (∀ p ∈ s.parts, p.Bounded) → Ensures Value.Bounded (getItem (.tensor t) s)
  item : Ensures (fun v => v.length ≤ s.reachIn t) (getItem (.tensor t) s)
  /-- Index lists on several axes select the product of their lengths, however large. -/
  lists (parts : List Subscript) : t.shape ≠ [] → (∀ p ∈ parts, p.isIndexList = true) →
    Ensures (fun v => v.length = reachAlong t.shape parts) (getItem (.tensor t) (.multi parts))

theorem lengths_bounded (v : Value) (t : Tensor) (s : Subscript) : LengthsBounded v t s where
  binary op := bounded_binary op v
  builtin _ _ kwargs makes := bounded_call makes kwargs
  ofValue := size_ofValue_le
  reshape := bounded_reshape t
  plain shaped few plain := (length_tensorItem_le t s).mono fun item reaches => calc
    item.length ≤ s.reachIn t := reaches
    _ ≤ t.size := reachIn_le_size shaped plain
    _ ≤ maxSequenceLength := few
  mask mask isMask few := (length_tensorItem_le t _).mono fun item reaches => calc
    item.length ≤ Subscript.reachIn t (.item (.tensor mask)) := reaches
    _ = mask.size := by rw [Subscript.reachIn, if_pos isMask]
    _ ≤ maxSequenceLength := few
  vector n shaped few shape bounded := by
    have axis : t.size = n := by rw [shaped.size_eq, shape, volume_singleton]
    exact (length_tensorItem_le t s).mono fun item reaches => calc
      item.length ≤ s.reachIn t := reaches
      _ ≤ maxSequenceLength := reachIn_le_bound shape (axis ▸ few) bounded
  item := length_tensorItem_le t s
  lists _ := length_tensorItem_lists

/-- The list of `n` zeros. -/
def zeroIndices (n : Nat) : Value := .list ⟨List.replicate n (.int 0)⟩

theorem mapM_replicate {ε α β : Type} {f : α → Except ε β} {a : α} {b : β} (given : f a = .ok b)
    (n : Nat) : (List.replicate n a).mapM f = .ok (List.replicate n b) := by
  induction n with
  | zero => rfl
  | succ n ih =>
    rw [List.replicate_succ, List.mapM_cons, given, ih]
    rfl

/-- An array of one element, indexed by zeros on both of its axes. -/
theorem getItem_zeroIndices (x : Float) (n : Nat) :
    ∃ v, getItem (.tensor ⟨#[x], [1, 1], .float⟩)
        (.multi [.item (zeroIndices n), .item (zeroIndices n)]) = .ok v ∧ v.length = n * n := by
  have along (axis : Nat) :
      chooseAlong axis 1 (.item (zeroIndices n)) = .ok ⟨List.replicate n 0, true⟩ := by
    have first : axisPosition axis 1 (.int 0) = .ok 0 := rfl
    rw [zeroIndices, chooseAlong, mapM_replicate first n]
    rfl
  have chosen : axisChoices 0 [1, 1] [.item (zeroIndices n), .item (zeroIndices n)] =
      .ok [⟨List.replicate n 0, true⟩, ⟨List.replicate n 0, true⟩] := by
    rw [axisChoices, along, axisChoices, along]
    rfl
  have lists : ∀ p ∈ [Subscript.item (zeroIndices n), .item (zeroIndices n)],
      p.isIndexList = true := by simp [Subscript.isIndexList, zeroIndices]
  have given : ∃ v, tensorItem ⟨#[x], [1, 1], .float⟩
      (.multi [.item (zeroIndices n), .item (zeroIndices n)]) = .ok v := by
    rw [tensorItem, select, selectAxes]
    dsimp only
    rw [chosen]
    exact ⟨_, rfl⟩
  obtain ⟨v, given⟩ := given
  refine ⟨v, given, ?_⟩
  rw [length_tensorItem_lists (by simp) lists v given]
  simp [reachAlong, Subscript.reach, zeroIndices]

/-- Operands of a few thousand items that make an array of more than ten million elements. -/
theorem selection_exceeds : ∃ (t : Tensor) (index v : Value),
    t.WellShaped ∧ (Value.tensor t).Bounded ∧ index.Bounded ∧
      getItem (.tensor t) (.multi [.item index, .item index]) = .ok v ∧ ¬ v.Bounded := by
  obtain ⟨v, given, length⟩ := getItem_zeroIndices 0.0 3163
  have items : (zeroIndices 3163).length = 3163 := List.length_replicate
  refine ⟨_, _, v, ⟨rfl, by decide⟩, ?_, ?_, given, ?_⟩
  · exact (by decide : 1 ≤ maxSequenceLength)
  · rw [Value.Bounded, items]
    decide
  · rw [Value.Bounded, length]
    decide

end DocExamples.Script
