import Mathlib
import DocExamples.Proofs.Script.Counting
import DocExamples.Proofs.Script.Traits
/-!
What the functions and methods of the language keep: they make values only of those they are
given, by the operations on values.
-/
namespace DocExamples.Script

variable {T : Trait}

/-! ### Arguments -/

theorem has_oneOf {function : String} {args : List Value} (argsHave : AllHave T args) :
    Ensures (Value.Has T) (oneOf function args) :=
  fun v sole => argsHave v (by simp [oneOf_eq_ok.mp sole])

theorem has_twoOf {function : String} {args : List Value} (argsHave : AllHave T args) :
    Ensures (fun both => both.1.Has T ∧ both.2.Has T) (twoOf function args) := by
  intro both given
  have same := twoOf_eq_ok (a := both.1) (b := both.2).mp given
  exact ⟨argsHave _ (by simp [same]), argsHave _ (by simp [same])⟩

theorem has_soleArgument {function : String} {args : List Value} {kwargs : Keywords}
    (argsHave : AllHave T args) : Ensures (Value.Has T) (soleArgument function args kwargs) :=
  .bind .any fun _ _ => has_oneOf argsHave

theorem has_optionalArgument {function : String} {args : List Value} {kwargs : Keywords}
    (argsHave : AllHave T args) :
    Ensures (fun given => ∀ v, given = some v → v.Has T)
      (optionalArgument function args kwargs) := by
  refine .bind .any fun _ _ => ?_
  split
  · exact .error
  · exact .pure fun v first => argsHave v (List.mem_of_mem_head? first)

/-! ### Numbers -/

theorem atom_intOfFloat (x : Float) : EnsuresAtom (intOfFloat x) := by
  unfold intOfFloat
  split
  · exact .error
  · split
    · exact .error
    · exact .ok rfl

theorem atom_toInteger (v : Value) : EnsuresAtom (toInteger v) := by
  unfold toInteger
  dsimp only
  split
  · exact .bind .any fun _ _ => .pure rfl
  · exact .bind .any fun _ _ => .pure rfl
  · exact atom_intOfFloat _
  · unfold intOfText
    split
    · exact .ok rfl
    · exact .error
  · split
    · split
      · exact atom_intOfFloat _
      · exact .ok rfl
      · exact .ok rfl
    · exact .error
  · exact .error

theorem atom_toReal (v : Value) : EnsuresAtom (toReal v) := by
  have real (x : Option Float) (f : Fault) :
      EnsuresAtom (x.elim (.error f) fun x => .ok (.float x)) := by
    cases x with
    | none => exact .error
    | some x => exact .ok rfl
  unfold toReal
  split
  · exact real _ _
  · exact real _ _

theorem atom_lengthOf (v : Value) : EnsuresAtom (lengthOf v) := by
  unfold lengthOf
  split
  · exact .ok rfl
  · exact .ok rfl
  · exact .ok rfl
  · exact .ok rfl
  · split
    · exact .ok rfl
    · exact .error
  · exact .error

theorem atom_roundToWhole (x : Float) : EnsuresAtom (roundToWhole x) := by
  unfold roundToWhole
  split
  · exact .error
  · split
    · exact .error
    · exact atom_intOfFloat _

/-! ### Order -/

theorem has_extremeAfter {e : Extreme} {best : Value} {items : List Value} (holds : best.Has T)
    (itemsHave : AllHave T items) : Ensures (Value.Has T) (extremeAfter e best items) := by
  induction items generalizing best with
  | nil => exact .ok holds
  | cons v rest ih =>
    obtain ⟨here, others⟩ := List.forall_mem_cons.mp itemsHave
    refine .bind .any fun o _ => ih ?_ others
    split
    · exact here
    · exact holds

theorem has_extremeAmong {e : Extreme} {items : List Value} (itemsHave : AllHave T items) :
    Ensures (Value.Has T)
      (match items with
      | [] => throw (.value (.emptySequence e.name))
      | v :: rest => extremeAfter e v rest) := by
  cases items with
  | nil => exact .error
  | cons v rest =>
    obtain ⟨here, others⟩ := List.forall_mem_cons.mp itemsHave
    exact has_extremeAfter here others

theorem has_sortValues {items : List Value} (itemsHave : AllHave T items) :
    Ensures (AllHave T) (sortValues items) := Sorting.every_sort itemsHave

/-! ### Ranges -/

theorem has_rangeItems (start stop step : Int64) :
    Ensures (Value.Has T) (rangeItems start stop step) := by
  intro range given
  obtain ⟨numbers, -, rfl⟩ := ensures_rangeItems start stop step range given
  refine Value.has_ofList.mpr fun v member => ?_
  obtain ⟨n, -, rfl⟩ := List.mem_map.mp member
  exact Value.has_of_isAtomic rfl

theorem has_rangeOf (args : List Value) : Ensures (Value.Has T) (rangeOf args) := by
  refine .bind .any fun bounds _ => ?_
  split
  · exact has_rangeItems _ _ _
  · exact has_rangeItems _ _ _
  · exact has_rangeItems _ _ _
  · exact .error

/-- Numbers by a step, as many as an integer of sixty-four bits says. -/
theorem ensures_arrayRange (start stop step : Float) (kind : ElementKind) :
    Ensures (fun v => ∃ count < 2 ^ 63, v = .tensor (.vector (spaced start step count) kind))
      (arrayRange start stop step kind) := by
  have made (count : Float) :
      Ensures (fun v => ∃ count < 2 ^ 63, v = .tensor (.vector (spaced start step count) kind))
        (.ok (.tensor (.vector (spaced start step (Binary64.toInt64 count).toInt.toNat) kind)) :
          Except Fault Value) := by
    have below := (Binary64.toInt64 count).toInt_lt
    exact .ok ⟨_, by omega, rfl⟩
  unfold arrayRange
  split
  · exact .error
  · dsimp only
    split
    · split
      · exact .error
      · exact made _
    · split
      · exact .error
      · exact made _

theorem ensures_linspaceOf (args : List Value) (kwargs : Keywords) :
    Ensures (fun v => ∃ data, v = .tensor (.vector data .float)) (linspaceOf args kwargs) := by
  unfold linspaceOf
  dsimp only
  -- Only the bounds, the count and the end are taken from what the arguments say.
  repeat' first
    | exact .error
    | exact .pure ⟨_, rfl⟩
    | split
    | refine .bind .any fun _ _ => ?_

theorem ensures_filled (x : Float) (function : String) (args : List Value) (kwargs : Keywords) :
    Ensures (fun v => ∃ size shape kind, checkedSize shape = .ok size ∧
        v = .tensor ⟨Array.replicate size x, shape, kind⟩) (filled x function args kwargs) := by
  have made (shape : List Nat) (kind : ElementKind) :
      Ensures (fun v => ∃ size shape kind, checkedSize shape = .ok size ∧
          v = Value.tensor ⟨Array.replicate size x, shape, kind⟩)
        (checkedSize shape >>= fun size =>
          .ok (.tensor ⟨Array.replicate size x, shape, kind⟩)) :=
    .andThen fun size sized => .ok ⟨size, shape, kind, sized, rfl⟩
  refine .bind .any fun _ _ => .bind .any fun _ _ => .bind .any fun shape _ => ?_
  split
  · exact .bind .any fun kind _ => made shape kind
  · exact made shape .float

namespace Trait.Lawful

variable (laws : T.Lawful)
include laws

theorem arrayRange (start stop step : Float) (kind : ElementKind) :
    Ensures (Value.Has T) (arrayRange start stop step kind) := by
  refine (ensures_arrayRange start stop step kind).mono ?_
  rintro _ ⟨count, -, rfl⟩
  exact Value.has_tensor.mpr (laws.vector _ _)

theorem arangeOf (args : List Value) : Ensures (Value.Has T) (arangeOf args) := by
  refine .bind .any fun bounds _ => ?_
  split
  · exact laws.arrayRange _ _ _ _
  · exact laws.arrayRange _ _ _ _
  · exact laws.arrayRange _ _ _ _
  · exact .error

theorem linspaceOf (args : List Value) (kwargs : Keywords) :
    Ensures (Value.Has T) (linspaceOf args kwargs) := by
  refine (ensures_linspaceOf args kwargs).mono ?_
  rintro _ ⟨data, rfl⟩
  exact Value.has_tensor.mpr (laws.vector data .float)

theorem filled (x : Float) (function : String) (args : List Value) (kwargs : Keywords) :
    Ensures (Value.Has T) (filled x function args kwargs) := by
  refine (ensures_filled x function args kwargs).mono ?_
  rintro _ ⟨size, shape, kind, sized, rfl⟩
  refine Value.has_tensor.mpr (laws.sized kind ?_)
  rw [Array.size_replicate, sized]

/-! ### Reductions -/

theorem sumValues {items : List Value} (itemsHave : AllHave T items) :
    Ensures (Value.Has T) (sumValues items) :=
  .foldlM (Value.has_of_isAtomic rfl) fun _ total v member => laws.binary total (itemsHave v member)

theorem sumOf {v : Value} (holds : v.Has T) : Ensures (Value.Has T) (sumOf v) := by
  unfold DocExamples.Script.sumOf
  split
  · exact .ok (has_elementValue _ _)
  · exact .bind (laws.iterate holds) fun items itemsHave => laws.sumValues itemsHave

theorem sumAlong (v axis : Value) : Ensures (Value.Has T) (sumAlong v axis) := by
  have made (data : Array Float) (kind : ElementKind) : (Value.tensor (.vector data kind)).Has T :=
    Value.has_tensor.mpr (laws.vector data kind)
  refine .bind .any fun t _ => .bind .any fun i _ => ?_
  dsimp only
  split
  · split
    · exact .pure (has_elementValue _ _)
    · exact .error
  · split
    · exact .pure (made _ _)
    · split
      · split
        · exact .error
        · exact .pure (made _ _)
      · exact .error
  · exact .error

theorem extremeOf {e : Extreme} {args : List Value} (argsHave : AllHave T args) :
    Ensures (Value.Has T) (extremeOf e args) := by
  unfold DocExamples.Script.extremeOf
  split
  · dsimp only
    split
    · exact .error
    · exact .pure (has_elementValue _ _)
  · split
    · next v _ =>
      refine .bind (laws.iterate (argsHave v List.mem_cons_self)) fun items have' => ?_
      exact has_extremeAmong have'
    · exact has_extremeAmong argsHave

/-! ### Elements -/

theorem absolute {v : Value} (holds : v.Has T) : Ensures (Value.Has T) (absolute v) := by
  unfold DocExamples.Script.absolute
  split
  · exact (atom_exactInt _ _).has
  · exact .ok (Value.has_of_isAtomic rfl)
  · exact .ok (Value.has_of_isAtomic rfl)
  · exact .ok (Value.has_tensor.mpr (laws.map _ _ (Value.has_tensor.mp holds)))
  · exact .error

theorem rounded {v : Value} {places : Option Int64} (holds : v.Has T) :
    Ensures (Value.Has T) (rounded v places) := by
  unfold DocExamples.Script.rounded
  split
  · exact .bind .any fun _ _ => .pure (Value.has_of_isAtomic rfl)
  · exact .bind .any fun _ _ => .pure (Value.has_of_isAtomic rfl)
  · exact (atom_roundToWhole _).has
  · exact .ok (Value.has_of_isAtomic rfl)
  · exact .ok (Value.has_tensor.mpr (laws.map _ _ (Value.has_tensor.mp holds)))
  · exact .error

theorem onElements {v : Value} (f : Float → Float) (holds : v.Has T) :
    Ensures (Value.Has T) (onElements f v) := by
  unfold DocExamples.Script.onElements
  split
  · refine .bind (laws.tensorOf holds) fun t kept => .pure ?_
    exact Value.has_tensor.mpr (laws.map _ _ kept)
  · exact .bind .any fun _ _ => .pure (Value.has_of_isAtomic rfl)

theorem roundingOn {v : Value} (f : Float → Float) (holds : v.Has T) :
    Ensures (Value.Has T) (roundingOn f v) := by
  unfold DocExamples.Script.roundingOn
  split
  · exact laws.onElements f holds
  · exact .bind .any fun _ _ => (atom_intOfFloat _).has

end Trait.Lawful

/-! ### Functions -/

section Functions

variable {args : List Value} {kwargs : Keywords}

theorem atom_meanCall : EnsuresAtom (meanCall args kwargs) :=
  .bind .any fun _ _ => .bind .any fun _ _ => .pure rfl

theorem atom_intCall : EnsuresAtom (intCall args kwargs) := by
  refine .bind .any fun given _ => ?_
  split
  · exact atom_toInteger _
  · exact .pure rfl

theorem atom_floatCall : EnsuresAtom (floatCall args kwargs) := by
  refine .bind .any fun given _ => ?_
  split
  · exact atom_toReal _
  · exact .pure rfl

theorem atom_boolCall : EnsuresAtom (boolCall args kwargs) := by
  refine .bind .any fun given _ => ?_
  split
  · exact .bind .any fun _ _ => .pure rfl
  · exact .pure rfl

theorem atom_strCall : EnsuresAtom (strCall args kwargs) := .bind .any fun _ _ => .pure rfl

theorem atom_allcloseCall : EnsuresAtom (allcloseCall args kwargs) := by
  refine .bind .any fun _ _ => .bind .any fun _ _ => .bind .any fun _ _ => ?_
  refine .bind .any fun _ _ => .bind .any fun _ _ => .bind .any fun _ _ => ?_
  exact .bind .any fun _ _ => .pure rfl

theorem has_rowsOf {columns : List (Array Value)} (have' : ∀ items ∈ columns, AllHave T items.toList)
    (n : Nat) : AllHave T (rowsOf columns n).toList := by
  intro row member
  rw [rowsOf, Array.toList_map] at member
  obtain ⟨i, -, rfl⟩ := List.mem_map.mp member
  refine Value.has_tuple.mpr fun v inside => ?_
  obtain ⟨items, column, found⟩ := List.mem_filterMap.mp inside
  exact have' items column v (Array.mem_toList_iff.mpr (Array.mem_of_getElem? found))

theorem has_numbered {items : List Value} (start : Int64) (itemsHave : AllHave T items) :
    AllHave T (numbered start items) := by
  intro v member
  obtain ⟨i, inside, rfl⟩ := List.mem_mapIdx.mp member
  refine Value.has_tuple.mpr (List.forall_mem_cons.mpr ⟨Value.has_of_isAtomic rfl, ?_⟩)
  exact List.forall_mem_singleton.mpr (itemsHave _ (List.getElem_mem inside))

/-! ### Methods -/

theorem has_splitText {text : String} (args : List Value) :
    Ensures (Value.Has T) (splitText text args) := by
  have texts (parts : List (List Char)) :
      (Value.ofList (parts.map fun part => .str (String.ofList part))).Has T := by
    refine Value.has_ofList.mpr fun v member => ?_
    obtain ⟨part, -, rfl⟩ := List.mem_map.mp member
    exact Value.has_of_isAtomic rfl
  unfold splitText
  dsimp only
  split
  · exact .bind .any fun _ _ => .bind .any fun parts _ => .pure (texts parts)
  · exact .bind .any fun parts _ => .pure (texts parts)

theorem has_textMethod {text : String} (name : String) :
    Ensures (Value.Has T) (textMethod text name args) := by
  unfold textMethod
  split
  · exact .ok (Value.has_of_isAtomic rfl)
  · exact .ok (Value.has_of_isAtomic rfl)
  · exact .ok (Value.has_of_isAtomic rfl)
  · exact has_splitText args
  · exact .bind .any fun _ _ => .bind .any fun _ _ => .bind .any fun _ _ =>
      .pure (Value.has_of_isAtomic rfl)
  · exact .bind .any fun _ _ => .bind .any fun _ _ => .bind .any fun _ _ =>
      .pure (Value.has_of_isAtomic rfl)
  · exact .bind .any fun _ _ => .bind .any fun _ _ => .pure (Value.has_of_isAtomic rfl)
  · exact .bind .any fun _ _ => .bind .any fun _ _ => .pure (Value.has_of_isAtomic rfl)
  · exact .error

theorem has_dictMethod {entries : List (Value × Value)} (name : String)
    (argsHave : AllHave T args) (holds : (Value.dict entries).Has T) :
    Ensures (Value.Has T) (dictMethod entries name args) := by
  have inside := (Value.has_dict.mp holds).2
  unfold dictMethod
  split
  · refine .ok (Value.has_ofList.mpr fun v member => ?_)
    obtain ⟨entry, found, rfl⟩ := List.mem_map.mp member
    exact (inside entry found).1
  · refine .ok (Value.has_ofList.mpr fun v member => ?_)
    obtain ⟨entry, found, rfl⟩ := List.mem_map.mp member
    exact (inside entry found).2
  · refine .ok (Value.has_ofList.mpr fun v member => ?_)
    obtain ⟨entry, found, rfl⟩ := List.mem_map.mp member
    refine Value.has_tuple.mpr (List.forall_mem_cons.mpr ⟨(inside entry found).1, ?_⟩)
    exact List.forall_mem_singleton.mpr (inside entry found).2
  · split
    · exact .error
    · next key rest =>
      refine .ok ?_
      cases found : underKey? entries key with
      | some v => exact has_underKey holds found
      | none =>
        cases rest with
        | nil => exact Value.has_of_isAtomic rfl
        | cons v rest => exact argsHave v (by simp)
  · exact .error

end Functions

namespace Trait.Lawful

section Functions

variable (laws : T.Lawful) {args : List Value} {kwargs : Keywords} (argsHave : AllHave T args)
include laws argsHave

theorem sumCall : Ensures (Value.Has T) (sumCall args kwargs) := by
  refine .bind .any fun _ _ => .bind (has_oneOf argsHave) fun v holds => ?_
  split
  · exact laws.sumOf holds
  · exact laws.sumOf holds
  · exact laws.sumAlong _ _

theorem extremeCall (e : Extreme) : Ensures (Value.Has T) (extremeCall e args kwargs) :=
  .bind .any fun _ _ => laws.extremeOf argsHave

theorem roundCall : Ensures (Value.Has T) (roundCall args kwargs) := by
  refine .bind .any fun _ _ => .bind .any fun places _ => ?_
  split
  · exact .error
  · next v _ => exact laws.rounded (argsHave v List.mem_cons_self)

theorem sortedCall : Ensures (Value.Has T) (sortedCall args kwargs) := by
  refine .bind .any fun _ _ => .bind (has_oneOf argsHave) fun v holds => ?_
  refine .bind (laws.iterate holds) fun items have' => .bind (has_sortValues have') ?_
  intro sorted sortedHave
  have either (backward : Bool) :
      (Value.ofList (if backward then sorted.reverse else sorted)).Has T := by
    apply Value.has_ofList.mpr
    split
    · exact fun v member => sortedHave v (List.mem_reverse.mp member)
    · exact sortedHave
  split
  · exact .bind .any fun backward _ => .pure (either backward)
  · exact .pure (either false)

theorem itemsCall (function : String) : Ensures (AllHave T) (itemsCall function args kwargs) := by
  refine .bind (has_optionalArgument argsHave) fun given have' => ?_
  split
  · next v => exact laws.iterate (have' v rfl)
  · exact .pure fun _ member => absurd member List.not_mem_nil

theorem listCall : Ensures (Value.Has T) (listCall args kwargs) := by
  have noItems : (Value.list #[]).Has T := Value.has_list.mpr fun _ member => nomatch member
  refine .bind (has_optionalArgument argsHave) fun given have' => ?_
  split
  · refine .pure ?_
    split
    · exact noItems
    · exact has_nestedLists _ _ _
  · next v _ =>
    exact .bind (laws.iterate (have' v rfl)) fun items have' => .pure (Value.has_ofList.mpr have')
  · exact .pure noItems

theorem enumerateCall : Ensures (Value.Has T) (enumerateCall args kwargs) := by
  refine .bind .any fun _ _ => ?_
  have numbers (start : Int64) : Ensures (Value.Has T) (do
      return .ofList (numbered start (← (← oneOf "enumerate" args).iterate))) := by
    refine .bind (has_oneOf argsHave) fun v holds => .bind (laws.iterate holds) fun items have' => ?_
    exact .pure (Value.has_ofList.mpr (has_numbered start have'))
  split
  · exact .bind .any fun start _ => numbers start
  · exact numbers 0

theorem zipCall : Ensures (Value.Has T) (zipCall args kwargs) := by
  refine .bind .any fun _ _ => ?_
  refine .bind (.mapM fun v member => laws.iterate (argsHave v member)) fun columns have' => ?_
  refine .pure (Value.has_list.mpr (has_rowsOf (fun items member => ?_) _))
  obtain ⟨column, inside, rfl⟩ := List.mem_map.mp member
  exact have' column inside

theorem arrayCall : Ensures (Value.Has T) (arrayCall args kwargs) := by
  refine .bind .any fun _ _ => .bind (has_oneOf argsHave) fun v holds => ?_
  refine .bind (laws.tensorOf holds) fun t kept => ?_
  split
  · refine .bind .any fun kind _ => .pure (Value.has_tensor.mpr ?_)
    cases kind <;> exact laws.map _ _ kept
  · exact .pure (Value.has_tensor.mpr kept)

theorem dotCall : Ensures (Value.Has T) (dotCall args kwargs) := by
  refine .bind .any fun _ _ => .bind (has_twoOf argsHave) fun both have' => ?_
  dsimp only
  split
  · exact laws.binary have'.1 have'.2
  · exact laws.binary have'.1 have'.2

omit argsHave

theorem attributeOf {v : Value} (name : String) (holds : v.Has T) :
    Ensures (Value.Has T) (attributeOf v name) := by
  have among (methods : List String) (f : Fault) : Ensures (Value.Has T)
      (if methods.contains name then .ok (.method v name) else .error f) := by
    split
    · exact .ok (Value.has_method.mpr holds)
    · exact .error
  cases v with
  | module owner =>
    refine fun v given => Value.has_of_isAtomic ?_
    cases found : moduleValue? owner name with
    | none => simp [DocExamples.Script.attributeOf, found] at given
    | some w =>
      obtain ⟨item, -, rfl⟩ := Option.map_eq_some_iff.mp found
      rw [DocExamples.Script.attributeOf, found] at given
      cases given
      cases item <;> rfl
  | tensor t =>
    have kept := Value.has_tensor.mp holds
    rw [DocExamples.Script.attributeOf]
    unfold tensorAttribute
    split
    · refine .ok (Value.has_tuple.mpr fun v member => ?_)
      obtain ⟨n, -, rfl⟩ := List.mem_map.mp member
      exact Value.has_of_isAtomic rfl
    · exact .ok (Value.has_of_isAtomic rfl)
    · exact .ok (Value.has_of_isAtomic rfl)
    · exact .ok (Value.has_of_isAtomic rfl)
    · exact .ok (Value.has_tensor.mpr (laws.transpose kept))
    · exact among _ _
  | exception kind message =>
    rw [DocExamples.Script.attributeOf]
    split
    · refine .ok (Value.has_tuple.mpr (List.forall_mem_singleton.mpr ?_))
      exact Value.has_of_isAtomic rfl
    · exact among _ _
  | list | str | dict => exact among _ _
  | none | bool | int | float | tuple | method | function | builtin | exceptionType =>
    exact among [] _

include argsHave

theorem listMethod {items : Array Value} (name : String) (itemsHave : AllHave T items.toList) :
    Ensures (Value.Has T) (listMethod items name args) := by
  unfold DocExamples.Script.listMethod
  split
  · refine .bind .any fun v _ => ?_
    unfold indexIn
    split
    · exact .ok (Value.has_of_isAtomic rfl)
    · exact .error
  · exact .bind .any fun v _ => .pure (Value.has_of_isAtomic rfl)
  · exact .ok (Value.has_list.mpr itemsHave)
  · split
    · exact .bind (laws.mutatorEdit itemsHave argsHave) fun made have' => .pure have'.2
    · exact .error

theorem tensorMethod {t : Tensor} (name : String) (kept : T.tensor t) :
    Ensures (Value.Has T) (tensorMethod t name args kwargs) := by
  have all : AllHave T (.tensor t :: args) :=
    List.forall_mem_cons.mpr ⟨Value.has_tensor.mpr kept, argsHave⟩
  unfold DocExamples.Script.tensorMethod
  dsimp only
  split
  · exact laws.sumCall all
  · exact atom_meanCall.has
  · exact laws.extremeCall all _
  · exact laws.extremeCall all _
  · exact laws.roundCall all
  · exact .ok (has_nestedLists _ _ _)
  · exact .ok (Value.has_tensor.mpr kept)
  · exact .bind (laws.reshape kept) fun t kept => .pure (Value.has_tensor.mpr kept)
  · refine .bind .any fun shape _ => ?_
    exact .bind (laws.reshape kept) fun t kept => .pure (Value.has_tensor.mpr kept)
  · exact .error

theorem callMethod {receiver : Value} (name : String) (holds : receiver.Has T) :
    Ensures (Value.Has T) (callMethod receiver name args kwargs) := by
  unfold DocExamples.Script.callMethod
  split
  · exact laws.tensorMethod argsHave name (Value.has_tensor.mp holds)
  · exact laws.listMethod argsHave name (Value.has_list.mp holds)
  · exact has_textMethod name
  · exact has_dictMethod name argsHave holds
  · exact .error

end Functions

end Trait.Lawful

end DocExamples.Script
