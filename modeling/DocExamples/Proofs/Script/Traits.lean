import DocExamples.Proofs.Script.Nesting
import DocExamples.Proofs.Script.Parts
import DocExamples.Proofs.Sorting.Members
import DocExamples.Script.Method
/-!
What operations on values keep. If a few operations on dictionaries and arrays keep conditions on
them, so does everything that is computed from values: what it gives is made of dictionaries and
arrays that meet the conditions if what it is given is.
-/
namespace DocExamples.Script

/-- A condition on arrays that their parts meet, and what holds the same elements. -/
structure TensorParts (P : Tensor → Prop) : Prop where
  ofValue : ∀ {v : Value}, (∀ t, (Value.tensor t).Inside v → P t) → Ensures P (Tensor.ofValue v)
  row : ∀ {t : Tensor} {n rest index}, P t → t.shape = n :: rest → index < n →
    P ⟨t.rowData index, rest, t.kind⟩
  reshape : ∀ {t : Tensor} {shape}, P t → Ensures P (t.reshape shape)
  transpose : ∀ {t : Tensor}, P t → P t.transpose
  selected : ∀ {t : Tensor} {s selection}, P t → select t s = .ok selection →
    P ⟨(selection.positions.map t.get).toArray, selection.shape, t.kind⟩

/-- A condition on arrays that all operations on single arrays keep. -/
structure TensorLaws (P : Tensor → Prop) : Prop extends TensorParts P where
  map : ∀ {t : Tensor} kind f, P t → P (t.map kind f)
  broadcast : ∀ {a b : Tensor} {kind f}, P a → P b → Ensures P (broadcast a b kind f)
  matMul : ∀ {a b : Tensor}, P a → P b →
    Ensures (fun v => ∀ t, v = .tensor t → P t) (matMul a b)
  store : ∀ {t : Tensor} positions numbers, P t → P (t.store positions numbers)
  vector : ∀ data kind, P (.vector data kind)
  sized : ∀ {data : Array Float} {shape} kind, checkedSize shape = .ok data.size →
    P ⟨data, shape, kind⟩

/-- A condition on dictionaries that their edits keep. -/
structure DictLaws (D : List (Value × Value) → Prop) : Prop where
  noEntries : D []
  putEntry : ∀ {key v entries}, D entries → D (putEntry key v entries)
  removeEntry : ∀ {key entries}, D entries → D ((DictEdit.remove key).apply entries)

/-- Conditions that the operations on single dictionaries and arrays keep. -/
structure Trait.Lawful (T : Trait) : Prop extends TensorLaws T.tensor, DictLaws T.dict

theorem TensorLaws.any : TensorLaws fun _ => True where
  ofValue _ := .any
  map _ _ _ := trivial
  row _ _ _ := trivial
  reshape _ := .any
  transpose _ := trivial
  broadcast _ _ := .any
  matMul _ _ := .mono .any fun _ _ _ _ => trivial
  selected _ _ := trivial
  store _ _ _ := trivial
  vector _ _ := trivial
  sized _ _ := trivial

theorem DictLaws.any : DictLaws fun _ => True where
  noEntries := trivial
  putEntry _ := trivial
  removeEntry _ := trivial

theorem Trait.lawful_any : Trait.any.Lawful := ⟨.any, .any⟩

theorem TensorLaws.lawful {P : Tensor → Prop} (laws : TensorLaws P) :
    (Trait.onArrays P).Lawful := ⟨laws, .any⟩

/-- All values of a list. -/
abbrev AllHave (T : Trait) (items : List Value) : Prop := ∀ v ∈ items, v.Has T

/-- All values given by keyword. -/
abbrev Keywords.AllHave (T : Trait) (kwargs : Keywords) : Prop := ∀ entry ∈ kwargs, entry.2.Has T

variable {T : Trait}

/-! ### Elements and items -/

theorem has_elementValue (kind : ElementKind) (x : Float) :
    (Tensor.elementValue kind x).Has T := by
  cases kind <;> exact Value.has_of_isAtomic rfl

theorem has_toValue {t : Tensor} (holds : T.tensor t) : t.toValue.Has T := by
  unfold Tensor.toValue
  split
  · exact has_elementValue _ _
  · exact Value.has_tensor.mpr holds

/-- The matrix product is a number or an array. -/
theorem isAtomic_or_tensor_of_matMul (a b : Tensor) :
    Ensures (fun v => v.isAtomic = true ∨ ∃ t, v = .tensor t) (matMul a b) := by
  unfold matMul
  dsimp only
  split
  · exact .error
  · split
    · exact .error
    · split
      · exact .error
      · refine .bind .any fun size _ => .pure ?_
        unfold Tensor.toValue
        split
        · generalize (⟨_, _, _⟩ : Tensor).kind = kind
          cases kind <;> exact .inl rfl
        · exact .inr ⟨_, rfl⟩

theorem has_elements (t : Tensor) : AllHave T t.elements := by
  intro v member
  obtain ⟨x, -, rfl⟩ := List.mem_map.mp member
  exact has_elementValue _ _

theorem has_nestedLists (kind : ElementKind) (shape : List Nat) (data : Array Float) :
    (Tensor.nestedLists kind shape data).Has T := by
  induction shape generalizing data with
  | nil => exact has_elementValue _ _
  | cons n rest ih =>
    rw [Tensor.nestedLists, Value.has_ofList]
    intro v member
    obtain ⟨index, -, rfl⟩ := List.mem_map.mp member
    exact ih _

/-! ### Arithmetic -/

/-- A computation of a value that holds no other and is no array. -/
abbrev EnsuresAtom (x : Except Fault Value) : Prop := Ensures (fun v => v.isAtomic = true) x

theorem EnsuresAtom.has {x : Except Fault Value} (atom : EnsuresAtom x) : Ensures (Value.Has T) x :=
  atom.mono fun _ => Value.has_of_isAtomic

theorem atom_exactInt (operation : String) (i : Int) : EnsuresAtom (exactInt operation i) := by
  unfold exactInt
  cases Integer.word? i with
  | none => exact .error
  | some n => exact .ok rfl

theorem atom_intPower (x : Int) (n : Nat) : EnsuresAtom (intPower x n) := by
  unfold intPower
  split
  · exact .error
  · split
    · exact atom_exactInt _ _
    · split
      · exact .error
      · exact atom_exactInt _ _

theorem atom_floatBinary (op : BinaryOp) (x y : Float) : EnsuresAtom (floatBinary op x y) := by
  have unlessZero (f : Fault) (v : Value) (atomic : v.isAtomic = true) :
      EnsuresAtom (if y == 0.0 then .error f else .ok v) := by
    split
    · exact .error
    · exact .ok atomic
  cases op with
  | add | sub | mul | pow => exact .ok rfl
  | div | floorDiv | mod => exact unlessZero _ _ rfl
  | matMul => exact .error

theorem atom_intBinary (op : BinaryOp) (a b : Int64) : EnsuresAtom (intBinary op a b) := by
  cases op with
  | add | sub | mul => exact atom_exactInt _ _
  | div =>
    unfold intBinary
    dsimp only
    split
    · exact .error
    · exact .ok rfl
  | floorDiv | mod =>
    unfold intBinary
    dsimp only
    split
    · exact .error
    · split
      · exact .error
      · exact atom_exactInt _ _
  | pow =>
    unfold intBinary
    dsimp only
    split
    · exact atom_intPower _ _
    · exact atom_floatBinary _ _ _
  | matMul => exact .error

theorem has_repeatItems {items : List Value} (have' : AllHave T items) (count : Nat) :
    AllHave T (repeatItems items count) := by
  unfold repeatItems
  split
  · exact fun _ member => nomatch member
  · intro v member
    obtain ⟨copy, copied, inside⟩ := List.mem_flatten.mp member
    rw [List.eq_of_mem_replicate copied] at inside
    exact have' v inside

theorem has_repeated {count : Int64} {v : Value} (holds : v.Has T) {x : Except Fault Value}
    (repeats : repeated? count v = some x) : Ensures (Value.Has T) x := by
  unfold repeated? at repeats
  split at repeats
  · cases repeats
    exact .bind .any fun _ _ => .pure (Value.has_of_isAtomic rfl)
  · cases repeats
    refine .bind .any fun _ _ => .pure (Value.has_ofList.mpr ?_)
    exact has_repeatItems (Value.has_list.mp holds) _
  · cases repeats
    refine .bind .any fun _ _ => .pure (Value.has_tuple.mpr ?_)
    exact has_repeatItems (Value.has_tuple.mp holds) _
  · cases repeats

theorem has_repetition {left right : Value} (first : left.Has T) (second : right.Has T)
    {x : Except Fault Value} (repeats : repetition? left right = some x) :
    Ensures (Value.Has T) x := by
  rw [repetition?, Option.orElse_eq_orElse, Option.orElse_eq_or, Option.or_eq_some_iff] at repeats
  rcases repeats with repeats | ⟨-, repeats⟩
  · obtain ⟨count, -, repeats⟩ := Option.bind_eq_some_iff.mp repeats
    exact has_repeated first repeats
  · obtain ⟨count, -, repeats⟩ := Option.bind_eq_some_iff.mp repeats
    exact has_repeated second repeats

theorem has_sequenceBinary {op : BinaryOp} {left right : Value} (first : left.Has T)
    (second : right.Has T) : Ensures (Value.Has T) (sequenceBinary op left right) := by
  unfold sequenceBinary
  split
  · exact .bind .any fun _ _ => .pure (Value.has_of_isAtomic rfl)
  · refine .bind .any fun _ _ => .pure (Value.has_list.mpr ?_)
    rw [Array.toList_append]
    exact List.forall_mem_append.mpr ⟨Value.has_list.mp first, Value.has_list.mp second⟩
  · refine .bind .any fun _ _ => .pure (Value.has_tuple.mpr ?_)
    exact List.forall_mem_append.mpr ⟨Value.has_tuple.mp first, Value.has_tuple.mp second⟩
  · cases repeats : repetition? left right with
    | none => exact .error
    | some x => exact has_repetition first second repeats
  · exact .error

theorem has_scalarBinary {op : BinaryOp} {left right : Value} (first : left.Has T)
    (second : right.Has T) : Ensures (Value.Has T) (scalarBinary op left right) := by
  unfold scalarBinary
  split
  · exact (atom_intBinary _ _ _).has
  · split
    · exact (atom_floatBinary _ _ _).has
    · exact has_sequenceBinary first second

/-! ### Subscripts -/

/-- All values in a subscript. -/
inductive Subscript.Has (T : Trait) : Subscript → Prop where
  | item {v : Value} (holds : v.Has T) : Subscript.Has T (.item v)
  | slice (start stop step : Option Int64) : Subscript.Has T (.slice start stop step)
  | multi {parts : List Subscript} (each : ∀ part ∈ parts, Subscript.Has T part) :
    Subscript.Has T (.multi parts)

mutual

theorem has_toKey : ∀ {s : Subscript}, s.Has T → Ensures (Value.Has T) s.toKey
  | .item _, .item holds => .ok holds
  | .slice .., _ => .error
  | .multi _, .multi each => .map (has_toKeys each) fun _ => Value.has_tuple.mpr

theorem has_toKeys : ∀ {parts : List Subscript}, (∀ part ∈ parts, part.Has T) →
    Ensures (AllHave T) (Subscript.toKeys parts)
  | [], _ => .ok fun _ member => nomatch member
  | s :: rest, each => by
    obtain ⟨here, others⟩ := List.forall_mem_cons.mp each
    refine .bind (has_toKey here) fun key holds => .bind (has_toKeys others) fun keys have' => ?_
    exact .pure (List.forall_mem_cons.mpr ⟨holds, have'⟩)

end

theorem has_pick {items : Array Value} (have' : AllHave T items.toList) (positions : List Nat) :
    AllHave T (pick items positions) := by
  intro v member
  obtain ⟨p, -, found⟩ := List.mem_filterMap.mp member
  exact have' v (Array.mem_toList_iff.mpr (Array.mem_of_getElem? found))

theorem has_itemAt {what : String} {items : Array Value} (have' : AllHave T items.toList)
    (v : Value) : Ensures (Value.Has T) (itemAt what items v) := by
  refine .bind .any fun index _ => ?_
  split
  · next item found =>
    obtain ⟨p, -, found⟩ := Option.bind_eq_some_iff.mp found
    exact .pure (have' item (Array.mem_toList_iff.mpr (Array.mem_of_getElem? found)))
  · exact .error

theorem has_underKey {entries : List (Value × Value)} {key v : Value}
    (holds : (Value.dict entries).Has T) (found : underKey? entries key = some v) : v.Has T := by
  obtain ⟨entry, first, rfl⟩ := Option.map_eq_some_iff.mp found
  exact ((Value.has_dict.mp holds).2 entry (List.mem_of_find?_eq_some first)).2

/-! ### Edits -/

/-- All values that an edit puts into a container. -/
def Edit.Has (T : Trait) : Edit → Prop
  | .list e => AllHave T e.values
  | .dict (.put key v) => key.Has T ∧ v.Has T
  | .dict (.remove _) | .tensor .. => True

theorem has_storeEdit {container v : Value} {s : Subscript} (inside : s.Has T) (holds : v.Has T) :
    Ensures (Edit.Has T) (storeEdit container s v) := by
  cases container with
  | list items =>
    refine .bind .any fun position _ => .pure ?_
    exact List.forall_mem_singleton.mpr holds
  | dict entries => exact .bind (has_toKey inside) fun key keyHas => .pure ⟨keyHas, holds⟩
  | tensor t => exact .bind .any fun _ _ => .bind .any fun _ _ => .pure trivial
  | none | bool | int | float | str | tuple | method | function | builtin | module
  | exceptionType | exception => exact .error

theorem has_deleteEdit {container : Value} {s : Subscript} :
    Ensures (Edit.Has T) (deleteEdit container s) := by
  cases container with
  | list items => exact .bind .any fun position _ => .pure fun _ member => nomatch member
  | dict entries =>
    refine .bind .any fun key _ => ?_
    split
    · exact .error
    · exact .pure trivial
  | none | bool | int | float | str | tuple | tensor | method | function | builtin | module
  | exceptionType | exception => exact .error

/-- An edit keeps the conditions if the array that it may leave meets them. -/
theorem DictLaws.applyEdit (laws : DictLaws T.dict) {e : Edit} {v : Value} (puts : e.Has T)
    (holds : v.Has T) (stored : ∀ t positions numbers, v = .tensor t →
      e = .tensor positions numbers → T.tensor (t.store positions numbers)) :
    (e.apply v).Has T := by
  unfold Edit.apply
  split
  · next e items =>
    apply Value.has_list.mpr
    intro w member
    exact (ListEdit.mem_apply member).elim (Value.has_list.mp holds w) (puts w)
  · next e entries =>
    obtain ⟨here, inside⟩ := Value.has_dict.mp holds
    cases e with
    | put key w =>
      obtain ⟨keyHas, valueHas⟩ := puts
      refine Value.has_dict.mpr ⟨laws.putEntry here, fun entry member => ?_⟩
      rcases mem_putEntry member with kept | ⟨value, ⟨u, kept⟩ | ⟨new, -⟩⟩
      · exact inside entry kept
      · exact ⟨(inside _ kept).1, value ▸ valueHas⟩
      · exact ⟨new ▸ keyHas, value ▸ valueHas⟩
    | remove key =>
      refine Value.has_dict.mpr ⟨laws.removeEntry here, fun entry member => ?_⟩
      exact inside entry (List.mem_of_mem_eraseP member)
  · next positions numbers t =>
    exact Value.has_tensor.mpr (stored t positions numbers rfl rfl)
  · exact holds

namespace TensorParts

section Items

variable (laws : TensorParts T.tensor)
include laws

theorem tensorOf {v : Value} (holds : v.Has T) : Ensures T.tensor (Tensor.ofValue v) :=
  laws.ofValue fun _ inside => holds _ inside

theorem rows {t : Tensor} (holds : T.tensor t) : AllHave T t.rows := by
  unfold Tensor.rows
  split
  · exact fun _ member => nomatch member
  · next n rest shape =>
    intro v member
    obtain ⟨index, inside, rfl⟩ := List.mem_map.mp member
    exact has_toValue (laws.row holds shape (List.mem_range.mp inside))

theorem iterate {v : Value} (holds : v.Has T) : Ensures (AllHave T) v.iterate := by
  cases v with
  | list items => exact .ok (Value.has_list.mp holds)
  | tuple items => exact .ok (Value.has_tuple.mp holds)
  | str s =>
    refine .ok fun v member => ?_
    obtain ⟨c, -, rfl⟩ := List.mem_map.mp member
    exact Value.has_of_isAtomic rfl
  | dict entries =>
    refine .ok fun v member => ?_
    obtain ⟨entry, inside, rfl⟩ := List.mem_map.mp member
    exact ((Value.has_dict.mp holds).2 entry inside).1
  | tensor t =>
    rw [Value.iterate]
    split
    · exact .error
    · exact .ok (laws.rows (Value.has_tensor.mp holds))
  | none | bool | int | float | method | function | builtin | module | exceptionType
  | exception => exact .error

theorem flatItems {v : Value} (holds : v.Has T) : Ensures (AllHave T) v.flatItems := by
  cases v with
  | tensor t => exact .ok (has_elements t)
  | list | tuple | str | dict | none | bool | int | float | method | function | builtin | module
  | exceptionType | exception => exact laws.iterate holds

theorem tensorItem {t : Tensor} (holds : T.tensor t) (s : Subscript) :
    Ensures (Value.Has T) (tensorItem t s) :=
  .andThen fun _ given => .pure (has_toValue (laws.selected holds given))

theorem getItem {container : Value} {s : Subscript} (holds : container.Has T) :
    Ensures (Value.Has T) (getItem container s) := by
  cases container with
  | list items =>
    have items' := Value.has_list.mp holds
    cases s with
    | item v => exact has_itemAt items' v
    | slice start stop step =>
      exact .bind .any fun positions _ => .pure (Value.has_ofList.mpr (has_pick items' positions))
    | multi parts => exact .error
  | tuple items =>
    have items' := Value.has_tuple.mp holds
    cases s with
    | item v => exact has_itemAt items' v
    | slice start stop step =>
      exact .bind .any fun positions _ => .pure (Value.has_tuple.mpr (has_pick items' positions))
    | multi parts => exact .error
  | str text =>
    cases s with
    | item v => exact .bind .any fun _ _ => .pure (Value.has_of_isAtomic rfl)
    | slice start stop step => exact .bind .any fun _ _ => .pure (Value.has_of_isAtomic rfl)
    | multi parts => exact .error
  | dict entries =>
    refine .bind .any fun key _ => ?_
    split
    · next v found => exact .pure (has_underKey holds found)
    · exact .error
  | tensor t => exact laws.tensorItem (Value.has_tensor.mp holds) s
  | none | bool | int | float | method | function | builtin | module | exceptionType
  | exception => exact .error

end Items

end TensorParts

namespace Trait.Lawful

section Items

variable (laws : T.Lawful)
include laws

/-! ### Edits -/

theorem applyEdit {e : Edit} {v : Value} (puts : e.Has T) (holds : v.Has T) :
    (e.apply v).Has T := by
  refine laws.toDictLaws.applyEdit puts holds fun t positions numbers isArray _ => ?_
  subst isArray
  exact laws.store positions numbers (Value.has_tensor.mp holds)

theorem putEntries {key v : Value} {entries : List (Value × Value)}
    (holds : (Value.dict entries).Has T) (keyHas : key.Has T) (valueHas : v.Has T) :
    (Value.dict (DocExamples.Script.putEntry key v entries)).Has T :=
  laws.applyEdit (e := .dict (.put key v)) ⟨keyHas, valueHas⟩ holds

theorem mutatorEdit {mutator : Mutator} {items : Array Value} {args : List Value}
    (itemsHave : AllHave T items.toList) (argsHave : AllHave T args) :
    Ensures (fun made => AllHave T made.1.values ∧ made.2.Has T) (mutator.edit items args) := by
  have noValue : (Value.none).Has T := Value.has_of_isAtomic rfl
  cases mutator with
  | append =>
    refine .andThen fun v sole => .pure ⟨List.forall_mem_singleton.mpr ?_, noValue⟩
    exact argsHave v (by simp [oneOf_eq_ok.mp sole])
  | extend =>
    refine .andThen fun v sole => ?_
    have holds := argsHave v (by simp [oneOf_eq_ok.mp sole])
    exact .bind (laws.flatItems holds) fun more have' => .pure ⟨have', noValue⟩
  | insert =>
    refine .bind (R := fun e => AllHave T e.values) ?_ fun e have' => .pure ⟨have', noValue⟩
    refine .andThen fun (index, v) both => .bind .any fun i _ => .pure ?_
    exact List.forall_mem_singleton.mpr (argsHave v (by simp [twoOf_eq_ok.mp both]))
  | reverse => exact .ok ⟨fun _ member => absurd member List.not_mem_nil, noValue⟩
  | pop =>
    rw [Mutator.edit, Mutator.popEdit]
    split
    · exact .error
    · refine .bind .any fun index _ => ?_
      split
      · next item position found =>
        obtain ⟨p, -, found⟩ := Option.bind_eq_some_iff.mp found
        obtain ⟨item', found, same⟩ := Option.map_eq_some_iff.mp found
        cases same
        refine .pure ⟨fun _ member => absurd member List.not_mem_nil, itemsHave item ?_⟩
        exact Array.mem_toList_iff.mpr (Array.mem_of_getElem? found)
      · exact .error

/-! ### Operators -/

theorem tensorBinary {op : BinaryOp} {left right : Value} (first : left.Has T)
    (second : right.Has T) : Ensures (Value.Has T) (tensorBinary op left right) := by
  refine .bind (laws.tensorOf first) fun a holds => .bind (laws.tensorOf second) fun b holds' => ?_
  dsimp only
  split
  · exact .error
  · split
    · intro v given
      rcases isAtomic_or_tensor_of_matMul a b v given with atomic | ⟨t, rfl⟩
      · exact Value.has_of_isAtomic atomic
      · exact Value.has_tensor.mpr (laws.matMul holds holds' _ given t rfl)
    · refine .bind (laws.broadcast holds holds') fun result kept => ?_
      have cleaned (kind : ElementKind) :
          T.tensor (if kind = .int then result.map .int zeroUnlessFinite else result) := by
        split
        · exact laws.map _ _ kept
        · exact kept
      exact .pure (Value.has_tensor.mpr (cleaned _))

theorem binary {op : BinaryOp} {left right : Value} (first : left.Has T) (second : right.Has T) :
    Ensures (Value.Has T) (binary op left right) := by
  unfold DocExamples.Script.binary
  split
  · exact laws.tensorBinary first second
  · exact laws.tensorBinary first second
  · exact has_scalarBinary first second

theorem unary {op : UnaryOp} {operand : Value} (holds : operand.Has T) :
    Ensures (Value.Has T) (unary op operand) := by
  unfold DocExamples.Script.unary
  split
  · exact .bind .any fun _ _ => .pure (Value.has_of_isAtomic rfl)
  · exact (atom_exactInt _ _).has
  · exact .ok (Value.has_of_isAtomic rfl)
  · exact .ok (Value.has_of_isAtomic rfl)
  · exact .ok (Value.has_tensor.mpr (laws.map _ _ (Value.has_tensor.mp holds)))
  · exact .ok (Value.has_of_isAtomic rfl)
  · exact .ok (Value.has_of_isAtomic rfl)
  · exact .ok (Value.has_of_isAtomic rfl)
  · exact .ok holds
  · exact .error
  · exact .error

theorem compareTensors {op : CompareOp} {left right : Value} (first : left.Has T)
    (second : right.Has T) : Ensures (Value.Has T) (compareTensors op left right) := by
  refine .bind (laws.tensorOf first) fun a holds => .bind (laws.tensorOf second) fun b holds' => ?_
  exact .bind (laws.broadcast holds holds') fun result kept => .pure (Value.has_tensor.mpr kept)

theorem compareOrdered {op : CompareOp} {left right : Value} (first : left.Has T)
    (second : right.Has T) : Ensures (Value.Has T) (compareOrdered op left right) := by
  unfold DocExamples.Script.compareOrdered
  split
  · exact laws.compareTensors first second
  · exact laws.compareTensors first second
  · split
    · exact .ok (Value.has_of_isAtomic rfl)
    · exact .ok (Value.has_of_isAtomic rfl)
    · exact .bind .any fun _ _ => .pure (Value.has_of_isAtomic rfl)

theorem compareValues {op : CompareOp} {left right : Value} (first : left.Has T)
    (second : right.Has T) : Ensures (Value.Has T) (compareValues op left right) := by
  unfold DocExamples.Script.compareValues
  split
  · exact .bind .any fun _ _ => .pure (Value.has_of_isAtomic rfl)
  · exact .bind .any fun _ _ => .pure (Value.has_of_isAtomic rfl)
  · exact .ok (Value.has_of_isAtomic rfl)
  · exact .ok (Value.has_of_isAtomic rfl)
  · exact laws.compareOrdered first second

end Items

end Trait.Lawful

end DocExamples.Script
