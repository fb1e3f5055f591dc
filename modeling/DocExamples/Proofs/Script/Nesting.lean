import DocExamples.Proofs.Except
import DocExamples.Script.Evaluation
/-!
How deep the containers of a value nest, and what edits of a container make of it.
-/
namespace DocExamples.Script

namespace Value

/-- Containers nest at most `limit` levels deep. -/
def Within (limit : Nat) (v : Value) : Prop := v.nestsDeeperThan limit = false

instance (limit : Nat) (v : Value) : Decidable (v.Within limit) :=
  inferInstanceAs (Decidable (_ = _))

variable {limit n : Nat}

theorem anyNestsDeeperThan_eq_false {items : List Value} :
    anyNestsDeeperThan limit items = false ↔ ∀ v ∈ items, v.Within limit := by
  induction items with
  | nil => simp [anyNestsDeeperThan]
  | cons v rest ih => simp [anyNestsDeeperThan, ih, Within]

theorem entryNestsDeeperThan_eq_false {entries : List (Value × Value)} :
    entryNestsDeeperThan limit entries = false ↔
      ∀ entry ∈ entries, entry.1.Within limit ∧ entry.2.Within limit := by
  induction entries with
  | nil => simp [entryNestsDeeperThan]
  | cons entry rest ih =>
    obtain ⟨key, v⟩ := entry
    simp [entryNestsDeeperThan, ih, Within, and_assoc]

theorem not_within_list {items : Array Value} : ¬(list items).Within 0 := by
  obtain ⟨items⟩ := items
  exact Bool.false_ne_true.symm

theorem not_within_tuple {items : List Value} : ¬(tuple items).Within 0 := Bool.false_ne_true.symm

theorem not_within_dict {entries : List (Value × Value)} : ¬(dict entries).Within 0 :=
  Bool.false_ne_true.symm

theorem not_within_method {receiver : Value} {name : String} :
    ¬(method receiver name).Within 0 := Bool.false_ne_true.symm

theorem within_list {items : Array Value} :
    (list items).Within (n + 1) ↔ ∀ v ∈ items.toList, v.Within n := by
  obtain ⟨items⟩ := items
  exact anyNestsDeeperThan_eq_false

theorem within_tuple {items : List Value} :
    (tuple items).Within (n + 1) ↔ ∀ v ∈ items, v.Within n := anyNestsDeeperThan_eq_false

theorem within_dict {entries : List (Value × Value)} :
    (dict entries).Within (n + 1) ↔
      ∀ entry ∈ entries, entry.1.Within n ∧ entry.2.Within n := entryNestsDeeperThan_eq_false

theorem within_method {receiver : Value} {name : String} :
    (method receiver name).Within (n + 1) ↔ receiver.Within n := Iff.rfl

theorem Within.succ {v : Value} (below : v.Within n) : v.Within (n + 1) := by
  induction n generalizing v with
  | zero =>
    -- Within no levels there are only values without parts.
    cases v with
    | list => exact absurd below not_within_list
    | tuple => exact absurd below not_within_tuple
    | dict => exact absurd below not_within_dict
    | method => exact absurd below not_within_method
    | none | bool | int | float | str | tensor | function | builtin | module | exceptionType
    | exception => rfl
  | succ n ih =>
    cases v with
    | list items => exact within_list.mpr fun v member => ih (within_list.mp below v member)
    | tuple items => exact within_tuple.mpr fun v member => ih (within_tuple.mp below v member)
    | dict entries =>
      apply within_dict.mpr
      intro entry member
      have parts := within_dict.mp below entry member
      exact ⟨ih parts.1, ih parts.2⟩
    | method receiver name => exact within_method.mpr (ih (within_method.mp below))
    | none | bool | int | float | str | tensor | function | builtin | module | exceptionType
    | exception => rfl

theorem Within.mono {v : Value} {m : Nat} (below : v.Within n) (le : n ≤ m) : v.Within m := by
  induction le with
  | refl => exact below
  | step _ ih => exact ih.succ

theorem within_elementValue (kind : ElementKind) (x : Float) :
    (Tensor.elementValue kind x).Within n := by
  cases kind <;> rfl

theorem within_toValue (t : Tensor) : t.toValue.Within n := by
  unfold Tensor.toValue
  split
  · exact within_elementValue _ _
  · rfl

/-- What a container holds nests one level less than it does. -/
theorem Within.of_iterate {v item : Value} {items : List Value} (below : v.Within (n + 1))
    (iterated : v.iterate = .ok items) (member : item ∈ items) : item.Within n := by
  cases v with
  | list found =>
    cases iterated
    exact within_list.mp below item member
  | tuple found =>
    cases iterated
    exact within_tuple.mp below item member
  | str s =>
    cases iterated
    obtain ⟨c, -, rfl⟩ := List.mem_map.mp member
    rfl
  | dict entries =>
    cases iterated
    obtain ⟨entry, inside, rfl⟩ := List.mem_map.mp member
    exact (within_dict.mp below entry inside).1
  | tensor t =>
    rw [iterate] at iterated
    split at iterated
    · cases iterated
    · cases iterated
      unfold Tensor.rows at member
      split at member
      · cases member
      · obtain ⟨index, -, rfl⟩ := List.mem_map.mp member
        exact within_toValue _
  | none | bool | int | float | method | function | builtin | module | exceptionType
  | exception => cases iterated

theorem Within.of_flatItems {v item : Value} {items : List Value} (below : v.Within (n + 1))
    (iterated : v.flatItems = .ok items) (member : item ∈ items) : item.Within n := by
  cases v with
  | tensor t =>
    cases iterated
    obtain ⟨x, -, rfl⟩ := List.mem_map.mp member
    exact within_elementValue _ _
  | list | tuple | str | dict | none | bool | int | float | method | function | builtin | module
  | exceptionType | exception => exact below.of_iterate iterated member

end Value

/-! ### Edits -/

namespace ListEdit

/-- Every value that the edit puts into a list nests at most `limit` levels deep. -/
def Stores (limit : Nat) : ListEdit → Prop
  | .set _ v | .insert _ v => v.Within limit
  | .extend items => ∀ v ∈ items, v.Within limit
  | .remove _ | .reverse => True

/-- The values that an edit puts into a list. -/
def values : ListEdit → List Value
  | .set _ v | .insert _ v => [v]
  | .extend items => items
  | .remove _ | .reverse => []

/-- An item of an edited list was in it before, or the edit put it there. -/
theorem mem_apply {e : ListEdit} {items : Array Value} {v : Value}
    (member : v ∈ (e.apply items).toList) : v ∈ items.toList ∨ v ∈ e.values := by
  rw [Array.mem_toList_iff] at member ⊢
  cases e with
  | set position w =>
    rcases Array.mem_or_eq_of_mem_setIfInBounds member with kept | rfl
    · exact .inl kept
    · exact .inr List.mem_cons_self
  | remove position =>
    rw [ListEdit.apply, Array.eraseIdxIfInBounds] at member
    split at member
    · exact .inl (Array.mem_of_mem_eraseIdx member)
    · exact .inl member
  | insert position w =>
    rw [ListEdit.apply, Array.insertIdxIfInBounds] at member
    split at member
    · rcases Array.mem_insertIdx.mp member with rfl | kept
      · exact .inr List.mem_cons_self
      · exact .inl kept
    · exact .inl member
  | extend more =>
    rwa [ListEdit.apply, ← Array.mem_toList_iff, Array.toList_appendList, List.mem_append,
      Array.mem_toList_iff] at member
  | reverse => exact .inl (Array.mem_reverse.mp member)

theorem stores_iff {limit : Nat} {e : ListEdit} :
    e.Stores limit ↔ ∀ v ∈ e.values, v.Within limit := by
  cases e <;> simp [Stores, values]

theorem within_apply {limit : Nat} {e : ListEdit} {items : Array Value} (stores : e.Stores limit)
    (below : ∀ v ∈ items.toList, v.Within limit) : ∀ v ∈ (e.apply items).toList, v.Within limit :=
  fun v member => (mem_apply member).elim (below v) (stores_iff.mp stores v)

end ListEdit

theorem underKey_eq_none_iff {key : Value} {entries : List (Value × Value)} :
    underKey? entries key = none ↔ entries.findIdx? (·.1.equals key) = none := by
  rw [underKey?, Option.map_eq_none_iff, List.find?_eq_none, List.findIdx?_eq_none_iff]
  simp only [Bool.not_eq_true]

/-- A value is put in the place of the first that is under the key, or in an entry of its own. -/
theorem putEntry_cases (key v : Value) (entries : List (Value × Value)) :
    (∃ i, entries.findIdx? (·.1.equals key) = some i ∧ i < entries.length ∧
      putEntry key v entries = entries.modify i fun entry => (entry.1, v)) ∨
    entries.findIdx? (·.1.equals key) = none ∧
      putEntry key v entries = entries ++ [(key, v)] := by
  induction entries with
  | nil => exact .inr ⟨rfl, rfl⟩
  | cons entry rest ih =>
    rw [putEntry, List.findIdx?_cons]
    by_cases equal : entry.1.equals key
    · rw [if_pos equal, if_pos equal]
      exact .inl ⟨0, rfl, Nat.succ_pos _, rfl⟩
    · rw [if_neg equal, if_neg equal]
      rcases ih with ⟨i, found, within, put⟩ | ⟨absent, put⟩
      · refine .inl ⟨i + 1, by rw [found]; rfl, Nat.succ_lt_succ within, ?_⟩
        rw [put, List.modify_succ_cons]
      · exact .inr ⟨by rw [absent]; rfl, by rw [put, List.cons_append]⟩

/-- An entry is under a key that was there before, or under the new one. -/
theorem mem_putEntry {key v : Value} {entries : List (Value × Value)} {entry : Value × Value}
    (member : entry ∈ putEntry key v entries) :
    entry ∈ entries ∨ entry.2 = v ∧ ((∃ w, (entry.1, w) ∈ entries) ∨
      entry.1 = key ∧ underKey? entries key = none) := by
  rcases putEntry_cases key v entries with ⟨i, -, -, put⟩ | ⟨absent, put⟩
  · obtain ⟨j, there⟩ := List.mem_iff_getElem?.mp (put ▸ member)
    rw [List.getElem?_modify] at there
    obtain ⟨old, before, rfl⟩ := Option.map_eq_some_iff.mp there
    have kept : old ∈ entries := List.mem_of_getElem? before
    split
    · exact .inr ⟨rfl, .inl ⟨old.2, kept⟩⟩
    · exact .inl kept
  · rw [put, List.mem_append, List.mem_singleton] at member
    rcases member with kept | rfl
    · exact .inl kept
    · exact .inr ⟨rfl, .inr ⟨rfl, underKey_eq_none_iff.mpr absent⟩⟩

theorem putEntry_of_absent {key v : Value} {entries : List (Value × Value)}
    (absent : underKey? entries key = none) : putEntry key v entries = entries ++ [(key, v)] := by
  rcases putEntry_cases key v entries with ⟨i, found, -, -⟩ | ⟨-, put⟩
  · cases (underKey_eq_none_iff.mp absent).symm.trans found
  · exact put

theorem oneOf_eq_ok {function : String} {args : List Value} {v : Value} :
    oneOf function args = .ok v ↔ args = [v] := by
  unfold oneOf
  split <;> simp_all

theorem twoOf_eq_ok {function : String} {args : List Value} {a b : Value} :
    twoOf function args = .ok (a, b) ↔ args = [a, b] := by
  unfold twoOf
  split <;> simp_all

/-- What a mutating method stores comes from its arguments. -/
theorem Mutator.stores_of_edit {mutator : Mutator} {items : Array Value} {args : List Value}
    {e : ListEdit} {result : Value} {n : Nat} (below : ∀ v ∈ args, v.Within (n + 1))
    (made : mutator.edit items args = .ok (e, result)) : e.Stores (n + 1) := by
  cases mutator with
  | append =>
    obtain ⟨v, sole, given⟩ := bind_eq_ok.mp made
    rw [oneOf_eq_ok] at sole
    cases given
    rw [sole] at below
    exact below
  | extend =>
    obtain ⟨v, sole, rest⟩ := bind_eq_ok.mp made
    obtain ⟨more, flat, given⟩ := bind_eq_ok.mp rest
    rw [oneOf_eq_ok] at sole
    cases given
    intro item member
    exact ((below v (by simp [sole])).of_flatItems flat member).succ
  | insert =>
    obtain ⟨made, inserted, given⟩ := bind_eq_ok.mp made
    cases given
    obtain ⟨⟨index, v⟩, both, rest⟩ := bind_eq_ok.mp inserted
    obtain ⟨i, -, given⟩ := bind_eq_ok.mp rest
    rw [twoOf_eq_ok] at both
    cases given
    exact below v (by simp [both])
  | reverse =>
    cases made
    trivial
  | pop =>
    rw [Mutator.edit, Mutator.popEdit] at made
    split at made
    · cases made
    · obtain ⟨index, -, removed⟩ := bind_eq_ok.mp made
      split at removed
      · cases removed
        trivial
      · cases removed

namespace Edit

/-- Every value that the edit puts into a container nests at most `limit` levels deep; this says
nothing of keys. -/
def Stores (limit : Nat) : Edit → Prop
  | .list e => e.Stores limit
  | .dict (.put _ v) => v.Within limit
  | .dict (.remove _) | .tensor .. => True

/-- A key that the edit adds to a dictionary nests at most `limit` levels deep. -/
def KeyWithin (limit : Nat) : Edit → Value → Prop
  | .dict (.put key _), .dict entries => underKey? entries key = none → key.Within limit
  | _, _ => True

theorem stores_of_storeEdit {limit : Nat} {container v : Value} {s : Subscript} {e : Edit}
    (below : v.Within limit) (made : storeEdit container s v = .ok e) : e.Stores limit := by
  cases container with
  | list items =>
    obtain ⟨position, -, given⟩ := bind_eq_ok.mp made
    cases given
    exact below
  | dict entries =>
    obtain ⟨key, -, given⟩ := bind_eq_ok.mp made
    cases given
    exact below
  | tensor t =>
    obtain ⟨selection, -, rest⟩ := bind_eq_ok.mp made
    obtain ⟨numbers, -, given⟩ := bind_eq_ok.mp rest
    cases given
    trivial
  | none | bool | int | float | str | tuple | method | function | builtin | module
  | exceptionType | exception => cases made

theorem stores_of_deleteEdit {limit : Nat} {container : Value} {s : Subscript} {e : Edit}
    (made : deleteEdit container s = .ok e) : e.Stores limit := by
  cases container with
  | list items =>
    obtain ⟨position, -, given⟩ := bind_eq_ok.mp made
    cases given
    trivial
  | dict entries =>
    obtain ⟨key, -, rest⟩ := bind_eq_ok.mp made
    dsimp only at rest
    split at rest
    · cases rest
    · cases rest
      trivial
  | none | bool | int | float | str | tuple | tensor | method | function | builtin | module
  | exceptionType | exception => cases made

variable {n : Nat} {e : Edit} {v : Value}

theorem within_apply (below : v.Within (n + 1)) (stores : e.Stores n) (key : e.KeyWithin n v) :
    (e.apply v).Within (n + 1) := by
  unfold Edit.apply
  split
  · exact Value.within_list.mpr (ListEdit.within_apply stores (Value.within_list.mp below))
  · next e entries =>
    have inside := Value.within_dict.mp below
    cases e with
    | put k w =>
      apply Value.within_dict.mpr
      intro entry member
      rcases mem_putEntry member with kept | ⟨value, ⟨u, kept⟩ | ⟨new, absent⟩⟩
      · exact inside entry kept
      · exact ⟨(inside _ kept).1, value ▸ stores⟩
      · exact ⟨new ▸ key absent, value ▸ stores⟩
    | remove k =>
      exact Value.within_dict.mpr fun entry member => inside entry (List.mem_of_mem_eraseP member)
  · rfl
  · exact below

/-- The condition on keys is necessary. -/
theorem keyWithin_of_within_apply (below : (e.apply v).Within (n + 1)) : e.KeyWithin n v := by
  unfold KeyWithin
  split
  · next key w entries =>
    intro absent
    rw [Edit.apply, DictEdit.apply, putEntry_of_absent absent] at below
    exact (Value.within_dict.mp below (key, w) (by simp)).1
  · trivial

end Edit

end DocExamples.Script
