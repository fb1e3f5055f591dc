import DocExamples.Proofs.Script.ItemMutators
/-!
The positions at which `insert` and `pop` work. Both count negative indices from the end. `pop`
refuses an index that no item has; `insert` puts the value at the nearer end, save that an index
before the start counts as one behind the end.
-/
namespace DocExamples.Script

/-- What a mutating method answers, and the list after it. -/
def Mutator.mutate (mutator : Mutator) (items : Array Value) (args : List Value) :
    Except Fault Value × Array Value :=
  match mutator.edit items args with
  | .ok (edit, result) => (.ok result, edit.apply items)
  | .error f => (.error f, items)

/-- The nearest place for a value that is to be put before the item at an index. -/
def clampedIndex (length : Nat) (i : Int) : Nat :=
  if 0 ≤ i then min i.toNat length else (i + length).toNat

/-- The place where `insert` puts it. -/
def insertionIndex (length : Nat) (i : Int) : Nat :=
  if i < -length then length else clampedIndex length i

variable {α : Type} {xs : List α} {a : α} {items : Array Value} {v : Value} {i : Int64}
  {length k : Nat}

/-! ### Calls on a name -/

section Calls

variable {mutator : Mutator} {x method : String} {m m₁ m₂ : Machine} {args : List Expr}
  {kwargs : List (String × Expr)} {vs : List Value} {ks : Keywords}

theorem Mutator.mutate_of_ok {edit : ListEdit} {result : Value}
    (mutates : mutator.edit items vs = .ok (edit, result)) :
    mutator.mutate items vs = (.ok result, edit.apply items) := by
  rw [mutate, mutates]

theorem Mutator.mutate_of_error {f : Fault} (refuses : mutator.edit items vs = .error f) :
    mutator.mutate items vs = (.error f, items) := by
  rw [mutate, refuses]

/-- A mutating method on a name gives its answer, and the list after it is what the name is bound
to; a method that refuses leaves the whole state as the arguments left it. -/
theorem run_mutate {call : Caller} (known : Mutator.ofName? method = some mutator)
    (evaluated : (evalAll call args).run m = (.ok vs, m₁))
    (keywords : (evalKeywords call kwargs).run m₁ = (.ok ks, m₂))
    (bound : m₂.scopes.lookup x = some (.list items))
    (within : ∀ v ∈ vs, v.Within (maxValueNesting - 1)) :
    (evalExpr call (.call (.attr (.name x) method) args kwargs)).run m =
      ((mutator.mutate items vs).1.mapError .fault,
        { m₂ with scopes := m₂.scopes.change x fun _ => .list (mutator.mutate items vs).2 }) := by
  rcases mutates : mutator.edit items vs with f | ⟨edit, result⟩
  · have isList : (boundList? x).run m₂ = (.ok (some items), m₂) := by
      rw [boundList?, run_bind_of_ok (run_lookup x m₂), bound]
      rfl
    have refused : (mutateBound? (.attr (.name x) method) vs).run m₂ = (.error (.fault f), m₂) := by
      rw [mutateBound?, run_bind_of_ok isList, known]
      refine (run_bind_of_ok (run_checkAll within m₂)).trans ?_
      rw [mutates]
      rfl
    rw [Mutator.mutate_of_error mutates, Scopes.change_self bound, evalExpr,
      run_bind_of_ok evaluated, run_bind_of_ok keywords, run_bind_of_error refused]
    rfl
  · rw [Mutator.mutate_of_ok mutates]
    exact run_mutate_name known evaluated keywords bound within mutates

end Calls

/-! ### Places in a list -/

theorem insertIdx_eq_take_drop (within : k ≤ xs.length) :
    xs.insertIdx k a = xs.take k ++ a :: xs.drop k := by
  induction xs generalizing k with
  | nil =>
    obtain rfl := Nat.le_zero.mp within
    rfl
  | cons b rest ih =>
    cases k with
    | zero => rfl
    | succ k => exact congrArg (b :: ·) (ih (Nat.le_of_succ_le_succ within))

/-- A list looks the same with an item at either end if it is made of that item alone. -/
theorem append_singleton_eq_cons : xs ++ [a] = a :: xs ↔ ∀ b ∈ xs, b = a := by
  induction xs with
  | nil => simp
  | cons b rest ih =>
    rw [List.cons_append, List.cons_eq_cons, List.forall_mem_cons, ← ih]
    refine and_congr_right fun same => ?_
    rw [same]

theorem clampedIndex_le (i : Int) : clampedIndex length i ≤ length := by
  unfold clampedIndex
  split <;> omega

theorem insertionIndex_le (i : Int) : insertionIndex length i ≤ length := by
  unfold insertionIndex
  split
  · exact Nat.le_refl length
  · exact clampedIndex_le i

/-- An index with a place of its own, counted from either end. -/
theorem fromStart?_eq_some (denotes : i.toInt = k ∨ i.toInt = k - (length : Int))
    (inside : k < length) : Mutator.fromStart? i length = some k := by
  unfold Mutator.fromStart?
  dsimp only
  rcases denotes with start | back
  · rw [start, if_pos (Int.natCast_nonneg k), Int.toNat_natCast]
  · rw [if_neg (by omega), if_pos (by omega)]
    congr 1
    omega

theorem min_fromStart? (i : Int64) (length : Nat) :
    min ((Mutator.fromStart? i length).getD length) length = insertionIndex length i.toInt := by
  unfold Mutator.fromStart? insertionIndex clampedIndex
  dsimp only
  split
  · rw [if_neg (by omega)]
    rfl
  · split
    · rw [if_neg (by omega), Option.getD_some]
      omega
    · rw [if_pos (by omega), Option.getD_none, Nat.min_self]

/-! ### The two methods -/

theorem mutate_insert (items : Array Value) (i : Int64) (v : Value) :
    Mutator.insert.mutate items [.int i, v] =
      (.ok .none, ⟨items.toList.insertIdx (insertionIndex items.size i.toInt) v⟩) := by
  have edits : Mutator.insert.edit items [.int i, v] =
      .ok (.insert (insertionIndex items.size i.toInt) v, .none) := by
    rw [← min_fromStart?]
    rfl
  rw [Mutator.mutate_of_ok edits, ListEdit.apply]
  exact congrArg _ (List.insertIdxIfInBounds_toArray items.toList _ v)

theorem mutate_pop {w : Value} (denotes : i.toInt = k ∨ i.toInt = k - (items.size : Int))
    (there : items[k]? = some w) :
    Mutator.pop.mutate items [.int i] = (.ok w, ⟨items.toList.eraseIdx k⟩) := by
  obtain ⟨inside, -⟩ := Array.getElem?_eq_some_iff.mp there
  have some : items.isEmpty = false := by
    rw [Array.isEmpty_eq_false_iff]
    rintro rfl
    cases inside
  have index : Mutator.popIndex [.int i] = pure i := rfl
  have edits : Mutator.pop.edit items [.int i] = .ok (.remove k, w) := by
    rw [Mutator.edit, Mutator.popEdit, some, if_neg Bool.false_ne_true, index, pure_bind]
    dsimp only
    rw [fromStart?_eq_some denotes inside, Option.bind_some, there]
    rfl
  rw [Mutator.mutate_of_ok edits, ListEdit.apply]
  exact congrArg _ (Array.toList_inj.mp Array.toList_eraseIdxIfInBounds)

theorem mutate_pop_outside
    (outside : i.toInt < -(items.size : Int) ∨ (items.size : Int) ≤ i.toInt) :
    ∃ f : Fault, Mutator.pop.mutate items [.int i] = (.error f, items) ∧ f.kind = "IndexError" := by
  have nowhere : (Mutator.fromStart? i items.size).bind
      (fun k => (items[k]?).map (·, k)) = none := by
    unfold Mutator.fromStart?
    dsimp only
    split
    · rw [Option.bind_some, Array.getElem?_eq_none (by omega)]
      rfl
    · rw [if_neg (by omega)]
      rfl
  have index : Mutator.popIndex [.int i] = pure i := rfl
  by_cases none : items.isEmpty
  · refine ⟨.index .popFromEmpty, Mutator.mutate_of_error ?_, rfl⟩
    rw [Mutator.edit, Mutator.popEdit, none, if_pos rfl]
    rfl
  · refine ⟨.index (.outOfRange "pop"), Mutator.mutate_of_error ?_, rfl⟩
    rw [Mutator.edit, Mutator.popEdit, if_neg none, index, pure_bind]
    dsimp only
    rw [nowhere]
    rfl

/-- A list with an item put in between. -/
def listWith (items : List Value) (v : Value) (k : Nat) : List Value :=
  items.take k ++ v :: items.drop k

/-- The place of `insert` is the nearest one unless the index lies before the start; then it is the
far end, which shows unless all items are the one that is put. -/
theorem listWith_insertionIndex (items : List Value) (v : Value) (i : Int) :
    listWith items v (insertionIndex items.length i) =
        listWith items v (clampedIndex items.length i) ↔
      -items.length ≤ i ∨ ∀ w ∈ items, w = v := by
  by_cases before : i < -items.length
  · have first : clampedIndex items.length i = 0 := by
      rw [clampedIndex, if_neg (by omega)]
      omega
    rw [insertionIndex, if_pos before, first, or_iff_right (by omega), ← append_singleton_eq_cons]
    simp [listWith]
  · rw [insertionIndex, if_neg before]
    exact iff_of_true rfl (.inl (by omega))

/-- What `insert` and `pop` do to a list, for every index. `insert` puts the value at the nearest
place; an index before the start is taken to the far end. `pop` removes and returns the item at an
index counted from either end, and refuses an index without an item, which leaves the list alone;
it takes out again what `insert` has put in. A call on a name does to the list in the variable what
the method does. -/
theorem insert_and_pop (items : Array Value) (v : Value) (i : Int64) :
    let n := items.size
    let k := insertionIndex n i.toInt
    Mutator.insert.mutate items [.int i, v] = (.ok .none, ⟨listWith items.toList v k⟩) ∧
    (listWith items.toList v k = listWith items.toList v (clampedIndex n i.toInt) ↔
      -n ≤ i.toInt ∨ ∀ w ∈ items, w = v) ∧
    (-n ≤ i.toInt → i.toInt < n → ∃ (p : Nat) (w : Value),
      (p : Int) = (if 0 ≤ i.toInt then i.toInt else i.toInt + n) ∧ items[p]? = some w ∧
      Mutator.pop.mutate items [.int i] =
        (.ok w, ⟨items.toList.take p ++ items.toList.drop (p + 1)⟩)) ∧
    (i.toInt < -n ∨ n ≤ i.toInt → ∃ f : Fault,
      Mutator.pop.mutate items [.int i] = (.error f, items) ∧ f.kind = "IndexError") ∧
    (∀ j : Int64, j.toInt = k ∨ j.toInt = k - (n + 1 : Int) →
      Mutator.pop.mutate ⟨listWith items.toList v k⟩ [.int j] = (.ok v, items)) ∧
    ∀ (call : Caller) (x method : String) (mutator : Mutator) (args : List Expr) (vs : List Value)
      (m m' : Machine), Mutator.ofName? method = some mutator →
      (evalAll call args).run m = (.ok vs, m') → m'.scopes.lookup x = some (.list items) →
      (∀ w ∈ vs, w.Within (maxValueNesting - 1)) →
      (evalExpr call (.call (.attr (.name x) method) args [])).run m =
        ((mutator.mutate items vs).1.mapError .fault,
          { m' with scopes := m'.scopes.change x fun _ => .list (mutator.mutate items vs).2 }) := by
  intro n k
  have within : k ≤ items.toList.length := insertionIndex_le i.toInt
  have inserted : listWith items.toList v k = items.toList.insertIdx k v :=
    (insertIdx_eq_take_drop within).symm
  refine ⟨?_, ?_, fun least most => ?_, mutate_pop_outside, fun j denotes => ?_, ?_⟩
  · rw [inserted]
    exact mutate_insert items i v
  · simpa [n, k] using listWith_insertionIndex items.toList v i.toInt
  · let p := (if 0 ≤ i.toInt then i.toInt else i.toInt + n).toNat
    have inside : p < items.size := by omega
    refine ⟨p, items[p], by omega, Array.getElem?_eq_getElem inside, ?_⟩
    rw [← List.eraseIdx_eq_take_drop_succ]
    exact mutate_pop (by omega) (Array.getElem?_eq_getElem inside)
  · have length : (⟨items.toList.insertIdx k v⟩ : Array Value).size = n + 1 :=
      List.length_insertIdx_of_le_length within v
    have there : (⟨items.toList.insertIdx k v⟩ : Array Value)[k]? = some v := by
      rw [List.getElem?_toArray, List.getElem?_insertIdx_self, if_pos within]
    rw [inserted, mutate_pop (by rwa [length, Nat.cast_succ]) there, List.eraseIdx_insertIdx_self]
  · intro call x method mutator args vs m m' known evaluated bound fits
    have keywords : (evalKeywords call []).run m' = (.ok [], m') := by
      rw [evalKeywords]
      rfl
    exact run_mutate known evaluated keywords bound fits

/-- `[1, 2].insert(-3, 0)` puts the value behind the items, where the nearest place is before
them. -/
theorem insert_before_start :
    (Mutator.insert.mutate #[.int 1, .int 2] [.int (-3), .int 0]).2 =
      #[.int 1, .int 2, .int 0] ∧
    listWith [.int 1, .int 2] (.int 0) (clampedIndex 2 (-3)) = [.int 0, .int 1, .int 2] ∧
    (Mutator.insert.mutate #[.int 1, .int 2] [.int (-3), .int 0]).2.toList ≠
      listWith [.int 1, .int 2] (.int 0) (clampedIndex 2 (-3)) := by
  have after : (Mutator.insert.mutate #[.int 1, .int 2] [.int (-3), .int 0]).2 =
      #[.int 1, .int 2, .int 0] := by
    rw [mutate_insert]
    rfl
  refine ⟨after, rfl, ?_⟩
  rw [after]
  simp [listWith, clampedIndex]

end DocExamples.Script
