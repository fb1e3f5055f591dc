import DocExamples.Literal.Reader
import DocExamples.Script.TensorText
import Mathlib
/-!
Items in rows according to a shape: runs of one length, lists that nest as the brackets of an array
do, and the leaves and the shape that such lists have.
-/
namespace DocExamples.Script

open Literal

/-! ### Runs -/

section

variable {α β : Type} {n fuel k : Nat} {xs : List α}

theorem runsOf_of_ne_nil (filled : xs ≠ []) :
    runsOf n (fuel + 1) xs = xs.take n :: runsOf n fuel (xs.drop n) := by
  cases xs with
  | nil => exact absurd rfl filled
  | cons x xs => rfl

theorem runsOf_nil : runsOf n fuel ([] : List α) = [] := by
  cases fuel <;> rfl

theorem runsOf_map (f : α → β) : runsOf n fuel (xs.map f) = (runsOf n fuel xs).map (List.map f) := by
  induction fuel generalizing xs with
  | zero => cases xs <;> rfl
  | succ fuel ih =>
    cases xs with
    | nil => rfl
    | cons x xs =>
      rw [runsOf_of_ne_nil (List.cons_ne_nil x xs), List.map_cons (l := runsOf _ _ _), ← ih,
        List.map_take, List.map_drop]
      rfl

theorem forall₂_runsOf {R : α → β → Prop} {ys : List β} (all : List.Forall₂ R xs ys) :
    List.Forall₂ (List.Forall₂ R) (runsOf n fuel xs) (runsOf n fuel ys) := by
  induction fuel generalizing xs ys with
  | zero => cases all <;> exact .nil
  | succ fuel ih =>
    cases all with
    | nil => exact .nil
    | cons first others =>
      have whole := List.Forall₂.cons first others
      exact .cons (List.forall₂_take n whole) (ih (List.forall₂_drop n whole))

theorem flatten_runsOf (positive : 0 < n) (enough : xs.length ≤ fuel) :
    (runsOf n fuel xs).flatten = xs := by
  induction fuel generalizing xs with
  | zero =>
    obtain rfl := List.length_eq_zero_iff.mp (Nat.le_zero.mp enough)
    rfl
  | succ fuel ih =>
    by_cases filled : xs = []
    · rw [filled, runsOf_nil, List.flatten_nil]
    · have shorter : (xs.drop n).length ≤ fuel := by
        rw [List.length_drop]
        omega
      rw [runsOf_of_ne_nil filled, List.flatten_cons, ih shorter, List.take_append_drop]

/-- A multiple of the length of a run is cut into that many runs. -/
theorem length_runsOf (positive : 0 < n) (length : xs.length = k * n) (enough : xs.length ≤ fuel) :
    (runsOf n fuel xs).length = k ∧ ∀ run ∈ runsOf n fuel xs, run.length = n := by
  induction k generalizing xs fuel with
  | zero =>
    obtain rfl := List.length_eq_zero_iff.mp (length.trans (Nat.zero_mul n))
    rw [runsOf_nil]
    exact ⟨rfl, fun run member => by cases member⟩
  | succ k ih =>
    rw [Nat.succ_mul] at length
    have filled : xs ≠ [] := by
      rintro rfl
      rw [List.length_nil] at length
      omega
    cases fuel with
    | zero => omega
    | succ fuel =>
      have others : (xs.drop n).length = k * n := by
        rw [List.length_drop, length, Nat.add_sub_cancel]
      have first : (xs.take n).length = n := by
        rw [List.length_take]
        omega
      have shorter : (xs.drop n).length ≤ fuel := by
        rw [List.length_drop]
        omega
      obtain ⟨count, each⟩ := ih others shorter
      rw [runsOf_of_ne_nil filled]
      exact ⟨congrArg (· + 1) count, List.forall_mem_cons.mpr ⟨first, each⟩⟩

end

/-! ### Nested lists -/

/-- Lists of items according to a shape. -/
def nested : List Nat → List Literal → Literal
  | [], items => items.headD .ellipsis
  | [_], items => .list items
  | _ :: next :: rest, items =>
    .list ((runsOf (max (volume (next :: rest)) 1) items.length items).map (nested (next :: rest)))

theorem flattenAll_append {first second : List Literal} {leaves more : List Leaf}
    {short alsoShort : Bool} (left : flattenAll first = some (leaves, short))
    (right : flattenAll second = some (more, alsoShort)) :
    flattenAll (first ++ second) = some (leaves ++ more, short || alsoShort) := by
  induction first generalizing leaves short with
  | nil =>
    cases left
    exact right
  | cons item first ih =>
    rw [flattenAll, Option.bind_eq_bind, Option.bind_eq_some_iff] at left
    obtain ⟨⟨here, isShort⟩, made, left⟩ := left
    obtain ⟨⟨later, areShort⟩, rest, same⟩ := Option.bind_eq_some_iff.mp left
    cases same
    rw [List.cons_append, flattenAll, made, ih rest]
    simp [Bool.or_assoc]

theorem flattenAll_leaves (leaves : List Leaf) :
    flattenAll (leaves.map .leaf) = some (leaves, false) := by
  induction leaves with
  | nil => rfl
  | cons leaf leaves ih =>
    rw [List.map_cons, flattenAll, ih]
    rfl

theorem flattenAll_rows {items : List Literal} {rows : List (List Leaf)}
    (each : List.Forall₂ (fun item row => flatten item = some (row, false)) items rows) :
    flattenAll items = some (rows.flatten, false) := by
  induction each with
  | nil => rfl
  | cons first others ih =>
    rw [flattenAll, first, ih]
    rfl

variable {n : Nat} {shape : List Nat}

theorem volume_cons (n : Nat) (shape : List Nat) : volume (n :: shape) = n * volume shape := rfl

theorem volume_pos_of_cons (filled : 0 < volume (n :: shape)) : 0 < n ∧ 0 < volume shape :=
  CanonicallyOrderedAdd.mul_pos.mp filled

/-- The leaves of the lists are the items in order. -/
theorem flatten_nested {leaves : List Leaf} (length : leaves.length = volume shape)
    (filled : 0 < volume shape) :
    flatten (nested shape (leaves.map .leaf)) = some (leaves, false) := by
  induction shape generalizing leaves with
  | nil =>
    obtain ⟨leaf, rfl⟩ := List.length_eq_one_iff.mp length
    rfl
  | cons n shape ih =>
    cases shape with
    | nil =>
      rw [nested, flatten]
      exact flattenAll_leaves leaves
    | cons next rest =>
      have positive := (volume_pos_of_cons filled).2
      obtain ⟨-, each⟩ := length_runsOf positive length (Nat.le_refl _)
      rw [nested, flatten, Nat.max_eq_left positive, runsOf_map, List.length_map, List.map_map]
      rw [flattenAll_rows, flatten_runsOf positive (Nat.le_refl _)]
      rw [List.forall₂_map_left_iff, List.forall₂_same]
      exact fun row member => ih (each row member) positive

theorem inferShape_leaves (leaves : List Leaf) :
    ∀ item ∈ leaves.map Literal.leaf, inferShape item = some [] := by
  refine List.forall_mem_map.mpr fun leaf _ => ?_
  rw [inferShape]
  exact fun items same => by cases same

theorem commonShape_of_all {items : List Literal} (filled : items ≠ [])
    (all : ∀ item ∈ items, inferShape item = some shape) :
    commonShape items = some (some shape) := by
  induction items with
  | nil => exact absurd rfl filled
  | cons item items ih =>
    obtain ⟨first, others⟩ := List.forall_mem_cons.mp all
    rw [commonShape, first]
    by_cases last : items = []
    · subst last
      rfl
    · rw [ih last others]
      exact if_pos rfl

/-- The brackets show the shape. -/
theorem inferShape_nested {items : List Literal} (length : items.length = volume shape)
    (filled : 0 < volume shape) (plain : ∀ item ∈ items, inferShape item = some []) :
    inferShape (nested shape items) = some shape := by
  induction shape generalizing items with
  | nil =>
    obtain ⟨item, rfl⟩ := List.length_eq_one_iff.mp length
    exact plain item List.mem_cons_self
  | cons n shape ih =>
    have positive := volume_pos_of_cons filled
    have some : items ≠ [] := by
      rintro rfl
      exact absurd length (Nat.ne_of_lt filled)
    cases shape with
    | nil =>
      have count : items.length = n := length.trans (Nat.mul_one n)
      rw [nested, inferShape, commonShape_of_all some plain, Option.map_some, count]
      rfl
    | cons next rest =>
      obtain ⟨count, each⟩ := length_runsOf positive.2 length (Nat.le_refl _)
      have rows : ∀ row ∈ runsOf (volume (next :: rest)) items.length items,
          inferShape (nested (next :: rest) row) = .some (next :: rest) := by
        intro row member
        refine ih (each row member) positive.2 fun item inside => plain item ?_
        rw [← flatten_runsOf positive.2 (Nat.le_refl items.length)]
        exact List.mem_flatten_of_mem member inside
      rw [nested, inferShape, Nat.max_eq_left positive.2, commonShape_of_all, Option.map_some,
        List.length_map, count]
      · rfl
      · intro none
        rw [List.map_eq_nil_iff] at none
        rw [none] at count
        exact absurd count (Nat.ne_of_lt positive.1)
      · exact List.forall_mem_map.mpr rows

end DocExamples.Script
