import DocExamples.Proofs.Except
import DocExamples.Script.Value
/-!
The values inside a value, and conditions on all dictionaries and arrays that it is made of.
-/
namespace DocExamples.Script

namespace Value

/-- The values that a value holds directly. -/
def parts : Value → List Value
  | .list items => items.toList
  | .tuple items => items
  | .dict entries => entries.flatMap fun (key, v) => [key, v]
  | .function _ _ params _ => params.filterMap (·.2)
  | .method receiver _ => [receiver]
  | _ => []

/-- `w.Inside v`: `w` is `v` or stands anywhere in it. -/
inductive Inside : Value → Value → Prop where
  | here (v : Value) : Inside v v
  | part {w part v : Value} (member : part ∈ v.parts) (inside : Inside w part) : Inside w v

/-- Neither a container nor an array; it holds no values. -/
def isAtomic : Value → Bool
  | .list _ | .tuple _ | .dict _ | .tensor _ | .function .. | .method .. => false
  | _ => true

end Value

/-- Conditions on dictionaries and on arrays. -/
structure Trait where
  dict : List (Value × Value) → Prop
  tensor : Tensor → Prop

/-- No conditions. -/
def Trait.any : Trait := ⟨fun _ => True, fun _ => True⟩

/-- A condition on arrays only. -/
def Trait.onArrays (P : Tensor → Prop) : Trait := ⟨fun _ => True, P⟩

/-- What the conditions say of a value alone, its parts left aside. -/
def Trait.Holds (T : Trait) : Value → Prop
  | .dict entries => T.dict entries
  | .tensor t => T.tensor t
  | _ => True

namespace Value

/-- Every dictionary and every array in the value meets the conditions. -/
def Has (T : Trait) (v : Value) : Prop := ∀ w : Value, w.Inside v → T.Holds w

variable {T : Trait}

theorem has_iff {v : Value} : v.Has T ↔ T.Holds v ∧ ∀ part ∈ v.parts, part.Has T := by
  constructor
  · intro has
    exact ⟨has v (.here v), fun part member w inside => has w (.part member inside)⟩
  · rintro ⟨here, parts⟩ w inside
    cases inside with
    | here => exact here
    | part member inside => exact parts _ member w inside

theorem has_any (v : Value) : v.Has .any := by
  intro w _
  cases w <;> trivial

theorem has_of_isAtomic {v : Value} (atomic : v.isAtomic = true) : v.Has T := by
  rw [has_iff]
  cases v with
  | list | tuple | dict | tensor | function | method => cases atomic
  | none | bool | int | float | str | builtin | module | exceptionType | exception =>
    exact ⟨trivial, fun _ member => nomatch member⟩

theorem has_list {items : Array Value} : (list items).Has T ↔ ∀ v ∈ items.toList, v.Has T := by
  rw [has_iff]
  exact and_iff_right trivial

theorem has_ofList {items : List Value} : (ofList items).Has T ↔ ∀ v ∈ items, v.Has T := has_list

theorem has_tuple {items : List Value} : (tuple items).Has T ↔ ∀ v ∈ items, v.Has T := by
  rw [has_iff]
  exact and_iff_right trivial

theorem has_dict {entries : List (Value × Value)} :
    (dict entries).Has T ↔ T.dict entries ∧ ∀ entry ∈ entries, entry.1.Has T ∧ entry.2.Has T := by
  simp only [has_iff (v := dict entries), Trait.Holds, parts, List.mem_flatMap, List.mem_cons,
    List.not_mem_nil, or_false]
  refine and_congr_right fun _ => ⟨fun parts entry member => ?_, ?_⟩
  · exact ⟨parts _ ⟨entry, member, .inl rfl⟩, parts _ ⟨entry, member, .inr rfl⟩⟩
  · rintro entries part ⟨entry, member, rfl | rfl⟩
    · exact (entries entry member).1
    · exact (entries entry member).2

theorem has_tensor {t : Tensor} : (tensor t).Has T ↔ T.tensor t := by
  rw [has_iff]
  exact and_iff_left fun _ member => nomatch member

theorem has_function {id : Nat} {name : String} {params : List (String × Option Value)}
    {body : List Stmt} :
    (function id name params body).Has T ↔ ∀ p ∈ params, ∀ v, p.2 = some v → v.Has T := by
  rw [has_iff]
  simp only [Trait.Holds, parts, List.mem_filterMap, true_and]
  exact ⟨fun parts p member v given => parts v ⟨p, member, given⟩,
    fun params v ⟨p, member, given⟩ => params p member v given⟩

theorem has_method {receiver : Value} {name : String} :
    (method receiver name).Has T ↔ receiver.Has T := by
  rw [has_iff]
  simp [Trait.Holds, parts]

end Value

end DocExamples.Script
