import DocExamples.Tally
/-!
The history of a run: its slots index the names of its entries, and what is recorded or merged, under
names new or old, adds up in the totals.
-/
namespace DocExamples

namespace Counts

/-- Counts added up component by component. -/
def sum : List Counts → Counts
  | [] => zero
  | c :: rest => c.add (sum rest)

theorem add_zero (c : Counts) : c.add zero = c := rfl

theorem zero_add (c : Counts) : zero.add c = c := by
  simp [add, zero]

theorem add_assoc (a b c : Counts) : (a.add b).add c = a.add (b.add c) := by
  simp [add, Nat.add_assoc]

theorem add_right_comm (a b c : Counts) : (a.add b).add c = (a.add c).add b := by
  simp [add, Nat.add_right_comm]

theorem sum_append (a b : List Counts) : sum (a ++ b) = (sum a).add (sum b) := by
  induction a with
  | nil => simp [sum, zero_add]
  | cons c rest ih => simp [sum, ih, add_assoc]

theorem foldl_add (all : List Counts) (c : Counts) : all.foldl add c = c.add (sum all) := by
  induction all generalizing c with
  | nil => rfl
  | cons d rest ih => simp [sum, ih, add_assoc]

theorem failed_sum_eq_zero {all : List Counts} :
    (sum all).failed = 0 ↔ ∀ c ∈ all, c.failed = 0 := by
  induction all with
  | nil => simp [sum, zero]
  | cons c rest ih => simp [sum, add, ih]

end Counts

namespace History

variable {h : History}

/-- The slots are the positions of the names. -/
def Indexed (h : History) : Prop :=
  ∀ name slot, h.slots.lookup name = some slot ↔ h.names[slot]? = some name

theorem indexed_empty : empty.Indexed := by
  simp [Indexed, empty, names]

theorem totals_eq_sum (h : History) : h.totals = Counts.sum (h.entries.map (·.2)) := by
  have folded := Counts.foldl_add (h.entries.map (·.2)) .zero
  rw [Counts.zero_add, List.foldl_map] at folded
  exact folded

/-! ### Recording -/

theorem names_modify (entries : List (String × Counts)) (slot : Nat) (counts : Counts) :
    (entries.modify slot fun (n, c) => (n, c.add counts)).map (·.1) = entries.map (·.1) := by
  induction entries generalizing slot with
  | nil => simp
  | cons entry rest ih => cases slot <;> simp [ih]

theorem sum_modify {entries : List (String × Counts)} {slot : Nat} (counts : Counts)
    (inside : slot < entries.length) :
    Counts.sum ((entries.modify slot fun (n, c) => (n, c.add counts)).map (·.2)) =
      (Counts.sum (entries.map (·.2))).add counts := by
  induction entries generalizing slot with
  | nil => cases inside
  | cons entry rest ih =>
    cases slot with
    | zero => simp [Counts.sum, Counts.add_right_comm]
    | succ slot =>
      have later := ih (Nat.lt_of_succ_lt_succ inside)
      simp [Counts.sum, later, Counts.add_assoc]

/-- Counts go to the entry of their name, or make one at the end. -/
theorem record_cases (indexed : h.Indexed) (name : String) (counts : Counts) :
    (∃ slot, h.names[slot]? = some name ∧ h.record name counts =
      { h with entries := h.entries.modify slot fun (n, c) => (n, c.add counts) }) ∨
    (h.slots.lookup name = none ∧ h.record name counts =
      ⟨h.entries ++ [(name, counts)], (name, h.entries.length) :: h.slots⟩) := by
  rw [record]
  cases found : h.slots.lookup name with
  | some slot => exact .inl ⟨slot, (indexed name slot).mp found, rfl⟩
  | none => exact .inr ⟨rfl, rfl⟩

theorem Indexed.record (indexed : h.Indexed) (name : String) (counts : Counts) :
    (h.record name counts).Indexed := by
  intro other place
  rcases record_cases indexed name counts with ⟨slot, _, recorded⟩ | ⟨new, recorded⟩
  · rw [recorded, names, names_modify]
    exact indexed other place
  · have count : h.names.length = h.entries.length := List.length_map _
    have positions : (h.record name counts).names[place]? = some other ↔
        h.names[place]? = some other ∨ (place = h.entries.length ∧ other = name) := by
      rw [recorded, names, List.map_append]
      grind [names]
    rw [positions, ← indexed other place, recorded]
    cases same : other == name with
    | true => simp [eq_of_beq same, new, eq_comm]
    | false => simp [List.lookup_cons, same, ne_of_beq_false same]

theorem totals_record (indexed : h.Indexed) (name : String) (counts : Counts) :
    (h.record name counts).totals = h.totals.add counts := by
  rcases record_cases indexed name counts with ⟨slot, present, recorded⟩ | ⟨_, recorded⟩
  · have inside := (List.getElem?_eq_some_iff.mp present).1
    rw [names, List.length_map] at inside
    simp only [totals_eq_sum, recorded, sum_modify counts inside]
  · simp [totals_eq_sum, recorded, Counts.sum_append, Counts.sum, Counts.add_zero]

/-! ### Recording one after another -/

/-- All counts are recorded, whatever their names. -/
theorem totals_records (entries : List (String × Counts)) (indexed : h.Indexed) :
    (entries.foldl (fun acc entry => acc.record entry.1 entry.2) h).Indexed ∧
      (entries.foldl (fun acc entry => acc.record entry.1 entry.2) h).totals =
        h.totals.add (Counts.sum (entries.map (·.2))) := by
  induction entries generalizing h with
  | nil => exact ⟨indexed, rfl⟩
  | cons entry rest ih =>
    obtain ⟨later, totals⟩ := ih (indexed.record entry.1 entry.2)
    refine ⟨later, ?_⟩
    rw [List.foldl_cons, totals, totals_record indexed, List.map_cons, Counts.sum, Counts.add_assoc]

theorem Indexed.merge (indexed : h.Indexed) (other : History) : (h.merge other).Indexed :=
  (totals_records other.entries indexed).1

theorem totals_merge (indexed : h.Indexed) (other : History) :
    (h.merge other).totals = h.totals.add other.totals := by
  rw [totals_eq_sum other]
  exact (totals_records other.entries indexed).2

end History

end DocExamples
