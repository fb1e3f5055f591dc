import DocExamples.Proofs.History
import Mathlib.Data.List.Induction
import Mathlib.Data.List.Nodup
/-!
Histories by the records that made them. A history is known once its records are: the names in the
order of first records, each with the sum of what was recorded under it. So a history that is merged
into another has the effect of its records, one after another.
-/
namespace DocExamples

namespace Counts

/-- No more examples failed than were attempted. -/
def Sound (c : Counts) : Prop := c.failed ≤ c.attempted

theorem Sound.sum {all : List Counts} (sound : ∀ c ∈ all, c.Sound) : (sum all).Sound := by
  induction all with
  | nil => exact Nat.le_refl 0
  | cons c rest ih =>
    rw [List.forall_mem_cons] at sound
    exact Nat.add_le_add sound.1 (ih sound.2)

end Counts

namespace History

/-- The history of records, one after another. -/
def ofRecords (records : List (String × Counts)) : History :=
  records.foldl (fun h r => h.record r.1 r.2) empty

/-- The names in the order of their first records. -/
def firstNames (records : List (String × Counts)) : List String := (records.map (·.1)).eraseDups

/-- What was recorded under a name, in order. -/
def countsUnder (name : String) (records : List (String × Counts)) : List Counts :=
  (records.filter (·.1 == name)).map (·.2)

/-- The sum of what was recorded under a name. -/
def totalUnder (name : String) (records : List (String × Counts)) : Counts :=
  Counts.sum (countsUnder name records)

/-- The history in which every name of the records has its total. -/
def summary (records : List (String × Counts)) : History where
  entries := (firstNames records).map fun name => (name, totalUnder name records)
  slots := (firstNames records).zipIdx.reverse

/-- A history that was made of these records, by recording and merging in any order. -/
inductive Built : History → List (String × Counts) → Prop where
  | empty : Built empty []
  | record {h : History} {records : List (String × Counts)} (built : Built h records)
    (name : String) (counts : Counts) : Built (h.record name counts) (records ++ [(name, counts)])
  | merge {h other : History} {records more : List (String × Counts)} (built : Built h records)
    (otherBuilt : Built other more) : Built (h.merge other) (records ++ more)

/-- What a history tells of the records that it was made of. -/
structure Accumulates (h : History) (records : List (String × Counts)) : Prop where
  distinct : h.names.Nodup
  names : h.names = firstNames records
  indexed : h.Indexed
  get : ∀ name, h.get? name =
    if name ∈ records.map (·.1) then some (totalUnder name records) else none
  totals : h.totals = Counts.sum (records.map (·.2))
  sound : (∀ r ∈ records, r.2.Sound) → (∀ entry ∈ h.entries, entry.2.Sound) ∧ h.totals.Sound

variable {h : History} {records : List (String × Counts)}

/-! ### Names and totals of records -/

theorem eraseDups_concat (names : List String) (name : String) :
    (names ++ [name]).eraseDups =
      if name ∈ names then names.eraseDups else names.eraseDups ++ [name] := by
  rw [List.eraseDups_append]
  split
  · next old => simp [List.removeAll, old]
  · next new => simp [List.removeAll, new, List.eraseDups_cons]

theorem eraseDups_append_eraseDups (front back : List String) :
    (front ++ back.eraseDups).eraseDups = (front ++ back).eraseDups := by
  induction back using List.reverseRecOn with
  | nil => rfl
  | append_singleton back name ih =>
    rw [eraseDups_concat back, ← List.append_assoc front, eraseDups_concat (front ++ back)]
    split
    · next old => rw [if_pos (List.mem_append_right _ old), ih]
    · rw [← List.append_assoc, eraseDups_concat, ih]
      simp only [List.mem_append, List.mem_eraseDups]

theorem mem_firstNames {name : String} : name ∈ firstNames records ↔ name ∈ records.map (·.1) :=
  List.mem_eraseDups

theorem firstNames_concat (name : String) (counts : Counts) :
    firstNames (records ++ [(name, counts)]) =
      if name ∈ firstNames records then firstNames records else firstNames records ++ [name] := by
  simp only [firstNames, List.map_append, List.map_singleton, eraseDups_concat, List.mem_eraseDups]

theorem countsUnder_append (name : String) (first second : List (String × Counts)) :
    countsUnder name (first ++ second) = countsUnder name first ++ countsUnder name second := by
  simp [countsUnder]

theorem totalUnder_append (name : String) (first second : List (String × Counts)) :
    totalUnder name (first ++ second) = (totalUnder name first).add (totalUnder name second) := by
  rw [totalUnder, countsUnder_append, Counts.sum_append]
  rfl

theorem totalUnder_single (name : String) (counts : Counts) :
    totalUnder name [(name, counts)] = counts := by
  simp [totalUnder, countsUnder, Counts.sum, Counts.add_zero]

theorem totalUnder_of_notMem {name : String} (absent : name ∉ records.map (·.1)) :
    totalUnder name records = .zero := by
  have nothing : records.filter (·.1 == name) = [] := by
    rw [List.filter_eq_nil_iff]
    intro r member same
    exact absent (List.mem_map.mpr ⟨r, member, eq_of_beq same⟩)
  rw [totalUnder, countsUnder, nothing]
  rfl

theorem totalUnder_other {name other : String} (different : name ≠ other) (counts : Counts) :
    totalUnder name [(other, counts)] = .zero := totalUnder_of_notMem (by simpa using different)

/-! ### The history of records -/

@[simp]
theorem names_summary : (summary records).names = firstNames records := by
  simp [names, summary, Function.comp_def]

theorem Indexed.nodup (indexed : h.Indexed) : h.names.Nodup := by
  rw [List.nodup_iff_getElem?_ne_getElem?]
  intro i j before inside same
  have here := List.getElem?_eq_getElem (Nat.lt_trans before inside)
  have first := (indexed _ i).mpr here
  have second := (indexed _ j).mpr (same ▸ here)
  exact Nat.ne_of_lt before (Option.some.inj (first.symm.trans second))

/-- One more record under a name adds to the entry that the name has. -/
theorem summary_concat_old {name : String} {slot : Nat} (indexed : (summary records).Indexed)
    (present : (firstNames records)[slot]? = some name) (counts : Counts) :
    summary (records ++ [(name, counts)]) = { summary records with
      entries := (summary records).entries.modify slot fun (n, c) => (n, c.add counts) } := by
  have old : firstNames (records ++ [(name, counts)]) = firstNames records := by
    rw [firstNames_concat, if_pos (List.mem_of_getElem? present)]
  have entries : (summary (records ++ [(name, counts)])).entries =
      (summary records).entries.modify slot fun (n, c) => (n, c.add counts) := by
    apply List.ext_getElem?
    intro i
    rw [List.getElem?_modify]
    simp only [summary, old, List.getElem?_map]
    cases found : (firstNames records)[i]? with
    | none => rfl
    | some other =>
      -- Names are distinct, so that only the entry at the slot has this one.
      have place : slot = i ↔ name = other := by
        rw [← names_summary] at present found
        have here := (indexed _ _).mpr present
        have there := (indexed _ _).mpr found
        constructor
        · rintro rfl
          exact Option.some.inj (present.symm.trans found)
        · rintro rfl
          exact Option.some.inj (here.symm.trans there)
      by_cases same : slot = i
      · obtain rfl := place.mp same
        simp [same, totalUnder_append, totalUnder_single]
      · have different : other ≠ name := fun equal => same (place.mpr equal.symm)
        simp [same, totalUnder_append, totalUnder_other different, Counts.add_zero]
  rw [← entries]
  simp only [summary, old]

/-- A record under a new name makes an entry at the end. -/
theorem summary_concat_new {name : String} (new : name ∉ firstNames records) (counts : Counts) :
    summary (records ++ [(name, counts)]) =
      ⟨(summary records).entries ++ [(name, counts)],
        (name, (summary records).entries.length) :: (summary records).slots⟩ := by
  have added : firstNames (records ++ [(name, counts)]) = firstNames records ++ [name] := by
    rw [firstNames_concat, if_neg new]
  have absent : totalUnder name records = .zero :=
    totalUnder_of_notMem (mt mem_firstNames.mpr new)
  have others : ∀ other ∈ firstNames records,
      totalUnder other (records ++ [(name, counts)]) = totalUnder other records := by
    intro other member
    have different : other ≠ name := fun same => new (same ▸ member)
    rw [totalUnder_append, totalUnder_other different, Counts.add_zero]
  have entry : totalUnder name (records ++ [(name, counts)]) = counts := by
    rw [totalUnder_append, absent, totalUnder_single, Counts.zero_add]
  have entries : (firstNames records).map (fun other =>
      (other, totalUnder other (records ++ [(name, counts)]))) = (summary records).entries :=
    List.map_congr_left fun other member => by rw [others other member]
  rw [summary, added, List.map_append, entries, List.map_singleton, entry]
  simp [summary, List.zipIdx_append]

theorem ofRecords_concat (r : String × Counts) :
    ofRecords (records ++ [r]) = (ofRecords records).record r.1 r.2 := by
  rw [ofRecords, List.foldl_append]
  rfl

theorem indexed_ofRecords (records : List (String × Counts)) : (ofRecords records).Indexed :=
  (totals_records records indexed_empty).1

theorem ofRecords_eq_summary (records : List (String × Counts)) :
    ofRecords records = summary records := by
  induction records using List.reverseRecOn with
  | nil => rfl
  | append_singleton records r ih =>
    obtain ⟨name, counts⟩ := r
    have indexed := indexed_ofRecords records
    rw [ofRecords_concat, ih]
    rw [ih] at indexed
    rcases record_cases indexed name counts with ⟨slot, present, recorded⟩ | ⟨none, recorded⟩
    · rw [names_summary] at present
      rw [recorded, summary_concat_old indexed present]
    · have new : name ∉ firstNames records := by
        intro member
        obtain ⟨slot, found⟩ := List.mem_iff_getElem?.mp member
        rw [← names_summary] at found
        rw [(indexed name slot).mpr found] at none
        cases none
      rw [recorded, summary_concat_new new]

/-! ### Merging -/

theorem ofRecords_append_entries (records more : List (String × Counts)) :
    ofRecords (records ++ (ofRecords more).entries) =
      (ofRecords records).merge (ofRecords more) := by
  rw [ofRecords, List.foldl_append]
  rfl

theorem firstNames_append_entries (records more : List (String × Counts)) :
    firstNames (records ++ (summary more).entries) = firstNames (records ++ more) := by
  have names : (summary more).entries.map (·.1) = firstNames more := names_summary
  simp only [firstNames, List.map_append, names, eraseDups_append_eraseDups]

theorem nodup_firstNames (records : List (String × Counts)) : (firstNames records).Nodup := by
  have nodup := (indexed_ofRecords records).nodup
  rwa [ofRecords_eq_summary, names_summary] at nodup

theorem countsUnder_entries (name : String) (records : List (String × Counts)) :
    countsUnder name (summary records).entries =
      List.replicate ((firstNames records).count name) (totalUnder name records) := by
  have selected : ((fun r : String × Counts => r.1 == name) ∘ fun n => (n, totalUnder n records)) =
      (· == name) := rfl
  rw [countsUnder, summary, List.filter_map, selected, List.filter_beq, List.map_replicate,
    List.map_replicate]

theorem totalUnder_entries (name : String) (records : List (String × Counts)) :
    totalUnder name (summary records).entries = totalUnder name records := by
  rw [totalUnder, countsUnder_entries]
  by_cases known : name ∈ firstNames records
  · rw [List.count_eq_one_of_mem (nodup_firstNames records) known]
    rfl
  · rw [List.count_eq_zero.mpr known, totalUnder_of_notMem (mt mem_firstNames.mpr known)]
    rfl

theorem summary_congr {other : List (String × Counts)}
    (names : firstNames records = firstNames other)
    (totals : ∀ name, totalUnder name records = totalUnder name other) :
    summary records = summary other := by
  simp only [summary, names, totals]

/-- Merging has the effect of the records behind the other history, one after another. -/
theorem ofRecords_append (records more : List (String × Counts)) :
    ofRecords (records ++ more) = (ofRecords records).merge (ofRecords more) := by
  rw [← ofRecords_append_entries, ofRecords_eq_summary more, ofRecords_eq_summary,
    ofRecords_eq_summary]
  symm
  apply summary_congr (firstNames_append_entries records more)
  intro name
  rw [totalUnder_append, totalUnder_append, totalUnder_entries]

theorem Built.eq_ofRecords (built : Built h records) : h = ofRecords records := by
  induction built with
  | empty => rfl
  | record _ name counts ih => rw [ih, ofRecords_concat]
  | merge _ _ ih otherIh => rw [ih, otherIh, ofRecords_append]

/-! ### What a history tells -/

theorem get?_ofRecords (name : String) (records : List (String × Counts)) :
    (ofRecords records).get? name =
      if name ∈ records.map (·.1) then some (totalUnder name records) else none := by
  have indexed := indexed_ofRecords records
  rw [ofRecords_eq_summary] at indexed ⊢
  rw [get?]
  split
  · next known =>
    obtain ⟨slot, found⟩ := List.mem_iff_getElem?.mp (mem_firstNames.mpr known)
    rw [(indexed name slot).mpr (names_summary ▸ found), Option.bind_some]
    simp [summary, found]
  · next unknown =>
    cases place : (summary records).slots.lookup name with
    | none => rfl
    | some slot =>
      have found := (indexed name slot).mp place
      rw [names_summary] at found
      exact absurd (mem_firstNames.mp (List.mem_of_getElem? found)) unknown

theorem totals_ofRecords (records : List (String × Counts)) :
    (ofRecords records).totals = Counts.sum (records.map (·.2)) :=
  (totals_records records indexed_empty).2.trans (Counts.zero_add _)

theorem accumulates_ofRecords (records : List (String × Counts)) :
    (ofRecords records).Accumulates records where
  distinct := (indexed_ofRecords records).nodup
  names := by rw [ofRecords_eq_summary, names_summary]
  indexed := indexed_ofRecords records
  get name := get?_ofRecords name records
  totals := totals_ofRecords records
  sound := by
    intro sound
    constructor
    · rw [ofRecords_eq_summary]
      intro entry member
      obtain ⟨name, _, rfl⟩ := List.mem_map.mp member
      apply Counts.Sound.sum
      intro c inside
      obtain ⟨r, chosen, rfl⟩ := List.mem_map.mp inside
      exact sound r (List.mem_of_mem_filter chosen)
    · rw [totals_ofRecords]
      apply Counts.Sound.sum
      intro c inside
      obtain ⟨r, member, rfl⟩ := List.mem_map.mp inside
      exact sound r member

/-- Merging is recording, so that histories are merged in any grouping; whatever mix of both made a
history, it accumulates its records. -/
theorem merge_homomorphic :
    (∀ records more : List (String × Counts),
      (ofRecords records).merge (ofRecords more) = ofRecords (records ++ more)) ∧
    (∀ {f g h : History} {rf rg rh : List (String × Counts)}, Built f rf → Built g rg → Built h rh →
      (f.merge g).merge h = f.merge (g.merge h)) ∧
    ∀ {h : History} {records : List (String × Counts)}, Built h records →
      empty.merge h = h ∧ h.merge empty = h ∧ h = ofRecords records ∧ h.Accumulates records := by
  refine ⟨fun records more => (ofRecords_append records more).symm, ?_, ?_⟩
  · intro f g h rf rg rh first second third
    rw [((first.merge second).merge third).eq_ofRecords,
      (first.merge (second.merge third)).eq_ofRecords, List.append_assoc]
  · intro h records built
    obtain rfl := built.eq_ofRecords
    exact ⟨(ofRecords_append [] records).symm, rfl, rfl, accumulates_ofRecords records⟩

/-- A name that comes back in a history that is merged into another. -/
theorem merge_homomorphic_repeated :
    ∃ h, h = (ofRecords [("b", ⟨1, 0, 0⟩), ("a", ⟨2, 1, 0⟩)]).merge
        (ofRecords [("c", ⟨3, 2, 1⟩), ("b", ⟨1, 1, 1⟩)]) ∧
      Built h [("b", ⟨1, 0, 0⟩), ("a", ⟨2, 1, 0⟩), ("c", ⟨3, 2, 1⟩), ("b", ⟨1, 1, 1⟩)] ∧
      h.entries = [("b", ⟨2, 1, 1⟩), ("a", ⟨2, 1, 0⟩), ("c", ⟨3, 2, 1⟩)] ∧
      h.Accumulates
        [("b", ⟨1, 0, 0⟩), ("a", ⟨2, 1, 0⟩), ("c", ⟨3, 2, 1⟩), ("b", ⟨1, 1, 1⟩)] := by
  have left := (Built.empty.record "b" ⟨1, 0, 0⟩).record "a" ⟨2, 1, 0⟩
  have right := (Built.empty.record "c" ⟨3, 2, 1⟩).record "b" ⟨1, 1, 1⟩
  have built := left.merge right
  exact ⟨_, rfl, built, by decide, (merge_homomorphic.2.2 built).2.2.2⟩

end History

end DocExamples
