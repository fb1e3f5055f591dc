import DocExamples.Literal.Agreement
import Mathlib
/-!
Dictionaries agree entry by entry. Each expected entry is looked up by its key in the output, and
only the numbers of entries are compared besides; since equality of keys is symmetric and
transitive and no dictionary has a key twice, no two expected entries find the same one, so that
every entry of the output is found. What is no number equals nothing, so that a key that holds it
is never found.
-/
namespace DocExamples

/-! ### Equality of literals -/

theorem Number.same_symm {a b : Number} (equal : a.same b = true) : b.same a = true := by
  rw [Number.same, Bool.and_eq_true] at *
  exact ⟨BEq.symm equal.1, BEq.symm equal.2⟩

theorem Number.same_trans {a b c : Number} (first : a.same b = true) (second : b.same c = true) :
    a.same c = true := by
  rw [Number.same, Bool.and_eq_true] at *
  exact ⟨BEq.trans first.1 second.1, BEq.trans first.2 second.2⟩

namespace Leaf

theorem same_symm {a b : Leaf} (equal : a.same b = true) : b.same a = true := by
  cases a <;> cases b <;> simp only [same, Bool.false_eq_true] at equal ⊢
  · exact Number.same_symm equal
  · exact BEq.symm equal
  · exact BEq.symm equal

theorem same_trans {a b c : Leaf} (first : a.same b = true) (second : b.same c = true) :
    a.same c = true := by
  cases a <;> cases b <;> simp only [same, Bool.false_eq_true] at first <;> cases c <;>
    simp only [same, Bool.false_eq_true] at second ⊢
  · exact Number.same_trans first second
  · exact BEq.trans first second
  · exact BEq.trans first second

theorem sameAll_symm {as bs : List Leaf} (equal : sameAll as bs = true) : sameAll bs as = true := by
  induction as generalizing bs with
  | nil =>
    cases bs with
    | nil => rfl
    | cons => cases equal
  | cons a as ih =>
    cases bs with
    | nil => cases equal
    | cons b bs =>
      rw [sameAll, Bool.and_eq_true] at *
      exact ⟨same_symm equal.1, ih equal.2⟩

theorem sameAll_trans {as bs cs : List Leaf} (first : sameAll as bs = true)
    (second : sameAll bs cs = true) : sameAll as cs = true := by
  induction as generalizing bs cs with
  | nil =>
    cases bs with
    | nil => exact second
    | cons => cases first
  | cons a as ih =>
    cases bs with
    | nil => cases first
    | cons b bs =>
      cases cs with
      | nil => cases second
      | cons c cs =>
        rw [sameAll, Bool.and_eq_true] at *
        exact ⟨same_trans first.1 second.1, ih first.2 second.2⟩

end Leaf

theorem ArrayLiteral.same_symm {a b : ArrayLiteral} (equal : a.same b = true) :
    b.same a = true := by
  simp only [ArrayLiteral.same, Bool.and_eq_true, beq_iff_eq] at *
  obtain ⟨⟨⟨⟨⟨style, leaves⟩, shape⟩, declared⟩, dtype⟩, abbreviated⟩ := equal
  exact ⟨⟨⟨⟨⟨style.symm, Leaf.sameAll_symm leaves⟩, shape.symm⟩, declared.symm⟩, dtype.symm⟩,
    abbreviated.symm⟩

theorem ArrayLiteral.same_trans {a b c : ArrayLiteral} (first : a.same b = true)
    (second : b.same c = true) : a.same c = true := by
  simp only [ArrayLiteral.same, Bool.and_eq_true, beq_iff_eq] at *
  obtain ⟨⟨⟨⟨⟨style, leaves⟩, shape⟩, declared⟩, dtype⟩, abbreviated⟩ := first
  obtain ⟨⟨⟨⟨⟨style', leaves'⟩, shape'⟩, declared'⟩, dtype'⟩, abbreviated'⟩ := second
  exact ⟨⟨⟨⟨⟨style.trans style', Leaf.sameAll_trans leaves leaves'⟩, shape.trans shape'⟩,
    declared.trans declared'⟩, dtype.trans dtype'⟩, abbreviated.trans abbreviated'⟩

namespace Literal

mutual

theorem same_symm : ∀ {a b : Literal}, same a b = true → same b a = true
  | .leaf _, b, equal => by
    cases b <;> simp only [same, Bool.false_eq_true] at equal ⊢
    exact Leaf.same_symm equal
  | .ellipsis, b, equal => by
    cases b <;> simp only [same, Bool.false_eq_true] at equal ⊢
  | .list _, b, equal => by
    cases b <;> simp only [same, Bool.false_eq_true] at equal ⊢
    exact sameAll_symm equal
  | .tuple _, b, equal => by
    cases b <;> simp only [same, Bool.false_eq_true] at equal ⊢
    exact sameAll_symm equal
  | .dict _, b, equal => by
    cases b <;> simp only [same, Bool.false_eq_true] at equal ⊢
    exact sameEntries_symm equal
  | .array _, b, equal => by
    cases b <;> simp only [same, Bool.false_eq_true] at equal ⊢
    exact ArrayLiteral.same_symm equal

theorem sameAll_symm : ∀ {as bs : List Literal}, sameAll as bs = true → sameAll bs as = true
  | [], bs, equal => by
    cases bs <;> simp only [sameAll, Bool.false_eq_true] at equal ⊢
  | _ :: _, bs, equal => by
    cases bs <;> simp only [sameAll, Bool.false_eq_true, Bool.and_eq_true] at equal ⊢
    exact ⟨same_symm equal.1, sameAll_symm equal.2⟩

theorem sameEntries_symm : ∀ {as bs : List (Literal × Literal)},
    sameEntries as bs = true → sameEntries bs as = true
  | [], bs, equal => by
    cases bs <;> simp only [sameEntries, Bool.false_eq_true] at equal ⊢
  | (_, _) :: _, bs, equal => by
    cases bs <;> simp only [sameEntries, Bool.false_eq_true, Bool.and_eq_true] at equal ⊢
    exact ⟨⟨same_symm equal.1.1, same_symm equal.1.2⟩, sameEntries_symm equal.2⟩

end

mutual

theorem same_trans : ∀ {a b c : Literal}, same a b = true → same b c = true → same a c = true
  | .leaf _, b, c, first, second => by
    cases b <;> simp only [same, Bool.false_eq_true] at first
    cases c <;> simp only [same, Bool.false_eq_true] at second ⊢
    exact Leaf.same_trans first second
  | .ellipsis, b, c, first, second => by
    cases b <;> simp only [same, Bool.false_eq_true] at first
    exact second
  | .list _, b, c, first, second => by
    cases b <;> simp only [same, Bool.false_eq_true] at first
    cases c <;> simp only [same, Bool.false_eq_true] at second ⊢
    exact sameAll_trans first second
  | .tuple _, b, c, first, second => by
    cases b <;> simp only [same, Bool.false_eq_true] at first
    cases c <;> simp only [same, Bool.false_eq_true] at second ⊢
    exact sameAll_trans first second
  | .dict _, b, c, first, second => by
    cases b <;> simp only [same, Bool.false_eq_true] at first
    cases c <;> simp only [same, Bool.false_eq_true] at second ⊢
    exact sameEntries_trans first second
  | .array _, b, c, first, second => by
    cases b <;> simp only [same, Bool.false_eq_true] at first
    cases c <;> simp only [same, Bool.false_eq_true] at second ⊢
    exact ArrayLiteral.same_trans first second

theorem sameAll_trans : ∀ {as bs cs : List Literal},
    sameAll as bs = true → sameAll bs cs = true → sameAll as cs = true
  | [], bs, cs, first, second => by
    cases bs <;> simp only [sameAll, Bool.false_eq_true] at first
    exact second
  | _ :: _, bs, cs, first, second => by
    cases bs <;> simp only [sameAll, Bool.false_eq_true, Bool.and_eq_true] at first
    cases cs <;> simp only [sameAll, Bool.false_eq_true, Bool.and_eq_true] at second ⊢
    exact ⟨same_trans first.1 second.1, sameAll_trans first.2 second.2⟩

theorem sameEntries_trans : ∀ {as bs cs : List (Literal × Literal)},
    sameEntries as bs = true → sameEntries bs cs = true → sameEntries as cs = true
  | [], bs, cs, first, second => by
    cases bs <;> simp only [sameEntries, Bool.false_eq_true] at first
    exact second
  | (_, _) :: _, bs, cs, first, second => by
    cases bs <;> simp only [sameEntries, Bool.false_eq_true, Bool.and_eq_true] at first
    cases cs <;> simp only [sameEntries, Bool.false_eq_true, Bool.and_eq_true] at second ⊢
    exact ⟨⟨same_trans first.1.1 second.1.1, same_trans first.1.2 second.1.2⟩,
      sameEntries_trans first.2 second.2⟩

end

/-! ### Look-up -/

/-- No key equals one after it. -/
def DistinctKeys (entries : List (Literal × Literal)) : Prop :=
  entries.Pairwise fun a b => same a.1 b.1 = false

section

variable {key value : Literal} {entries others : List (Literal × Literal)}

theorem DistinctKeys.perm (distinct : DistinctKeys entries) (reordered : entries.Perm others) :
    DistinctKeys others := by
  refine (reordered.pairwise_iff fun {a b} apart => ?_).mp distinct
  rw [← Bool.not_eq_true] at *
  exact fun equal => apart (same_symm equal)

theorem exists_of_valueOf? (found : valueOf? key entries = some value) :
    ∃ k, (k, value) ∈ entries ∧ same k key = true := by
  induction entries with
  | nil => cases found
  | cons e entries ih =>
    rw [valueOf?] at found
    split at found
    · next equal =>
      cases found
      exact ⟨e.1, List.mem_cons_self, equal⟩
    · obtain ⟨k, member, equal⟩ := ih found
      exact ⟨k, List.mem_cons_of_mem _ member, equal⟩

/-- Where keys are distinct, an entry is found under every key that equals its own. -/
theorem valueOf?_of_mem (distinct : DistinctKeys entries) {k : Literal}
    (member : (k, value) ∈ entries) (equal : same k key = true) :
    valueOf? key entries = some value := by
  induction entries with
  | nil => cases member
  | cons e entries ih =>
    obtain ⟨apart, distinct⟩ := List.pairwise_cons.mp distinct
    rw [valueOf?]
    rcases List.mem_cons.mp member with rfl | later
    · exact if_pos equal
    · have other : ¬same e.1 key = true := by
        intro earlier
        have both : same e.1 k = true := same_trans earlier (same_symm equal)
        exact absurd both (by simp [apart _ later])
      rw [if_neg other]
      exact ih distinct later

end

/-! ### Entries that correspond -/

/-- Equal keys, and values that agree. -/
structure Pairs (settings : Settings) (want got : Literal × Literal) : Prop where
  keys : same want.1 got.1 = true
  values : agrees settings want.2 got.2 = true

/-- The entries pair one to one: in some order, those of the output stand beside the expected
ones. -/
def Correspond (settings : Settings) (want got : List (Literal × Literal)) : Prop :=
  ∃ ordered, List.Forall₂ (Pairs settings) want ordered ∧ ordered.Perm got

section

variable {settings : Settings} {want got want' got' : List (Literal × Literal)}

theorem exists_left_of_forall₂ {α β : Type} {R : α → β → Prop} {as : List α} {bs : List β}
    (paired : List.Forall₂ R as bs) {b : β} (member : b ∈ bs) : ∃ a ∈ as, R a b := by
  induction paired with
  | nil => cases member
  | cons here _ ih =>
    rcases List.mem_cons.mp member with rfl | later
    · exact ⟨_, List.mem_cons_self, here⟩
    · obtain ⟨a, inside, related⟩ := ih later
      exact ⟨a, List.mem_cons_of_mem _ inside, related⟩

namespace Correspond

theorem perm (correspond : Correspond settings want got) (reordered : want'.Perm want)
    (reordered' : got'.Perm got) : Correspond settings want' got' := by
  obtain ⟨ordered, paired, same⟩ := correspond
  obtain ⟨ordered', paired', same'⟩ := List.perm_comp_forall₂ reordered paired
  exact ⟨ordered', paired', same'.trans (same.trans reordered'.symm)⟩

theorem length_eq (correspond : Correspond settings want got) : want.length = got.length := by
  obtain ⟨ordered, paired, same⟩ := correspond
  exact paired.length_eq.trans same.length_eq

theorem exists_given (correspond : Correspond settings want got) :
    ∀ w ∈ want, ∃ g ∈ got, Pairs settings w g := by
  obtain ⟨ordered, paired, same⟩ := correspond
  intro w member
  obtain ⟨g, inside, pairs⟩ := exists_left_of_forall₂ paired.flip member
  exact ⟨g, same.subset inside, pairs⟩

theorem exists_wanted (correspond : Correspond settings want got) :
    ∀ g ∈ got, ∃ w ∈ want, Pairs settings w g := by
  obtain ⟨ordered, paired, same⟩ := correspond
  exact fun g member => exists_left_of_forall₂ paired (same.symm.subset member)

end Correspond

/-- Entries with distinct keys that each pair with some entry pair with different ones. -/
theorem exists_paired (distinct : DistinctKeys want)
    (found : ∀ w ∈ want, ∃ g ∈ got, Pairs settings w g) :
    ∃ chosen, List.Forall₂ (Pairs settings) want chosen ∧ chosen.Nodup ∧ chosen ⊆ got := by
  induction want with
  | nil => exact ⟨[], .nil, List.nodup_nil, List.nil_subset _⟩
  | cons w want ih =>
    obtain ⟨apart, distinct⟩ := List.pairwise_cons.mp distinct
    obtain ⟨⟨g, member, pairs⟩, later⟩ := List.forall_mem_cons.mp found
    obtain ⟨chosen, paired, nodup, inside⟩ := ih distinct later
    have new : g ∉ chosen := by
      intro again
      obtain ⟨w', member', pairs'⟩ := exists_left_of_forall₂ paired again
      have both : same w.1 w'.1 = true := same_trans pairs.keys (same_symm pairs'.keys)
      exact absurd both (by simp [apart w' member'])
    exact ⟨g :: chosen, .cons pairs paired, List.nodup_cons.mpr ⟨new, nodup⟩,
      List.cons_subset.mpr ⟨member, inside⟩⟩

theorem agreeEntries_iff : agreeEntries settings want got = true ↔
    ∀ w ∈ want, ∃ v, valueOf? w.1 got = some v ∧ agrees settings w.2 v = true := by
  induction want with
  | nil => simp [agreeEntries]
  | cons w want ih =>
    rw [agreeEntries, Bool.and_eq_true, ih, List.forall_mem_cons]
    cases valueOf? w.1 got <;> simp

/-- Dictionaries agree exactly if their entries correspond. As many different entries of the output
are found as there are expected ones, and these are all. -/
theorem agrees_dict_iff (distinct : DistinctKeys want) (distinct' : DistinctKeys got) :
    agrees settings (.dict want) (.dict got) = true ↔ Correspond settings want got := by
  rw [agrees, Bool.and_eq_true, beq_iff_eq, agreeEntries_iff]
  constructor
  · rintro ⟨size, each⟩
    have found : ∀ w ∈ want, ∃ g ∈ got, Pairs settings w g := by
      intro w member
      obtain ⟨v, looked, values⟩ := each w member
      obtain ⟨k, inside, equal⟩ := exists_of_valueOf? looked
      exact ⟨(k, v), inside, same_symm equal, values⟩
    obtain ⟨chosen, paired, nodup, inside⟩ := exists_paired distinct found
    have all : got.length ≤ chosen.length := by rw [← size, paired.length_eq]
    exact ⟨chosen, paired, (List.subperm_of_subset nodup inside).perm_of_length_le all⟩
  · intro correspond
    refine ⟨correspond.length_eq, fun w member => ?_⟩
    obtain ⟨g, inside, pairs⟩ := correspond.exists_given w member
    exact ⟨g.2, valueOf?_of_mem distinct' inside (same_symm pairs.keys), pairs.values⟩

/-! ### Dictionaries that are compared by structure -/

/-- No container, so that it is compared as a whole. -/
def IsSimple : Literal → Prop
  | .leaf _ | .ellipsis | .array _ => True
  | .list _ | .tuple _ | .dict _ => False

theorem IsSimple.nesting_eq_zero {l : Literal} (simple : l.IsSimple) : nesting l = 0 := by
  cases l with
  | leaf | ellipsis | array => rfl
  | list | tuple | dict => cases simple

/-- The entries of a dictionary without containers, and with different keys. -/
structure IsFlat (entries : List (Literal × Literal)) : Prop where
  keys : ∀ e ∈ entries, e.1.IsSimple
  values : ∀ e ∈ entries, e.2.IsSimple
  distinct : DistinctKeys entries

theorem IsFlat.perm (flat : IsFlat want) (reordered : want'.Perm want) : IsFlat want' where
  keys e member := flat.keys e (reordered.subset member)
  values e member := flat.values e (reordered.subset member)
  distinct := flat.distinct.perm reordered.symm

theorem IsFlat.nesting_eq_one (flat : IsFlat want) : nesting (.dict want) = 1 := by
  have simple : nestingEntries want = 0 := by
    obtain ⟨keys, values, -⟩ := flat
    induction want with
    | nil => rfl
    | cons e want ih =>
      obtain ⟨key, keys⟩ := List.forall_mem_cons.mp keys
      obtain ⟨value, values⟩ := List.forall_mem_cons.mp values
      rw [nestingEntries, key.nesting_eq_zero, value.nesting_eq_zero, ih keys values]
      rfl
  rw [nesting, simple]

theorem structurallyEqual_dict_iff (flat : IsFlat want) (flat' : IsFlat got) :
    structurallyEqual settings (.dict want) (.dict got) = true ↔ Correspond settings want got := by
  rw [structurallyEqual, flat.nesting_eq_one, flat'.nesting_eq_one]
  exact agrees_dict_iff flat.distinct flat'.distinct

/-- Dictionaries without containers are equal exactly if their entries correspond. So the order of
entries makes no difference, and every entry of the output is the one found for some expected
entry. -/
theorem dictionaries_correspond (settings : Settings) (flat : IsFlat want) (flat' : IsFlat got) :
    (structurallyEqual settings (.dict want) (.dict got) = true ↔ Correspond settings want got) ∧
      (∀ want' got', want'.Perm want → got'.Perm got →
        structurallyEqual settings (.dict want') (.dict got') =
          structurallyEqual settings (.dict want) (.dict got)) ∧
      (structurallyEqual settings (.dict want) (.dict got) = true →
        ∀ g ∈ got, ∃ w ∈ want, valueOf? w.1 got = some g.2 ∧ Pairs settings w g) := by
  refine ⟨structurallyEqual_dict_iff flat flat', fun want' got' reordered reordered' => ?_,
    fun equal g member => ?_⟩
  · rw [Bool.eq_iff_iff, structurallyEqual_dict_iff flat flat',
      structurallyEqual_dict_iff (flat.perm reordered) (flat'.perm reordered')]
    exact ⟨fun found => found.perm reordered.symm reordered'.symm,
      fun found => found.perm reordered reordered'⟩
  · have correspond := (structurallyEqual_dict_iff flat flat').mp equal
    obtain ⟨w, inside, pairs⟩ := correspond.exists_wanted g member
    exact ⟨w, inside, valueOf?_of_mem flat'.distinct member (same_symm pairs.keys), pairs⟩

/-- Entries in another order, and a value within the tolerance. -/
theorem dictionaries_correspond_reordered :
    let a : Literal := .leaf (.str "a")
    let two : Literal := .leaf (.number ⟨2.0, .int⟩)
    let number (x : Float) : Literal := .leaf (.number ⟨x, .float⟩)
    let want := [(a, number 0.5), (two, number 1.0)]
    let got := [(two, number 1.000001), (a, number 0.5)]
    IsFlat want ∧ IsFlat got ∧ Correspond .defaults want got ∧
      structurallyEqual .defaults (.dict want.reverse) (.dict got) = true := by
  intro a two number want got
  have flat : IsFlat want := by
    refine ⟨by simp [want, a, two, IsSimple], by simp [want, number, IsSimple], ?_⟩
    exact List.pairwise_pair.mpr (by decide)
  have flat' : IsFlat got := by
    refine ⟨by simp [got, a, two, IsSimple], by simp [got, number, IsSimple], ?_⟩
    exact List.pairwise_pair.mpr (by decide)
  have equal : structurallyEqual .defaults (.dict want) (.dict got) = true := by decide +kernel
  obtain ⟨iff, reordered, -⟩ := dictionaries_correspond .defaults flat flat'
  exact ⟨flat, flat', iff.mp equal,
    (reordered want.reverse got want.reverse_perm (.refl got)).trans equal⟩

end

end Literal

end DocExamples
