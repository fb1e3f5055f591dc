import DocExamples.Proofs.Symbols.PublicEntries
/-!
Which definition of a name the interface of a class shows. Definitions are met in the class first
and then in its ancestors, in the order of ancestry. The first one that is not deprecated is shown: a
deprecated definition is passed over without taking its name, so that an overridden member of an
ancestor is shown in place of a deprecated override.
-/
namespace DocExamples

/-- The first item of every key is chosen. -/
theorem Firsts.find?_eq {α κ : Type} [BEq κ] [LawfulBEq κ] {key : α → κ} {all chosen : List α}
    (firsts : Firsts key all chosen) (k : κ) :
    chosen.find? (key · == k) = all.find? (key · == k) := by
  induction firsts with
  | nil => rfl
  | new _ _ ih => rw [List.find?_append, List.find?_append, ih]
  | @known all chosen a _ seen ih =>
    rw [List.find?_append, ih]
    obtain ⟨b, before, same⟩ := seen
    cases found : all.find? (key · == k) with
    | some => rfl
    | none =>
      have other : (key b == k) = false := by simpa using List.find?_eq_none.mp found b before
      simp [← same, other]

/-- The first item among those kept is the first of all, if that is kept, unless that is not and one
behind it is. -/
theorem find?_filter_eq_iff {α : Type} (wanted kept : α → Bool) (items : List α) :
    (items.filter kept).find? wanted = (items.find? wanted).filter kept ↔
      ∀ first, items.find? wanted = some first → kept first = false →
        ∀ a ∈ items, wanted a = true → kept a = false := by
  induction items with
  | nil => simp
  | cons a rest ih =>
    cases here : wanted a with
    | false =>
      have skipped : ((a :: rest).filter kept).find? wanted = (rest.filter kept).find? wanted := by
        cases keep : kept a <;> simp [keep, here]
      rw [skipped, List.find?_cons_of_neg (by simp [here]), ih]
      simp [here]
    | true =>
      rw [List.find?_cons_of_pos here, Option.filter_some]
      cases keep : kept a with
      | true => simp [keep, here]
      | false =>
        have contrapose (b : α) : (kept b = true → wanted b = false) ↔
            (wanted b = true → kept b = false) := by
          cases wanted b <;> cases kept b <;> decide
        simp [keep, here, List.find?_eq_none, contrapose]

namespace SymbolTree

variable {t : SymbolTree} {id : SymbolId} {name : String}

/-- What a class and its ancestors define, in the order in which it is met. -/
def definitions (t : SymbolTree) (id : SymbolId) : List SymbolId :=
  (id :: t.ancestry id).flatMap fun owner => (t.get owner).children

/-- The first definition of a name. -/
def definition? (t : SymbolTree) (id : SymbolId) (name : String) : Option SymbolId :=
  (t.definitions id).find? (t.nameOf · == name)

/-- The member that the interface shows under a name. -/
def memberNamed? (t : SymbolTree) (id : SymbolId) (name : String) : Option SymbolId :=
  (t.classMembers id).find? (t.nameOf · == name)

/-- Definitions that are not deprecated. -/
def current (t : SymbolTree) (id : SymbolId) : List SymbolId :=
  (t.definitions id).filter fun m => !(t.get m).deprecated

theorem memberNamed?_eq : t.memberNamed? id name =
    if isPrivate name then none else (t.current id).find? (t.nameOf · == name) := by
  have shown : t.memberNamed? id name = (t.shownMembers id).find? (t.nameOf · == name) :=
    (t.firsts_classMembers id).find?_eq name
  rw [shown, shownMembers, current, definitions, List.find?_filter, List.find?_filter]
  cases hidden : isPrivate name with
  | true =>
    rw [if_pos rfl, List.find?_eq_none]
    intro m _ found
    simp only [isShown, Bool.and_eq_true, Bool.not_eq_true', beq_iff_eq, decide_eq_true_eq] at found
    obtain ⟨⟨shared, -⟩, rfl⟩ := found
    exact absurd (shared.symm.trans hidden) Bool.false_ne_true
  | false =>
    rw [if_neg Bool.false_ne_true]
    congr 1
    funext m
    by_cases named : t.nameOf m = name
    · simp [isShown, named, hidden]
    · simp [named]

/-- A name shows its first definition, or nothing where that is deprecated, unless a definition
behind a deprecated one is not. -/
theorem memberNamed?_eq_definition?_iff (shared : isPrivate name = false) :
    t.memberNamed? id name = (t.definition? id name).filter (fun m => !(t.get m).deprecated) ↔
      ∀ first, t.definition? id name = some first → (t.get first).deprecated = true →
        ∀ m ∈ t.definitions id, t.nameOf m = name → (t.get m).deprecated = true := by
  rw [memberNamed?_eq, if_neg (by simp [shared]), definition?, current, find?_filter_eq_iff]
  simp only [beq_iff_eq, Bool.not_eq_false']

/-- What the interface of a class shows. -/
structure ShowsMembers (t : SymbolTree) (id : SymbolId) : Prop where
  /-- No name is shown twice. -/
  once : ((t.classMembers id).map t.nameOf).Nodup
  /-- Members are shown in the order in which definitions are met. -/
  ordered : (t.classMembers id).Sublist (t.definitions id)
  /-- Private names show nothing, and every other one its first definition that is not
  deprecated. -/
  members : ∀ name, t.memberNamed? id name =
    if isPrivate name then none else (t.current id).find? (t.nameOf · == name)
  /-- Deprecated definitions are passed over; they do not shadow those behind them. -/
  shadowing : ∀ name, isPrivate name = false →
    (t.memberNamed? id name = (t.definition? id name).filter (fun m => !(t.get m).deprecated) ↔
      ∀ first, t.definition? id name = some first → (t.get first).deprecated = true →
        ∀ m ∈ t.definitions id, t.nameOf m = name → (t.get m).deprecated = true)

/-- Of every public name the interface of a class shows the first definition that is not deprecated,
so that a deprecated definition shadows those behind it only where all of them are deprecated. -/
theorem shows_members (t : SymbolTree) (id : SymbolId) : t.ShowsMembers id where
  once := (t.firsts_classMembers id).nodup
  ordered := (t.firsts_classMembers id).sublist.trans List.filter_sublist
  members _ := memberNamed?_eq
  shadowing _ := memberNamed?_eq_definition?_iff

/-- A class with a deprecated override of a member of its base. -/
def deprecatedOverride : SymbolTree :=
  (((((ofRoot "m").add root "Base" .classType).add 1 "f" .method).add root "Derived" .classType).add
    3 "f" .method).markDeprecated 4 |>.addBase 3 1

theorem deprecated_override_uncovers : ¬ ∀ t id name, isPrivate name = false →
    memberNamed? t id name = (definition? t id name).filter fun m => !(t.get m).deprecated := by
  intro all
  have shown := all deprecatedOverride 3 "f" rfl
  revert shown
  decide +kernel

end SymbolTree

end DocExamples
