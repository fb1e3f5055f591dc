import DocExamples.Proofs.Symbols.Paths
/-!
What is tested of a public interface. The entries are the root, what it exports, and behind every
exported class its members. Of the entries that are documented and not left out, those that share
their documentation are tested once, at the first of them.
-/
namespace DocExamples

/-! ### First occurrences -/

/-- Going through `all` in order, an item is chosen if none before it has its key. -/
inductive Firsts {α κ : Type} (key : α → κ) : (all chosen : List α) → Prop where
  | nil : Firsts key [] []
  | new {all chosen : List α} {a : α} (firsts : Firsts key all chosen)
    (unseen : ∀ b ∈ all, key b ≠ key a) : Firsts key (all ++ [a]) (chosen ++ [a])
  | known {all chosen : List α} {a : α} (firsts : Firsts key all chosen)
    (seen : ∃ b ∈ all, key b = key a) : Firsts key (all ++ [a]) chosen

namespace Firsts

variable {α κ : Type} {key : α → κ} {all chosen : List α}

theorem sublist (firsts : Firsts key all chosen) : chosen.Sublist all := by
  induction firsts with
  | nil => exact List.Sublist.refl []
  | new _ _ ih => exact ih.append (List.Sublist.refl _)
  | known _ _ ih => exact ih.trans (List.sublist_append_left _ _)

/-- No key is left out. -/
theorem covers (firsts : Firsts key all chosen) : ∀ a ∈ all, ∃ c ∈ chosen, key c = key a := by
  induction firsts with
  | nil => simp
  | @new all chosen a _ _ ih =>
    intro b member
    rcases List.mem_append.mp member with before | last
    · obtain ⟨c, inside, same⟩ := ih b before
      exact ⟨c, List.mem_append_left _ inside, same⟩
    · have same : b = a := List.mem_singleton.mp last
      exact ⟨a, by simp, by rw [same]⟩
  | @known all chosen a _ seen ih =>
    intro b member
    rcases List.mem_append.mp member with before | last
    · exact ih b before
    · have same : b = a := List.mem_singleton.mp last
      obtain ⟨earlier, before, sameKey⟩ := seen
      obtain ⟨c, inside, first⟩ := ih earlier before
      exact ⟨c, inside, by rw [first, sameKey, same]⟩

/-- No key is chosen twice. -/
theorem nodup (firsts : Firsts key all chosen) : (chosen.map key).Nodup := by
  induction firsts with
  | nil => exact List.nodup_nil
  | @new all chosen a firsts unseen ih =>
    have other : key a ∉ chosen.map key := by
      intro member
      obtain ⟨c, inside, same⟩ := List.mem_map.mp member
      exact unseen c (firsts.sublist.subset inside) same
    rw [List.map_append, List.map_singleton]
    refine List.nodup_append.mpr ⟨ih, by simp, fun k inside last isLast same => ?_⟩
    rw [List.mem_singleton.mp isLast] at same
    exact other (same ▸ inside)
  | known _ _ ih => exact ih

/-- A key was met among the items so far if and only if it was met among those chosen. -/
theorem exists_iff (firsts : Firsts key all chosen) (k : κ) :
    (∃ a ∈ all, key a = k) ↔ ∃ c ∈ chosen, key c = k := by
  constructor
  · rintro ⟨a, member, rfl⟩
    exact firsts.covers a member
  · rintro ⟨c, inside, same⟩
    exact ⟨c, firsts.sublist.subset inside, same⟩

end Firsts

namespace SymbolTree

variable {t : SymbolTree} {settings : Settings}

/-! ### Members of classes -/

def nameOf (t : SymbolTree) (id : SymbolId) : String := (t.get id).name

/-- Whether a member belongs to the public interface of its class. -/
def isShown (t : SymbolTree) (member : SymbolId) : Bool :=
  !isPrivate (t.nameOf member) && !(t.get member).deprecated

/-- What a class and its ancestors hold for everyone, its own members first. -/
def shownMembers (t : SymbolTree) (id : SymbolId) : List SymbolId :=
  ((id :: t.ancestry id).flatMap fun owner => (t.get owner).children).filter t.isShown

theorem firsts_addMembers {before met : List SymbolId} (firsts : Firsts t.nameOf before met)
    (children : List SymbolId) :
    Firsts t.nameOf (before ++ children.filter t.isShown) (t.addMembers met children) := by
  induction children generalizing before met with
  | nil => simpa [addMembers] using firsts
  | cons member rest ih =>
    rw [addMembers]
    cases shown : t.isShown member with
    | false =>
      have hidden : (isPrivate (t.get member).name || (t.get member).deprecated) = true := by
        rw [isShown, Bool.and_eq_false_iff] at shown
        simpa [nameOf] using shown
      rw [hidden, Bool.true_or, if_pos rfl, List.filter_cons_of_neg (by simp [shown])]
      exact ih firsts
    | true =>
      have visible : (isPrivate (t.get member).name || (t.get member).deprecated) = false := by
        simpa [isShown, nameOf] using shown
      have known : (met.any fun m => (t.get m).name == (t.get member).name) = true ↔
          ∃ m ∈ met, t.nameOf m = t.nameOf member := by
        simp [nameOf]
      rw [visible, Bool.false_or, List.filter_cons_of_pos shown, List.append_cons]
      split
      · next taken =>
        have seen := (firsts.exists_iff (t.nameOf member)).mpr (known.mp taken)
        exact ih (.known firsts seen)
      · next free =>
        refine ih (.new firsts fun b member' same => free (known.mpr ?_))
        exact (firsts.exists_iff (t.nameOf member)).mp ⟨b, member', same⟩

/-- The members of a class are the first ones of every name. -/
theorem firsts_classMembers (t : SymbolTree) (id : SymbolId) :
    Firsts t.nameOf (t.shownMembers id) (t.classMembers id) := by
  have from_ (owners : List SymbolId) {before met : List SymbolId}
      (firsts : Firsts t.nameOf before met) :
      Firsts t.nameOf
        (before ++ (owners.flatMap fun owner => (t.get owner).children).filter t.isShown)
        (owners.foldl (fun met owner => t.addMembers met (t.get owner).children) met) := by
    induction owners generalizing before met with
    | nil => simpa using firsts
    | cons owner rest ih =>
      rw [List.flatMap_cons, List.filter_append, ← List.append_assoc, List.foldl_cons]
      exact ih (firsts_addMembers firsts (t.get owner).children)
  exact from_ (id :: t.ancestry id) .nil

/-! ### Entries -/

/-- What an exported name stands for: a child of the root that is not deprecated. Private names
stand for nothing. -/
def publicExport? (t : SymbolTree) (name : String) : Option NamedSymbol :=
  if isPrivate name then none
  else ((t.childNamed? root name).filter fun child => !(t.get child).deprecated).map fun child =>
    ⟨child, t.nameOf root ++ "." ++ name⟩

/-- What the root exports, if it is a public module. -/
def publicExports (t : SymbolTree) : List NamedSymbol :=
  if (t.get root).kind = .module ∧ isPrivate (t.nameOf root) = false then
    ((t.get root).exports.getD []).filterMap t.publicExport?
  else []

/-- An entry, followed by the members if it is a class. -/
def withMembers (t : SymbolTree) (e : NamedSymbol) : List NamedSymbol :=
  e :: if (t.get e.symbol).kind = .classType then
    (t.classMembers e.symbol).map fun m => ⟨m, e.name ++ "." ++ t.nameOf m⟩
  else []

theorem exportEntries_eq {name : String} (shared : isPrivate name = false) :
    t.exportEntries name = (t.publicExport? name).toList.flatMap t.withMembers := by
  rw [exportEntries, publicExport?, shared, if_neg Bool.false_ne_true]
  cases t.childNamed? root name with
  | none => rfl
  | some child =>
    dsimp only
    cases deprecated : (t.get child).deprecated with
    | true => simp [Option.filter, deprecated]
    | false =>
      by_cases isClass : (t.get child).kind = .classType
      · simp [Option.filter, deprecated, withMembers, isClass, nameOf]
      · simp [Option.filter, deprecated, withMembers, isClass, nameOf]

theorem publicEntries_eq (t : SymbolTree) :
    t.publicEntries = t.namedRoot :: t.publicExports.flatMap t.withMembers := by
  rw [publicEntries, publicExports]
  dsimp only
  by_cases shared : (t.get root).kind = .module ∧ isPrivate (t.nameOf root) = false
  · have notShut : (decide ((t.get root).kind ≠ .module) || isPrivate (t.get root).name) = false := by
      simpa [nameOf] using shared
    rw [notShut, if_neg Bool.false_ne_true, if_pos shared]
    congr 1
    induction (t.get root).exports.getD [] with
    | nil => rfl
    | cons name rest ih =>
      cases hidden : isPrivate name with
      | true => simpa [List.filter_cons, List.filterMap_cons, publicExport?, hidden] using ih
      | false =>
        rw [List.filter_cons_of_pos (by simp [hidden]), List.flatMap_cons, ih,
          exportEntries_eq hidden, List.filterMap_cons]
        cases t.publicExport? name <;> simp
  · have shut : (decide ((t.get root).kind ≠ .module) || isPrivate (t.get root).name) = true := by
      rw [not_and_or] at shared
      simpa [nameOf] using shared
    rw [shut, if_pos rfl, if_neg shared]
    rfl

/-! ### Candidates -/

/-- What an entry is tested as. -/
structure TestedAs (t : SymbolTree) (e : NamedSymbol) (c : Candidate) : Prop where
  name : c.name = e.name
  symbol : c.symbol = e.symbol
  documented : t.docSource? e.symbol = some c.source

/-- Documented, and not left out. -/
def isTested (t : SymbolTree) (settings : Settings) (e : NamedSymbol) : Bool :=
  !t.isSkipped settings e && (t.docSource? e.symbol).isSome

theorem isSome_candidateAt? (e : NamedSymbol) :
    (t.candidateAt? settings e).isSome = t.isTested settings e := by
  rw [candidateAt?, isTested]
  cases t.isSkipped settings e <;> simp

theorem testedAs_of_candidateAt? {e : NamedSymbol} {c : Candidate}
    (given : t.candidateAt? settings e = some c) : t.TestedAs e c := by
  rw [candidateAt?] at given
  split at given
  · cases given
  · obtain ⟨source, documented, rfl⟩ := Option.map_eq_some_iff.mp given
    exact ⟨rfl, rfl, documented⟩

theorem testedAs_documented (settings : Settings) (entries : List NamedSymbol) :
    List.Forall₂ t.TestedAs (entries.filter (t.isTested settings))
      (t.documented settings entries) := by
  have each := forall₂_filter_filterMap (t.candidateAt? settings) entries
  simp only [isSome_candidateAt?] at each
  exact each.imp fun e c given => testedAs_of_candidateAt? given.2

theorem firsts_firstOfSource {before chosen : List Candidate} {seen : List SymbolId}
    (firsts : Firsts Candidate.source before chosen)
    (met : ∀ source, source ∈ seen ↔ ∃ c ∈ before, c.source = source) (rest : List Candidate) :
    Firsts Candidate.source (before ++ rest) (chosen ++ firstOfSource seen rest) := by
  induction rest generalizing before chosen seen with
  | nil => simpa [firstOfSource] using firsts
  | cons c rest ih =>
    rw [firstOfSource, List.append_cons before]
    by_cases known : c.source ∈ seen
    · rw [if_pos (by simpa using known)]
      refine ih (.known firsts ((met _).mp known)) fun source => ?_
      rw [met source]
      constructor
      · rintro ⟨b, inside, same⟩
        exact ⟨b, List.mem_append_left _ inside, same⟩
      · rintro ⟨b, inside, rfl⟩
        rcases List.mem_append.mp inside with inside | last
        · exact ⟨b, inside, rfl⟩
        · rw [List.mem_singleton.mp last]
          exact (met _).mp known
    · rw [if_neg (by simpa using known), List.append_cons chosen]
      refine ih (.new firsts fun b inside same => known ((met _).mpr ⟨b, inside, same⟩)) ?_
      intro source
      simp [met source, or_comm, eq_comm]

theorem firsts_candidates (t : SymbolTree) (settings : Settings) :
    Firsts Candidate.source (t.documented settings t.publicEntries)
      (t.candidates settings .publicApi) := by
  have noneSeen : ∀ source, source ∈ ([] : List SymbolId) ↔
      ∃ c ∈ ([] : List Candidate), c.source = source := by simp
  simpa [candidates] using firsts_firstOfSource .nil noneSeen (t.documented settings t.publicEntries)

/-- What is tested of a public interface, and what its entries are. -/
structure TestsInterface (t : SymbolTree) (settings : Settings) (candidates : List Candidate) :
    Prop where
  /-- The root, and each export followed by its members. -/
  entries : t.publicEntries = t.namedRoot :: t.publicExports.flatMap t.withMembers
  /-- The members of a class are the first ones of every name. -/
  members : ∀ id, Firsts t.nameOf (t.shownMembers id) (t.classMembers id)
  /-- Nothing inside an exported module is an entry by that export. -/
  modules : ∀ e ∈ t.publicExports, (t.get e.symbol).kind = .module → t.withMembers e = [e]
  /-- The candidates are the first ones of every source among the entries that are tested. -/
  chosen : ∃ tested, List.Forall₂ t.TestedAs (t.publicEntries.filter (t.isTested settings)) tested ∧
    Firsts Candidate.source tested candidates
  /-- No documentation is tested twice. -/
  once : (candidates.map Candidate.source).Nodup
  /-- The documentation of every entry that is not left out is tested. -/
  covered : ∀ e ∈ t.publicEntries, t.isSkipped settings e = false →
    ∀ source, t.docSource? e.symbol = some source → ∃ c ∈ candidates, c.source = source

/-- With the strategy of testing the public interface, those entries are tested that are documented
and not left out, and of those that share their documentation the first one. -/
theorem candidates_public (t : SymbolTree) (settings : Settings) :
    t.TestsInterface settings (t.candidates settings .publicApi) := by
  have firsts := t.firsts_candidates settings
  have tested := testedAs_documented (t := t) settings t.publicEntries
  constructor
  · exact t.publicEntries_eq
  · exact t.firsts_classMembers
  · intro e _ isModule
    simp [withMembers, isModule]
  · exact ⟨_, tested, firsts⟩
  · exact firsts.nodup
  · intro e member kept source documented
    have given : t.candidateAt? settings e = some ⟨e.name, e.symbol, source⟩ := by
      simp [candidateAt?, kept, documented]
    have inside : ⟨e.name, e.symbol, source⟩ ∈ t.documented settings t.publicEntries :=
      List.mem_filterMap.mpr ⟨e, member, given⟩
    exact firsts.covers _ inside

end SymbolTree

end DocExamples
