import DocExamples.Proofs.Symbols.Loading
import DocExamples.Proofs.Text.Lines
import Mathlib.Data.List.Basic
import Mathlib.Data.List.Nodup
/-!
Qualified names as the identity of symbols. A dump's entries are the outermost one and the members
of entries; a name is given by the way down from the outermost one, owners lead the same way up, and
the look-up by children goes down it again. All three agree where names hold no points and no two
entries share a qualified name: among the children of a symbol its own members come first, so that
further children of the same names are never met.
-/
namespace DocExamples

/-! ### Names with points -/

theorem Text.join_eq_intercalate (separator : List Char) (parts : List (List Char)) :
    join separator parts = separator.intercalate parts := by
  induction parts with
  | nil => rfl
  | cons part rest ih =>
    cases rest with
    | nil => exact (List.intercalate_singleton ..).symm
    | cons next rest => rw [join, ih, List.intercalate_cons_cons, List.append_assoc]

/-- Names without points are read back from the text that joins them by points. -/
theorem names_of_intercalate {names : List String} (some : names ≠ [])
    (undotted : ∀ name ∈ names, '.' ∉ name.toList) :
    (Text.fields (· == '.') (".".intercalate names).toList).map String.ofList = names := by
  have point : ".".toList = ['.'] := rfl
  have whole : ∀ chars ∈ names.map String.toList, ∀ c ∈ chars, (c == '.') = false := by
    intro chars member c inside
    obtain ⟨name, isName, rfl⟩ := List.mem_map.mp member
    exact beq_false_of_ne fun same => undotted name isName (same ▸ inside)
  rw [String.toList_intercalate, point, ← Text.join_eq_intercalate,
    Text.fields_join_of_whole (by simp) (by simpa using some) whole]
  simp [Function.comp_def]

theorem SymbolTree.follow_append (t : SymbolTree) (id : SymbolId) (names more : List String) :
    t.follow id (names ++ more) = (t.follow id names).bind fun child => t.follow child more := by
  induction names generalizing id with
  | nil => rfl
  | cons name rest ih =>
    rw [List.cons_append, follow, follow, Option.bind_assoc]
    exact congrArg _ (funext ih)

namespace SymbolDump

/-! ### Entries and their members -/

theorem le_of_mem_memberIds {next id : SymbolId} {ds : List SymbolDump}
    (member : id ∈ memberIds next ds) : next ≤ id := by
  induction ds generalizing next with
  | nil => cases member
  | cons d rest ih =>
    rcases List.mem_cons.mp member with rfl | later
    · exact Nat.le_refl _
    · exact Nat.le_trans (Nat.le_add_right _ _) (ih later)

theorem length_memberIds (next : SymbolId) (ds : List SymbolDump) :
    (memberIds next ds).length = ds.length := by
  induction ds generalizing next with
  | nil => rfl
  | cons d rest ih => exact congrArg (· + 1) (ih _)

namespace Entry

/-- The entry of a description among the members of `e`. -/
def memberOf (base : Option String) (e : Entry) (id : SymbolId) (d : SymbolDump) : Entry where
  dump := d
  id
  owner := some e.id
  name := e.name ++ "." ++ d.name
  file := d.file.map (resolveFile base) <|> e.file

/-- The entries of the members of `e`. -/
def members (base : Option String) (e : Entry) : List Entry :=
  ((memberIds (e.id + 1) e.dump.members).zip e.dump.members).map fun (id, d) => e.memberOf base id d

/-- All entries that stand below `e`. -/
def below (base : Option String) (e : Entry) : List Entry :=
  memberEntries base (e.id + 1) e.id e.name e.file e.dump.members

variable {base : Option String} {p e m : Entry}

theorem of_mem_members (member : m ∈ e.members base) :
    m.owner = some e.id ∧ m.name = e.name ++ "." ++ m.dump.name ∧ e.id < m.id ∧
      m.dump ∈ e.dump.members := by
  obtain ⟨⟨id, d⟩, place, rfl⟩ := List.mem_map.mp member
  obtain ⟨isId, isDump⟩ := List.of_mem_zip place
  exact ⟨rfl, rfl, le_of_mem_memberIds isId, isDump⟩

theorem map_id_members (base : Option String) (e : Entry) :
    (e.members base).map Entry.id = memberIds (e.id + 1) e.dump.members := by
  rw [members, List.map_map]
  exact List.map_fst_zip (Nat.le_of_eq (length_memberIds _ _))

theorem below_eq (base : Option String) (e : Entry) :
    e.below base = (e.members base).flatMap fun m => m :: m.below base := by
  rw [below, members]
  generalize e.id + 1 = next
  induction e.dump.members generalizing next with
  | nil => rfl
  | cons d rest ih =>
    rw [memberEntries, entriesFrom_eq, ih, memberIds, List.zip_cons_cons, List.map_cons,
      List.flatMap_cons]
    rfl

theorem sizeOf_of_mem_members (member : m ∈ e.members base) : sizeOf m.dump < sizeOf e.dump := by
  obtain ⟨-, -, -, inside⟩ := of_mem_members member
  have smaller := List.sizeOf_lt_of_mem inside
  have whole : sizeOf e.dump.members < sizeOf e.dump := by
    cases e.dump
    simp
    omega
  exact Nat.lt_trans smaller whole

/-- What holds of an entry if it holds of its members holds of every entry. -/
theorem members_induction (base : Option String) {motive : Entry → Prop}
    (entry : ∀ e : Entry, (∀ m ∈ e.members base, motive m) → motive e) (e : Entry) : motive e := by
  induction size : sizeOf e.dump using Nat.strongRecOn generalizing e with
  | ind n ih =>
    subst size
    exact entry e fun m member => ih _ (sizeOf_of_mem_members member) m rfl

theorem mem_below (member : m ∈ e.members base) (inside : p = m ∨ p ∈ m.below base) :
    p ∈ e.below base := by
  rw [below_eq, List.mem_flatMap]
  exact ⟨m, member, List.mem_cons.mpr inside⟩

theorem exists_of_mem_below (inside : p ∈ e.below base) :
    ∃ m ∈ e.members base, p = m ∨ p ∈ m.below base := by
  rw [below_eq, List.mem_flatMap] at inside
  obtain ⟨m, member, inside⟩ := inside
  exact ⟨m, member, List.mem_cons.mp inside⟩

/-- What stands below an entry is a member of it or of what stands below it. -/
theorem exists_mem_members (inside : p ∈ e.below base) :
    ∃ q, (q = e ∨ q ∈ e.below base) ∧ p ∈ q.members base := by
  induction e using members_induction base with
  | entry e ih =>
    obtain ⟨m, member, rfl | deeper⟩ := exists_of_mem_below inside
    · exact ⟨e, .inl rfl, member⟩
    · obtain ⟨q, place, found⟩ := ih m member deeper
      exact ⟨q, .inr (mem_below member place), found⟩

theorem members_subset (inside : p = e ∨ p ∈ e.below base) : p.members base ⊆ e.below base := by
  induction e using members_induction base with
  | entry e ih =>
    intro q found
    rcases inside with rfl | inside
    · exact mem_below found (.inl rfl)
    · obtain ⟨m, member, place⟩ := exists_of_mem_below inside
      exact mem_below member (.inr (ih m member place found))

end Entry

/-! ### Entries of a dump -/

section

variable {d : SymbolDump} {base : Option String} {e m p : Entry}

/-- The outermost entry. -/
def outermost (d : SymbolDump) (base : Option String) : Entry where
  dump := d
  id := 0
  owner := none
  name := d.name
  file := d.file.map (resolveFile base)

theorem entries_eq (d : SymbolDump) (base : Option String) :
    d.entries base = d.outermost base :: (d.outermost base).below base := by
  have own : (d.file.map (resolveFile base) <|> none) = d.file.map (resolveFile base) := by
    cases d.file <;> rfl
  rw [entries, entriesFrom_eq, own]
  rfl

theorem mem_entries_of_members (inside : p ∈ d.entries base) (member : e ∈ p.members base) :
    e ∈ d.entries base := by
  rw [entries_eq] at *
  exact List.mem_cons_of_mem _ (Entry.members_subset (List.mem_cons.mp inside) member)

theorem outermost_mem_entries (d : SymbolDump) (base : Option String) :
    d.outermost base ∈ d.entries base := by
  rw [entries_eq]
  exact List.mem_cons_self

theorem outermost_or_member (inside : e ∈ d.entries base) :
    e = d.outermost base ∨ ∃ p ∈ d.entries base, e ∈ p.members base := by
  rw [entries_eq] at *
  rcases List.mem_cons.mp inside with same | below
  · exact .inl same
  · obtain ⟨p, place, member⟩ := Entry.exists_mem_members below
    exact .inr ⟨p, List.mem_cons.mpr place, member⟩

/-- What holds of the outermost entry, and of the members of every entry it holds of, holds of all
entries. Members come behind, so that the induction is on the numbers. -/
theorem entries_induction {motive : Entry → Prop} (outermost : motive (d.outermost base))
    (member : ∀ p ∈ d.entries base, ∀ e ∈ p.members base, motive p → motive e) :
    ∀ e ∈ d.entries base, motive e := by
  intro e inside
  induction number : e.id using Nat.strongRecOn generalizing e with
  | ind n ih =>
    subst number
    rcases outermost_or_member inside with rfl | ⟨p, placed, isMember⟩
    · exact outermost
    · obtain ⟨-, -, later, -⟩ := Entry.of_mem_members isMember
      exact member p placed e isMember (ih p.id later p placed rfl)

/-- The entries stand at their numbers. -/
theorem getElem?_entries (inside : e ∈ d.entries base) : (d.entries base)[e.id]? = some e := by
  obtain ⟨i, here⟩ := List.mem_iff_getElem?.mp inside
  have number : (List.range (d.entries base).length)[i]? = some e.id := by
    rw [← map_id_entries, List.getElem?_map, here, Option.map_some]
  obtain ⟨within, same⟩ := List.getElem?_eq_some_iff.mp number
  rw [List.getElem_range] at same
  exact same ▸ here

theorem exists_entry {id : SymbolId} (within : id < (d.entries base).length) :
    ∃ e ∈ d.entries base, e.id = id := by
  have number : id ∈ (d.entries base).map Entry.id := by
    rw [map_id_entries]
    exact List.mem_range.mpr within
  simpa using number

end

/-! ### Loaded trees -/

section

variable {d : SymbolDump} {base : Option String} {t : SymbolTree} {e p : Entry}

/-- A dump that loads gives the symbols of its entries, and all of its references resolve. -/
theorem toTree_eq_ok (loaded : d.toTree base = .ok t) :
    Resolves (d.entries base) ∧
      t.symbols.toList = (d.entries base).map (Entry.loaded (d.entries base)) := by
  let file := d.file.map (resolveFile base)
  let start : Loading :=
    ⟨describe (.ofRoot d.name) SymbolTree.root d.doc d.exports file d.line d.deprecated,
      [(d.name, 0)], []⟩
  let l := addMembers base SymbolTree.root d.name file d.members start
  let ps : List Pending := ⟨0, d.name, d.reexports, d.bases⟩ :: l.pending.reverse
  obtain ⟨symbols, names, qs, same, pending⟩ := loads_root d base
  have known (target : String) : l.names.lookup target = idOf? (d.entries base) target := by
    rw [← lookup_names, ← List.append_nil (List.reverse _)]
    exact congrArg _ names
  have each : ps.Perm ((d.entries base).map Entry.pending) := by
    rw [List.append_nil] at pending
    subst pending
    exact ((List.reverse_perm l.pending).cons _).trans same
  have loaded : ps.foldlM (resolvePending l.names) l.tree = .ok t := loaded
  rcases resolveEach_cases l.names ps l.tree with ⟨resolved, never⟩ | ⟨_, _, _, _, refused⟩
  · obtain rfl := Except.ok.inj (loaded.symm.trans resolved)
    refine ⟨fun e inside target refers unknown => ?_,
      toList_attached (map_id_entries d base) symbols each known⟩
    refine never e.pending (each.symm.subset (List.mem_map_of_mem inside)) target ⟨refers, ?_⟩
    rw [known, unknown]
  · cases loaded.symm.trans refused

theorem size_of_toTree (loaded : d.toTree base = .ok t) : t.size = (d.entries base).length := by
  rw [SymbolTree.size, ← Array.length_toList, (toTree_eq_ok loaded).2, List.length_map]

theorem lt_size_of_toTree (loaded : d.toTree base = .ok t) (inside : e ∈ d.entries base) :
    e.id < t.size := by
  have number : e.id ∈ (d.entries base).map Entry.id := List.mem_map_of_mem inside
  rw [map_id_entries, List.mem_range] at number
  exact size_of_toTree loaded ▸ number

theorem get_of_toTree (loaded : d.toTree base = .ok t) (inside : e ∈ d.entries base) :
    t.get e.id = e.loaded (d.entries base) := by
  have here : t.symbols.toList[e.id]? = some (e.loaded (d.entries base)) := by
    rw [(toTree_eq_ok loaded).2, List.getElem?_map, getElem?_entries inside, Option.map_some]
  rw [SymbolTree.get, Array.getD_eq_getD_getElem?, ← Array.getElem?_toList, here, Option.getD_some]

theorem owner_of_toTree {id : SymbolId} (loaded : d.toTree base = .ok t) (within : id < t.size)
    (notRoot : id ≠ SymbolTree.root) : ∃ above < id, (t.get id).owner = some above := by
  obtain ⟨e, inside, rfl⟩ := exists_entry (size_of_toTree loaded ▸ within)
  rcases outermost_or_member inside with rfl | ⟨p, -, member⟩
  · exact absurd rfl notRoot
  · obtain ⟨owner, -, later, -⟩ := Entry.of_mem_members member
    refine ⟨p.id, later, ?_⟩
    rw [get_of_toTree loaded inside]
    exact owner

/-- Names hold no points, and no two entries have the same qualified name. -/
structure WellNamed (d : SymbolDump) (base : Option String) : Prop where
  undotted : ∀ e ∈ d.entries base, '.' ∉ e.dump.name.toList
  distinct : ((d.entries base).map Entry.name).Nodup

/-- Among the children of a symbol the one of a member's name is the member: members come first, and
of one name there is only one. -/
theorem childNamed?_of_members (loaded : d.toTree base = .ok t) (names : d.WellNamed base)
    (inside : p ∈ d.entries base) (member : e ∈ p.members base) :
    t.childNamed? p.id e.dump.name = some e.id := by
  have own {m : Entry} (isMember : m ∈ p.members base) : (t.get m.id).name = m.dump.name := by
    rw [get_of_toTree loaded (mem_entries_of_members inside isMember)]
    rfl
  have first : (p.members base).find? (fun m => (t.get m.id).name == e.dump.name) = some e := by
    cases result : (p.members base).find? fun m => (t.get m.id).name == e.dump.name with
    | none =>
      have other := List.find?_eq_none.mp result e member
      exact absurd (beq_iff_eq.mpr (own member)) other
    | some m =>
      have isMember := List.mem_of_find?_eq_some result
      have named := List.find?_some result
      have same : m.dump.name = e.dump.name := (own isMember).symm.trans (beq_iff_eq.mp named)
      have qualified : m.name = e.name := by
        rw [(Entry.of_mem_members isMember).2.1, (Entry.of_mem_members member).2.1, same]
      exact congrArg some (List.inj_on_of_nodup_map names.distinct
        (mem_entries_of_members inside isMember) (mem_entries_of_members inside member) qualified)
  have children : (t.get p.id).children =
      (p.members base).map Entry.id ++ p.dump.reexports.filterMap (idOf? (d.entries base)) := by
    rw [get_of_toTree loaded inside, Entry.map_id_members]
    rfl
  rw [SymbolTree.childNamed?, children, List.find?_append, List.find?_map, Function.comp_def, first]
  rfl

/-- The names behind the root's that lead down to the symbol of `e`, and up from it again. -/
structure IsWay (t : SymbolTree) (root : String) (e : Entry) (way : List String) : Prop where
  name : e.name = ".".intercalate (root :: way)
  undotted : ∀ name ∈ root :: way, '.' ∉ name.toList
  down : t.follow SymbolTree.root way = some e.id
  up : ∀ fuel, e.id < fuel → t.ownerNames fuel e.id = root :: way

theorem isWay_outermost (loaded : d.toTree base = .ok t) (names : d.WellNamed base) :
    IsWay t d.name (d.outermost base) [] where
  name := rfl
  undotted := List.forall_mem_singleton.mpr (names.undotted _ (outermost_mem_entries d base))
  down := rfl
  up fuel positive := by
    obtain ⟨fuel, rfl⟩ := Nat.exists_eq_add_one.mpr positive
    rw [SymbolTree.ownerNames, get_of_toTree loaded (outermost_mem_entries d base)]
    rfl

/-- The way to a member goes on by its name. -/
theorem IsWay.member {way : List String} (isWay : IsWay t d.name p way)
    (loaded : d.toTree base = .ok t) (names : d.WellNamed base) (inside : p ∈ d.entries base)
    (member : e ∈ p.members base) : IsWay t d.name e (way ++ [e.dump.name]) where
  name := by
    rw [(Entry.of_mem_members member).2.1, isWay.name, ← List.cons_append,
      String.intercalate_append_of_ne_nil (List.cons_ne_nil _ _) (List.cons_ne_nil _ _)]
    rfl
  undotted := by
    have own := names.undotted e (mem_entries_of_members inside member)
    rw [← List.cons_append]
    exact List.forall_mem_append.mpr ⟨isWay.undotted, List.forall_mem_singleton.mpr own⟩
  down := by
    rw [SymbolTree.follow_append, isWay.down, Option.bind_some, SymbolTree.follow,
      childNamed?_of_members loaded names inside member]
    rfl
  up fuel enough := by
    obtain ⟨owner, -, later, -⟩ := Entry.of_mem_members member
    obtain ⟨fuel, rfl⟩ := Nat.exists_eq_add_one.mpr (Nat.zero_lt_of_lt enough)
    have above : t.ownerNames fuel p.id = d.name :: way :=
      isWay.up fuel (Nat.lt_of_lt_of_le later (Nat.le_of_lt_succ enough))
    rw [SymbolTree.ownerNames, get_of_toTree loaded (mem_entries_of_members inside member),
      Entry.loaded, Entry.bare, owner, Option.elim_some, above]
    rfl

theorem exists_isWay (loaded : d.toTree base = .ok t) (names : d.WellNamed base) :
    ∀ e ∈ d.entries base, ∃ way, IsWay t d.name e way := by
  refine entries_induction ⟨[], isWay_outermost loaded names⟩ fun p inside e member ih => ?_
  obtain ⟨way, isWay⟩ := ih
  exact ⟨_, isWay.member loaded names inside member⟩

/-! ### Names and numbers -/

theorem qualifiedName_of_toTree (loaded : d.toTree base = .ok t) (names : d.WellNamed base)
    (inside : e ∈ d.entries base) : t.qualifiedName e.id = e.name := by
  obtain ⟨way, isWay⟩ := exists_isWay loaded names e inside
  rw [SymbolTree.qualifiedName, isWay.up t.size (lt_size_of_toTree loaded inside), isWay.name]

theorem find?_of_toTree (loaded : d.toTree base = .ok t) (names : d.WellNamed base)
    (inside : e ∈ d.entries base) : t.find? e.name = some e.id := by
  obtain ⟨way, isWay⟩ := exists_isWay loaded names e inside
  have rootName : (t.get SymbolTree.root).name = d.name :=
    congrArg Symbol.name (get_of_toTree loaded (outermost_mem_entries d base))
  rw [SymbolTree.find?, isWay.name, names_of_intercalate (List.cons_ne_nil _ _) isWay.undotted,
    rootName]
  exact (if_pos rfl).trans isWay.down

theorem qualifiedName_eq (loaded : d.toTree base = .ok t) (names : d.WellNamed base)
    (inside : e ∈ d.entries base) : t.qualifiedName e.id =
      (t.get e.id).owner.elim (t.get e.id).name fun above =>
        t.qualifiedName above ++ "." ++ (t.get e.id).name := by
  rw [get_of_toTree loaded inside, qualifiedName_of_toTree loaded names inside]
  rcases outermost_or_member inside with rfl | ⟨p, placed, member⟩
  · rfl
  · obtain ⟨owner, name, -, -⟩ := Entry.of_mem_members member
    rw [Entry.loaded, Entry.bare, owner, Option.elim_some,
      qualifiedName_of_toTree loaded names placed, name]

/-- References lead where the look-up of their texts leads. -/
theorem map_find?_of_references (loaded : d.toTree base = .ok t) (names : d.WellNamed base)
    (inside : e ∈ d.entries base) {targets : List String} (refers : targets ⊆ e.references) :
    targets.map t.find? = (targets.filterMap (idOf? (d.entries base))).map some := by
  rw [List.map_filterMap]
  refine (List.filterMap_eq_map_iff_forall_eq_some.mpr fun target member => ?_).symm
  obtain ⟨id, resolved⟩ := Option.ne_none_iff_exists'.mp
    ((toTree_eq_ok loaded).1 e inside target (refers member))
  obtain ⟨m, found, rfl⟩ := Option.map_eq_some_iff.mp resolved
  have named := List.find?_some found
  have place := List.mem_reverse.mp (List.mem_of_find?_eq_some found)
  rw [resolved, Option.map_some, ← beq_iff_eq.mp named, find?_of_toTree loaded names place]

/-- Qualified names are as good as numbers in the tree that a dump was loaded to. -/
structure NamesIdentify (d : SymbolDump) (base : Option String) (t : SymbolTree) : Prop where
  /-- The way up ends at the root: every other symbol has an owner, which has a smaller number. -/
  owner : ∀ id < t.size, id ≠ SymbolTree.root → ∃ above < id, (t.get id).owner = some above
  /-- The name of a symbol is its own one behind that of its owner. -/
  unfolds : ∀ id < t.size, t.qualifiedName id =
    (t.get id).owner.elim (t.get id).name fun above =>
      t.qualifiedName above ++ "." ++ (t.get id).name
  /-- The symbols of the tree are those described, under the names by which they are referred to. -/
  named : (List.range t.size).map t.qualifiedName = (d.entries base).map Entry.name
  found : ∀ id < t.size, t.find? (t.qualifiedName id) = some id
  /-- Behind its members, the children of a symbol are those found for what it re-exports. -/
  reexports : ∀ e ∈ d.entries base,
    e.dump.reexports.map t.find? = ((t.get e.id).children.drop e.dump.members.length).map some
  bases : ∀ e ∈ d.entries base, e.dump.bases.map t.find? = (t.get e.id).bases.map some

/-- Where names hold no points and no two descriptions have the same qualified name, all ways to
resolve a qualified name lead to the one symbol that has it, whatever is re-exported. -/
theorem names_identify {d : SymbolDump} {base : Option String} {t : SymbolTree}
    (loaded : d.toTree base = .ok t) (names : d.WellNamed base) : NamesIdentify d base t where
  owner id within notRoot := owner_of_toTree loaded within notRoot
  unfolds id within := by
    obtain ⟨e, inside, rfl⟩ := exists_entry (size_of_toTree loaded ▸ within)
    exact qualifiedName_eq loaded names inside
  named := by
    rw [size_of_toTree loaded, ← map_id_entries, List.map_map]
    exact List.map_congr_left fun e inside => qualifiedName_of_toTree loaded names inside
  found id within := by
    obtain ⟨e, inside, rfl⟩ := exists_entry (size_of_toTree loaded ▸ within)
    rw [qualifiedName_of_toTree loaded names inside, find?_of_toTree loaded names inside]
  reexports e inside := by
    have children : (t.get e.id).children = memberIds (e.id + 1) e.dump.members ++
        e.dump.reexports.filterMap (idOf? (d.entries base)) :=
      congrArg Symbol.children (get_of_toTree loaded inside)
    rw [children, List.drop_left' (length_memberIds _ _)]
    exact map_find?_of_references loaded names inside (List.subset_append_left _ _)
  bases e inside := by
    rw [get_of_toTree loaded inside]
    exact map_find?_of_references loaded names inside (List.subset_append_right _ _)

/-- A module that re-exports a function of the name of one of its own, from a module that re-exports
that one in turn. -/
theorem names_identify_crossed :
    let leaf (name : String) (kind : SymbolKind) (bases : List String) : SymbolDump :=
      ⟨name, kind, none, none, 0, none, false, [], [], bases⟩
    let inner : SymbolDump := ⟨"inner", .module, none, none, 0, none, false,
      [leaf "mean" .function []], ["stats.mean"], []⟩
    let stats : SymbolDump := ⟨"stats", .module, none, none, 0, none, false,
      [inner, leaf "mean" .function [], leaf "Base" .classType [],
        leaf "Mean" .classType ["stats.Base"]], ["stats.inner.mean"], []⟩
    ∃ t, stats.toTree none = .ok t ∧ stats.WellNamed none ∧ NamesIdentify stats none t ∧
      (t.get 0).children.map (fun id => (t.get id).name) =
        ["inner", "mean", "Base", "Mean", "mean"] ∧
      t.find? "stats.mean" = some 3 ∧ t.find? "stats.inner.mean" = some 2 := by
  intro leaf inner stats
  have names : stats.WellNamed none := ⟨by decide +kernel, by decide +kernel⟩
  exact ⟨_, rfl, names, names_identify rfl names, by decide +kernel⟩

end

end SymbolDump

end DocExamples
