import DocExamples.Proofs.Records
import DocExamples.Proofs.Run.Visits
import DocExamples.Proofs.Symbols.PublicEntries
import DocExamples.Run.Suite
import Mathlib.Data.List.Pairwise
/-!
When the units of a discovery have names of their own. Names are put together with points, so that
two of them may agree if names of symbols hold points, and they do agree if two paths lead through
symbols of the same names. A container that lists a child twice, or two children of one name, has
such paths; exports and members of classes do not.
-/
namespace DocExamples

/-! ### Names put together -/

/-- Texts without points can be told from the text that joins them by points. -/
theorem eq_of_intercalate_eq {first second : List String}
    (undotted : ∀ s ∈ first, '.' ∉ s.toList) (undotted' : ∀ s ∈ second, '.' ∉ s.toList)
    (some : first ≠ []) (some' : second ≠ [])
    (same : ".".intercalate first = ".".intercalate second) : first = second := by
  have chars := congrArg String.toList same
  rw [String.toList_intercalate, String.toList_intercalate] at chars
  have pieces := congrArg (List.splitOn '.') chars
  have point : ".".toList = ['.'] := rfl
  rw [point, List.splitOn_intercalate, List.splitOn_intercalate] at pieces
  · exact List.map_injective_iff.mpr (fun _ _ => String.toList_inj.mp) pieces
  · simpa using undotted'
  · simpa using some'
  · simpa using undotted
  · simpa using some

/-- What a partial function gives on different items is different if no two items give the same. -/
theorem nodup_filterMap_iff {α β : Type} {f : α → Option β} {items : List α} (distinct : items.Nodup) :
    (items.filterMap f).Nodup ↔
      ∀ a ∈ items, ∀ b ∈ items, ∀ c, f a = some c → f b = some c → a = b := by
  rw [List.Nodup, List.pairwise_filterMap]
  constructor
  · intro apart a inside b inside' c given given'
    by_contra different
    have symmetric : Std.Symm fun a b => ∀ c, f a = some c → ∀ d, f b = some d → c ≠ d :=
      ⟨fun a b apart c given d given' same => apart d given' c given same.symm⟩
    exact apart.forall inside inside' different c given c given' rfl
  · intro single
    apply distinct.pairwise_of_forall_ne
    rintro a inside b inside' different c given d given' rfl
    exact different (single a inside b inside' c given given')

namespace SymbolTree

variable {t : SymbolTree} {settings : Settings}

/-! ### Units -/

/-- The name of a unit, whether it could be read or not. -/
def unitName : Except CollectError Doctest → String
  | .ok d => d.name
  | .error e => e.name

/-- The names of the units of a discovery, in order. -/
def unitNames (t : SymbolTree) (settings : Settings) : List String :=
  (t.discover settings).map unitName

/-- Whether a candidate becomes a unit: it has examples, or it could not be read. -/
def isUnit (t : SymbolTree) (settings : Settings) (c : Candidate) : Bool :=
  match t.unitOf settings c with
  | .ok d => !d.examples.isEmpty
  | .error _ => true

theorem unitName_unitOf (c : Candidate) : unitName (t.unitOf settings c) = c.name := by
  rw [unitOf, Transcript.readDoctest]
  cases Transcript.read settings ((t.get c.source).doc.getD "") with
  | ok examples => rfl
  | error cause => rfl

theorem unitNames_eq (t : SymbolTree) (settings : Settings) :
    t.unitNames settings =
      ((t.candidates settings settings.strategy).filter (t.isUnit settings)).map Candidate.name := by
  rw [unitNames, discover, List.filter_map, List.map_map]
  have names : unitName ∘ t.unitOf settings = Candidate.name := funext unitName_unitOf
  rw [names]
  rfl

/-! ### Public interfaces -/

/-- Where an entry of the public interface stands, by the names on the way to it. -/
inductive PublicAt (t : SymbolTree) : List String → NamedSymbol → Prop where
  | root : PublicAt t [t.nameOf root] t.namedRoot
  | exported {name : String} {e : NamedSymbol} (found : t.publicExport? name = some e) :
    PublicAt t [t.nameOf SymbolTree.root, name] e
  | member {name : String} {e : NamedSymbol} {m : SymbolId} (found : t.publicExport? name = some e)
    (inside : m ∈ t.classMembers e.symbol) :
    PublicAt t [t.nameOf SymbolTree.root, name, t.nameOf m] ⟨m, e.name ++ "." ++ t.nameOf m⟩

theorem exists_publicAt {e : NamedSymbol} (member : e ∈ t.publicEntries) :
    ∃ names, t.PublicAt names e := by
  rw [publicEntries_eq] at member
  rcases List.mem_cons.mp member with rfl | member
  · exact ⟨_, .root⟩
  · obtain ⟨x, isExport, member⟩ := List.mem_flatMap.mp member
    have found : ∃ name, t.publicExport? name = some x := by
      rw [publicExports] at isExport
      split at isExport
      · obtain ⟨name, -, found⟩ := List.mem_filterMap.mp isExport
        exact ⟨name, found⟩
      · cases isExport
    obtain ⟨name, found⟩ := found
    rcases List.mem_cons.mp member with rfl | member
    · exact ⟨_, .exported found⟩
    · split at member
      · obtain ⟨m, inside, rfl⟩ := List.mem_map.mp member
        exact ⟨_, .member found inside⟩
      · cases member

/-- An export is a child of its name, under that name. -/
theorem of_publicExport? {name : String} {e : NamedSymbol} (found : t.publicExport? name = some e) :
    t.nameOf e.symbol = name ∧ e.name = t.nameOf root ++ "." ++ name := by
  rw [publicExport?] at found
  split at found
  · cases found
  · obtain ⟨child, chosen, rfl⟩ := Option.map_eq_some_iff.mp found
    have named := List.find?_some (Option.filter_eq_some_iff.mp chosen).1
    exact ⟨by simpa [nameOf] using named, rfl⟩

namespace PublicAt

variable {names : List String} {e e' : NamedSymbol}

theorem name_eq (stands : t.PublicAt names e) : e.name = ".".intercalate names := by
  cases stands with
  | root => rfl
  | exported found => simp [(of_publicExport? found).2]
  | member found => simp [(of_publicExport? found).2, String.append_assoc]

theorem exists_id (stands : t.PublicAt names e) : ∀ name ∈ names, ∃ id, t.nameOf id = name := by
  cases stands with
  | root => simp
  | exported found =>
    have child : ∃ id, t.nameOf id = _ := ⟨_, (of_publicExport? found).1⟩
    simpa using child
  | member found =>
    have child : ∃ id, t.nameOf id = _ := ⟨_, (of_publicExport? found).1⟩
    simpa using child

/-- At one place stands one entry; members of a class have names of their own. -/
theorem unique (stands : t.PublicAt names e) (stands' : t.PublicAt names e') : e = e' := by
  cases stands with
  | root =>
    cases stands'
    rfl
  | exported found =>
    cases stands' with
    | exported found' => exact Option.some.inj (found.symm.trans found')
  | @member _ x m found inside =>
    generalize same : t.nameOf m = last at stands'
    cases stands' with
    | @member _ _ m' found' inside' =>
      obtain rfl := Option.some.inj (found.symm.trans found')
      have distinct := (t.firsts_classMembers x.symbol).nodup
      have equal : m = m' := List.inj_on_of_nodup_map distinct inside inside' same
      rw [equal]

end PublicAt

/-- Names of symbols that can be told from the joined name. -/
def Undotted (t : SymbolTree) : Prop := ∀ id, '.' ∉ (t.nameOf id).toList

theorem publicEntries_inj (undotted : t.Undotted) {e e' : NamedSymbol} (member : e ∈ t.publicEntries)
    (member' : e' ∈ t.publicEntries) (same : e.name = e'.name) : e = e' := by
  obtain ⟨names, stands⟩ := exists_publicAt member
  obtain ⟨names', stands'⟩ := exists_publicAt member'
  have plain {names : List String} {e : NamedSymbol} (stands : t.PublicAt names e) :
      ∀ name ∈ names, '.' ∉ name.toList := by
    intro name inside
    obtain ⟨id, rfl⟩ := stands.exists_id name inside
    exact undotted id
  have some {names : List String} {e : NamedSymbol} (stands : t.PublicAt names e) : names ≠ [] := by
    cases stands <;> simp
  rw [stands.name_eq, stands'.name_eq] at same
  have equal := eq_of_intercalate_eq (plain stands) (plain stands') (some stands) (some stands') same
  exact (equal ▸ stands).unique stands'

/-- Units of a public interface have names of their own exactly if those of one name share their
documentation, as no two candidates do. -/
theorem nodup_unitNames_public (isPublic : settings.strategy = .publicApi) :
    (t.unitNames settings).Nodup ↔
      ∀ c ∈ t.candidates settings .publicApi, ∀ d ∈ t.candidates settings .publicApi,
        t.isUnit settings c = true → t.isUnit settings d = true →
        c.name = d.name → c.source = d.source := by
  have once := (t.firsts_candidates settings).nodup
  rw [unitNames_eq, isPublic]
  have distinct : ((t.candidates settings .publicApi).filter (t.isUnit settings)).Nodup :=
    once.of_map.filter _
  rw [List.nodup_map_iff_inj_on distinct]
  simp only [List.mem_filter, and_imp]
  constructor
  · intro apart c member d member' unit unit' same
    rw [apart c member unit d member' unit' same]
  · intro shared c member unit d member' unit' same
    exact List.inj_on_of_nodup_map once member member' (shared c member d member' unit unit' same)

/-! ### Everything that can be reached -/

/-- A path along which a unit is found. -/
structure UnitAlong (t : SymbolTree) (settings : Settings) (path : List Nat) (c : Candidate) :
    Prop where
  tested : t.TestedAlong settings path c
  unit : t.isUnit settings c = true

/-- The children of every symbol have different names; so no child is listed twice. -/
def SiblingsDiffer (t : SymbolTree) : Prop := ∀ id, ((t.get id).children.map t.nameOf).Nodup

/-- What becomes of a path. -/
def unitNameAt? (t : SymbolTree) (settings : Settings) (path : List Nat) : Option String :=
  ((t.candidateAt? settings (t.placeAlong t.namedRoot path)).filter (t.isUnit settings)).map
    Candidate.name

theorem unitNameAt?_eq_some {path : List Nat} (simple : path ∈ t.rootPaths) {name : String} :
    t.unitNameAt? settings path = some name ↔ ∃ c, t.UnitAlong settings path c ∧ c.name = name := by
  simp only [unitNameAt?, Option.map_eq_some_iff, Option.filter_eq_some_iff,
    candidateAt?_placeAlong simple]
  constructor
  · rintro ⟨c, ⟨tested, unit⟩, named⟩
    exact ⟨c, ⟨tested, unit⟩, named⟩
  · rintro ⟨c, ⟨tested, unit⟩, named⟩
    exact ⟨c, ⟨tested, unit⟩, named⟩

theorem unitNames_all_eq (isAll : settings.strategy = .all) :
    t.unitNames settings = t.rootPaths.filterMap (t.unitNameAt? settings) := by
  rw [unitNames_eq, isAll, candidates_all_eq, List.filter_filterMap, List.map_filterMap]
  rfl

theorem nodup_rootPaths (t : SymbolTree) : t.rootPaths.Nodup := by
  have increasing : t.rootPaths.Pairwise (· < ·) := pairwise_pathsWithin _ _ _
  apply increasing.imp
  rintro path _ less rfl
  exact List.lt_irrefl path less

/-- Among all that can be reached, units have names of their own exactly if no two paths of the same
name lead to units. -/
theorem nodup_unitNames_all (isAll : settings.strategy = .all) :
    (t.unitNames settings).Nodup ↔
      ∀ p q c d, t.UnitAlong settings p c → t.UnitAlong settings q d → c.name = d.name → p = q := by
  have simple {path : List Nat} {c : Candidate} (along : t.UnitAlong settings path c) :
      path ∈ t.rootPaths := by
    obtain ⟨visited, along, distinct, -⟩ := along.tested.visits
    exact mem_rootPaths.mpr ⟨visited, along, distinct⟩
  rw [unitNames_all_eq isAll, nodup_filterMap_iff t.nodup_rootPaths]
  constructor
  · intro apart p q c d along along' same
    have named := (unitNameAt?_eq_some (simple along)).mpr ⟨c, along, rfl⟩
    have named' := (unitNameAt?_eq_some (simple along')).mpr ⟨d, along', same.symm⟩
    exact apart p (simple along) q (simple along') c.name named named'
  · intro apart p simple q simple' name named named'
    obtain ⟨c, along, rfl⟩ := (unitNameAt?_eq_some simple).mp named
    obtain ⟨d, along', same⟩ := (unitNameAt?_eq_some simple').mp named'
    exact apart p q c d along along' same.symm

/-- Where siblings differ in name, the names along a path tell which path it is. -/
theorem path_unique (differ : t.SiblingsDiffer) {here : SymbolId} {p q : List Nat}
    {visited visited' : List SymbolId} (along : t.visited? here p = some visited)
    (along' : t.visited? here q = some visited')
    (same : visited.map t.nameOf = visited'.map t.nameOf) : p = q := by
  induction p generalizing here q visited visited' with
  | nil =>
    cases along
    cases q with
    | nil => rfl
    | cons k rest =>
      obtain ⟨child, tail, -, onward, rfl⟩ := visited?_cons.mp along'
      obtain ⟨others, rfl⟩ := eq_cons_of_visited? onward
      simp at same
  | cons i rest ih =>
    obtain ⟨child, tail, found, onward, rfl⟩ := visited?_cons.mp along
    obtain ⟨others, rfl⟩ := eq_cons_of_visited? onward
    cases q with
    | nil =>
      cases along'
      simp at same
    | cons k rest' =>
      obtain ⟨child', tail', found', onward', rfl⟩ := visited?_cons.mp along'
      obtain ⟨others', rfl⟩ := eq_cons_of_visited? onward'
      have later : (child :: others).map t.nameOf = (child' :: others').map t.nameOf :=
        (List.cons.inj same).2
      have named : ((t.get here).children.map t.nameOf)[i]? =
          ((t.get here).children.map t.nameOf)[k]? := by
        rw [List.getElem?_map, List.getElem?_map, found, found']
        exact congrArg some (List.cons.inj later).1
      have inside : i < ((t.get here).children.map t.nameOf).length := by
        rw [List.length_map]
        exact (List.getElem?_eq_some_iff.mp found).1
      obtain rfl : i = k := (List.getElem?_inj inside (differ here)).mp named
      obtain rfl : child = child' := Option.some.inj (found.symm.trans found')
      rw [ih onward onward' later]

/-- Names without points, and siblings of different names where everything is tested, give units
names of their own. -/
theorem nodup_unitNames (undotted : t.Undotted)
    (differ : settings.strategy = .all → t.SiblingsDiffer) : (t.unitNames settings).Nodup := by
  cases strategy : settings.strategy with
  | publicApi =>
    rw [nodup_unitNames_public strategy]
    intro c member d member' _ _ same
    have entry {c : Candidate} (member : c ∈ t.candidates settings .publicApi) :
        ∃ e ∈ t.publicEntries, t.TestedAs e c := by
      have inside := (t.firsts_candidates settings).sublist.subset member
      obtain ⟨e, entry, given⟩ := List.mem_filterMap.mp inside
      exact ⟨e, entry, testedAs_of_candidateAt? given⟩
    obtain ⟨e, inside, tested⟩ := entry member
    obtain ⟨e', inside', tested'⟩ := entry member'
    rw [tested.name, tested'.name] at same
    obtain rfl := publicEntries_inj undotted inside inside' same
    exact Option.some.inj (tested.documented.symm.trans tested'.documented)
  | all =>
    rw [nodup_unitNames_all strategy]
    intro p q c d along along' same
    obtain ⟨visited, leads, -, -, name⟩ := along.tested.visits
    obtain ⟨visited', leads', -, -, name'⟩ := along'.tested.visits
    have plain (visited : List SymbolId) : ∀ name ∈ visited.map t.nameOf, '.' ∉ name.toList := by
      intro name member
      obtain ⟨id, -, rfl⟩ := List.mem_map.mp member
      exact undotted id
    have some {path : List Nat} {visited : List SymbolId}
        (leads : t.visited? root path = some visited) : visited.map t.nameOf ≠ [] := by
      obtain ⟨_, rfl⟩ := eq_cons_of_visited? leads
      simp
    rw [name, name'] at same
    have equal : visited.map t.nameOf = visited'.map t.nameOf :=
      eq_of_intercalate_eq (plain visited) (plain visited') (some leads) (some leads') same
    exact path_unique (differ strategy) leads leads' equal

end SymbolTree

/-! ### Histories -/

/-- What a run records in its history. -/
def TestRun.records (run : TestRun) : List (String × Counts) :=
  run.reports.map fun r => (r.name, r.counts)

/-- Every record has an entry of its own exactly if the records have different names. -/
theorem History.entries_ofRecords_iff (records : List (String × Counts)) :
    (ofRecords records).entries = records ↔ (records.map (·.1)).Nodup := by
  constructor
  · intro own
    have distinct := (accumulates_ofRecords records).distinct
    rwa [names, own] at distinct
  · intro distinct
    rw [ofRecords_eq_summary]
    induction records using List.reverseRecOn with
    | nil => rfl
    | append_singleton records r ih =>
      rw [List.map_append, List.map_singleton, List.nodup_append] at distinct
      obtain ⟨distinct, -, apart⟩ := distinct
      have new : r.1 ∉ firstNames records := by
        intro member
        exact apart r.1 (mem_firstNames.mp member) r.1 (by simp) rfl
      rw [summary_concat_new new, ih distinct]

namespace Workshop

variable {w : Workshop} {settings : Settings} {t : SymbolTree} {run : TestRun}

theorem names_of_runAll {units : List Doctest} {reports : List DoctestReport}
    (ran : w.runAll settings units = .ok reports) :
    reports.map DoctestReport.name = units.map Doctest.name := by
  have ran : units.mapM (runDoctest w.interpreter w.checker settings w.files) = .ok reports :=
    mapError_eq_ok.mp ran
  induction units generalizing reports with
  | nil =>
    cases ran
    rfl
  | cons d rest ih =>
    rw [List.mapM_cons] at ran
    obtain ⟨first, here, ran⟩ := bind_eq_ok.mp ran
    obtain ⟨others, later, same⟩ := bind_eq_ok.mp ran
    cases same
    obtain ⟨_, _, _, _, -, -, -, rfl⟩ := runDoctest_eq_ok.mp here
    rw [List.map_cons, List.map_cons, ih (mapError_eq_ok.mpr later) later]

theorem names_sublist (units : List (Except CollectError Doctest)) :
    ((units.filterMap (·.toOption)).map Doctest.name).Sublist
      (units.map SymbolTree.unitName) := by
  induction units with
  | nil => exact List.Sublist.refl []
  | cons unit rest ih =>
    cases unit with
    | ok d => exact ih.cons_cons d.name
    | error e => exact ih.cons e.name

/-- What is recorded for a tree, and under which names. -/
theorem records_of_testTree (tested : w.testTree settings t = .ok run) :
    run.history = .ofRecords run.records ∧
      (run.records.map (·.1)).Sublist (t.unitNames settings) := by
  obtain ⟨_, -, tested⟩ := bind_eq_ok.mp tested
  obtain ⟨reports, ran, tested⟩ := bind_eq_ok.mp tested
  cases tested
  rw [TestRun.ofReports, TestRun.records]
  constructor
  · rw [History.ofRecords, List.foldl_map]
  · have names : (reports.map fun r => (r.name, r.counts)).map (·.1) =
        reports.map DoctestReport.name := by simp
    rw [names, names_of_runAll ran]
    exact names_sublist (t.discover settings)

end Workshop

namespace SymbolTree

/-- When the units of a discovery have names of their own, and what their histories then hold. -/
structure NamesUnits (t : SymbolTree) (settings : Settings) : Prop where
  /-- No two candidates of a public interface share a source. -/
  ofPublic : settings.strategy = .publicApi → ((t.unitNames settings).Nodup ↔
    ∀ c ∈ t.candidates settings .publicApi, ∀ d ∈ t.candidates settings .publicApi,
      t.isUnit settings c = true → t.isUnit settings d = true →
      c.name = d.name → c.source = d.source)
  /-- There is one candidate for each path. -/
  ofAll : settings.strategy = .all → ((t.unitNames settings).Nodup ↔
    ∀ p q c d, t.UnitAlong settings p c → t.UnitAlong settings q d → c.name = d.name → p = q)
  /-- Names of symbols hold no points; where everything is tested, siblings differ. -/
  distinct : t.Undotted → (settings.strategy = .all → t.SiblingsDiffer) →
    (t.unitNames settings).Nodup
  /-- Units are recorded under their names, and share an entry if these are the same. -/
  histories : ∀ (w : Workshop) (run : TestRun), w.testTree settings t = .ok run →
    (run.records.map (·.1)).Sublist (t.unitNames settings) ∧
      (run.history.entries = run.records ↔ (run.records.map (·.1)).Nodup)

/-- Units have names of their own if no name holds a point and, where everything is tested, no
container holds two children of one name or one child twice; exports and members of classes need no
such condition. -/
theorem names_units (t : SymbolTree) (settings : Settings) : t.NamesUnits settings := by
  constructor
  · exact nodup_unitNames_public
  · exact nodup_unitNames_all
  · exact nodup_unitNames
  · intro w run tested
    obtain ⟨history, names⟩ := Workshop.records_of_testTree tested
    rw [history]
    exact ⟨names, History.entries_ofRecords_iff run.records⟩

/-- A module that lists its only function twice. -/
def listedTwice : SymbolTree :=
  (((ofRoot "m").add root "f" .function).setDoc 1 ">>> 1\n1\n").reexport root 1

theorem unitNames_repeated : ¬ ∀ t settings, (unitNames t settings).Nodup := by
  intro all
  have distinct := all listedTwice .defaults
  rw [unitNames_all_eq rfl] at distinct
  revert distinct
  decide +kernel

end SymbolTree

end DocExamples
