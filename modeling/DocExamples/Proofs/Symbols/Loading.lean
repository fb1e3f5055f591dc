import DocExamples.Proofs.Except
import DocExamples.Symbols.Dump
/-!
What loading a dump gives. The symbols are numbered in the order of their descriptions, each before
its members, and every symbol is what its description says: names, owners, members, files and
references. A line is kept only where a file is known, and the outermost symbol is a module
whatever its description says.
-/
namespace DocExamples

theorem modify_append_of_lt {α : Type} {front back : List α} {i : Nat} {f : α → α}
    (within : i < front.length) : (front ++ back).modify i f = front.modify i f ++ back := by
  apply List.ext_getElem?
  intro j
  simp only [List.getElem?_modify, List.getElem?_append, List.length_modify]
  by_cases here : j < front.length
  · simp [here]
  · have apart : i ≠ j := by omega
    simp [here, apart]

theorem modify_append_cons {α : Type} {front back : List α} {a : α} {i : Nat} {f : α → α}
    (here : i = front.length) : (front ++ a :: back).modify i f = front ++ f a :: back := by
  induction front generalizing i with
  | nil =>
    rw [here]
    rfl
  | cons b front ih =>
    rw [here, List.length_cons, List.cons_append, List.modify_succ_cons, ih rfl, List.cons_append]

namespace SymbolTree

variable {t : SymbolTree} {id : SymbolId} {f g : Symbol → Symbol}

theorem toList_update : (t.update id f).symbols.toList = t.symbols.toList.modify id f :=
  Array.toList_modify

theorem update_update : (t.update id f).update id g = t.update id (g ∘ f) := by
  have same : (t.symbols.modify id f).modify id g = t.symbols.modify id (g ∘ f) := by
    apply Array.toList_inj.mp
    rw [Array.toList_modify, Array.toList_modify, Array.toList_modify, List.modify_modify_eq]
  rw [update, update, update, same]

theorem update_same : t.update id (fun s => s) = t := by
  have same : t.symbols.modify id (fun s => s) = t.symbols := by
    apply Array.toList_inj.mp
    rw [Array.toList_modify]
    exact List.modify_id id _
  rw [update, same]

end SymbolTree

/-! ### Descriptions in their places -/

namespace SymbolDump

mutual

/-- How many symbols a description stands for: its own one and those of its members. -/
def count : SymbolDump → Nat
  | ⟨_, _, _, _, _, _, _, members, _, _⟩ => countAll members + 1

def countAll : List SymbolDump → Nat
  | [] => 0
  | d :: rest => d.count + countAll rest

end

/-- A description in its place: the number and the owner of its symbol, its qualified name, and the
file in which it stands. -/
structure Entry where
  dump : SymbolDump
  id : SymbolId
  owner : Option SymbolId
  name : String
  file : Option String

mutual

/-- A description and those of its members, each before its own members. The numbers go up by one;
a file that is not given is the container's. -/
def entriesFrom (base : Option String) (id : SymbolId) (owner : Option SymbolId) (name : String)
    (around : Option String) : SymbolDump → List Entry
  | ⟨own, kind, doc, file, line, exports, deprecated, members, reexports, bases⟩ =>
    let here := file.map (resolveFile base) <|> around
    ⟨⟨own, kind, doc, file, line, exports, deprecated, members, reexports, bases⟩, id, owner, name,
      here⟩ :: memberEntries base (id + 1) id name here members

def memberEntries (base : Option String) (next owner : SymbolId) (ownerName : String)
    (around : Option String) : List SymbolDump → List Entry
  | [] => []
  | d :: rest =>
    entriesFrom base next (some owner) (ownerName ++ "." ++ d.name) around d ++
      memberEntries base (next + d.count) owner ownerName around rest

end

/-- All descriptions of a dump. -/
def entries (d : SymbolDump) (base : Option String) : List Entry :=
  entriesFrom base 0 none d.name none d

/-- The numbers of members that follow each other, each behind the symbols of those before it. -/
def memberIds (next : SymbolId) : List SymbolDump → List SymbolId
  | [] => []
  | d :: rest => next :: memberIds (next + d.count) rest

namespace Entry

/-- The symbol of a description, its references left aside. -/
def bare (e : Entry) : Symbol where
  name := e.dump.name
  kind := if e.owner.isNone then .module else e.dump.kind
  owner := e.owner
  doc := e.dump.doc
  exports := e.dump.exports
  children := memberIds (e.id + 1) e.dump.members
  file := e.file
  line := if e.file.isSome then e.dump.line else 0
  deprecated := e.dump.deprecated

def pending (e : Entry) : Pending := ⟨e.id, e.name, e.dump.reexports, e.dump.bases⟩

end Entry

theorem entriesFrom_eq (base : Option String) (id : SymbolId) (owner : Option SymbolId)
    (name : String) (around : Option String) (d : SymbolDump) :
    entriesFrom base id owner name around d =
      ⟨d, id, owner, name, d.file.map (resolveFile base) <|> around⟩ ::
        memberEntries base (id + 1) id name (d.file.map (resolveFile base) <|> around)
          d.members := by
  cases d
  rfl

mutual

theorem map_id_entriesFrom (base : Option String) (id : SymbolId) (owner : Option SymbolId)
    (name : String) (around : Option String) :
    ∀ d : SymbolDump,
      (entriesFrom base id owner name around d).map Entry.id = List.range' id d.count
  | ⟨_, _, _, _, _, _, _, members, _, _⟩ => by
    rw [entriesFrom, List.map_cons, map_id_memberEntries, count, List.range'_succ]

theorem map_id_memberEntries (base : Option String) (next owner : SymbolId) (ownerName : String)
    (around : Option String) :
    ∀ ds : List SymbolDump,
      (memberEntries base next owner ownerName around ds).map Entry.id =
        List.range' next (countAll ds)
  | [] => rfl
  | d :: rest => by
    rw [memberEntries, List.map_append, map_id_entriesFrom, map_id_memberEntries, countAll,
      List.range'_append_1]

end

theorem length_entriesFrom (base : Option String) (id : SymbolId) (owner : Option SymbolId)
    (name : String) (around : Option String) (d : SymbolDump) :
    (entriesFrom base id owner name around d).length = d.count := by
  have ids := congrArg List.length (map_id_entriesFrom base id owner name around d)
  rwa [List.length_map, List.length_range'] at ids

/-- The numbers of the descriptions are their places. -/
theorem map_id_entries (d : SymbolDump) (base : Option String) :
    (d.entries base).map Entry.id = List.range (d.entries base).length := by
  rw [entries, map_id_entriesFrom, length_entriesFrom, List.range_eq_range']

/-! ### Adding members -/

/-- A symbol with further children. -/
def adopt (ids : List SymbolId) (s : Symbol) : Symbol := { s with children := s.children ++ ids }

theorem adopt_nil : adopt [] = fun s => s := by
  funext s
  rw [adopt, List.append_nil]

theorem adopt_adopt (first second : List SymbolId) :
    adopt second ∘ adopt first = adopt (first ++ second) := by
  funext s
  simp only [Function.comp_apply, adopt, List.append_assoc]

theorem describe_eq (t : SymbolTree) (id : SymbolId) (doc : Option String)
    (exports : Option (List String)) (file : Option String) (line : Nat) (deprecated : Bool) :
    describe t id doc exports file line deprecated = t.update id fun s =>
      { s with
        doc := doc.or s.doc
        exports := exports.or s.exports
        file := file.or s.file
        line := if file.isSome then line else s.line
        deprecated := deprecated || s.deprecated } := by
  unfold describe
  cases doc <;> cases exports <;> cases file <;> cases deprecated <;>
    simp [SymbolTree.setDoc, SymbolTree.setExports, SymbolTree.locate, SymbolTree.markDeprecated,
      SymbolTree.update_update, SymbolTree.update_same, Function.comp_def]

/-- What adding members to `parent` does: the symbols of `es` are new, `ids` further children. -/
structure Loads (parent : SymbolId) (ids : List SymbolId) (es : List Entry) (l l' : Loading) :
    Prop where
  symbols : l'.tree.symbols.toList =
    l.tree.symbols.toList.modify parent (adopt ids) ++ es.map Entry.bare
  names : l'.names = (es.map fun e => (e.name, e.id)).reverse ++ l.names
  pending : ∃ ps, ps.Perm (es.map Entry.pending) ∧ l'.pending = ps ++ l.pending

namespace Loads

variable {parent : SymbolId} {ids more : List SymbolId} {es others : List Entry}
  {l l' l'' : Loading}

theorem refl (parent : SymbolId) (l : Loading) : Loads parent [] [] l l where
  symbols := by
    rw [adopt_nil, List.map_nil, List.append_nil]
    exact (List.modify_id parent _).symm
  names := rfl
  pending := ⟨[], .refl _, rfl⟩

theorem size (loads : Loads parent ids es l l') : l'.tree.size = l.tree.size + es.length := by
  have lengths := congrArg List.length loads.symbols
  simpa [SymbolTree.size] using lengths

theorem trans (within : parent < l.tree.size) (first : Loads parent ids es l l')
    (second : Loads parent more others l' l'') :
    Loads parent (ids ++ more) (es ++ others) l l'' where
  symbols := by
    have inside : parent < (l.tree.symbols.toList.modify parent (adopt ids)).length := by
      simpa [SymbolTree.size] using within
    rw [second.symbols, first.symbols, modify_append_of_lt inside, List.modify_modify_eq,
      adopt_adopt, List.append_assoc, List.map_append]
  names := by
    rw [second.names, first.names, List.map_append, List.reverse_append, List.append_assoc]
  pending := by
    obtain ⟨ps, same, before⟩ := first.pending
    obtain ⟨qs, same', after⟩ := second.pending
    refine ⟨qs ++ ps, ?_, by rw [after, before, List.append_assoc]⟩
    rw [List.map_append]
    exact (same'.append same).trans List.perm_append_comm

/-- A new symbol, the last one so far, and then its members. -/
theorem member {e : Entry} {start inner : Loading} (last : e.id = l.tree.size)
    (symbols : start.tree.symbols.toList =
      l.tree.symbols.toList.modify parent (adopt [e.id]) ++ [{ e.bare with children := [] }])
    (names : start.names = (e.name, e.id) :: l.names) (pending : start.pending = l.pending)
    (members : Loads e.id (memberIds (e.id + 1) e.dump.members) es start inner) :
    Loads parent [e.id] (e :: es) l { inner with pending := e.pending :: inner.pending } where
  symbols := by
    have place : e.id = (l.tree.symbols.toList.modify parent (adopt [e.id])).length := by
      rw [last, List.length_modify]
      rfl
    have own :
        adopt (memberIds (e.id + 1) e.dump.members) { e.bare with children := [] } = e.bare := rfl
    rw [members.symbols, symbols, modify_append_cons place, own, List.append_assoc, List.map_cons]
    rfl
  names := by
    rw [members.names, names, List.map_cons, List.reverse_cons, List.append_assoc]
    rfl
  pending := by
    obtain ⟨ps, same, before⟩ := members.pending
    refine ⟨e.pending :: ps, ?_, by rw [before, pending, List.cons_append]⟩
    rw [List.map_cons]
    exact same.cons _

end Loads

/-- What a description says of a symbol that was just added. -/
theorem toList_describe {t : SymbolTree} (front : List Symbol) {e : Entry}
    (symbols : t.symbols.toList = front ++
      [{ name := e.dump.name, kind := if e.owner.isNone then .module else e.dump.kind,
         owner := e.owner }]) (last : e.id = front.length) :
    (describe t e.id e.dump.doc e.dump.exports e.file e.dump.line
      e.dump.deprecated).symbols.toList = front ++ [{ e.bare with children := [] }] := by
  rw [describe_eq, SymbolTree.toList_update, symbols, modify_append_cons last]
  simp [Entry.bare]

mutual

theorem loads_addMember (base : Option String) (parent : SymbolId) (parentName : String)
    (parentFile : Option String) (l : Loading) (within : parent < l.tree.size) :
    ∀ d : SymbolDump, Loads parent [l.tree.size]
      (entriesFrom base l.tree.size (some parent) (parentName ++ "." ++ d.name) parentFile d) l
      (addMember base parent parentName parentFile d l)
  | ⟨name, kind, doc, file, line, exports, deprecated, members, reexports, bases⟩ => by
    let e : Entry :=
      { dump := ⟨name, kind, doc, file, line, exports, deprecated, members, reexports, bases⟩
        id := l.tree.size
        owner := some parent
        name := parentName ++ "." ++ name
        file := file.map (resolveFile base) <|> parentFile }
    let start : Loading :=
      ⟨describe (l.tree.add parent name kind) e.id doc exports e.file line deprecated,
        (e.name, e.id) :: l.names, l.pending⟩
    have added : (l.tree.add parent name kind).symbols.toList =
        l.tree.symbols.toList.modify parent (adopt [e.id]) ++
          [{ name, kind, owner := some parent }] := by
      rw [SymbolTree.add, SymbolTree.toList_update, Array.toList_push]
      exact modify_append_of_lt within
    have symbols : start.tree.symbols.toList =
        l.tree.symbols.toList.modify parent (adopt [e.id]) ++ [{ e.bare with children := [] }] :=
      toList_describe _ added (by rw [List.length_modify]; rfl)
    have size : start.tree.size = e.id + 1 := by
      have lengths := congrArg List.length symbols
      simpa [SymbolTree.size, e] using lengths
    have loads := loads_addMembers base e.id e.name e.file start
      (size ▸ Nat.lt_succ_self _) members
    rw [size] at loads
    exact .member rfl symbols rfl rfl loads

theorem loads_addMembers (base : Option String) (parent : SymbolId) (parentName : String)
    (parentFile : Option String) (l : Loading) (within : parent < l.tree.size) :
    ∀ ds : List SymbolDump, Loads parent (memberIds l.tree.size ds)
      (memberEntries base l.tree.size parent parentName parentFile ds) l
      (addMembers base parent parentName parentFile ds l)
  | [] => .refl parent l
  | d :: rest => by
    have first := loads_addMember base parent parentName parentFile l within d
    have size := first.size
    rw [length_entriesFrom] at size
    have second := loads_addMembers base parent parentName parentFile
      (addMember base parent parentName parentFile d l)
      (Nat.lt_of_lt_of_le within (size ▸ Nat.le_add_right _ _)) rest
    rw [size] at second
    exact first.trans within second

end

/-! ### Resolving references -/

/-- The symbol of that qualified name; of several the last. -/
def idOf? (es : List Entry) (name : String) : Option SymbolId :=
  (es.reverse.find? (·.name == name)).map Entry.id

namespace Entry

/-- The qualified names that a description refers to. -/
def references (e : Entry) : List String := e.dump.reexports ++ e.dump.bases

/-- What loading makes of a description among `es`. -/
def loaded (es : List Entry) (e : Entry) : Symbol :=
  { e.bare with
    children := e.bare.children ++ e.dump.reexports.filterMap (idOf? es)
    bases := e.dump.bases.filterMap (idOf? es) }

/-- The symbol as it is described: its members are its first children, further ones are referred
to. -/
def symbol (es : List Entry) (e : Entry) : Symbol where
  name := e.dump.name
  kind := e.dump.kind
  owner := e.owner
  doc := e.dump.doc
  exports := e.dump.exports
  children := memberIds (e.id + 1) e.dump.members ++ e.dump.reexports.filterMap (idOf? es)
  bases := e.dump.bases.filterMap (idOf? es)
  file := e.file
  line := e.dump.line
  deprecated := e.dump.deprecated

/-- Nothing that is described is lost: the outermost symbol is a module, and where no file is known,
no line is given. -/
structure IsKept (e : Entry) : Prop where
  kind : e.owner = none → e.dump.kind = .module
  line : e.file = none → e.dump.line = 0

theorem loaded_eq_symbol_iff (es : List Entry) (e : Entry) :
    e.loaded es = e.symbol es ↔ e.IsKept := by
  constructor
  · intro same
    refine ⟨fun outermost => ?_, fun unknown => ?_⟩
    · have kinds : (if e.owner.isNone then .module else e.dump.kind) = e.dump.kind :=
        congrArg Symbol.kind same
      rw [outermost] at kinds
      exact kinds.symm
    · have lines : (if e.file.isSome then e.dump.line else 0) = e.dump.line :=
        congrArg Symbol.line same
      rw [unknown] at lines
      exact lines.symm
  · rintro ⟨kind, line⟩
    have kinds : (if e.owner.isNone then .module else e.dump.kind) = e.dump.kind := by
      split
      · next outermost => exact (kind (Option.isNone_iff_eq_none.mp outermost)).symm
      · rfl
    have lines : (if e.file.isSome then e.dump.line else 0) = e.dump.line := by
      cases known : e.file with
      | none => exact (line known).symm
      | some file => rfl
    rw [loaded, bare, symbol, kinds, lines]

end Entry

theorem lookup_names (es : List Entry) (name : String) :
    (es.map fun e => (e.name, e.id)).reverse.lookup name = idOf? es name := by
  rw [idOf?, ← List.map_reverse]
  induction es.reverse with
  | nil => rfl
  | cons e rest ih =>
    rw [List.map_cons, List.lookup_cons, List.find?_cons, Bool.beq_comm]
    cases e.name == name with
    | true => rfl
    | false => exact ih

section Resolving

variable (names : List (String × SymbolId))

/-- What resolving the references of one symbol makes of it. -/
def Pending.attach (p : Pending) (s : Symbol) : Symbol :=
  { s with
    children := s.children ++ p.reexports.filterMap (names.lookup ·)
    bases := s.bases ++ p.bases.filterMap (names.lookup ·) }

/-- A name that the symbol refers to stands for none. -/
def Pending.Misses (p : Pending) (target : String) : Prop :=
  target ∈ p.reexports ++ p.bases ∧ names.lookup target = none

theorem resolveAll_cases (source : String) (targets : List String) :
    resolveAll names source targets = .ok (targets.filterMap (names.lookup ·)) ∧
        (∀ target ∈ targets, names.lookup target ≠ none) ∨
      ∃ target ∈ targets, names.lookup target = none ∧
        resolveAll names source targets = .error (.unresolved source target) := by
  induction targets with
  | nil => exact .inl ⟨rfl, fun _ none => nomatch none⟩
  | cons target rest ih =>
    rw [resolveAll]
    cases found : names.lookup target with
    | none => exact .inr ⟨target, List.mem_cons_self, found, rfl⟩
    | some id =>
      rcases ih with ⟨resolved, known⟩ | ⟨missing, member, unknown, refused⟩
      · refine .inl ⟨?_, List.forall_mem_cons.mpr ⟨?_, known⟩⟩
        · rw [List.filterMap_cons, found, resolved]
          rfl
        · rw [found]
          exact Option.some_ne_none id
      · refine .inr ⟨missing, List.mem_cons_of_mem _ member, unknown, ?_⟩
        rw [refused]
        rfl

theorem foldl_reexport (id : SymbolId) (symbols : List SymbolId) (t : SymbolTree) :
    symbols.foldl (·.reexport id) t = t.update id (adopt symbols) := by
  induction symbols generalizing t with
  | nil => rw [adopt_nil, SymbolTree.update_same, List.foldl_nil]
  | cons symbol rest ih =>
    rw [List.foldl_cons, ih, SymbolTree.reexport, SymbolTree.update_update]
    exact congrArg _ (adopt_adopt [symbol] rest)

theorem foldl_addBase (id : SymbolId) (bases : List SymbolId) (t : SymbolTree) :
    bases.foldl (·.addBase id) t =
      t.update id fun s => { s with bases := s.bases ++ bases } := by
  induction bases generalizing t with
  | nil =>
    simp only [List.append_nil]
    exact SymbolTree.update_same.symm
  | cons base rest ih =>
    rw [List.foldl_cons, ih, SymbolTree.addBase, SymbolTree.update_update]
    simp only [Function.comp_def, List.append_assoc, List.singleton_append]

theorem resolvePending_cases (t : SymbolTree) (p : Pending) :
    resolvePending names t p = .ok (t.update p.id (p.attach names)) ∧
        (∀ target, ¬p.Misses names target) ∨
      ∃ target, p.Misses names target ∧
        resolvePending names t p = .error (.unresolved p.name target) := by
  unfold resolvePending
  rcases resolveAll_cases names p.name p.reexports with
    ⟨children, known⟩ | ⟨target, member, unknown, refused⟩
  · rcases resolveAll_cases names p.name p.bases with
      ⟨bases, known'⟩ | ⟨target, member, unknown, refused⟩
    · refine .inl ⟨?_, fun target misses => ?_⟩
      · rw [children, bases]
        change Except.ok _ = _
        rw [foldl_reexport, foldl_addBase, SymbolTree.update_update]
        rfl
      · rcases List.mem_append.mp misses.1 with member | member
        · exact known target member misses.2
        · exact known' target member misses.2
    · refine .inr ⟨target, ⟨List.mem_append_right _ member, unknown⟩, ?_⟩
      rw [children, refused]
      rfl
  · refine .inr ⟨target, ⟨List.mem_append_left _ member, unknown⟩, ?_⟩
    rw [refused]
    rfl

theorem resolveEach_cases (ps : List Pending) (t : SymbolTree) :
    ps.foldlM (resolvePending names) t =
          .ok (ps.foldl (fun t p => t.update p.id (p.attach names)) t) ∧
        (∀ p ∈ ps, ∀ target, ¬p.Misses names target) ∨
      ∃ p ∈ ps, ∃ target, p.Misses names target ∧
        ps.foldlM (resolvePending names) t = .error (.unresolved p.name target) := by
  induction ps generalizing t with
  | nil => exact .inl ⟨rfl, fun _ none => nomatch none⟩
  | cons p rest ih =>
    rw [List.foldlM_cons]
    rcases resolvePending_cases names t p with
      ⟨resolved, known⟩ | ⟨target, misses, refused⟩
    · rw [resolved]
      rcases ih (t.update p.id (p.attach names)) with
        ⟨resolved', known'⟩ | ⟨q, member, target, misses, refused⟩
      · exact .inl ⟨resolved', List.forall_mem_cons.mpr ⟨known, known'⟩⟩
      · exact .inr ⟨q, List.mem_cons_of_mem _ member, target, misses, refused⟩
    · refine .inr ⟨p, List.mem_cons_self, target, misses, ?_⟩
      rw [refused]
      rfl

/-- Every symbol is changed once, as its own references say. -/
theorem getElem?_foldl_attach {ps : List Pending} (apart : (ps.map Pending.id).Nodup)
    (t : SymbolTree) (i : Nat) :
    (∀ p ∈ ps, p.id = i →
      (ps.foldl (fun t p => t.update p.id (p.attach names)) t).symbols.toList[i]? =
        t.symbols.toList[i]?.map (p.attach names)) ∧
    (i ∉ ps.map Pending.id →
      (ps.foldl (fun t p => t.update p.id (p.attach names)) t).symbols.toList[i]? =
        t.symbols.toList[i]?) := by
  induction ps generalizing t with
  | nil => exact ⟨fun _ none => (nomatch none), fun _ => rfl⟩
  | cons q rest ih =>
    obtain ⟨fresh, apart⟩ := List.nodup_cons.mp apart
    obtain ⟨changed, kept⟩ := ih apart (t.update q.id (q.attach names))
    have here : (t.update q.id (q.attach names)).symbols.toList[i]? =
        if q.id = i then t.symbols.toList[i]?.map (q.attach names) else t.symbols.toList[i]? := by
      rw [SymbolTree.toList_update, List.getElem?_modify]
      split <;> simp
    rw [List.foldl_cons]
    refine ⟨fun p member same => ?_, fun absent => ?_⟩
    · rcases List.mem_cons.mp member with rfl | later
      · rw [kept (same ▸ fresh), here, if_pos same]
      · have other : q.id ≠ i := by
          rintro rfl
          exact fresh (List.mem_map.mpr ⟨p, later, same⟩)
        rw [changed p later same, here, if_neg other]
    · rw [List.map_cons, List.mem_cons, not_or] at absent
      rw [kept absent.2, here, if_neg (Ne.symm absent.1)]

end Resolving

/-! ### Whole dumps -/

/-- Every name that a description refers to is the qualified name of a symbol. -/
def Resolves (es : List Entry) : Prop := ∀ e ∈ es, ∀ target ∈ e.references, idOf? es target ≠ none

theorem attach_bare {names : List (String × SymbolId)} {es : List Entry}
    (known : ∀ target, names.lookup target = idOf? es target) (e : Entry) :
    e.pending.attach names e.bare = e.loaded es := by
  have same : (fun target => names.lookup target) = idOf? es := funext known
  rw [Pending.attach, same]
  rfl

/-- Where the symbols are those of descriptions, resolving every reference completes them. -/
theorem toList_attached {names : List (String × SymbolId)} {es : List Entry} {ps : List Pending}
    {t : SymbolTree} (ids : es.map Entry.id = List.range es.length)
    (bare : t.symbols.toList = es.map Entry.bare) (same : ps.Perm (es.map Entry.pending))
    (known : ∀ target, names.lookup target = idOf? es target) :
    (ps.foldl (fun t p => t.update p.id (p.attach names)) t).symbols.toList =
      es.map (Entry.loaded es) := by
  have ids' : (es.map Entry.pending).map Pending.id = List.range es.length := by
    rw [List.map_map]
    exact ids
  have apart : (ps.map Pending.id).Nodup :=
    ((same.map Pending.id).nodup_iff).mpr (ids' ▸ List.nodup_range)
  apply List.ext_getElem?
  intro i
  obtain ⟨changed, kept⟩ := getElem?_foldl_attach names apart t i
  by_cases within : i < es.length
  · have place : es[i].id = i := by
      have here : (es.map Entry.id)[i]? = (List.range es.length)[i]? := by rw [ids]
      rw [List.getElem?_map, List.getElem?_eq_getElem within, List.getElem?_range within] at here
      exact Option.some.inj here
    have member : es[i].pending ∈ ps :=
      same.symm.subset (List.mem_map_of_mem (List.getElem_mem within))
    rw [changed _ member place, bare, List.getElem?_map, List.getElem?_map,
      List.getElem?_eq_getElem within, Option.map_some, Option.map_some, attach_bare known,
      Option.map_some]
  · have beyond : es.length ≤ i := Nat.le_of_not_lt within
    have absent : i ∉ ps.map Pending.id := by
      intro member
      have inside := (same.map Pending.id).subset member
      rw [ids', List.mem_range] at inside
      exact within inside
    rw [kept absent, bare, List.getElem?_map, List.getElem?_map, List.getElem?_eq_none beyond]
    rfl

/-- All symbols of a dump, loaded from nothing, before references are resolved. -/
theorem loads_root (d : SymbolDump) (base : Option String) :
    let file := d.file.map (resolveFile base)
    let start : Loading :=
      ⟨describe (.ofRoot d.name) SymbolTree.root d.doc d.exports file d.line d.deprecated,
        [(d.name, 0)], []⟩
    let l := addMembers base SymbolTree.root d.name file d.members start
    Loads 0 [0] (d.entries base) ⟨⟨#[]⟩, [], []⟩
      { l with pending := ⟨0, d.name, d.reexports, d.bases⟩ :: l.pending } := by
  intro file start l
  let e : Entry := ⟨d, 0, none, d.name, file⟩
  have places : d.entries base = e :: memberEntries base 1 0 d.name file d.members := by
    have own : (file <|> none) = file := by cases file <;> rfl
    rw [entries, entriesFrom_eq, own]
  have symbols : start.tree.symbols.toList = [{ e.bare with children := [] }] :=
    toList_describe (t := .ofRoot d.name) [] (e := e) rfl rfl
  have size : start.tree.size = 1 := congrArg List.length symbols
  have members := loads_addMembers base 0 d.name file start (size ▸ Nat.one_pos) d.members
  rw [size] at members
  rw [places]
  exact .member (e := e) rfl symbols rfl rfl members

/-- References are resolved in another order than that of the descriptions, but all of them, or
loading stops at the first that does not resolve. -/
theorem toTree_cases (d : SymbolDump) (base : Option String) :
    let es := d.entries base
    (Resolves es ∧ ∃ t, d.toTree base = .ok t ∧ t.symbols.toList = es.map (Entry.loaded es)) ∨
      ∃ e ∈ es, ∃ target ∈ e.references, idOf? es target = none ∧
        d.toTree base = .error (.unresolved e.name target) := by
  intro es
  let file := d.file.map (resolveFile base)
  let start : Loading :=
    ⟨describe (.ofRoot d.name) SymbolTree.root d.doc d.exports file d.line d.deprecated,
      [(d.name, 0)], []⟩
  let l := addMembers base SymbolTree.root d.name file d.members start
  let ps : List Pending := ⟨0, d.name, d.reexports, d.bases⟩ :: l.pending.reverse
  have made : d.toTree base = ps.foldlM (resolvePending l.names) l.tree := rfl
  have loads : Loads 0 [0] es ⟨⟨#[]⟩, [], []⟩
      { l with pending := ⟨0, d.name, d.reexports, d.bases⟩ :: l.pending } := loads_root d base
  have known (target : String) : l.names.lookup target = idOf? es target := by
    rw [← lookup_names, ← List.append_nil (List.reverse _)]
    exact congrArg _ loads.names
  have same : ps.Perm (es.map Entry.pending) := by
    obtain ⟨qs, same, pending⟩ := loads.pending
    rw [List.append_nil] at pending
    subst pending
    exact ((List.reverse_perm l.pending).cons _).trans same
  have misses {e : Entry} {target : String} :
      e.pending.Misses l.names target ↔ target ∈ e.references ∧ idOf? es target = none := by
    rw [Pending.Misses, known]
    rfl
  rcases resolveEach_cases l.names ps l.tree with
    ⟨resolved, never⟩ | ⟨p, member, target, wrong, refused⟩
  · refine .inl ⟨fun e inside target refers unknown => ?_, _, made.trans resolved, ?_⟩
    · exact never e.pending (same.symm.subset (List.mem_map_of_mem inside)) target
        (misses.mpr ⟨refers, unknown⟩)
    · exact toList_attached (map_id_entries d base) loads.symbols same known
  · obtain ⟨e, inside, rfl⟩ := List.mem_map.mp (same.subset member)
    obtain ⟨refers, unknown⟩ := misses.mp wrong
    exact .inr ⟨e, inside, target, refers, unknown, made.trans refused⟩

/-- Where all references resolve, loading a dump gives the symbols of its descriptions, each before
its members, in the order of their numbers. They are as described if and only if the dump is of a
module and gives no line without a file. Where some references do not resolve, loading names one
of them and a symbol that refers to it. -/
theorem toTree_entries (d : SymbolDump) (base : Option String) :
    let es := d.entries base
    es.map Entry.id = List.range es.length ∧
      (Resolves es → ∃ t, d.toTree base = .ok t ∧ t.symbols.toList = es.map (Entry.loaded es) ∧
        (t.symbols.toList = es.map (Entry.symbol es) ↔ ∀ e ∈ es, e.IsKept)) ∧
      (¬Resolves es → ∃ e ∈ es, ∃ target ∈ e.references, idOf? es target = none ∧
        d.toTree base = .error (.unresolved e.name target)) := by
  intro es
  refine ⟨map_id_entries d base, fun resolves => ?_, fun unresolved => ?_⟩
  · rcases toTree_cases d base with
      ⟨-, t, loaded, symbols⟩ | ⟨e, inside, target, refers, unknown, -⟩
    · refine ⟨t, loaded, symbols, ?_⟩
      rw [symbols, List.map_inj_left]
      exact forall₂_congr fun e _ => e.loaded_eq_symbol_iff es
    · exact absurd unknown (resolves e inside target refers)
  · rcases toTree_cases d base with ⟨resolves, -⟩ | refused
    · exact absurd resolves unresolved
    · exact refused

/-- A class with a base, and exported by the module that holds both; and the same module with a base
that does not exist. -/
theorem toTree_entries_stats :
    let mean : SymbolDump :=
      ⟨"Mean", .classType, some "text", some "impl.py", 3, none, false, [], [], ["stats.Base"]⟩
    let parent : SymbolDump := ⟨"Base", .classType, none, none, 0, none, true, [], [], []⟩
    let stats (bases : List String) : SymbolDump :=
      ⟨"stats", .module, none, none, 0, some ["Mean"], false, [mean, parent], ["stats.Mean"], bases⟩
    (∃ t, (stats []).toTree (some "lib") = .ok t ∧ t.symbols.toList =
      [{ name := "stats", kind := .module, owner := none, exports := some ["Mean"],
         children := [1, 2, 1] },
       { name := "Mean", kind := .classType, owner := some 0, doc := some "text", bases := [2],
         file := some "lib/impl.py", line := 3 },
       { name := "Base", kind := .classType, owner := some 0, deprecated := true }]) ∧
    ∃ e ∈ (stats ["Other"]).entries none, ∃ target ∈ e.references,
      idOf? ((stats ["Other"]).entries none) target = none ∧
        (stats ["Other"]).toTree none = .error (.unresolved e.name target) := by
  intro mean parent stats
  have resolves : Resolves ((stats []).entries (some "lib")) := by
    unfold Resolves
    decide +kernel
  have kept : ∀ e ∈ (stats []).entries (some "lib"), e.IsKept := by
    have each : ∀ e ∈ (stats []).entries (some "lib"),
        (e.owner = none → e.dump.kind = .module) ∧ (e.file = none → e.dump.line = 0) := by
      decide +kernel
    exact fun e inside => ⟨(each e inside).1, (each e inside).2⟩
  have unresolved : ¬Resolves ((stats ["Other"]).entries none) := by
    unfold Resolves
    decide +kernel
  obtain ⟨t, loaded, -, described⟩ := (toTree_entries (stats []) (some "lib")).2.1 resolves
  refine ⟨⟨t, loaded, (described.mpr kept).trans (by decide +kernel)⟩, ?_⟩
  exact (toTree_entries (stats ["Other"]) none).2.2 unresolved

/-- A line without a file is lost, and the outermost symbol becomes a module. -/
theorem toTree_drops :
    let mean : SymbolDump := ⟨"mean", .function, some "text", none, 12, none, false, [], [], []⟩
    let stats : SymbolDump := ⟨"Stats", .classType, none, none, 0, none, false, [mean], [], []⟩
    ∃ t, stats.toTree none = .ok t ∧ (t.get 1).line = 0 ∧ mean.line = 12 ∧
      (t.get 0).kind = .module ∧ stats.kind = .classType :=
  ⟨_, rfl, rfl, rfl, rfl, rfl⟩

end SymbolDump

end DocExamples
