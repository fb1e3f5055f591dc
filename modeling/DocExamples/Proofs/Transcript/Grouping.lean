import DocExamples.Proofs.Transcript.Blocks
import DocExamples.Proofs.Transcript.Directives
import DocExamples.Proofs.Transcript.Prose
/-!
Which examples form a block, and what a block shares. Prose between two examples, and nothing else,
parts their blocks; a directive that skips a block skips each of its examples and changes nothing
else about them.
-/
namespace DocExamples.Transcript

/-- The line is not blank, and no prompt stands behind its spaces and tabs. -/
def IsProse (line : List Char) : Prop :=
  Text.allBlank line = false ∧ ¬ prompt <+: line.dropWhile isIndent

theorem isProse_iff {line : List Char} : IsProse line ↔ LineKind.of line = .prose := by
  constructor
  · rintro ⟨visible, unprompted⟩
    exact lineKind_of_prose visible unprompted
  · intro kind
    refine ⟨visible_of_prose kind, fun prompted => ?_⟩
    rw [LineKind.of, drop_indentation, Text.stripStart?,
      if_pos (List.isPrefixOf_iff_prefix.mpr prompted)] at kind
    dsimp only at kind
    split at kind
    · cases kind
    · split at kind <;> cases kind

/-- One of the lines from `start` up to `stop` is prose. -/
def ProseBetween (lines : List (List Char)) (start stop : Nat) : Prop :=
  ∃ i line, start ≤ i ∧ i < stop ∧ lines[i]? = some line ∧ IsProse line

/-- An example is in the block of the example before it, or in the next block if prose stands
between the two. -/
structure Follows (lines : List (List Char)) (a b : Example) : Prop where
  same : b.block = a.block ↔ ¬ ProseBetween lines a.stop b.line
  next : ProseBetween lines a.stop b.line → b.block = a.block + 1

/-- What the lines of the example `e` describe if no other example is looked at. -/
def ReadAlone (settings : Settings) (lines : List (List Char)) (e own : Example) : Prop :=
  ∃ source output, Window e.indent (e.window lines) source output ∧
    Snippet.toExample settings ⟨e.line, e.indent, source.reverse, output.reverse⟩ e.block = .ok own

/-- Some example of the block has a directive that skips the block. -/
def SkipsBlock (lines : List (List Char)) (es : List Example) (block : Nat) : Prop :=
  ∃ e ∈ es, e.block = block ∧ Said '+' .skipBlock (e.window lines)

structure Grouped (settings : Settings) (lines : List (List Char)) (c : Contents) : Prop where
  first : ∀ e, c.examples.head? = some e → e.block = 0
  consecutive : c.examples.IsChain (Follows lines)
  tiles : Tiles 0 c.blocks c.examples.length
  holds : ∀ (k : Nat) b, c.blocks[k]? = some b →
    ∀ (i : Nat) e, c.examples[i]? = some e → (e.block = k ↔ b.Holds i)
  skip : ∀ e ∈ c.examples, e.overrides.enable.has .skip = true ↔
    Said '+' .skip (e.window lines) ∨ SkipsBlock lines c.examples e.block
  /-- Blocks change nothing else: apart from the flag, an example is what its own lines describe,
  and its flags are those of its own directives. -/
  alone : ∀ e ∈ c.examples, ∃ own, ReadAlone settings lines e own ∧
    (∀ f, own.overrides.enable.has f = true ↔ Said '+' f (e.window lines)) ∧
    (∀ f, own.overrides.disable.has f = true ↔ Said '-' f (e.window lines)) ∧
    (SkipsBlock lines c.examples e.block → e = Example.skipped own) ∧
    (¬ SkipsBlock lines c.examples e.block → e = own)

/-! ### Lines that are added -/

section

variable {lines : List (List Char)} {start stop : Nat} {settings : Settings}

theorem proseBetween_append (inside : stop ≤ lines.length) (more : List (List Char)) :
    ProseBetween (lines ++ more) start stop ↔ ProseBetween lines start stop := by
  have same (i : Nat) (before : i < stop) : (lines ++ more)[i]? = lines[i]? :=
    List.getElem?_append_left (Nat.lt_of_lt_of_le before inside)
  constructor
  · rintro ⟨i, line, low, high, here, prose⟩
    exact ⟨i, line, low, high, same i high ▸ here, prose⟩
  · rintro ⟨i, line, low, high, here, prose⟩
    exact ⟨i, line, low, high, (same i high).trans here, prose⟩

/-- Of the lines up to the last, that line or an earlier one is prose. -/
theorem proseBetween_concat (low : start ≤ lines.length) (line : List Char) :
    ProseBetween (lines ++ [line]) start (lines.length + 1) ↔
      ProseBetween lines start lines.length ∨ IsProse line := by
  constructor
  · rintro ⟨i, line', low, high, here, prose⟩
    by_cases earlier : i < lines.length
    · rw [List.getElem?_append_left earlier] at here
      exact .inl ⟨i, line', low, earlier, here, prose⟩
    · rw [List.getElem?_append_right (Nat.le_of_not_lt earlier)] at here
      have last : line' = line := List.mem_singleton.mp (List.mem_of_getElem? here)
      exact .inr (last ▸ prose)
  · rintro (⟨i, line', low, high, here, prose⟩ | prose)
    · refine ⟨i, line', low, Nat.lt_succ_of_lt high, ?_, prose⟩
      rw [List.getElem?_append_left high, here]
    · exact ⟨lines.length, line, low, Nat.lt_succ_self _, by simp, prose⟩

theorem not_proseBetween_self : ¬ ProseBetween lines start start := by
  rintro ⟨i, line, low, high, -⟩
  omega

theorem ReadAlone.append {e own : Example} (alone : ReadAlone settings lines e own)
    (inside : e.stop ≤ lines.length) (more : List (List Char)) :
    ReadAlone settings (lines ++ more) e own := by
  obtain ⟨source, output, written, made⟩ := alone
  exact ⟨source, output, by rwa [Example.window_append inside], made⟩

theorem ReadAlone.adds {e own : Example} (alone : ReadAlone settings lines e own) :
    Adds (fun sign f => Said sign f (e.window lines)) {} own.overrides := by
  obtain ⟨source, output, written, made⟩ := alone
  refine (adds_toExample made).congr fun sign f => ?_
  rw [List.reverse_reverse, List.reverse_reverse, written.said_iff]

theorem ReadAlone.enable {e own : Example} (alone : ReadAlone settings lines e own) (f : Flag) :
    own.overrides.enable.has f = true ↔ Said '+' f (e.window lines) := by
  simpa [Flags.empty] using alone.adds.enable f

theorem ReadAlone.disable {e own : Example} (alone : ReadAlone settings lines e own) (f : Flag) :
    own.overrides.disable.has f = true ↔ Said '-' f (e.window lines) := by
  simpa [Flags.empty] using alone.adds.disable f

end

/-! ### The lines read so far -/

namespace State

variable {settings : Settings} {st st' closed : State} {seen : List (List Char)} {line : List Char}

/-- The line up to which all lines are accounted for: where an example is open, its first line. -/
def frontier (st : State) : Nat :=
  match st.mode with
  | .between => st.line
  | .inSource s | .inOutput s => s.line

theorem frontier_of_between (mode : st.mode = .between) : st.frontier = st.line := by
  rw [frontier, mode]

theorem frontier_of_open {s : Snippet} (isOpen : st.mode = .inSource s ∨ st.mode = .inOutput s) :
    st.frontier = s.line := by
  rcases isOpen with mode | mode <;> rw [frontier, mode]

theorem frontier_of_mayEnd {s : Snippet} (mayEnd : st.MayEnd s) : st.frontier = s.line :=
  frontier_of_open (mayEnd.symm.imp_left And.left)

theorem Kept.upTo_frontier (kept : Kept seen st) :
    ∃ front back, seen = front ++ back ∧ front.length = st.frontier ∧
      Accounted front st.examples.reverse := by
  cases mode : st.mode with
  | between =>
    refine ⟨seen, [], (List.append_nil seen).symm, ?_, (kept.between mode).1⟩
    rw [frontier_of_between mode, kept.line]
  | inSource s =>
    obtain ⟨⟨front, window, split, line, accounted, -⟩, -⟩ := kept.inSource s mode
    exact ⟨front, window, split, by rw [frontier_of_open (.inl mode), line], accounted⟩
  | inOutput s =>
    obtain ⟨front, window, split, line, accounted, -⟩ := kept.inOutput s mode
    exact ⟨front, window, split, by rw [frontier_of_open (.inr mode), line], accounted⟩

theorem Kept.frontier_le (kept : Kept seen st) : st.frontier ≤ seen.length := by
  obtain ⟨front, back, rfl, length, -⟩ := kept.upTo_frontier
  rw [← length, List.length_append]
  exact Nat.le_add_right _ _

theorem Kept.stop_le (kept : Kept seen st) {e : Example} (member : e ∈ st.examples) :
    e.stop ≤ st.frontier := by
  obtain ⟨front, back, -, length, accounted⟩ := kept.upTo_frontier
  rw [← length]
  exact accounted.inside e (List.mem_reverse.mpr member)

/-- How the examples so far form blocks. -/
structure Arranged (settings : Settings) (seen : List (List Char)) (st : State) : Prop where
  alone : ∀ e ∈ st.examples, ReadAlone settings seen e e
  consecutive : st.examples.reverse.IsChain (Follows seen)
  prose : ∀ e, st.examples.head? = some e →
    (st.prose = true ↔ ProseBetween seen e.stop st.frontier)

theorem arranged_start : Arranged settings [] start where
  alone _ member := nomatch member
  consecutive := .nil
  prose _ latest := nomatch latest

/-- An example that ends here follows the latest example. -/
theorem Arranged.follows (arranged : Arranged settings seen st) (numbered : st.Numbered)
    {latest e : Example} (head : st.examples.head? = some latest) (line : e.line = st.frontier)
    (block : e.block = st.nextBlock) : Follows seen latest e := by
  have some : st.examples.isEmpty = false := by
    cases examples : st.examples with
    | nil =>
      rw [examples] at head
      cases head
    | cons => rfl
  have before := arranged.prose latest head
  have number : e.block = if st.prose then latest.block + 1 else latest.block := by
    rw [block, nextBlock, numbered.last latest head, some, Bool.not_false, Bool.and_true]
  rw [← line] at before
  constructor
  · rw [← before, number]
    split <;> simp [*]
  · intro prose
    rw [number, if_pos (before.mpr prose)]

theorem window_of_toExample {s : Snippet} {block : Nat} {e : Example}
    {front window : List (List Char)} (made : s.toExample settings block = .ok e)
    (line : s.line = front.length) (whole : ∀ l ∈ window, '\n' ∉ l)
    (written : Window s.indent window s.source.reverse s.want.reverse) :
    e.window (front ++ window) = window ∧ e.stop = (front ++ window).length := by
  obtain ⟨o, rfl⟩ := toExample_eq_ok made
  obtain ⟨source, want⟩ := lines_example settings block o written whole
  have begins : (s.example settings block o).line = front.length := line
  have height : (s.example settings block o).height = window.length := by
    rw [Example.height, source, want, List.length_map, written.length_eq]
  constructor
  · rw [Example.window, begins, List.drop_left, height, List.take_length]
  · rw [Example.stop, begins, height, List.length_append]

theorem Arranged.finish (arranged : Arranged settings seen st) (kept : Kept seen st)
    (numbered : st.Numbered) (whole : ∀ l ∈ seen, '\n' ∉ l)
    (closes : st.finish settings = .ok closed) : Arranged settings seen closed := by
  rcases finish_eq_ok.mp closes with ⟨-, rfl⟩ | ⟨s, e, mayEnd, made, rfl⟩
  · exact arranged
  · obtain ⟨front, window, rfl, line, -, written⟩ := kept.opens mayEnd
    have wholeWindow : ∀ l ∈ window, '\n' ∉ l :=
      fun l member => whole l (List.mem_append_right _ member)
    obtain ⟨ownWindow, stop⟩ := window_of_toExample made line wholeWindow written
    obtain ⟨o, same⟩ := toExample_eq_ok made
    have ownLine : e.line = s.line := by rw [same]; rfl
    have ownIndent : e.indent = s.indent := by rw [same]; rfl
    have ownBlock : e.block = st.nextBlock := by rw [same]; rfl
    refine { alone := ?alone, consecutive := ?consecutive, prose := ?prose }
    case alone =>
      intro e' member
      rcases List.mem_cons.mp member with rfl | earlier
      · refine ⟨s.source.reverse, s.want.reverse, by rwa [ownWindow, ownIndent], ?_⟩
        rw [ownLine, ownIndent, ownBlock, List.reverse_reverse, List.reverse_reverse]
        exact made
      · exact arranged.alone e' earlier
    case consecutive =>
      change (e :: st.examples).reverse.IsChain _
      rw [List.reverse_cons, List.isChain_append]
      refine ⟨arranged.consecutive, .singleton _, fun latest last next here => ?_⟩
      cases here
      rw [List.getLast?_reverse] at last
      exact arranged.follows numbered last (ownLine.trans (frontier_of_mayEnd mayEnd).symm) ownBlock
    case prose =>
      intro e' latest
      cases latest
      have here : (st.add e).frontier = e.stop := by
        rw [frontier_of_between rfl, stop]
        exact kept.line
      rw [here]
      exact iff_of_false Bool.false_ne_true not_proseBetween_self

/-- Another line leaves the examples as they are. -/
theorem Arranged.more (arranged : Arranged settings seen st)
    (inside : ∀ e ∈ st.examples, e.stop ≤ seen.length) (examples : st'.examples = st.examples)
    (prose : ∀ stop ≤ seen.length, (st.prose = true ↔ ProseBetween seen stop st.frontier) →
      (st'.prose = true ↔ ProseBetween (seen ++ [line]) stop st'.frontier)) :
    Arranged settings (seen ++ [line]) st' where
  alone e member := by
    rw [examples] at member
    exact (arranged.alone e member).append (inside e member) [line]
  consecutive := by
    rw [examples]
    refine arranged.consecutive.imp_of_mem_imp fun a b _ member follows => ?_
    have before : b.line ≤ seen.length :=
      Nat.le_trans (Nat.le_add_right _ _) (inside b (List.mem_reverse.mp member))
    have same := @proseBetween_append seen a.stop b.line before [line]
    exact ⟨by rw [same]; exact follows.same, by rw [same]; exact follows.next⟩
  prose e latest := by
    rw [examples] at latest
    exact prose e.stop (inside e (List.mem_of_head? latest)) (arranged.prose e latest)

theorem Arranged.between (arranged : Arranged settings seen st) (mode : st.mode = .between)
    (counted : st.line = seen.length) (inside : ∀ e ∈ st.examples, e.stop ≤ seen.length)
    (reads : st.between line = .ok st') :
    Arranged settings (seen ++ [line]) { st' with line := st'.line + 1 } := by
  have here : st.frontier = seen.length := (frontier_of_between mode).trans counted
  rcases between_cases reads with ⟨kind, rfl⟩ | ⟨kind, rfl⟩ | ⟨indent, text, kind, rfl⟩
  · refine arranged.more inside rfl fun stop low known => ?_
    simp only [frontier, mode, counted]
    rw [proseBetween_concat low, isProse_iff, ← here, ← known]
    rcases kind with kind | kind <;> simp [kind]
  · refine arranged.more inside rfl fun stop low _ => ?_
    simp only [frontier, mode, counted]
    rw [proseBetween_concat low]
    exact iff_of_true trivial (.inr (isProse_iff.mpr kind))
  · refine arranged.more inside rfl fun stop _ known => ?_
    rw [frontier_of_open (.inl rfl), counted, proseBetween_append (Nat.le_refl _), ← here, ← known]

theorem Arranged.reads (arranged : Arranged settings seen st) (kept : Kept seen st)
    (numbered : st.Numbered) (whole : ∀ l ∈ seen, '\n' ∉ l)
    (reads : Reads settings st line st') : Arranged settings (seen ++ [line]) st' := by
  have inside : ∀ e ∈ st.examples, e.stop ≤ seen.length :=
    fun e member => (kept.stop_le member).trans kept.frontier_le
  cases reads with
  | apart ends closes reads =>
    have accounted := kept.finish whole closes
    exact (arranged.finish kept numbered whole closes).between (mode_of_finish closes)
      ((line_of_finish closes).trans kept.line)
      (fun e member => accounted.inside e (List.mem_reverse.mpr member)) reads
  | source isOpen =>
    refine arranged.more inside rfl fun stop _ known => ?_
    rw [frontier_of_open (.inl rfl), ← frontier_of_open (.inl isOpen),
      proseBetween_append kept.frontier_le, ← known]
  | output isOpen =>
    refine arranged.more inside rfl fun stop _ known => ?_
    rw [frontier_of_open (.inr rfl), ← frontier_of_mayEnd isOpen,
      proseBetween_append kept.frontier_le, ← known]

/-- All that is known of the lines read so far and their examples. -/
structure Known (settings : Settings) (seen : List (List Char)) (st : State) : Prop where
  kept : Kept seen st
  numbered : st.Numbered
  arranged : Arranged settings seen st

theorem known_foldlM {lines : List (List Char)} (whole : ∀ l ∈ lines, '\n' ∉ l)
    (run : lines.foldlM (step settings) start = .ok st) : Known settings lines st := by
  have known := foldlM_step_invariant
    (P := fun seen st => (∀ l ∈ seen, '\n' ∉ l) → Known settings seen st)
    (fun seen st line st' known reads whole => ?_) []
    (fun _ => ⟨kept_start, numbered_start, arranged_start⟩) run
  · exact known whole
  · have before : ∀ l ∈ seen, '\n' ∉ l := fun l member => whole l (List.mem_append_left _ member)
    have ⟨kept, numbered, arranged⟩ := known before
    exact ⟨kept.reads before reads, numbered.reads reads, arranged.reads kept numbered before reads⟩

theorem arranged_of_finished {lines : List (List Char)} (whole : ∀ l ∈ lines, '\n' ∉ l)
    (run : start.finished settings lines = .ok closed) : Arranged settings lines closed := by
  obtain ⟨st, read, closes⟩ := bind_eq_ok.mp run
  have ⟨kept, numbered, arranged⟩ := known_foldlM whole read
  exact arranged.finish kept numbered whole closes

end State

/-! ### Skipped blocks -/

theorem mem_applyBlockSkips {es : List Example} {e : Example} : e ∈ applyBlockSkips es ↔
    ∃ own ∈ es, e = if own.block ∈ skippedBlocks es then Example.skipped own else own := by
  simp [applyBlockSkips, eq_comm]

theorem mem_skippedBlocks {es : List Example} {block : Nat} : block ∈ skippedBlocks es ↔
    ∃ e ∈ es, e.overrides.enable.has .skipBlock = true ∧ e.block = block := by
  simp [skippedBlocks, and_assoc]

variable {settings : Settings} {lines : List (List Char)} {es : List Example}

theorem skipsBlock_iff (alone : ∀ e ∈ es, ReadAlone settings lines e e) (block : Nat) :
    SkipsBlock lines (applyBlockSkips es) block ↔ block ∈ skippedBlocks es := by
  obtain ⟨o, same⟩ := applyBlockSkips_eq_map es
  rw [mem_skippedBlocks, SkipsBlock, same]
  constructor
  · rintro ⟨_, member, number, said⟩
    obtain ⟨e, inside, rfl⟩ := List.mem_map.mp member
    exact ⟨e, inside, ((alone e inside).enable _).mpr said, number⟩
  · rintro ⟨e, inside, enabled, number⟩
    exact ⟨_, List.mem_map_of_mem inside, number, ((alone e inside).enable _).mp enabled⟩

/-- An example after blocks are skipped, and the same example before. -/
theorem exists_own (alone : ∀ e ∈ es, ReadAlone settings lines e e) {e : Example}
    (member : e ∈ applyBlockSkips es) : ∃ own, ReadAlone settings lines e own ∧
      (SkipsBlock lines (applyBlockSkips es) e.block → e = Example.skipped own) ∧
      (¬ SkipsBlock lines (applyBlockSkips es) e.block → e = own) := by
  obtain ⟨own, inside, rfl⟩ := mem_applyBlockSkips.mp member
  refine ⟨own, ?_⟩
  rw [skipsBlock_iff alone]
  split
  · next skips => exact ⟨alone own inside, fun _ => rfl, fun other => absurd skips other⟩
  · next stays => exact ⟨alone own inside, fun skips => absurd skips stays, fun _ => rfl⟩

/-! ### Whole texts -/

theorem grouped_applyBlockSkips (alone : ∀ e ∈ es, ReadAlone settings lines e e)
    (consecutive : es.IsChain (Follows lines)) (rising : Rising (es.map (·.block)))
    (first : ∀ e, es.head? = some e → e.block = 0) :
    Grouped settings lines ⟨applyBlockSkips es, blocksOf (applyBlockSkips es)⟩ := by
  obtain ⟨o, same⟩ := applyBlockSkips_eq_map es
  have firstSkipped : ∀ e, (applyBlockSkips es).head? = some e → e.block = 0 := by
    intro e head
    rw [same, List.head?_map, Option.map_eq_some_iff] at head
    obtain ⟨own, head, rfl⟩ := head
    exact first own head
  have risingSkipped : Rising ((applyBlockSkips es).map (·.block)) := by
    rw [same, List.map_map]
    exact rising
  refine {
    first := firstSkipped
    consecutive := ?consecutive
    tiles := ?tiles
    holds := fun k b found i e here => holds_blocksOf_iff risingSkipped firstSkipped found here
    skip := ?skip
    alone := ?alone }
  case consecutive =>
    rw [same, List.isChain_map]
    exact consecutive.imp fun a b follows => ⟨follows.same, follows.next⟩
  case tiles =>
    have tiles := tiles_blocksFrom 0 (applyBlockSkips es)
    rwa [Nat.zero_add] at tiles
  case skip =>
    intro e member
    obtain ⟨own, alone, skips, stays⟩ := exists_own alone member
    by_cases inBlock : SkipsBlock lines (applyBlockSkips es) e.block
    · refine iff_of_true ?_ (.inr inBlock)
      rw [skips inBlock]
      rfl
    · have flag := alone.enable .skip
      rw [← stays inBlock] at flag
      rw [flag, or_iff_left inBlock]
  case alone =>
    intro e member
    obtain ⟨own, alone, skips, stays⟩ := exists_own alone member
    exact ⟨own, alone, alone.enable, alone.disable, skips, stays⟩

/-- How the examples of a text form blocks. -/
theorem grouped_of_read {text : String} (reads : read settings text = .ok es) :
    Grouped settings (Text.lines text.toList) ⟨es, blocksOf es⟩ := by
  rw [read, readLines_eq_map] at reads
  obtain ⟨closed, finished, rfl⟩ := map_eq_ok.mp reads
  have whole : ∀ l ∈ Text.lines text.toList, '\n' ∉ l := fun l => Text.notMem_of_mem_lines
  have numbered := State.numbered_of_finished finished
  have arranged := State.arranged_of_finished whole finished
  refine grouped_applyBlockSkips (fun e member => arranged.alone e (List.mem_reverse.mp member))
    arranged.consecutive numbered.rising fun e head => numbered.first e ?_
  rwa [← List.head?_reverse]

/-- How the examples of a text form blocks, and that its unit has the same examples and blocks. -/
theorem grouped_of_readContents {text : String} {c : Contents}
    (given : readContents settings text = .ok c) :
    Grouped settings (Text.lines text.toList) c ∧
      ∀ name file line globals, ∃ d, readDoctest settings text name file line globals = .ok d ∧
        d.examples = c.examples ∧ d.blocks = c.blocks := by
  obtain ⟨es, reads, rfl⟩ := map_eq_ok.mp given
  constructor
  · exact grouped_of_read reads
  · intro name file line globals
    exact ⟨_, by rw [readDoctest, reads]; rfl, rfl, rfl⟩

theorem grouped_of_readContents_skipped :
    ∃ c, readContents .defaults
        ">>> a
>>> b # doctest: +SKIPBLOCK

>>>
>>> c
1

Text.
>>> d
" = .ok c ∧
      c.blocks = [⟨0, 3⟩, ⟨3, 4⟩] ∧
      Grouped .defaults (Text.lines
        ">>> a
>>> b # doctest: +SKIPBLOCK

>>>
>>> c
1

Text.
>>> d
".toList) c :=
  ⟨_, rfl, rfl, (grouped_of_readContents rfl).1⟩

end DocExamples.Transcript
