import DocExamples.Proofs.Transcript.Blocks
/-!
Texts with prose between them. A blank line ends what is open, and prose after it opens a new
block; so what follows is read as a text of its own, with later line numbers and later blocks.
-/
namespace DocExamples

/-- The example as it is so many lines and so many blocks later. -/
def Example.later (lines blocks : Nat) (e : Example) : Example :=
  { e with line := e.line + lines, block := e.block + blocks }

namespace Transcript

/-- The error as it is so many lines later. -/
def ReadError.later (lines : Nat) : ReadError → ReadError
  | .missingSpaceAfterPrompt line => .missingSpaceAfterPrompt (line + lines)
  | .inconsistentIndentation line expected => .inconsistentIndentation (line + lines) expected
  | .unterminatedContinuation line => .unterminatedContinuation (line + lines)
  | .unknownDirective line directive => .unknownDirective (line + lines) directive

def Snippet.later (lines : Nat) (s : Snippet) : Snippet := { s with line := s.line + lines }

def Mode.later (lines : Nat) : Mode → Mode
  | .between => .between
  | .inSource s => .inSource (s.later lines)
  | .inOutput s => .inOutput (s.later lines)

/-- The second computation gives what the first one gives, moved: its value by `move`, its error
to a later line. -/
def Moves {α β : Type} (lines : Nat) (move : α → β) :
    Except ReadError α → Except ReadError β → Prop :=
  Corresponds (fun e e' => e' = e.later lines) (fun a b => b = move a)

section Snippets

variable (lines : Nat)

theorem moves_sourceOverrides (line : Nat) (o : Overrides) (texts : List (List Char)) :
    Moves lines id (sourceOverrides line o texts) (sourceOverrides (line + lines) o texts) := by
  induction texts generalizing line o with
  | nil => exact .ok rfl
  | cons text rest ih =>
    rw [sourceOverrides, sourceOverrides, Nat.add_right_comm]
    cases findDirective? text with
    | none => exact ih (line + 1) o
    | some directive =>
      dsimp only
      cases applyDirective o directive.2 with
      | ok o' => exact ih (line + 1) o'
      | error word => exact .error rfl

theorem moves_outputOverrides (line : Nat) (o : Overrides) (texts : List (List Char)) :
    Moves lines id (outputOverrides line o texts) (outputOverrides (line + lines) o texts) := by
  induction texts generalizing line o with
  | nil => exact .ok rfl
  | cons text rest ih =>
    rw [outputOverrides, outputOverrides, Nat.add_right_comm]
    cases findDirective? text with
    | none => exact (ih (line + 1) o).map fun _ _ same => by rw [same]; rfl
    | some directive =>
      dsimp only
      cases applyDirective o directive.2 with
      | ok o' => exact (ih (line + 1) o').map fun _ _ same => by rw [same]; rfl
      | error word => exact .error rfl

theorem moves_toExample (settings : Settings) (s : Snippet) (block blocks : Nat) :
    Moves lines (Example.later lines blocks) (s.toExample settings block)
      ((s.later lines).toExample settings (block + blocks)) := by
  refine (moves_sourceOverrides lines s.line {} s.source.reverse).bind fun o _ same => ?_
  cases same
  have output := moves_outputOverrides lines (s.line + s.source.length) o s.want.reverse
  rw [Nat.add_right_comm] at output
  refine output.bind fun given _ same => ?_
  cases same
  exact .ok rfl

theorem moves_checkEnd (s : Snippet) : Moves lines id s.checkEnd (s.later lines).checkEnd := by
  obtain ⟨line, indent, source, want⟩ := s
  cases source with
  | nil => exact .ok rfl
  | cons text rest =>
    rw [Snippet.checkEnd, Snippet.checkEnd]
    change Moves lines id (if ((some text).map Text.trimEnd).any (·.getLast? == some '\\') then _
      else _) (if ((some text).map Text.trimEnd).any (·.getLast? == some '\\') then _ else _)
    split
    · refine .error (congrArg _ ?_)
      change line + lines + rest.length = line + rest.length + lines
      exact Nat.add_right_comm _ _ _
    · exact .ok rfl

end Snippets

namespace State

variable {settings : Settings} {prior : State}

/-- The state `st` as it is where another text and prose stand before the lines that led to it:
`prior` is the state behind that prose. -/
def after (prior st : State) : State where
  line := st.line + prior.line
  mode := st.mode.later prior.line
  prose := st.examples.isEmpty || st.prose
  block := st.block + if st.examples.isEmpty then prior.block else prior.blocks
  examples := st.examples.map (Example.later prior.line prior.blocks) ++ prior.examples

theorem after_start (mode : prior.mode = .between) (prose : prior.prose = true) :
    prior.after start = prior := by
  cases prior
  cases mode
  cases prose
  simp [after, start, Mode.later]

theorem nextBlock_after (unused : prior.examples = [] → prior.block = 0) (st : State) :
    (prior.after st).nextBlock = st.nextBlock + prior.blocks := by
  cases examples : st.examples with
  | nil =>
    -- The first example after the prose opens a block, unless there is none before it.
    cases before : prior.examples with
    | nil => simp [nextBlock, after, blocks, examples, before, unused before]
    | cons e rest => simp [nextBlock, after, blocks, examples, before, Nat.add_assoc]
  | cons e rest =>
    cases prose : st.prose with
    | false => simp [nextBlock, after, examples, prose]
    | true => simp [nextBlock, after, examples, prose, Nat.add_right_comm]

theorem after_add (unused : prior.examples = [] → prior.block = 0) (st : State) (e : Example) :
    prior.after (st.add e) = (prior.after st).add (e.later prior.line prior.blocks) := by
  rw [add, add, nextBlock_after unused]
  rfl

/-! A state and the same state after other text do the same with every line: one lemma for each part
of a step. -/

section Steps

variable (unused : prior.examples = [] → prior.block = 0)
include unused

theorem moves_close (st : State) (s : Snippet) : Moves prior.line prior.after
    (st.close settings s) ((prior.after st).close settings (s.later prior.line)) := by
  have made := moves_toExample prior.line settings s st.nextBlock prior.blocks
  rw [← nextBlock_after unused] at made
  refine made.bind fun e _ same => ?_
  cases same
  exact .ok (after_add unused st e).symm

theorem moves_finish (st : State) :
    Moves prior.line prior.after (st.finish settings) ((prior.after st).finish settings) := by
  have mode : (prior.after st).mode = st.mode.later prior.line := rfl
  rw [finish, finish, mode]
  cases st.mode with
  | between => exact .ok rfl
  | inSource s => exact (moves_checkEnd _ s).bind fun _ _ _ => moves_close unused st s
  | inOutput s => exact moves_close unused st s

omit unused in
theorem moves_between (st : State) (line : List Char) :
    Moves prior.line prior.after (st.between line) ((prior.after st).between line) := by
  rw [between, between]
  cases LineKind.of line with
  | blank | barePrompt => exact .ok rfl
  | prose => exact .ok (by simp [after])
  | crampedPrompt => exact .error rfl
  | source indent text => exact .ok rfl

theorem moves_inOutput (st : State) (s : Snippet) (line : List Char) :
    Moves prior.line prior.after (st.inOutput settings s line)
      ((prior.after st).inOutput settings (s.later prior.line) line) := by
  rw [inOutput, inOutput]
  split
  · refine (moves_close unused st s).bind fun closed _ same => ?_
    cases same
    exact moves_between closed line
  · change Moves prior.line prior.after (if indentation line < s.indent then _ else _)
      (if indentation line < s.indent then _ else _)
    split
    · exact .error rfl
    · exact .ok rfl

theorem moves_inSource (st : State) (s : Snippet) (line : List Char) :
    Moves prior.line prior.after (st.inSource settings s line)
      ((prior.after st).inSource settings (s.later prior.line) line) := by
  cases more : continuation? line with
  | some text =>
    rw [inSource_of_more more, inSource_of_more more]
    change Moves prior.line prior.after (if indentation line ≠ s.indent then _ else _)
      (if indentation line ≠ s.indent then _ else _)
    split
    · exact .error rfl
    · exact .ok rfl
  | none =>
    rw [inSource_of_ended more, inSource_of_ended more]
    exact (moves_checkEnd _ s).bind fun _ _ _ => moves_inOutput unused st s line

theorem moves_step (st : State) (line : List Char) :
    Moves prior.line prior.after (st.step settings line) ((prior.after st).step settings line) := by
  have onward {x y : Except ReadError State} (read : Moves prior.line prior.after x y) :
      Moves prior.line prior.after (do let st ← x; return { st with line := st.line + 1 })
        (do let st ← y; return { st with line := st.line + 1 }) := by
    refine read.bind fun next _ same => ?_
    cases same
    exact .ok (congrArg (fun line => { prior.after next with line }) (Nat.add_right_comm _ _ _))
  have mode : (prior.after st).mode = st.mode.later prior.line := rfl
  rw [step, step, mode]
  cases st.mode with
  | between => exact onward (moves_between st line)
  | inSource s => exact onward (moves_inSource unused st s line)
  | inOutput s => exact onward (moves_inOutput unused st s line)

theorem moves_foldlM (mode : prior.mode = .between) (prose : prior.prose = true)
    (lines : List (List Char)) : Moves prior.line prior.after
      (lines.foldlM (step settings) start) (lines.foldlM (step settings) prior) := by
  refine Corresponds.foldlM lines (after_start mode prose).symm fun st _ line same => ?_
  cases same
  exact moves_step unused st line

/-- The lines after the prose are read as at the start of a text. -/
theorem moves_finished (mode : prior.mode = .between) (prose : prior.prose = true)
    (lines : List (List Char)) : Moves prior.line prior.after
      (start.finished settings lines) (prior.finished settings lines) := by
  refine (moves_foldlM unused mode prose lines).bind fun st _ same => ?_
  cases same
  exact moves_finish unused st

end Steps

/-! ### Prose -/

/-- The state behind a blank line, prose and a blank line, where nothing was open before. -/
def pastProse (st : State) : State := { st with line := st.line + 3, prose := true }

theorem foldlM_prose {p : List Char} (prose : LineKind.of p = .prose) (st : State) :
    [[], p, []].foldlM (step settings) st = (st.finish settings).map pastProse := by
  have blank : LineKind.of [] = .blank := rfl
  rw [List.foldlM_cons, step_of_ends rfl]
  cases finished : st.finish settings with
  | error e => rfl
  | ok closed =>
    have mode := mode_of_finish finished
    obtain ⟨line, _, prose', block, examples⟩ := closed
    cases mode
    simp [step, between, blank, prose, pastProse, bind, Except.bind, pure, Except.pure, Except.map]

theorem finished_prose {p : List Char} (prose : LineKind.of p = .prose) (st : State)
    (as bs : List (List Char)) :
    st.finished settings (as ++ [[], p, []] ++ bs) = (do
      let closed ← st.finished settings as
      closed.pastProse.finished settings bs) := by
  rw [finished, finished, List.foldlM_append, List.foldlM_append]
  cases as.foldlM (step settings) st with
  | error e => rfl
  | ok st =>
    change ([[], p, []].foldlM (step settings) st >>= _) >>= _ = st.finish settings >>= _
    rw [foldlM_prose prose]
    cases st.finish settings with
    | error e => rfl
    | ok closed => rfl

end State

/-! ### Skipped blocks -/

theorem skippedBlocks_append (as bs : List Example) :
    skippedBlocks (as ++ bs) = skippedBlocks as ++ skippedBlocks bs := by
  simp [skippedBlocks]

theorem skippedBlocks_later (lines blocks : Nat) (es : List Example) :
    skippedBlocks (es.map (Example.later lines blocks)) =
      (skippedBlocks es).map (· + blocks) := by
  simp [skippedBlocks, List.filter_map, Function.comp_def, Example.later]

theorem block_of_mem_skippedBlocks {es : List Example} {block : Nat}
    (member : block ∈ skippedBlocks es) : ∃ e ∈ es, e.block = block := by
  obtain ⟨e, inFilter, same⟩ := List.mem_map.mp member
  exact ⟨e, (List.mem_filter.mp inFilter).1, same⟩

section Apart

variable {as bs : List Example} {lines blocks : Nat} (before : ∀ e ∈ as, e.block < blocks)
include before

theorem contains_skippedBlocks_front {e : Example} (member : e ∈ as) :
    (skippedBlocks (as ++ bs.map (Example.later lines blocks))).contains e.block =
      (skippedBlocks as).contains e.block := by
  rw [skippedBlocks_append, skippedBlocks_later, Bool.eq_iff_iff, List.contains_iff_mem,
    List.contains_iff_mem, List.mem_append]
  refine ⟨fun inEither => inEither.resolve_right fun inBack => ?_, .inl⟩
  obtain ⟨block, -, same⟩ := List.mem_map.mp inBack
  have low := before e member
  omega

theorem contains_skippedBlocks_back (block : Nat) :
    (skippedBlocks (as ++ bs.map (Example.later lines blocks))).contains (block + blocks) =
      (skippedBlocks bs).contains block := by
  rw [skippedBlocks_append, skippedBlocks_later, Bool.eq_iff_iff, List.contains_iff_mem,
    List.contains_iff_mem, List.mem_append]
  refine ⟨fun inEither => ?_, fun member => .inr (List.mem_map.mpr ⟨block, member, rfl⟩)⟩
  rcases inEither with inFront | inBack
  · obtain ⟨e, member, same⟩ := block_of_mem_skippedBlocks inFront
    have low := before e member
    omega
  · obtain ⟨other, member, same⟩ := List.mem_map.mp inBack
    rwa [← Nat.add_right_cancel same]

/-- Whether a block is skipped does not depend on the blocks before or after it. -/
theorem applyBlockSkips_append :
    applyBlockSkips (as ++ bs.map (Example.later lines blocks)) =
      applyBlockSkips as ++ (applyBlockSkips bs).map (Example.later lines blocks) := by
  rw [applyBlockSkips, List.map_append, applyBlockSkips, applyBlockSkips, List.map_map,
    List.map_map]
  congr 1
  · apply List.map_congr_left
    intro e member
    rw [contains_skippedBlocks_front before member]
  · apply List.map_congr_left
    intro e _
    change (if List.contains _ (e.block + blocks) then _ else _) =
      Example.later _ _ (if _ then _ else _)
    rw [contains_skippedBlocks_back before]
    split <;> rfl

end Apart

/-! ### Texts -/

variable {settings : Settings}

theorem State.result_after {prior : State} (numbered : prior.Numbered) (st : State) :
    (prior.after st).result =
      prior.result ++ st.result.map (Example.later prior.line (blocksOf prior.result).length) := by
  rw [numbered.length_blocksOf_result, result, after, List.reverse_append, ← List.map_reverse]
  exact applyBlockSkips_append fun e member => numbered.block_lt (List.mem_reverse.mp member)

theorem readLines_prose {p : List Char} (prose : LineKind.of p = .prose)
    (as bs : List (List Char)) :
    readLines settings (as ++ [[], p, []] ++ bs) = (do
      let front ← readLines settings as
      let back ← (readLines settings bs).mapError (ReadError.later (as.length + 3))
      return front ++ back.map (Example.later (as.length + 3) (blocksOf front).length)) := by
  rw [readLines_eq_map, readLines_eq_map, readLines_eq_map, State.finished_prose prose]
  cases closes : State.start.finished settings as with
  | error e => rfl
  | ok closed =>
    have line : closed.pastProse.line = as.length + 3 :=
      congrArg (· + 3) (State.line_of_finished closes)
    have numbered : closed.pastProse.Numbered := (State.numbered_of_finished closes).congr rfl rfl
    have mode : closed.mode = .between := State.mode_of_finished closes
    have moved : Moves closed.pastProse.line closed.pastProse.after
        (State.start.finished settings bs) (closed.pastProse.finished settings bs) :=
      State.moves_finished numbered.unused mode rfl bs
    change (closed.pastProse.finished settings bs).map _ = _
    rw [← line]
    generalize State.start.finished settings bs = alone,
      closed.pastProse.finished settings bs = behind at moved
    cases moved with
    | error same =>
      cases same
      rfl
    | ok same =>
      cases same
      exact congrArg Except.ok (State.result_after numbered _)

theorem lineKind_of_prose {p : List Char} (visible : Text.allBlank p = false)
    (unprompted : ¬ prompt <+: p.dropWhile isIndent) : LineKind.of p = .prose := by
  rw [LineKind.of, drop_indentation, Text.stripStart?, if_neg (by rwa [List.isPrefixOf_iff_prefix])]
  dsimp only
  rw [visible]
  rfl

/-- A text is read in two parts where prose stands between blank lines: the second part gives what
it gives alone, with later line numbers and blocks. -/
theorem read_prose (settings : Settings) {a b t : String} {p : List Char}
    (visible : Text.allBlank p = false) (unprompted : ¬ prompt <+: p.dropWhile isIndent)
    (parts : Text.lines t.toList = Text.lines a.toList ++ [[], p, []] ++ Text.lines b.toList) :
    read settings t = (do
      let before := (Text.lines a.toList).length + 3
      let front ← read settings a
      let back ← (read settings b).mapError (ReadError.later before)
      return front ++ back.map (Example.later before (blocksOf front).length)) := by
  rw [read, parts, readLines_prose (lineKind_of_prose visible unprompted)]
  rfl

theorem read_prose_of_skipped_block :
    (read .defaults ">>> f() # doctest: +SKIPBLOCK\n1\n\nThen:\n\n>>> g()\n2\n").toOption.map
      (·.map fun e => (e.source, e.want, e.line, e.block, e.overrides.enable.has .skip)) =
    some [("f() # doctest: +SKIPBLOCK", "1\n", 0, 0, true), ("g()", "2\n", 5, 1, false)] := by
  rw [read_prose .defaults (a := ">>> f() # doctest: +SKIPBLOCK\n1\n") (b := ">>> g()\n2\n")
    (p := "Then:".toList) (by decide) (by decide) (by decide)]
  decide

end Transcript
end DocExamples
