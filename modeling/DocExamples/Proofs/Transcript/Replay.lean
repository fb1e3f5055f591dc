import DocExamples.Output.Matching
import DocExamples.Proofs.Transcript.Steps
/-!
Record and replay. What was run and what it printed is written down as a transcript; reading the
transcript gives an example for each run, whose expected output the recorded output matches.
-/
namespace DocExamples

/-! ### Marked blank lines -/

namespace Output

theorem emptyLines_unlines (blank : List Char → Bool) {ls : List (List Char)}
    (whole : ∀ l ∈ ls, '\n' ∉ l) : emptyLines blank (Text.unlines ls) =
      Text.unlines (ls.map fun l => if blank l then [] else l) := by
  rw [emptyLines, Text.fields_unlines whole, List.map_append, ← Text.join_append_nil]
  simp

/-- Texts match if they differ in how blank lines are written only. -/
theorem textMatches_of_unmarkBlankLines {want got : List Char} {flags : Flags}
    (same : (unmarkBlankLines flags want got).1 = (unmarkBlankLines flags want got).2) :
    textMatches want got flags = true := by
  rw [textMatches]
  split
  · rfl
  · dsimp only
    rw [same]
    simp

/-- A blank line is shown as a marker. -/
def mark (line : List Char) : List Char := if Text.allBlank line then blankLineMarker else line

theorem textMatches_mark {ls : List (List Char)} {flags : Flags} (whole : ∀ l ∈ ls, '\n' ∉ l)
    (unmarked : ∀ l ∈ ls, Text.trimEnd l ≠ blankLineMarker)
    (accepted : flags.has .dontAcceptBlankline = false) :
    textMatches (Text.unlines (ls.map mark)) (Text.unlines ls) flags = true := by
  have shown : ∀ l ∈ ls.map mark, '\n' ∉ l := by
    intro l member
    obtain ⟨l', inside, rfl⟩ := List.mem_map.mp member
    rw [mark]
    split
    · decide
    · exact whole l' inside
  apply textMatches_of_unmarkBlankLines
  rw [unmarkBlankLines, accepted]
  change emptyLines _ _ = emptyLines _ _
  rw [emptyLines_unlines _ shown, emptyLines_unlines _ whole, List.map_map]
  congr 1
  apply List.map_congr_left
  intro l member
  rw [Function.comp_apply, mark]
  split
  · rfl
  · exact if_neg (by simpa using unmarked l member)

end Output

namespace Transcript

/-! ### Margins -/

/-- The blanks to the left of a prompt. -/
def margin (width : Nat) : List Char := List.replicate width ' '

section Margins

variable (width : Nat) (line : List Char)

theorem dropWhile_margin : (margin width ++ line).dropWhile isIndent = line.dropWhile isIndent := by
  induction width with
  | zero => rfl
  | succ width ih => exact ih

theorem indentation_margin : indentation (margin width ++ line) = width + indentation line := by
  induction width with
  | zero => exact (Nat.zero_add _).symm
  | succ width ih => exact (congrArg Nat.succ ih).trans (Nat.succ_add _ _).symm

theorem drop_margin : (margin width ++ line).drop width = line :=
  List.drop_left' List.length_replicate

theorem endsOutput_margin : endsOutput (margin width ++ line) = endsOutput line := by
  induction width with
  | zero => rfl
  | succ width ih => exact ih

theorem continuation?_margin : continuation? (margin width ++ line) = continuation? line := by
  rw [continuation?, continuation?, drop_indentation, drop_indentation, dropWhile_margin]

theorem notMem_margin {width : Nat} {line : List Char} {c : Char} (other : c ≠ ' ')
    (free : c ∉ line) : c ∉ margin width ++ line := by
  rw [List.mem_append, not_or]
  exact ⟨fun inside => other (List.eq_of_mem_replicate inside), free⟩

end Margins

/-! ### Runs over the lines of one example -/

namespace State

variable {settings : Settings} {st : State} {s : Snippet}

theorem foldlM_continuations (mode : st.mode = .inSource s) (texts : List (List Char)) :
    (texts.map fun l => margin s.indent ++ (continuationPrompt ++ ' ' :: l)).foldlM
        (step settings) st =
      .ok { st with
        line := st.line + texts.length
        mode := .inSource { s with source := texts.reverse ++ s.source } } := by
  induction texts generalizing st s with
  | nil =>
    obtain ⟨line, _, prose, block, examples⟩ := st
    cases mode
    rfl
  | cons text rest ih =>
    have more : continuation? (margin s.indent ++ (continuationPrompt ++ ' ' :: text)) =
        some text := by
      rw [continuation?_margin]
      rfl
    have column : indentation (margin s.indent ++ (continuationPrompt ++ ' ' :: text)) =
        s.indent := by
      rw [indentation_margin]
      rfl
    rw [List.map_cons, List.foldlM_cons, step_eq_ok.mpr (.source mode more column)]
    refine (ih (s := { s with source := text :: s.source }) rfl).trans ?_
    simp [Nat.add_assoc, Nat.add_comm 1]

/-- Only the first line of output can be taken for source. -/
theorem foldlM_output (settings : Settings) (mayEnd : st.MayEnd s) (texts : List (List Char))
    (inside : ∀ t ∈ texts, endsOutput t = false)
    (starts : st.mode = .inSource s → ∀ t, texts.head? = some t → continuation? t = none) :
    ∃ last : State, (texts.map (margin s.indent ++ ·)).foldlM (step settings) st = .ok last ∧
      last.MayEnd { s with want := texts.reverse ++ s.want } ∧
      last = { st with line := st.line + texts.length, mode := last.mode } := by
  induction texts generalizing st s with
  | nil => exact ⟨st, rfl, mayEnd, rfl⟩
  | cons text rest ih =>
    obtain ⟨here, later⟩ := List.forall_mem_cons.mp inside
    have more : endsOutput (margin s.indent ++ text) = false := by rw [endsOutput_margin, here]
    have ended : st.mode = .inSource s → continuation? (margin s.indent ++ text) = none := by
      intro mode
      rw [continuation?_margin, starts mode text rfl]
    have column : s.indent ≤ indentation (margin s.indent ++ text) := by
      rw [indentation_margin]
      exact Nat.le_add_right _ _
    let next : State := { st with
      line := st.line + 1
      mode := .inOutput { s with want := text :: s.want } }
    have step : st.step settings (margin s.indent ++ text) = .ok next := by
      rw [step_eq_ok.mpr (.output mayEnd ended more column), drop_margin]
    have nextMayEnd : next.MayEnd { s with want := text :: s.want } := .inl rfl
    obtain ⟨last, run, lastMayEnd, same⟩ := ih nextMayEnd later fun mode => nomatch mode
    refine ⟨last, ?_, ?_, ?_⟩
    · rw [List.map_cons, List.foldlM_cons, step]
      exact run
    · rw [List.reverse_cons, List.append_assoc]
      exact lastMayEnd
    · rw [same, List.length_cons, Nat.add_comm rest.length, ← Nat.add_assoc]

end State

/-! ### Lines without directives -/

theorem sourceOverrides_undirected {texts : List (List Char)}
    (undirected : ∀ t ∈ texts, findDirective? t = none) (line : Nat) (o : Overrides) :
    sourceOverrides line o texts = .ok o := by
  induction texts generalizing line with
  | nil => rfl
  | cons text rest ih =>
    obtain ⟨here, later⟩ := List.forall_mem_cons.mp undirected
    rw [sourceOverrides, here]
    exact ih later (line + 1)

theorem outputOverrides_undirected {texts : List (List Char)}
    (undirected : ∀ t ∈ texts, findDirective? t = none) (line : Nat) (o : Overrides) :
    outputOverrides line o texts = .ok (o, texts) := by
  induction texts generalizing line with
  | nil => rfl
  | cons text rest ih =>
    obtain ⟨here, later⟩ := List.forall_mem_cons.mp undirected
    rw [outputOverrides, here]
    dsimp only
    rw [ih later (line + 1)]
    rfl

theorem map_shownOutput_undirected {texts : List (List Char)}
    (undirected : ∀ t ∈ texts, findDirective? t = none) : texts.map shownOutput = texts := by
  rw [List.map_congr_left (g := id), List.map_id]
  intro text member
  rw [shownOutput, undirected text member]
  rfl

theorem Snippet.toExample_undirected {s : Snippet} (settings : Settings) (block : Nat)
    (source : ∀ t ∈ s.source, findDirective? t = none)
    (want : ∀ t ∈ s.want, findDirective? t = none) :
    s.toExample settings block = .ok (s.example settings block {}) := by
  have want' : ∀ t ∈ s.want.reverse, findDirective? t = none := by simpa using want
  rw [toExample, sourceOverrides_undirected (by simpa using source)]
  change (outputOverrides _ _ _ >>= _) = _
  rw [outputOverrides_undirected want', Snippet.example, map_shownOutput_undirected want']
  rfl

/-! ### Recordings -/

/-- Source lines that were run, what they printed, and where the prompt is to stand. The lines are
ones that a transcript can show: they have no directives, the source is complete, and no line of
the output looks like a prompt or a marked blank line. -/
structure Recording where
  /-- The column of the prompt. -/
  indent : Nat
  /-- The first source line. -/
  first : List Char
  /-- The source lines after the first. -/
  more : List (List Char)
  output : List Char
  whole : ∀ l ∈ first :: more, '\n' ∉ l ∧ '\r' ∉ l
  visible : Text.allBlank first = false
  complete : (Text.trimEnd ((first :: more).getLastD [])).getLast? ≠ some '\\'
  ended : output = [] ∨ output.getLast? = some '\n'
  plain : '\r' ∉ output
  unmarked : ∀ l ∈ Text.lines output, Text.trimEnd l ≠ Output.blankLineMarker
  unprompted : ∀ l ∈ Text.lines output, ¬ prompt <+: Text.trimStart l
  /-- The output does not begin with a line that continues the source. -/
  settled : ∀ l, (Text.lines output).head? = some l → continuation? l = none
  undirected : ∀ l ∈ first :: more ++ Text.lines output, findDirective? l = none

namespace Recording

/-- The output as a transcript shows it. -/
def shown (r : Recording) : List (List Char) := (Text.lines r.output).map Output.mark

/-- The lines of the transcript. -/
def lines (r : Recording) : List (List Char) :=
  (margin r.indent ++ (prompt ++ ' ' :: r.first)) ::
    r.more.map (fun l => margin r.indent ++ (continuationPrompt ++ ' ' :: l)) ++
    r.shown.map (margin r.indent ++ ·)

/-- The example replays the recording, whose prompt is in the given line. -/
structure Replays (r : Recording) (line : Nat) (e : Example) : Prop where
  source : e.source = String.ofList (Text.join ['\n'] (r.first :: r.more))
  indent : e.indent = r.indent
  line : e.line = line
  output : ∀ flags : Flags, flags.has .dontAcceptBlankline = false →
    Output.textMatches e.want.toList r.output flags = true

/-- The examples replay the recordings in order; the first prompt is in the given line. -/
inductive ReplayAll : Nat → List Recording → List Example → Prop where
  | nil (line : Nat) : ReplayAll line [] []
  | cons {line : Nat} {r : Recording} {rs : List Recording} {e : Example} {es : List Example}
    (here : r.Replays line e) (later : ReplayAll (line + r.lines.length) rs es) :
    ReplayAll line (r :: rs) (e :: es)

/-- The transcript of recordings. -/
def render (rs : List Recording) : String := String.ofList (Text.unlines (rs.flatMap lines))

/-- What the reader collects of the recording. -/
def snippet (r : Recording) (line : Nat) : Snippet :=
  ⟨line, r.indent, (r.first :: r.more).reverse, r.shown.reverse⟩

variable {settings : Settings}

theorem findDirective?_shown (r : Recording) {l : List Char} (member : l ∈ r.shown) :
    findDirective? l = none := by
  obtain ⟨l', inside, rfl⟩ := List.mem_map.mp member
  rw [Output.mark]
  split
  · decide
  · exact r.undirected l' (List.mem_append_right _ inside)

theorem toExample_snippet (r : Recording) (line block : Nat) :
    (r.snippet line).toExample settings block =
      .ok ((r.snippet line).example settings block {}) := by
  apply Snippet.toExample_undirected
  · intro l member
    exact r.undirected l (List.mem_append_left _ (List.mem_reverse.mp member))
  · intro l member
    exact r.findDirective?_shown (List.mem_reverse.mp member)

theorem replays_snippet (settings : Settings) (r : Recording) (line block : Nat) :
    r.Replays line ((r.snippet line).example settings block {}) where
  source := by
    rw [Snippet.example, snippet, List.reverse_reverse]
  indent := rfl
  line := rfl
  output flags accepted := by
    have shown : (r.snippet line).want.reverse.map shownOutput = r.shown := by
      rw [snippet, List.reverse_reverse]
      exact map_shownOutput_undirected fun l member => r.findDirective?_shown member
    have output := Text.unlines_lines r.ended r.plain
    rw [Snippet.example, String.toList_ofList, shown, ← output]
    exact Output.textMatches_mark (fun l => Text.notMem_of_mem_lines) r.unmarked accepted

theorem lineKind_of_prompt (r : Recording) :
    LineKind.of (margin r.indent ++ (prompt ++ ' ' :: r.first)) = .source r.indent r.first := by
  have start : Text.stripStart? prompt ((prompt ++ ' ' :: r.first).dropWhile isIndent) =
      some (' ' :: r.first) := Text.stripStart?_eq_some.mpr rfl
  have visible : Text.allBlank (' ' :: r.first) = false := r.visible
  rw [LineKind.of, drop_indentation, dropWhile_margin, indentation_margin, start]
  simp [endsPrompt, visible, dropSpace, indentation, prompt, isIndent]

theorem endsOutput_shown (r : Recording) {l : List Char} (member : l ∈ r.shown) :
    endsOutput l = false := by
  obtain ⟨l', inside, rfl⟩ := List.mem_map.mp member
  rw [Output.mark]
  split
  · decide
  · next visible =>
    rw [endsOutput, Bool.or_eq_false_iff]
    exact ⟨by simpa using visible, by
      rw [Bool.eq_false_iff, ne_eq, List.isPrefixOf_iff_prefix]
      exact r.unprompted l' inside⟩

theorem continuation?_shown (r : Recording) {l : List Char} (first : r.shown.head? = some l) :
    continuation? l = none := by
  rw [shown, List.head?_map, Option.map_eq_some_iff] at first
  obtain ⟨l', head, rfl⟩ := first
  rw [Output.mark]
  split
  · decide
  · exact r.settled l' head

theorem checkEnd_snippet (r : Recording) (line : Nat) : (r.snippet line).checkEnd = .ok () := by
  have last : (r.first :: r.more).getLast? = some ((r.first :: r.more).getLastD []) := by
    rw [List.getLastD_eq_getLast?, List.getLast?_cons]
    rfl
  rw [Snippet.checkEnd, snippet, List.head?_reverse, last]
  exact if_neg (by simpa using r.complete)

theorem between_prompt (r : Recording) (st : State) :
    st.between (margin r.indent ++ (prompt ++ ' ' :: r.first)) =
      .ok { st with mode := .inSource ⟨st.line, r.indent, [r.first], []⟩ } := by
  rw [State.between, r.lineKind_of_prompt]

theorem endsOutput_prompt (r : Recording) :
    endsOutput (margin r.indent ++ (prompt ++ ' ' :: r.first)) = true := by
  rw [endsOutput_margin, endsOutput_of_visible rfl (by decide)]
  rfl

/-- What the reader has collected once the source is read. -/
def sourceSnippet (r : Recording) (line : Nat) : Snippet :=
  ⟨line, r.indent, r.more.reverse ++ [r.first], []⟩

theorem checkEnd_sourceSnippet (r : Recording) (line : Nat) :
    (r.sourceSnippet line).checkEnd = .ok () := by
  rw [← r.checkEnd_snippet line, snippet, List.reverse_cons]
  rfl

/-- The state once the source is read, where nothing was open before it. -/
def afterSource (r : Recording) (closed : State) : State :=
  { closed with
    line := closed.line + 1 + r.more.length
    mode := .inSource (r.sourceSnippet closed.line) }

theorem foldlM_source (r : Recording) {st closed : State} (closes : st.finish settings = .ok closed) :
    ((margin r.indent ++ (prompt ++ ' ' :: r.first)) ::
        r.more.map fun l => margin r.indent ++ (continuationPrompt ++ ' ' :: l)).foldlM
          (State.step settings) st = .ok (r.afterSource closed) := by
  let opened : State := { closed with
    line := closed.line + 1
    mode := .inSource ⟨closed.line, r.indent, [r.first], []⟩ }
  have opens : st.step settings (margin r.indent ++ (prompt ++ ' ' :: r.first)) = .ok opened :=
    State.step_eq_ok.mpr (.apart (.inr r.endsOutput_prompt) closes (r.between_prompt closed))
  have mode : opened.mode = .inSource ⟨closed.line, r.indent, [r.first], []⟩ := rfl
  rw [List.foldlM_cons, opens]
  exact State.foldlM_continuations mode r.more

/-- The lines of a recording give its example, whatever example was open before them. -/
theorem foldlM_lines (r : Recording) {st closed : State} (closes : st.finish settings = .ok closed) :
    ∃ last : State, r.lines.foldlM (State.step settings) st = .ok last ∧
      last.finish settings = .ok
        { closed.add ((r.snippet closed.line).example settings closed.nextBlock {}) with
          line := closed.line + r.lines.length } := by
  have sourceEnds : (r.afterSource closed).MayEnd (r.sourceSnippet closed.line) :=
    .inr ⟨rfl, r.checkEnd_sourceSnippet closed.line⟩
  obtain ⟨last, run, mayEnd, same⟩ := State.foldlM_output settings sourceEnds r.shown
    (fun _ => r.endsOutput_shown) fun _ _ => r.continuation?_shown
  refine ⟨last, ?_, ?_⟩
  · rw [lines, List.foldlM_append, r.foldlM_source closes]
    exact run
  · have whole : { r.sourceSnippet closed.line with want := r.shown.reverse ++ [] } =
        r.snippet closed.line := by
      rw [snippet, List.reverse_cons, List.append_nil]
      rfl
    have nextBlock : last.nextBlock = closed.nextBlock := by
      rw [same]
      rfl
    have lines : closed.line + r.lines.length =
        closed.line + 1 + r.more.length + r.shown.length := by
      simp only [lines, List.length_append, List.length_cons, List.length_map]
      omega
    change last.MayEnd { r.sourceSnippet closed.line with want := r.shown.reverse ++ [] } at mayEnd
    rw [whole] at mayEnd
    rw [lines]
    refine State.finish_eq_ok.mpr (.inr ⟨_, _, mayEnd, r.toExample_snippet _ _, ?_⟩)
    rw [nextBlock, same]
    rfl

theorem finished_lines (rs : List Recording) {st closed : State}
    (closes : st.finish settings = .ok closed) :
    ∃ last es, st.finished settings (rs.flatMap lines) = .ok last ∧
      ReplayAll closed.line rs es ∧ last.examples = es.reverse ++ closed.examples := by
  induction rs generalizing st closed with
  | nil => exact ⟨closed, [], closes, .nil _, rfl⟩
  | cons r rest ih =>
    obtain ⟨next, run, nextCloses⟩ := r.foldlM_lines closes
    obtain ⟨last, es, finished, later, examples⟩ := ih nextCloses
    have here := r.replays_snippet settings closed.line closed.nextBlock
    refine ⟨last, _ :: es, ?_, .cons here later, ?_⟩
    · rw [List.flatMap_cons, State.finished, List.foldlM_append, run]
      exact finished
    · rw [examples, List.reverse_cons, List.append_assoc]
      rfl

theorem ReplayAll.map_overrides {line : Nat} {rs : List Recording} {es : List Example}
    (replays : ReplayAll line rs es) (o : Example → Overrides) :
    ReplayAll line rs (es.map fun e => { e with overrides := o e }) := by
  induction replays with
  | nil line => exact .nil line
  | cons here _ ih => exact .cons ⟨here.source, here.indent, here.line, here.output⟩ ih

theorem notMem_shown (r : Recording) {l : List Char} (member : l ∈ r.shown) :
    '\n' ∉ l ∧ '\r' ∉ l := by
  obtain ⟨l', inside, rfl⟩ := List.mem_map.mp member
  rw [Output.mark]
  split
  · decide
  · refine ⟨Text.notMem_of_mem_lines inside, fun carriage => r.plain ?_⟩
    rw [← Text.unlines_lines r.ended r.plain]
    exact List.mem_flatMap.mpr ⟨l', inside, List.mem_append_left _ carriage⟩

theorem notMem_lines (r : Recording) {l : List Char} (member : l ∈ r.lines) :
    '\n' ∉ l ∧ '\r' ∉ l := by
  rw [lines, List.cons_append, List.mem_cons, List.mem_append, List.mem_map, List.mem_map] at member
  rcases member with rfl | ⟨text, inside, rfl⟩ | ⟨text, inside, rfl⟩
  · have free := r.whole r.first List.mem_cons_self
    exact ⟨notMem_margin (by decide) (by simp [prompt, free.1]),
      notMem_margin (by decide) (by simp [prompt, free.2])⟩
  · have free := r.whole text (List.mem_cons_of_mem _ inside)
    exact ⟨notMem_margin (by decide) (by simp [continuationPrompt, free.1]),
      notMem_margin (by decide) (by simp [continuationPrompt, free.2])⟩
  · have free := r.notMem_shown inside
    exact ⟨notMem_margin (by decide) free.1, notMem_margin (by decide) free.2⟩

/-- Every recording is replayed: reading the transcript gives one example for each, in order. -/
theorem read_render (settings : Settings) (rs : List Recording) :
    ∃ es, read settings (render rs) = .ok es ∧ ReplayAll 0 rs es := by
  have lines : Text.lines (render rs).toList = rs.flatMap lines := by
    rw [render, String.toList_ofList]
    apply Text.lines_unlines
    · intro l member
      obtain ⟨r, -, inside⟩ := List.mem_flatMap.mp member
      exact (r.notMem_lines inside).1
    · intro l member last
      obtain ⟨r, -, inside⟩ := List.mem_flatMap.mp member
      exact (r.notMem_lines inside).2 (List.mem_of_getLast? last)
  have closed : State.start.finish settings = .ok .start := rfl
  obtain ⟨last, es, finished, replays, examples⟩ := finished_lines rs closed
  obtain ⟨o, same⟩ := applyBlockSkips_eq_map es
  refine ⟨applyBlockSkips es, ?_, same ▸ replays.map_overrides o⟩
  rw [read, lines, readLines_eq_map, finished]
  change Except.ok (applyBlockSkips last.examples.reverse) = _
  rw [examples]
  simp [State.start]

/-- A loop that prints a blank line between two numbers. -/
def loop : Recording where
  indent := 4
  first := "for i in range(2):".toList
  more := ["    print(i)".toList]
  output := "0\n \n1\n".toList
  whole := by decide
  visible := by decide
  complete := by decide
  ended := by decide
  plain := by decide
  unmarked := by decide
  unprompted := by decide
  settled := by decide
  undirected := by decide

theorem read_render_loop :
    render [loop] =
        "    >>> for i in range(2):\n    ...     print(i)\n    0\n    <BLANKLINE>\n    1\n" ∧
      ∃ es, read .defaults (render [loop]) = .ok es ∧ ReplayAll 0 [loop] es :=
  ⟨by decide, read_render .defaults [loop]⟩

end Recording
end Transcript
end DocExamples
