import DocExamples.Proofs.Except
import DocExamples.Proofs.Text.Lines
import DocExamples.Transcript.Reader
/-!
What the reader does with one line. A line stands apart, and then ends what is open; or it
continues the source of the example that is open; or it belongs to the output of that example.
-/
namespace DocExamples.Transcript

/-! ### Kinds of lines -/

theorem drop_indentation (line : List Char) :
    line.drop (indentation line) = line.dropWhile isIndent := by
  rw [indentation]
  induction line with
  | nil => rfl
  | cons c rest ih => by_cases here : isIndent c = true <;> simp [here, ih]

theorem isBlank_of_isIndent {c : Char} (indent : isIndent c = true) : Text.isBlank c = true := by
  have cases : c = ' ' ∨ c = '\t' := by simpa [isIndent] using indent
  rcases cases with rfl | rfl <;> rfl

theorem trimStart_dropWhile (line : List Char) :
    Text.trimStart (line.dropWhile isIndent) = Text.trimStart line := by
  induction line with
  | nil => rfl
  | cons c rest ih =>
    by_cases here : isIndent c = true
    · have blank := isBlank_of_isIndent here
      rw [List.dropWhile_cons_of_pos here, ih, Text.trimStart, Text.trimStart,
        List.dropWhile_cons_of_pos blank]
    · rw [List.dropWhile_cons_of_neg here]

/-- A line with a visible character after its indentation does not end output, unless a prompt
stands there. -/
theorem endsOutput_of_visible {line rest : List Char} {c : Char}
    (shape : line.dropWhile isIndent = c :: rest) (visible : Text.isBlank c = false) :
    endsOutput line = prompt.isPrefixOf (c :: rest) := by
  have start : Text.trimStart line = c :: rest := by
    rw [← trimStart_dropWhile, shape, Text.trimStart, List.dropWhile_cons_of_neg (by simp [visible])]
  have notBlank : Text.allBlank line = false := by
    have inside : c ∈ line := (List.dropWhile_sublist isIndent).subset (shape ▸ List.mem_cons_self)
    rw [Text.allBlank, List.all_eq_false]
    exact ⟨c, inside, by simp [visible]⟩
  rw [endsOutput, start, notBlank, Bool.false_or]

/-- What ends output does not continue a source. -/
theorem continuation?_of_endsOutput {line : List Char} (ends : endsOutput line = true) :
    continuation? line = none := by
  rw [continuation?, drop_indentation]
  cases found : Text.stripStart? continuationPrompt (line.dropWhile isIndent) with
  | none => rfl
  | some after =>
    have shape := Text.stripStart?_eq_some.mp found
    rw [endsOutput_of_visible shape rfl] at ends
    cases ends

/-! ### Finished examples -/

/-- What is shown of a line of output: its directive comment is left out. -/
def shownOutput (text : List Char) : List Char :=
  match findDirective? text with
  | none => text
  | some (before, _) => Text.trimEnd before

theorem kept_of_outputOverrides {line : Nat} {o o' : Overrides} {texts kept : List (List Char)}
    (given : outputOverrides line o texts = .ok (o', kept)) : kept = texts.map shownOutput := by
  induction texts generalizing line o kept with
  | nil =>
    cases given
    rfl
  | cons text rest ih =>
    rw [outputOverrides] at given
    rw [List.map_cons, shownOutput]
    cases found : findDirective? text with
    | none =>
      rw [found] at given
      obtain ⟨⟨_, others⟩, later, same⟩ := map_eq_ok.mp given
      cases same
      rw [ih later]
    | some directive =>
      obtain ⟨before, body⟩ := directive
      rw [found] at given
      dsimp only at given
      split at given
      · obtain ⟨⟨_, others⟩, later, same⟩ := map_eq_ok.mp given
        cases same
        rw [ih later]
      · cases given

/-- The example of a snippet with the flags `o`. -/
def Snippet.example (settings : Settings) (s : Snippet) (block : Nat) (o : Overrides) : Example :=
  let source := Text.join ['\n'] s.source.reverse
  let want := Text.unlines (s.want.reverse.map shownOutput)
  { source := String.ofList source
    want := String.ofList want
    errorReport := (errorReport? want).map String.ofList
    line := s.line
    indent := s.indent
    overrides := o
    randomized := containsAny settings.randomizedMarkers source ||
      containsAny settings.randomizedMarkers want
    pseudocode := containsAny settings.pseudocodeMarkers source
    stopword := containsAny settings.stopwords source
    block }

theorem toExample_eq_ok {settings : Settings} {s : Snippet} {block : Nat} {e : Example}
    (given : s.toExample settings block = .ok e) : ∃ o, e = s.example settings block o := by
  obtain ⟨o, -, given⟩ := bind_eq_ok.mp given
  obtain ⟨⟨o', kept⟩, output, given⟩ := bind_eq_ok.mp given
  cases given
  exact ⟨o', by rw [kept_of_outputOverrides output]; rfl⟩

namespace State

variable {settings : Settings} {st st' : State} {line : List Char} {s : Snippet}

/-- The block of the example that is read next. -/
def nextBlock (st : State) : Nat :=
  if st.prose && !st.examples.isEmpty then st.block + 1 else st.block

/-- The state after an example. -/
def add (st : State) (e : Example) : State :=
  { st with mode := .between, prose := false, block := st.nextBlock, examples := e :: st.examples }

/-- The example that is open may end here. -/
def MayEnd (st : State) (s : Snippet) : Prop :=
  st.mode = .inOutput s ∨ st.mode = .inSource s ∧ s.checkEnd = .ok ()

theorem close_eq_ok : st.close settings s = .ok st' ↔
    ∃ e, s.toExample settings st.nextBlock = .ok e ∧ st' = st.add e := by
  change (s.toExample settings st.nextBlock >>= fun e => .ok (st.add e)) = .ok st' ↔ _
  simp only [bind_eq_ok, Except.ok.injEq, eq_comm (b := st')]

theorem finish_eq_ok : st.finish settings = .ok st' ↔ st.mode = .between ∧ st' = st ∨
    ∃ s e, st.MayEnd s ∧ s.toExample settings st.nextBlock = .ok e ∧ st' = st.add e := by
  unfold finish MayEnd
  cases st.mode with
  | between => simp [eq_comm]
  | inSource s =>
    simp only [bind_eq_ok, close_eq_ok, reduceCtorEq, false_and, false_or, Mode.inSource.injEq]
    constructor
    · rintro ⟨_, ended, e, made, same⟩
      exact ⟨s, e, ⟨rfl, ended⟩, made, same⟩
    · rintro ⟨_, e, ⟨rfl, ended⟩, made, same⟩
      exact ⟨(), ended, e, made, same⟩
  | inOutput s => simp [close_eq_ok]

theorem mode_of_finish (finished : st.finish settings = .ok st') : st'.mode = .between := by
  rcases finish_eq_ok.mp finished with ⟨mode, rfl⟩ | ⟨_, _, -, -, rfl⟩
  · exact mode
  · rfl

theorem line_of_finish (finished : st.finish settings = .ok st') : st'.line = st.line := by
  rcases finish_eq_ok.mp finished with ⟨-, rfl⟩ | ⟨_, _, -, -, rfl⟩
  all_goals rfl

theorem between_cases (reads : st.between line = .ok st') :
    (LineKind.of line = .blank ∨ LineKind.of line = .barePrompt) ∧ st' = st ∨
      LineKind.of line = .prose ∧ st' = { st with prose := true } ∨
      ∃ indent text, LineKind.of line = .source indent text ∧
        st' = { st with mode := .inSource ⟨st.line, indent, [text], []⟩ } := by
  rw [between] at reads
  cases kind : LineKind.of line with
  | blank | barePrompt =>
    rw [kind] at reads
    cases reads
    simp
  | prose =>
    rw [kind] at reads
    cases reads
    simp
  | crampedPrompt =>
    rw [kind] at reads
    cases reads
  | source indent text =>
    rw [kind] at reads
    cases reads
    simp

/-! ### Steps -/

/-- What the reader does with a line that it accepts. -/
inductive Reads (settings : Settings) (st : State) (line : List Char) : State → Prop where
  /-- Nothing is open, or the line ends what is open. -/
  | apart {closed next : State} (ends : st.mode = .between ∨ endsOutput line = true)
    (closes : st.finish settings = .ok closed) (reads : closed.between line = .ok next) :
    Reads settings st line { next with line := next.line + 1 }
  | source {s : Snippet} {text : List Char} (isOpen : st.mode = .inSource s)
    (more : continuation? line = some text) (column : indentation line = s.indent) :
    Reads settings st line
      { st with line := st.line + 1, mode := .inSource { s with source := text :: s.source } }
  | output {s : Snippet} (isOpen : st.MayEnd s)
    (ended : st.mode = .inSource s → continuation? line = none)
    (more : endsOutput line = false) (column : s.indent ≤ indentation line) :
    Reads settings st line { st with
      line := st.line + 1
      mode := .inOutput { s with want := line.drop s.indent :: s.want } }

/-- A line that ends output finishes what is open, and is then read on its own. -/
theorem step_of_ends (ends : endsOutput line = true) :
    st.step settings line = (do
      let next ← (← st.finish settings).between line
      return { next with line := next.line + 1 }) := by
  unfold step finish
  cases st.mode with
  | between => rfl
  | inSource s => simp [inSource, inOutput, continuation?_of_endsOutput ends, ends]
  | inOutput s => simp [inOutput, ends]

/-- So does any line where nothing is open. -/
theorem step_of_apart (ends : st.mode = .between ∨ endsOutput line = true) :
    st.step settings line = (do
      let next ← (← st.finish settings).between line
      return { next with line := next.line + 1 }) := by
  rcases ends with mode | ends
  · rw [step, finish, mode]
    rfl
  · exact step_of_ends ends

theorem inOutput_of_more (more : endsOutput line = false) :
    st.inOutput settings s line =
      if indentation line < s.indent then .error (.inconsistentIndentation st.line s.indent)
      else .ok { st with mode := .inOutput { s with want := line.drop s.indent :: s.want } } := by
  rw [inOutput, more]
  rfl

theorem inSource_of_more {text : List Char} (more : continuation? line = some text) :
    st.inSource settings s line =
      if indentation line ≠ s.indent then .error (.inconsistentIndentation st.line s.indent)
      else .ok { st with mode := .inSource { s with source := text :: s.source } } := by
  rw [inSource, more]
  dsimp only
  split <;> rfl

theorem inSource_of_ended (ended : continuation? line = none) :
    st.inSource settings s line = (do
      s.checkEnd
      st.inOutput settings s line) := by
  rw [inSource, ended]

theorem reads_of_inOutput (isOpen : st.MayEnd s)
    (ended : st.mode = .inSource s → continuation? line = none) (more : endsOutput line = false)
    (read : st.inOutput settings s line = .ok st') :
    Reads settings st line { st' with line := st'.line + 1 } := by
  rw [inOutput_of_more more] at read
  split at read
  · cases read
  · next column =>
    cases read
    exact .output isOpen ended more (Nat.le_of_not_lt column)

theorem reads_of_inSource (mode : st.mode = .inSource s) (more : endsOutput line = false)
    (read : st.inSource settings s line = .ok st') :
    Reads settings st line { st' with line := st'.line + 1 } := by
  cases continued : continuation? line with
  | some text =>
    rw [inSource_of_more continued] at read
    split at read
    · cases read
    · next column =>
      cases read
      exact .source mode continued (Decidable.not_not.mp column)
  | none =>
    rw [inSource_of_ended continued] at read
    obtain ⟨_, ended, read⟩ := bind_eq_ok.mp read
    exact reads_of_inOutput (.inr ⟨mode, ended⟩) (fun _ => continued) more read

theorem reads_of_step (given : st.step settings line = .ok st') : Reads settings st line st' := by
  by_cases ends : st.mode = .between ∨ endsOutput line = true
  · rw [step_of_apart ends] at given
    obtain ⟨closed, closes, onward⟩ := bind_eq_ok.mp given
    obtain ⟨next, reads, same⟩ := bind_eq_ok.mp onward
    cases same
    exact .apart ends closes reads
  · rw [not_or, Bool.not_eq_true] at ends
    obtain ⟨isOpen, more⟩ := ends
    rw [step] at given
    cases mode : st.mode with
    | between => exact absurd mode isOpen
    | inSource s =>
      rw [mode] at given
      obtain ⟨next, read, same⟩ := bind_eq_ok.mp given
      cases same
      exact reads_of_inSource mode more read
    | inOutput s =>
      rw [mode] at given
      obtain ⟨next, read, same⟩ := bind_eq_ok.mp given
      cases same
      exact reads_of_inOutput (.inl mode) (fun source => by rw [mode] at source; cases source)
        more read

theorem step_of_reads (reads : Reads settings st line st') : st.step settings line = .ok st' := by
  cases reads with
  | apart ends closes reads =>
    rw [step_of_apart ends]
    exact bind_eq_ok.mpr ⟨_, closes, bind_eq_ok.mpr ⟨_, reads, rfl⟩⟩
  | source isOpen more column =>
    rw [step, isOpen]
    dsimp only
    rw [inSource_of_more more, if_neg (Decidable.not_not.mpr column)]
    rfl
  | output isOpen ended more column =>
    rw [step]
    rcases isOpen with mode | ⟨mode, mayEnd⟩
    · rw [mode]
      dsimp only
      rw [inOutput_of_more more, if_neg (Nat.not_lt.mpr column)]
      rfl
    · rw [mode]
      dsimp only
      rw [inSource_of_ended (ended mode), mayEnd, inOutput_of_more more]
      rw [if_neg (Nat.not_lt.mpr column)]
      rfl

theorem step_eq_ok : st.step settings line = .ok st' ↔ Reads settings st line st' :=
  ⟨reads_of_step, step_of_reads⟩

/-- What holds before any line, and is kept by every line that is accepted, holds after a text. -/
theorem foldlM_step_invariant {P : List (List Char) → State → Prop}
    (keeps : ∀ seen st line st', P seen st → Reads settings st line st' → P (seen ++ [line]) st')
    (seen : List (List Char)) {lines : List (List Char)} (start : P seen st)
    (run : lines.foldlM (step settings) st = .ok st') : P (seen ++ lines) st' := by
  induction lines generalizing seen st with
  | nil =>
    cases run
    rwa [List.append_nil]
  | cons line rest ih =>
    obtain ⟨next, first, later⟩ := bind_eq_ok.mp run
    rw [List.append_cons]
    exact ih _ (keeps seen st line next start (step_eq_ok.mp first)) later

theorem line_of_between (reads : st.between line = .ok st') : st'.line = st.line := by
  rcases between_cases reads with ⟨-, rfl⟩ | ⟨-, rfl⟩ | ⟨_, _, -, rfl⟩
  all_goals rfl

theorem line_of_reads (reads : Reads settings st line st') : st'.line = st.line + 1 := by
  cases reads with
  | apart _ closes reads => rw [line_of_between reads, line_of_finish closes]
  | source | output => rfl

theorem line_of_foldlM {lines : List (List Char)}
    (run : lines.foldlM (step settings) start = .ok st) : st.line = lines.length :=
  foldlM_step_invariant (P := fun seen st => st.line = seen.length) (fun _ _ _ _ counted reads => by
    rw [line_of_reads reads, counted, List.length_append]
    rfl) [] rfl run

/-! ### Whole texts -/

/-- The state at the end of a text with these last lines. -/
def finished (settings : Settings) (st : State) (lines : List (List Char)) :
    Except ReadError State := do
  let st ← lines.foldlM (step settings) st
  st.finish settings

/-- The examples of a text that ends in this state. -/
def result (st : State) : List Example := applyBlockSkips st.examples.reverse

theorem mode_of_finished {lines : List (List Char)}
    (run : st.finished settings lines = .ok st') : st'.mode = .between := by
  obtain ⟨_, -, closes⟩ := bind_eq_ok.mp run
  exact mode_of_finish closes

theorem line_of_finished {lines : List (List Char)}
    (run : start.finished settings lines = .ok st) : st.line = lines.length := by
  obtain ⟨_, read, closes⟩ := bind_eq_ok.mp run
  rw [line_of_finish closes, line_of_foldlM read]

end State

theorem readLines_eq_map (settings : Settings) (lines : List (List Char)) :
    readLines settings lines = (State.start.finished settings lines).map State.result := by
  rw [readLines, State.finished]
  cases lines.foldlM (State.step settings) .start with
  | error e => rfl
  | ok st =>
    change (st.finish settings >>= _) = (st.finish settings).map _
    cases st.finish settings with
    | error e => rfl
    | ok closed => rfl

/-- Skipping blocks changes the flags of examples only. -/
theorem applyBlockSkips_eq_map (es : List Example) :
    ∃ o : Example → Overrides, applyBlockSkips es = es.map fun e => { e with overrides := o e } := by
  refine ⟨fun e => if (skippedBlocks es).contains e.block then (Example.skipped e).overrides
    else e.overrides, List.map_congr_left fun e _ => ?_⟩
  dsimp only
  split <;> rfl

end DocExamples.Transcript
