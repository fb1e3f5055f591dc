import DocExamples.Proofs.Transcript.Steps
import Mathlib.Data.List.Basic
/-!
No line of a text is lost. Each example has a window of lines, which are its source and its expected
output; the windows follow one another, and every other line is blank, a bare prompt or prose.
-/
namespace DocExamples

/-! ### Windows -/

namespace Example

def sourceLines (e : Example) : List (List Char) := Text.fields (· == '\n') e.source.toList

/-- Each of these lines ends in a line feed. -/
def wantLines (e : Example) : List (List Char) :=
  (Text.fields (· == '\n') e.want.toList).dropLast

def height (e : Example) : Nat := e.sourceLines.length + e.wantLines.length

/-- The line after the last line of the example. -/
def stop (e : Example) : Nat := e.line + e.height

/-- The lines of the text that the example was read from. -/
def window (lines : List (List Char)) (e : Example) : List (List Char) :=
  (lines.drop e.line).take e.height

theorem window_append {lines : List (List Char)} {e : Example} (inside : e.stop ≤ lines.length)
    (more : List (List Char)) : e.window (lines ++ more) = e.window lines := by
  have bound : e.line + e.height ≤ lines.length := inside
  rw [window, window, List.drop_append_of_le_length (by omega), List.take_append_of_le_length]
  rw [List.length_drop]
  omega

end Example

namespace Transcript

/-- The window of a prompt in column `indent`, with the texts of its source lines and of its
output lines: the prompt's line, then lines that continue the source, then lines of output. -/
inductive Window (indent : Nat) :
    (window source output : List (List Char)) → Prop where
  | prompt {line text : List Char} (starts : LineKind.of line = .source indent text) :
    Window indent [line] [text] []
  | more {window source : List (List Char)} {line text : List Char}
    (before : Window indent window source []) (continues : continuation? line = some text)
    (column : indentation line = indent) :
    Window indent (window ++ [line]) (source ++ [text]) []
  | output {window source output : List (List Char)} {line : List Char}
    (before : Window indent window source output) (inside : endsOutput line = false)
    (column : indent ≤ indentation line) :
    Window indent (window ++ [line]) source (output ++ [line.drop indent])

/-- The line belongs to no example: it is blank, a bare prompt or prose. -/
def StandsApart (line : List Char) : Prop :=
  LineKind.of line = .blank ∨ LineKind.of line = .barePrompt ∨ LineKind.of line = .prose

/-- How the lines of a text and its examples belong together. -/
structure Accounted (lines : List (List Char)) (es : List Example) : Prop where
  ordered : es.Pairwise fun a b => a.stop ≤ b.line
  inside : ∀ e ∈ es, e.stop ≤ lines.length
  written : ∀ e ∈ es, ∃ output, Window e.indent (e.window lines) e.sourceLines output ∧
    e.wantLines = output.map shownOutput
  outside : ∀ i line, lines[i]? = some line → (∀ e ∈ es, i < e.line ∨ e.stop ≤ i) →
    StandsApart line
  /-- Prose follows a window only where a prompt is hidden behind blanks other than spaces and
  tabs: that line ends the output, but it does not start an example. -/
  behind : ∀ e ∈ es, ∀ line, lines[e.stop]? = some line → LineKind.of line = .prose →
    prompt <+: Text.trimStart line

namespace Window

variable {indent : Nat} {window source output : List (List Char)}

theorem length_eq (written : Window indent window source output) :
    window.length = source.length + output.length := by
  induction written with
  | prompt => rfl
  | more _ _ _ ih => simpa using ih
  | output _ _ _ ih => simp [ih, Nat.add_assoc]

theorem head (written : Window indent window source output) :
    ∃ line text, window.head? = some line ∧ LineKind.of line = .source indent text := by
  induction written with
  | prompt starts => exact ⟨_, _, rfl, starts⟩
  | more _ _ _ ih | output _ _ _ ih =>
    obtain ⟨line, text, first, starts⟩ := ih
    exact ⟨line, text, by simp [first], starts⟩

theorem source_ne_nil (written : Window indent window source output) : source ≠ [] := by
  induction written with
  | prompt => exact List.cons_ne_nil _ _
  | more => simp
  | output _ _ _ ih => exact ih

end Window

/-! ### Texts in lines -/

theorem dropSpace_subset (text : List Char) : dropSpace text ⊆ text := by
  unfold dropSpace
  split
  · exact List.subset_cons_self _ _
  · exact List.Subset.refl _

theorem subset_of_stripStart? {start text rest : List Char}
    (found : Text.stripStart? start text = some rest) : rest ⊆ text := by
  rw [Text.stripStart?_eq_some.mp found]
  exact List.subset_append_right _ _

theorem subset_of_source {line text : List Char} {indent : Nat}
    (starts : LineKind.of line = .source indent text) : text ⊆ line := by
  rw [LineKind.of] at starts
  split at starts
  · split at starts <;> cases starts
  · next after found =>
    have inLine := List.Subset.trans (subset_of_stripStart? found) (List.drop_subset _ _)
    split at starts
    · cases starts
    · split at starts
      · cases starts
      · cases starts
        exact List.Subset.trans (dropSpace_subset after) inLine

theorem subset_of_continuation? {line text : List Char}
    (continues : continuation? line = some text) : text ⊆ line := by
  rw [continuation?] at continues
  split at continues
  · cases continues
  · next after found =>
    have inLine := List.Subset.trans (subset_of_stripStart? found) (List.drop_subset _ _)
    split at continues
    · cases continues
      exact List.Subset.trans (dropSpace_subset after) inLine
    · cases continues

theorem subset_of_splitComment? {state : QuoteState} {text before comment : List Char}
    (found : splitComment? state text = some (before, comment)) : before ⊆ text := by
  induction text generalizing state before with
  | nil => cases found
  | cons c rest ih =>
    rw [splitComment?] at found
    split at found
    · cases found
      exact List.nil_subset _
    · obtain ⟨⟨front, _⟩, later, same⟩ := Option.map_eq_some_iff.mp found
      cases same
      exact List.cons_subset_cons c (ih later)

theorem trimEnd_subset (text : List Char) : Text.trimEnd text ⊆ text := by
  intro c inside
  exact List.mem_reverse.mp
    ((List.dropWhile_sublist _).subset (List.mem_reverse.mp inside))

theorem shownOutput_subset (text : List Char) : shownOutput text ⊆ text := by
  rw [shownOutput]
  cases found : findDirective? text with
  | none => exact List.Subset.refl _
  | some directive =>
    obtain ⟨⟨before, comment⟩, split, found⟩ := Option.bind_eq_some_iff.mp found
    obtain ⟨body, -, same⟩ := Option.bind_eq_some_iff.mp found
    cases same
    exact List.Subset.trans (trimEnd_subset before) (subset_of_splitComment? split)

theorem Window.notMem {indent : Nat} {window source output : List (List Char)} {c : Char}
    (written : Window indent window source output) (free : ∀ l ∈ window, c ∉ l) :
    (∀ l ∈ source, c ∉ l) ∧ ∀ l ∈ output, c ∉ l := by
  induction written with
  | prompt starts =>
    rw [List.forall_mem_singleton] at free ⊢
    exact ⟨fun inside => free (subset_of_source starts inside), fun _ none => nomatch none⟩
  | more before continues _ ih =>
    rw [List.forall_mem_append, List.forall_mem_singleton] at free
    rw [List.forall_mem_append, List.forall_mem_singleton]
    exact ⟨⟨(ih free.1).1, fun inside => free.2 (subset_of_continuation? continues inside)⟩,
      (ih free.1).2⟩
  | output before _ _ ih =>
    rw [List.forall_mem_append, List.forall_mem_singleton] at free
    rw [List.forall_mem_append (p := fun l => c ∉ l), List.forall_mem_singleton]
    exact ⟨(ih free.1).1, (ih free.1).2, fun inside => free.2 (List.mem_of_mem_drop inside)⟩

/-! ### The window of a finished example -/

theorem lines_example (settings : Settings) {s : Snippet} (block : Nat) (o : Overrides)
    {window : List (List Char)} (written : Window s.indent window s.source.reverse s.want.reverse)
    (whole : ∀ l ∈ window, '\n' ∉ l) :
    (s.example settings block o).sourceLines = s.source.reverse ∧
      (s.example settings block o).wantLines = s.want.reverse.map shownOutput := by
  obtain ⟨source, want⟩ := written.notMem whole
  have shown : ∀ l ∈ s.want.reverse.map shownOutput, '\n' ∉ l := by
    intro l member
    obtain ⟨text, inside, rfl⟩ := List.mem_map.mp member
    exact fun feed => want text inside (shownOutput_subset text feed)
  constructor
  · rw [Example.sourceLines, Snippet.example, String.toList_ofList]
    exact Text.fields_join written.source_ne_nil source
  · rw [Example.wantLines, Snippet.example, String.toList_ofList, Text.fields_unlines shown,
      List.dropLast_concat]

namespace Accounted

variable {lines window : List (List Char)} {es : List Example}

theorem nil : Accounted [] [] where
  ordered := .nil
  inside _ member := nomatch member
  written _ member := nomatch member
  outside _ _ here := nomatch here
  behind _ member := nomatch member

theorem add_line (accounted : Accounted lines es) {line : List Char} (kind : StandsApart line)
    (hidden : LineKind.of line = .prose → (∃ e ∈ es, e.stop = lines.length) →
      prompt <+: Text.trimStart line) : Accounted (lines ++ [line]) es where
  ordered := accounted.ordered
  inside e member := by
    rw [List.length_append]
    exact Nat.le_add_right_of_le (accounted.inside e member)
  written e member := by
    rw [Example.window_append (accounted.inside e member)]
    exact accounted.written e member
  outside i line' here apart := by
    by_cases earlier : i < lines.length
    · rw [List.getElem?_append_left earlier] at here
      exact accounted.outside i line' here apart
    · rw [List.getElem?_append_right (Nat.le_of_not_lt earlier)] at here
      rwa [List.mem_singleton.mp (List.mem_of_getElem? here)]
  behind e member line' here prose := by
    by_cases earlier : e.stop < lines.length
    · rw [List.getElem?_append_left earlier] at here
      exact accounted.behind e member line' here prose
    · rw [List.getElem?_append_right (Nat.le_of_not_lt earlier)] at here
      rw [List.mem_singleton.mp (List.mem_of_getElem? here)] at prose ⊢
      have atEnd := Nat.le_antisymm (accounted.inside e member) (Nat.le_of_not_lt earlier)
      exact hidden prose ⟨e, member, atEnd⟩

theorem add_window (accounted : Accounted lines es) {e : Example} {output : List (List Char)}
    (line : e.line = lines.length) (written : Window e.indent window e.sourceLines output)
    (shown : e.wantLines = output.map shownOutput) :
    Accounted (lines ++ window) (es ++ [e]) := by
  have height : e.height = window.length := by
    rw [Example.height, shown, List.length_map, written.length_eq]
  have stop : e.stop = (lines ++ window).length := by
    rw [Example.stop, line, height, List.length_append]
  have split {P : Example → Prop} (front : ∀ e' ∈ es, P e') (last : P e) : ∀ e' ∈ es ++ [e], P e' :=
    List.forall_mem_append.mpr ⟨front, List.forall_mem_singleton.mpr last⟩
  refine {
    ordered := ?ordered
    inside := split ?inside (Nat.le_of_eq stop)
    written := split ?written ⟨output, ?window, shown⟩
    outside := ?outside
    behind := split ?behind ?last }
  case ordered =>
    rw [List.pairwise_append]
    refine ⟨accounted.ordered, List.pairwise_singleton _ _, fun a member b last => ?_⟩
    rw [List.mem_singleton.mp last, line]
    exact accounted.inside a member
  case inside =>
    intro e' member
    rw [List.length_append]
    exact Nat.le_add_right_of_le (accounted.inside e' member)
  case written =>
    intro e' member
    rw [Example.window_append (accounted.inside e' member)]
    exact accounted.written e' member
  case window =>
    rw [Example.window, line, List.drop_left, height, List.take_length]
    exact written
  case outside =>
    intro i line' here apart
    have inFront : i < lines.length := by
      have bound := (List.getElem?_eq_some_iff.mp here).1
      have := apart e (by simp)
      omega
    rw [List.getElem?_append_left inFront] at here
    exact accounted.outside i line' here fun e' member => apart e' (List.mem_append_left _ member)
  case behind =>
    intro e' member line' here prose
    by_cases earlier : e'.stop < lines.length
    · rw [List.getElem?_append_left earlier] at here
      exact accounted.behind e' member line' here prose
    · -- The new window stands directly behind this one, and its first line is a prompt.
      obtain ⟨first, text, head, starts⟩ := written.head
      have atEnd := Nat.le_antisymm (accounted.inside e' member) (Nat.le_of_not_lt earlier)
      rw [List.getElem?_append_right (Nat.le_of_eq atEnd.symm), atEnd, Nat.sub_self,
        ← List.head?_eq_getElem?, head] at here
      cases here
      rw [starts] at prose
      cases prose
  case last =>
    intro line' here
    rw [stop, List.getElem?_eq_none (Nat.le_refl _)] at here
    cases here

end Accounted

/-! ### The lines read so far -/

theorem visible_of_prose {line : List Char} (prose : LineKind.of line = .prose) :
    Text.allBlank line = false := by
  rw [LineKind.of] at prose
  split at prose
  · split at prose
    · cases prose
    · next visible => simpa using visible
  · split at prose
    · cases prose
    · split at prose <;> cases prose

namespace State

variable {settings : Settings} {st st' closed : State} {seen : List (List Char)} {line : List Char}
  {s : Snippet}

/-- The lines read so far end in the window of the open example. -/
def Opens (st : State) (seen : List (List Char)) (s : Snippet) : Prop :=
  ∃ front window, seen = front ++ window ∧ s.line = front.length ∧
    Accounted front st.examples.reverse ∧ Window s.indent window s.source.reverse s.want.reverse

/-- No line read so far is lost. Where nothing is open, a line was read since the last example, so
that the next line does not stand directly behind a window. -/
structure Kept (seen : List (List Char)) (st : State) : Prop where
  line : st.line = seen.length
  between : st.mode = .between →
    Accounted seen st.examples.reverse ∧ ∀ e ∈ st.examples, e.stop < seen.length
  inSource : ∀ s, st.mode = .inSource s → st.Opens seen s ∧ s.want = []
  inOutput : ∀ s, st.mode = .inOutput s → st.Opens seen s

theorem kept_start : Kept [] start where
  line := rfl
  between _ := ⟨.nil, fun _ member => nomatch member⟩
  inSource _ mode := nomatch mode
  inOutput _ mode := nomatch mode

theorem Kept.opens (kept : Kept seen st) (mayEnd : st.MayEnd s) : st.Opens seen s := by
  rcases mayEnd with mode | ⟨mode, -⟩
  · exact kept.inOutput s mode
  · exact (kept.inSource s mode).1

theorem Kept.finish (kept : Kept seen st) (whole : ∀ l ∈ seen, '\n' ∉ l)
    (finished : st.finish settings = .ok closed) : Accounted seen closed.examples.reverse := by
  rcases finish_eq_ok.mp finished with ⟨mode, rfl⟩ | ⟨s, e, mayEnd, made, rfl⟩
  · exact (kept.between mode).1
  · obtain ⟨front, window, rfl, line, accounted, written⟩ := kept.opens mayEnd
    obtain ⟨o, rfl⟩ := toExample_eq_ok made
    have whole : ∀ l ∈ window, '\n' ∉ l := fun l member => whole l (List.mem_append_right _ member)
    obtain ⟨source, want⟩ := lines_example settings st.nextBlock o written whole
    change Accounted _ (_ :: st.examples).reverse
    rw [List.reverse_cons]
    refine accounted.add_window line ?_ want
    rw [source]
    exact written

/-- The line behind a window is prose only if a prompt is hidden in it. -/
theorem Kept.hidden (kept : Kept seen st) (ends : st.mode = .between ∨ endsOutput line = true)
    (closes : st.finish settings = .ok closed) (prose : LineKind.of line = .prose)
    (follows : ∃ e ∈ closed.examples.reverse, e.stop = seen.length) :
    prompt <+: Text.trimStart line := by
  rcases ends with mode | ends
  · -- Nothing was open, so no window ends here.
    have same : closed = st := by
      rw [State.finish, mode] at closes
      exact (Except.ok.inj closes).symm
    obtain ⟨e, member, stop⟩ := follows
    rw [same, List.mem_reverse] at member
    exact absurd stop (Nat.ne_of_lt ((kept.between mode).2 e member))
  · rw [endsOutput, visible_of_prose prose, Bool.false_or] at ends
    exact List.isPrefixOf_iff_prefix.mp ends

theorem Kept.reads (kept : Kept seen st) (whole : ∀ l ∈ seen, '\n' ∉ l)
    (reads : Reads settings st line st') : Kept (seen ++ [line]) st' := by
  have counted : st'.line = (seen ++ [line]).length := by
    rw [line_of_reads reads, kept.line, List.length_append]
    rfl
  cases reads with
  | @apart closed next ends closes reads =>
    have accounted := kept.finish whole closes
    have mode := mode_of_finish closes
    have apart (kind : StandsApart line) : Accounted (seen ++ [line]) closed.examples.reverse ∧
        ∀ e ∈ closed.examples, e.stop < (seen ++ [line]).length := by
      refine ⟨accounted.add_line kind (kept.hidden ends closes), fun e member => ?_⟩
      rw [List.length_append]
      exact Nat.lt_succ_of_le (accounted.inside e (List.mem_reverse.mpr member))
    have closedLine := (line_of_finish closes).trans kept.line
    rcases between_cases reads with ⟨kind, rfl⟩ | ⟨kind, rfl⟩ | ⟨indent, text, kind, rfl⟩
    · exact ⟨counted, fun _ => apart (kind.imp_right .inl), by simp [mode], by simp [mode]⟩
    · exact ⟨counted, fun _ => apart (.inr (.inr kind)), by simp [mode], by simp [mode]⟩
    · refine ⟨counted, (fun mode => nomatch mode), fun s opened => ?_, fun _ mode => nomatch mode⟩
      cases opened
      exact ⟨⟨seen, [line], rfl, closedLine, accounted, .prompt kind⟩, rfl⟩
  | @source s text isOpen more column =>
    obtain ⟨⟨front, window, rfl, line, accounted, written⟩, fresh⟩ := kept.inSource _ isOpen
    refine ⟨counted, (fun mode => nomatch mode), fun s' opened => ?_, fun _ mode => nomatch mode⟩
    cases opened
    refine ⟨⟨front, _, List.append_assoc _ _ _, line, accounted, ?_⟩, fresh⟩
    rw [fresh] at written ⊢
    rw [List.reverse_cons]
    exact .more written more column
  | @output s isOpen ended more column =>
    obtain ⟨front, window, rfl, line, accounted, written⟩ := kept.opens isOpen
    refine ⟨counted, (fun mode => nomatch mode), (fun _ mode => nomatch mode), fun s' opened => ?_⟩
    cases opened
    refine ⟨front, _, List.append_assoc _ _ _, line, accounted, ?_⟩
    rw [List.reverse_cons]
    exact .output written more column

theorem kept_foldlM {lines : List (List Char)} (whole : ∀ l ∈ lines, '\n' ∉ l)
    (run : lines.foldlM (step settings) start = .ok st) : Kept lines st := by
  have kept := foldlM_step_invariant (P := fun seen st => (∀ l ∈ seen, '\n' ∉ l) → Kept seen st)
    (fun seen st line st' kept reads whole => ?_) [] (fun _ => kept_start) run
  · exact kept whole
  · have before : ∀ l ∈ seen, '\n' ∉ l := fun l member => whole l (List.mem_append_left _ member)
    exact (kept before).reads before reads

end State

/-! ### Whole texts -/

variable {settings : Settings}

/-- Windows do not depend on the flags of the examples. -/
theorem Accounted.map_overrides {lines : List (List Char)} {es : List Example}
    (accounted : Accounted lines es) (o : Example → Overrides) :
    Accounted lines (es.map fun e => { e with overrides := o e }) where
  ordered := List.pairwise_map.mpr accounted.ordered
  inside := List.forall_mem_map.mpr accounted.inside
  written := List.forall_mem_map.mpr accounted.written
  outside i line here apart := accounted.outside i line here (List.forall_mem_map.mp apart)
  behind := List.forall_mem_map.mpr accounted.behind

/-- No line is lost, except where a prompt is hidden behind a window. -/
theorem accounted_of_read {text : String} {es : List Example}
    (given : read settings text = .ok es) : Accounted (Text.lines text.toList) es := by
  rw [read, readLines_eq_map] at given
  obtain ⟨closed, finished, rfl⟩ := map_eq_ok.mp given
  obtain ⟨st, run, closes⟩ := bind_eq_ok.mp finished
  have whole : ∀ l ∈ Text.lines text.toList, '\n' ∉ l := fun l => Text.notMem_of_mem_lines
  obtain ⟨o, same⟩ := applyBlockSkips_eq_map closed.examples.reverse
  rw [State.result, same]
  exact ((State.kept_foldlM whole run).finish whole closes).map_overrides o

theorem accounted_of_read_indented :
    ∃ es, read .defaults "Two:\n  >>> f(1,\n  ...   2)\n  3 # doctest: +SKIP\n\n>>> g()\n" = .ok es ∧
      Accounted (Text.lines
        "Two:\n  >>> f(1,\n  ...   2)\n  3 # doctest: +SKIP\n\n>>> g()\n".toList) es :=
  ⟨_, rfl, accounted_of_read rfl⟩

/-- The line of a prompt behind a form feed ends the output before it and is then dropped. -/
theorem prompt_behind_form_feed :
    (read .defaults ">>> 1\n1\n\x0c>>> 2\n").toOption.map
        (·.map fun e => (e.source, e.line, e.stop)) = some [("1", 0, 2)] ∧
      (Text.lines ">>> 1\n1\n\x0c>>> 2\n".toList)[2]?.map LineKind.of = some .prose := by
  decide

end Transcript
end DocExamples
