import DocExamples.CommandLine
import DocExamples.Proofs.History
import DocExamples.Proofs.Run.Accounting
/-!
The verdict on a test run. It is read off the totals of the history; `TestRun.Adds` ties these to the
states of the examples and holds of what every file, tree or list of units gives, and of all that is
merged from such runs.
-/
namespace DocExamples

namespace TestRun

/-- No example failed, because of an earlier error or for another reason, and every unit could be
read. -/
def NothingFailed (run : TestRun) : Prop :=
  (∀ r ∈ run.reports, ∀ e ∈ r.examples, ∀ f, e.state ≠ .failed f) ∧ run.collectErrors = []

/-- Runs of units, of files and of trees, in whatever order and grouping they are merged. -/
inductive Produced : TestRun → Prop where
  | empty : Produced .empty
  | units {w : Workshop} {settings : Settings} {units : List Doctest} {reports : List DoctestReport}
    (errors : List CollectError) (ran : w.runAll settings units = .ok reports) :
    Produced (.ofReports reports errors)
  | file {w : Workshop} {settings : Settings} {path : String} {run : TestRun}
    (tested : w.testFile settings path = .ok run) : Produced run
  | tree {w : Workshop} {settings : Settings} {t : SymbolTree} {run : TestRun}
    (tested : w.testTree settings t = .ok run) : Produced run
  | dump {w : Workshop} {settings : Settings} {path : String} {run : TestRun}
    (tested : w.testDump settings path = .ok run) : Produced run
  | merge {a b : TestRun} (first : Produced a) (second : Produced b) : Produced (a.merge b)

/-- The totals add up the counts of the reports, which have counted the failed examples. -/
structure Adds (run : TestRun) : Prop where
  indexed : run.history.Indexed
  totals : run.totals = Counts.sum (run.reports.map (·.counts))
  failed : ∀ r ∈ run.reports, r.counts.failed = r.states.countP ExampleState.hasFailed

/-! ### Totals -/

theorem adds_ofReports {reports : List DoctestReport} (errors : List CollectError)
    (failed : ∀ r ∈ reports, r.counts.failed = r.states.countP ExampleState.hasFailed) :
    (ofReports reports errors).Adds := by
  have recorded := History.totals_records (reports.map fun r => (r.name, r.counts))
    History.indexed_empty
  rw [List.foldl_map, List.map_map] at recorded
  constructor
  · exact recorded.1
  · rw [totals, ofReports, recorded.2, History.totals_eq_sum, History.empty]
    exact Counts.zero_add _
  · exact failed

theorem adds_empty : empty.Adds := @adds_ofReports [] [] (by simp)

theorem Adds.merge {a b : TestRun} (first : a.Adds) (second : b.Adds) : (a.merge b).Adds := by
  constructor
  · exact first.indexed.merge b.history
  · calc
      (a.merge b).totals = a.totals.add b.totals := History.totals_merge first.indexed b.history
      _ = (Counts.sum (a.reports.map (·.counts))).add (Counts.sum (b.reports.map (·.counts))) := by
        rw [first.totals, second.totals]
      _ = Counts.sum ((a.merge b).reports.map (·.counts)) := by
        simp [TestRun.merge, Counts.sum_append]
  · intro r member
    rcases List.mem_append.mp member with member | member
    · exact first.failed r member
    · exact second.failed r member

end TestRun

namespace Workshop

variable {w : Workshop} {settings : Settings} {run : TestRun}

theorem failed_of_runAll {units : List Doctest} {reports : List DoctestReport}
    (ran : w.runAll settings units = .ok reports) :
    ∀ r ∈ reports, r.counts.failed = r.states.countP ExampleState.hasFailed := by
  intro r member
  obtain ⟨_, _, given⟩ := exists_of_mapM_eq_ok (mapError_eq_ok.mp ran) r member
  exact failed_of_runDoctest given

theorem adds_of_testFile {path : String} (tested : w.testFile settings path = .ok run) :
    run.Adds := by
  obtain ⟨_, _, tested⟩ := bind_eq_ok.mp tested
  obtain ⟨_, _, tested⟩ := bind_eq_ok.mp tested
  dsimp only at tested
  split at tested
  · cases tested
    exact TestRun.adds_ofReports _ (by simp)
  · obtain ⟨_, ran, tested⟩ := bind_eq_ok.mp tested
    cases tested
    exact TestRun.adds_ofReports _ (failed_of_runAll ran)

theorem adds_of_testTree {t : SymbolTree} (tested : w.testTree settings t = .ok run) :
    run.Adds := by
  obtain ⟨_, _, tested⟩ := bind_eq_ok.mp tested
  obtain ⟨_, ran, tested⟩ := bind_eq_ok.mp tested
  cases tested
  exact TestRun.adds_ofReports _ (failed_of_runAll ran)

theorem adds_of_testDump {path : String} (tested : w.testDump settings path = .ok run) :
    run.Adds := by
  obtain ⟨_, _, tested⟩ := bind_eq_ok.mp tested
  exact adds_of_testTree tested

end Workshop

namespace TestRun

theorem Produced.adds {run : TestRun} (produced : Produced run) : run.Adds := by
  induction produced with
  | empty => exact adds_empty
  | units errors ran => exact adds_ofReports errors (Workshop.failed_of_runAll ran)
  | file tested => exact Workshop.adds_of_testFile tested
  | tree tested => exact Workshop.adds_of_testTree tested
  | dump tested => exact Workshop.adds_of_testDump tested
  | merge _ _ first second => exact first.merge second

/-! ### Verdicts -/

theorem Adds.succeeded_iff {run : TestRun} (adds : run.Adds) :
    run.succeeded = true ↔ run.NothingFailed := by
  have none : run.totals.failed = 0 ↔
      ∀ r ∈ run.reports, ∀ e ∈ r.examples, ∀ f, e.state ≠ .failed f := by
    rw [adds.totals, Counts.failed_sum_eq_zero, List.forall_mem_map]
    refine forall₂_congr fun r member => ?_
    rw [adds.failed r member, List.countP_eq_zero, DoctestReport.states, List.forall_mem_map]
    simp [ExampleState.hasFailed_iff]
  simp [succeeded, NothingFailed, Counts.hasFailures, none]

theorem lastLine_suffix (run : TestRun) (settings : Settings) :
    run.lastLine.toList <:+ (run.render settings).toList := by
  rw [render, String.toList_append]
  exact List.suffix_append _ _

/-- The last line says whether the run succeeded. -/
theorem render_ends_in_failed_iff (run : TestRun) (settings : Settings) :
    "FAILED\n".toList <:+ (run.render settings).toList ↔ run.succeeded = false := by
  have last := run.lastLine_suffix settings
  constructor
  · intro failed
    rw [lastLine] at last
    cases succeeded : run.succeeded with
    | false => rfl
    | true =>
      cases none : run.reports.isEmpty with
      | true =>
        rw [succeeded, none] at last
        have short := List.suffix_of_suffix_length_le failed last (by decide)
        exact absurd short (by decide)
      | false =>
        rw [succeeded, none] at last
        have short := List.suffix_of_suffix_length_le last failed (by decide)
        exact absurd short (by decide)
  · intro failed
    rw [lastLine, failed] at last
    exact last

/-- The verdict is on the examples and on what could not be read, the totals are those of the
reports, and the last line tells the verdict. -/
structure Judged (run : TestRun) : Prop where
  succeeded : run.succeeded = true ↔ run.NothingFailed
  totals : run.totals = Counts.sum (run.reports.map (·.counts))
  last : ∀ settings : Settings,
    "FAILED\n".toList <:+ (run.render settings).toList ↔ run.succeeded = false

end TestRun

/-! ### The program -/

namespace CommandLine

variable {w : Workshop} {request : Request} {run : TestRun}

theorem produced_of_testPath {settings : Settings} {path : String}
    (tested : testPath w settings path = .ok run) : run.Produced := by
  rw [testPath] at tested
  split at tested
  · exact .dump tested
  · exact .file tested

theorem produced_of_testAll (tested : testAll w request = .ok run) : run.Produced := by
  obtain ⟨_, _, tested⟩ := bind_eq_ok.mp tested
  refine foldlM_invariant (fun total path next produced added => ?_) .empty tested
  obtain ⟨one, tested, merged⟩ := bind_eq_ok.mp added
  cases merged
  exact produced.merge (produced_of_testPath tested)

/-- However a run comes about, its verdict is right. The program ends in a run, if all files can be
tested, and its exit code tells whether something failed in it. -/
theorem judged_of_produced :
    (∀ run : TestRun, run.Produced → run.Judged) ∧
    ∀ (w : Workshop) (arguments : List String) (request : Request),
      readArguments arguments = .ok request →
      (∃ e, testAll w request = .error e ∧
        answer w arguments = ⟨2, "", "error: " ++ e.message ++ "\n"⟩) ∨
      ∃ run, testAll w request = .ok run ∧ run.Produced ∧
        (answer w arguments).output = run.render request.settings ∧
        ((answer w arguments).code = 0 ↔ run.NothingFailed) := by
  refine ⟨fun run produced => ?_, fun w arguments request understood => ?_⟩
  · have adds := produced.adds
    exact ⟨adds.succeeded_iff, adds.totals, run.render_ends_in_failed_iff⟩
  · cases tested : testAll w request with
    | error e => exact .inl ⟨e, rfl, by simp [answer, understood, tested]⟩
    | ok run =>
      have produced := produced_of_testAll tested
      refine .inr ⟨run, rfl, produced, by simp [answer, understood, tested], ?_⟩
      simp [answer, understood, tested, ← produced.adds.succeeded_iff]

/-- Two files of one name. In the second a name is undefined, and then another. -/
def namesakes : Workshop where
  interpreter := Script.interpreter .defaults
  checker := .exact
  files := Directory.source
    [("unit.txt", .file ">>> x = 1\n>>> x\n1\n".toUTF8),
      ("more", .directory [("unit.txt", .file ">>> y\n>>> z\n".toUTF8)])]

theorem judged_of_produced_namesakes :
    ∃ request run, readArguments ["unit.txt", "more/unit.txt"] = .ok request ∧
      testAll namesakes request = .ok run ∧
      run.history.entries = [("unit.txt", ⟨4, 2, 0⟩)] ∧ run.Produced ∧ run.Judged ∧
      (answer namesakes ["unit.txt", "more/unit.txt"]).code = 1 ∧ ¬ run.NothingFailed := by
  have given : ((readArguments ["unit.txt", "more/unit.txt"]).toOption.bind fun request =>
      (testAll namesakes request).toOption.map (·.history.entries)) =
      some [("unit.txt", ⟨4, 2, 0⟩)] := by
    decide +kernel
  obtain ⟨request, run, understood, tested, entries⟩ := exists_of_toOption_bind given
  have code : (answer namesakes ["unit.txt", "more/unit.txt"]).code = 1 := by decide +kernel
  obtain ⟨e, failed, _⟩ | ⟨_, same, produced, _, verdict⟩ :=
    judged_of_produced.2 namesakes _ _ understood
  · cases failed.symm.trans tested
  · cases same.symm.trans tested
    refine ⟨request, run, understood, tested, entries, produced, judged_of_produced.1 run produced,
      code, ?_⟩
    rw [← verdict, code]
    decide

end CommandLine

end DocExamples
