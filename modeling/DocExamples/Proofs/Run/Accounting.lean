import DocExamples.Proofs.Run.Visits
import DocExamples.Script.Session
import DocExamples.Transcript.Reader
import Mathlib.Data.List.Forall2
/-!
What the report on a unit accounts for. A session counts the states of the examples it has visited;
a visit keeps that, hence so does a run. Examples behind a failure that ends the run are pending and
are counted nowhere.
-/
namespace DocExamples

def DoctestReport.states (r : DoctestReport) : List ExampleState := r.examples.map (·.state)

/-- The session has counted examples that ended in these states, and knows whether one of them raised
an unexpected error. -/
structure Session.Tallies (session : Session) (states : List ExampleState) : Prop where
  attempted : session.attempted = states.count .passed + states.countP ExampleState.hasFailed
  failed : session.failed = states.countP ExampleState.hasFailed
  skipped : session.skipped = states.count .skipped
  hadError : session.hadError = states.any ExampleState.isUnexpected

/-- The report is on this example. -/
def ExampleReport.IsOn (e : Example) (r : ExampleReport) : Prop :=
  r.line = e.line ∧ r.source = e.source ∧ r.want = e.want

/-- The examples that a run visited, and those it left out because the last of the others failed. -/
structure Cut (settings : Settings) (seen unseen : List ExampleReport) : Prop where
  seen_not_pending : ∀ r ∈ seen, r.state ≠ .pending
  unseen_pending : ∀ r ∈ unseen, r.state = .pending
  stopped : unseen ≠ [] → settings.stopOnFirstFailure = true ∧
    ∃ front last, seen = front ++ [last] ∧ last.state.hasFailed = true ∧
      ∀ r ∈ front, r.state.hasFailed = false

/-! ### Counting -/

namespace Session.Tallies

variable {session : Session} {states : List ExampleState}

theorem start : Session.Tallies {} [] := ⟨rfl, rfl, rfl, rfl⟩

theorem skip (tallies : session.Tallies states) : session.skip.Tallies (states ++ [.skipped]) where
  attempted := by simp [Session.skip, tallies.attempted]
  failed := by simp [Session.skip, tallies.failed]
  skipped := by simp [Session.skip, tallies.skipped]
  hadError := by simp [Session.skip, tallies.hadError, ExampleState.isUnexpected]

theorem pass (tallies : session.Tallies states) :
    (session.add ⟨.passed, session.hadError⟩).Tallies (states ++ [.passed]) where
  attempted := by
    simp only [Session.add, tallies.attempted, List.count_append, List.count_singleton_self,
      List.countP_append, List.countP_singleton]
    simp [Nat.add_right_comm]
  failed := by simp [Session.add, tallies.failed]
  skipped := by simp [Session.add, tallies.skipped]
  hadError := by simp [Session.add, tallies.hadError, ExampleState.isUnexpected]

theorem fail {f : Failure} {hadError : Bool} (tallies : session.Tallies states)
    (noted : hadError = (session.hadError || (ExampleState.failed f).isUnexpected)) :
    (session.add ⟨.failed f, hadError⟩).Tallies (states ++ [.failed f]) where
  attempted := by simp [Session.add, tallies.attempted, Nat.add_assoc]
  failed := by simp [Session.add, tallies.failed]
  skipped := by simp [Session.add, tallies.skipped]
  hadError := by simp [Session.add, tallies.hadError, noted]

theorem leave (tallies : session.Tallies states) (n : Nat) :
    session.Tallies (states ++ List.replicate n .pending) where
  attempted := by simp [tallies.attempted, List.count_replicate, List.countP_replicate]
  failed := by simp [tallies.failed, List.countP_replicate]
  skipped := by simp [tallies.skipped, List.count_replicate]
  hadError := by simp [tallies.hadError, ExampleState.isUnexpected]

end Session.Tallies

variable {i : Interpreter} {checker : Output.Checker} {settings : Settings}
  {session session' last : Session} {ns ns' : i.Namespace} {e : Example} {es : List Example}
  {state : ExampleState} {reports : List ExampleReport}

theorem Visits.tallies {states : List ExampleState}
    (visits : Visits i checker settings session ns e state session' ns')
    (tallies : session.Tallies states) : session'.Tallies (states ++ [state]) := by
  cases visits with
  | skipped => exact tallies.skip
  | illustration =>
    cases i.syntaxError? e.source with
    | none => exact tallies.pass
    | some error => exact tallies.fail (by simp [ExampleState.isUnexpected])
  | documented | accepted => exact tallies.pass
  | cascade | mismatch => exact tallies.fail (by simp [ExampleState.isUnexpected])
  | unexpected => exact tallies.fail (by simp [ExampleState.isUnexpected])

namespace Runs

/-- What a session knows at the end of a run, whatever it knew before. -/
theorem tallies (runs : Runs i checker settings session ns es reports last)
    {states : List ExampleState} (before : session.Tallies states) :
    last.Tallies (states ++ reports.map (·.state)) := by
  induction runs generalizing states with
  | nil => simpa using before
  | @stop _ _ _ _ e rest state visits =>
    have left : rest.map (fun e => (ExampleReport.pending e).state) =
        List.replicate rest.length .pending := by
      rw [List.eq_replicate_iff]
      simp [ExampleReport.pending]
    have tallies := (visits.tallies before).leave rest.length
    simpa [ExampleReport.withState, List.map_map, Function.comp_def, left] using tallies
  | next visits _ _ ih =>
    have tallies := ih (visits.tallies before)
    simpa [ExampleReport.withState] using tallies

/-- There is a report on every example, in order. -/
theorem isOn (runs : Runs i checker settings session ns es reports last) :
    List.Forall₂ ExampleReport.IsOn es reports := by
  induction runs with
  | nil => exact .nil
  | stop =>
    refine .cons ⟨rfl, rfl, rfl⟩ ?_
    rw [List.forall₂_map_right_iff]
    exact List.forall₂_same.mpr fun e _ => ⟨rfl, rfl, rfl⟩
  | next _ _ _ ih => exact .cons ⟨rfl, rfl, rfl⟩ ih

theorem not_executing (runs : Runs i checker settings session ns es reports last) :
    ∀ r ∈ reports, r.state ≠ .executing := by
  induction runs with
  | nil => simp
  | stop visits => simp [ExampleReport.withState, ExampleReport.pending, visits.ended.2]
  | next visits _ _ ih =>
    simpa [ExampleReport.withState, visits.ended.2] using ih

theorem cut (runs : Runs i checker settings session ns es reports last) :
    ∃ seen unseen, reports = seen ++ unseen ∧ Cut settings seen unseen := by
  induction runs with
  | nil => exact ⟨[], [], rfl, by simp, by simp, by simp⟩
  | @stop _ _ _ _ e rest state visits failed stops =>
    refine ⟨[(ExampleReport.pending e).withState state], rest.map .pending, rfl, ?_, ?_, ?_⟩
    · simpa [ExampleReport.withState] using visits.ended.1
    · simp [ExampleReport.pending]
    · exact fun _ => ⟨stops, [], _, rfl, failed, by simp⟩
  | @next _ _ _ _ _ e _ state _ visits goesOn _ ih =>
    obtain ⟨seen, unseen, rfl, cut⟩ := ih
    refine ⟨(ExampleReport.pending e).withState state :: seen, unseen, rfl, ?_,
      cut.unseen_pending, ?_⟩
    · intro r member
      rcases List.mem_cons.mp member with rfl | member
      · exact visits.ended.1
      · exact cut.seen_not_pending r member
    · intro some
      obtain ⟨stops, front, last, rfl, failed, others⟩ := cut.stopped some
      refine ⟨stops, (ExampleReport.pending e).withState state :: front, last, rfl, failed, ?_⟩
      intro r member
      rcases List.mem_cons.mp member with rfl | member
      · -- Had this one failed, the run would have ended here.
        cases first : state.hasFailed with
        | false => exact first
        | true => simp [goesOn first] at stops
      · exact others r member

end Runs

/-! ### The report on a unit -/

/-- The counts of a report are those of the states in it. -/
theorem tallies_of_runDoctest {files : FileSource} {d : Doctest} {r : DoctestReport}
    (given : runDoctest i checker settings files d = .ok r) :
    ∃ session : Session, session.Tallies r.states ∧ r.counts = session.counts settings := by
  obtain ⟨_, _, session, _, _, runs, counted⟩ := runs_of_runDoctest given
  have tallies := runs.tallies .start
  exact ⟨session, tallies, counted⟩

theorem failed_of_runDoctest {files : FileSource} {d : Doctest} {r : DoctestReport}
    (given : runDoctest i checker settings files d = .ok r) :
    r.counts.failed = r.states.countP ExampleState.hasFailed := by
  obtain ⟨session, tallies, counted⟩ := tallies_of_runDoctest given
  rw [counted]
  exact tallies.failed

/-- The report tells of all examples of the unit, and its counts of all states in it. -/
structure DoctestReport.Accounts (settings : Settings) (d : Doctest) (r : DoctestReport) :
    Prop where
  examples : List.Forall₂ ExampleReport.IsOn d.examples r.examples
  not_executing : .executing ∉ r.states
  failed : r.counts.failed = r.states.countP ExampleState.hasFailed
  skipped : r.counts.skipped = r.states.count .skipped
  attempted : r.counts.attempted =
    r.states.count .passed + r.states.countP ExampleState.hasFailed +
      if settings.countSkippedAsAttempted then r.states.count .skipped else 0
  failed_le_attempted : r.counts.failed ≤ r.counts.attempted
  cut : ∃ seen unseen, r.examples = seen ++ unseen ∧ Cut settings seen unseen

theorem accounts_of_runDoctest {files : FileSource} {d : Doctest} {r : DoctestReport}
    (given : runDoctest i checker settings files d = .ok r) : r.Accounts settings d := by
  obtain ⟨_, _, _, _, _, runs, _⟩ := runs_of_runDoctest given
  obtain ⟨session, tallies, counted⟩ := tallies_of_runDoctest given
  have failed := failed_of_runDoctest given
  have skipped : r.counts.skipped = r.states.count .skipped := by
    rw [counted]
    exact tallies.skipped
  have attempted : r.counts.attempted =
      r.states.count .passed + r.states.countP ExampleState.hasFailed +
        if settings.countSkippedAsAttempted then r.states.count .skipped else 0 := by
    rw [counted, Session.counts, tallies.attempted, tallies.skipped]
    split <;> rfl
  constructor
  · exact runs.isOn
  · simpa [DoctestReport.states] using runs.not_executing
  · exact failed
  · exact skipped
  · exact attempted
  · omega
  · exact runs.cut

/-- The run skips the second example, ends at the third and leaves the fourth pending; what it skips
counts as attempted here. -/
theorem accounts_of_runDoctest_stopped :
    ∃ d r,
      Transcript.readDoctest .defaults
          ">>> x = 1\n>>> y # doctest: +SKIP\n>>> y\n>>> x\n1\n" "unit" none 0 [] = .ok d ∧
      runDoctest (Script.interpreter .defaults) .exact
          { Settings.defaults with stopOnFirstFailure := true, countSkippedAsAttempted := true }
          (Directory.source []) d = .ok r ∧
      r.counts = ⟨3, 1, 1⟩ ∧
      r.Accounts
        { Settings.defaults with stopOnFirstFailure := true, countSkippedAsAttempted := true } d := by
  have given : ((Transcript.readDoctest .defaults
      ">>> x = 1\n>>> y # doctest: +SKIP\n>>> y\n>>> x\n1\n" "unit" none 0 []).toOption.bind fun d =>
        (runDoctest (Script.interpreter .defaults) .exact
          { Settings.defaults with stopOnFirstFailure := true, countSkippedAsAttempted := true }
          (Directory.source []) d).toOption.map (·.counts)) = some ⟨3, 1, 1⟩ := by
    decide +kernel
  obtain ⟨d, r, read, ran, counts⟩ := exists_of_toOption_bind given
  exact ⟨d, r, read, ran, counts, accounts_of_runDoctest ran⟩

end DocExamples
