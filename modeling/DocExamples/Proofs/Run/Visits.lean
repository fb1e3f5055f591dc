import DocExamples.Proofs.Except
import DocExamples.Run.Runner
/-!
What a run does. `Visits` says all that can happen to one example, and in which order the cases are
tried; `Runs` strings the visits of a unit together, up to a failure that ends the run.
-/
namespace DocExamples

namespace Example

/-- The example's flags skip it. -/
def isSkipped (settings : Settings) (e : Example) : Bool :=
  (e.overrides.resolve settings.flags).toOption.any Flags.requestsSkip

/-- The interpreter executes the example if the run reaches it. -/
def isExecuted (settings : Settings) (e : Example) : Bool :=
  !e.isSkipped settings && !e.pseudocode

end Example

namespace ExampleState

def isUnexpected : ExampleState → Bool
  | .failed (.unexpectedError ..) => true
  | _ => false

theorem exists_of_isUnexpected {state : ExampleState} (unexpected : state.isUnexpected = true) :
    ∃ output error, state = .failed (.unexpectedError output error) := by
  unfold isUnexpected at unexpected
  split at unexpected
  · exact ⟨_, _, rfl⟩
  · cases unexpected

theorem hasFailed_iff {state : ExampleState} : state.hasFailed = true ↔ ∃ f, state = .failed f := by
  cases state <;> simp [hasFailed, failure?]

end ExampleState

section

variable (i : Interpreter) (checker : Output.Checker) (settings : Settings)

/-- A visit of the example `e`: the state it ends in, what is counted afterwards, and the
namespace it leaves. -/
inductive Visits (session : Session) (ns : i.Namespace) (e : Example) :
    ExampleState → Session → i.Namespace → Prop where
  | skipped (skips : e.isSkipped settings = true) :
    Visits session ns e .skipped session.skip ns
  | illustration (stays : e.isSkipped settings = false) (pseudocode : e.pseudocode = true) :
    Visits session ns e (illustrationState (i.syntaxError? e.source))
      (session.add ⟨illustrationState (i.syntaxError? e.source), session.hadError⟩) ns
  | documented {output : String} {error : Raised} {ns' : i.Namespace}
    (executed : e.isExecuted settings = true)
    (raises : i.execute e.source ns = (⟨output, some error⟩, ns'))
    (documented : checker.checkError settings e error.reportLine = .ok true) :
    Visits session ns e .passed (session.add ⟨.passed, session.hadError⟩) ns'
  | cascade {output : String} {error : Raised} {ns' : i.Namespace}
    (executed : e.isExecuted settings = true)
    (raises : i.execute e.source ns = (⟨output, some error⟩, ns'))
    (undocumented : checker.checkError settings e error.reportLine = .ok false)
    (undefined : error.category = .undefinedName) (later : session.hadError = true) :
    Visits session ns e (.failed (.cascade error))
      (session.add ⟨.failed (.cascade error), session.hadError⟩) ns'
  | unexpected {output : String} {error : Raised} {ns' : i.Namespace}
    (executed : e.isExecuted settings = true)
    (raises : i.execute e.source ns = (⟨output, some error⟩, ns'))
    (undocumented : checker.checkError settings e error.reportLine = .ok false)
    (own : ¬ (error.category = .undefinedName ∧ session.hadError = true)) :
    Visits session ns e (.failed (.unexpectedError output error))
      (session.add ⟨.failed (.unexpectedError output error), true⟩) ns'
  | accepted {output : String} {verdict : Output.Verdict} {ns' : i.Namespace}
    (executed : e.isExecuted settings = true)
    (prints : i.execute e.source ns = (⟨output, none⟩, ns'))
    (judged : checker.check settings e output = .ok verdict) (passes : verdict.isPass = true) :
    Visits session ns e .passed (session.add ⟨.passed, session.hadError⟩) ns'
  | mismatch {output : String} {verdict : Output.Verdict} {ns' : i.Namespace}
    (executed : e.isExecuted settings = true)
    (prints : i.execute e.source ns = (⟨output, none⟩, ns'))
    (judged : checker.check settings e output = .ok verdict) (fails : verdict.isPass = false) :
    Visits session ns e (.failed (.mismatch output))
      (session.add ⟨.failed (.mismatch output), session.hadError⟩) ns'

/-- A run over examples that are pending: the reports it leaves and what it has counted. -/
inductive Runs : Session → i.Namespace → List Example → List ExampleReport → Session → Prop where
  | nil {session : Session} {ns : i.Namespace} : Runs session ns [] [] session
  | stop {session session' : Session} {ns ns' : i.Namespace} {e : Example} {rest : List Example}
    {state : ExampleState} (visits : Visits i checker settings session ns e state session' ns')
    (failed : state.hasFailed = true) (stops : settings.stopOnFirstFailure = true) :
    Runs session ns (e :: rest)
      ((ExampleReport.pending e).withState state :: rest.map .pending) session'
  | next {session session' last : Session} {ns ns' : i.Namespace} {e : Example}
    {rest : List Example} {state : ExampleState} {reports : List ExampleReport}
    (visits : Visits i checker settings session ns e state session' ns')
    (goesOn : state.hasFailed = true → settings.stopOnFirstFailure = false)
    (later : Runs session' ns' rest reports last) :
    Runs session ns (e :: rest) ((ExampleReport.pending e).withState state :: reports) last

end

variable {i : Interpreter} {checker : Output.Checker} {settings : Settings}
  {session session' last : Session} {ns ns' : i.Namespace} {e : Example} {state : ExampleState}
  {items : List (Example × ExampleReport)} {reports : List ExampleReport}

theorem isSkipped_of_resolve {flags : Flags}
    (resolved : e.overrides.resolve settings.flags = .ok flags) :
    e.isSkipped settings = flags.requestsSkip := by
  rw [Example.isSkipped, resolved]
  rfl

/-- An example that is executed, by what the interpreter answers. -/
theorem visits_of_execute {outcome : Outcome} {ending : Ending}
    (executed : e.isExecuted settings = true) (answers : i.execute e.source ns = (outcome, ns'))
    (ended : outcomeEnding checker settings e session.hadError outcome = .ok ending) :
    Visits i checker settings session ns e ending.state (session.add ending) ns' := by
  obtain ⟨output, error⟩ := outcome
  cases error with
  | none =>
    obtain ⟨verdict, judged, ended⟩ := bind_eq_ok.mp ended
    cases ended
    cases passes : verdict.isPass with
    | true => simpa [passes] using Visits.accepted executed answers judged passes
    | false => simpa [passes] using Visits.mismatch executed answers judged passes
  | some error =>
    obtain ⟨documented, compared, ended⟩ := bind_eq_ok.mp ended
    cases documented with
    | true =>
      cases ended
      exact .documented executed answers compared
    | false =>
      rw [if_neg Bool.false_ne_true] at ended
      split at ended
      · next both =>
        cases ended
        exact .cascade executed answers compared both.1 both.2
      · next own =>
        cases ended
        exact .unexpected executed answers compared own

theorem visits_of_visit {report report' : ExampleReport}
    (given : visit i checker settings session ns e report = .ok (report', session', ns')) :
    ∃ state, report' = report.withState state ∧
      Visits i checker settings session ns e state session' ns' := by
  obtain ⟨flags, resolved, given⟩ := bind_eq_ok.mp given
  have skipped := isSkipped_of_resolve resolved
  cases skips : flags.requestsSkip with
  | true =>
    rw [if_pos skips] at given
    cases given
    exact ⟨.skipped, rfl, .skipped (skipped.trans skips)⟩
  | false =>
    have stays : e.isSkipped settings = false := skipped.trans skips
    rw [if_neg (by simp [skips])] at given
    obtain ⟨⟨ending, left⟩, ran, given⟩ := bind_eq_ok.mp given
    cases given
    refine ⟨ending.state, rfl, ?_⟩
    rw [runExample] at ran
    split at ran
    · next pseudocode =>
      cases ran
      exact .illustration stays pseudocode
    · next runs =>
      obtain ⟨_, ended, same⟩ := map_eq_ok.mp ran
      cases same
      exact visits_of_execute (by simp [Example.isExecuted, stays, runs]) rfl ended

/-- A run over items, by what happens to the first one. -/
theorem visitAll_cons_eq_ok {item : Example × ExampleReport} :
    visitAll i checker settings session ns (item :: items) = .ok (reports, last) ↔
      ∃ report session' ns', visit i checker settings session ns item.1 item.2 =
          .ok (report, session', ns') ∧
        ((report.state.hasFailed = true ∧ settings.stopOnFirstFailure = true ∧
            reports = report :: items.map (·.2) ∧ last = session') ∨
          ((report.state.hasFailed && settings.stopOnFirstFailure) = false ∧
            ∃ others, visitAll i checker settings session' ns' items = .ok (others, last) ∧
              reports = report :: others)) := by
  rw [visitAll, bind_eq_ok]
  constructor
  · rintro ⟨⟨report, session', ns'⟩, visited, given⟩
    refine ⟨report, session', ns', visited, ?_⟩
    dsimp only at given
    split at given
    · next ends =>
      cases given
      rw [Bool.and_eq_true] at ends
      exact .inl ⟨ends.1, ends.2, rfl, rfl⟩
    · next goesOn =>
      obtain ⟨⟨others, _⟩, later, same⟩ := bind_eq_ok.mp given
      cases same
      exact .inr ⟨Bool.not_eq_true _ ▸ goesOn, others, later, rfl⟩
  · rintro ⟨report, session', ns', visited, ending⟩
    refine ⟨(report, session', ns'), visited, ?_⟩
    dsimp only
    rcases ending with ⟨failed, stops, rfl, rfl⟩ | ⟨goesOn, others, later, rfl⟩
    · rw [failed, stops]
      rfl
    · rw [goesOn, if_neg Bool.false_ne_true]
      exact bind_eq_ok.mpr ⟨(others, last), later, rfl⟩

theorem runs_of_visitAll {es : List Example}
    (given : visitAll i checker settings session ns (es.map fun e => (e, .pending e)) =
      .ok (reports, last)) : Runs i checker settings session ns es reports last := by
  induction es generalizing session ns reports with
  | nil =>
    cases given
    exact .nil
  | cons e rest ih =>
    obtain ⟨report, session', ns', visited, ending⟩ := visitAll_cons_eq_ok.mp given
    obtain ⟨state, rfl, visits⟩ := visits_of_visit visited
    rcases ending with ⟨failed, stops, rfl, rfl⟩ | ⟨goesOn, others, later, rfl⟩
    · rw [List.map_map]
      exact .stop visits failed stops
    · refine .next visits (fun failed => ?_) (ih later)
      have failed : ((ExampleReport.pending e).withState state).state.hasFailed = true := failed
      simpa [failed] using goesOn

/-- A unit has a report if its directory, its namespace and the run over its examples have one. -/
theorem runDoctest_eq_ok {files : FileSource} {d : Doctest} {r : DoctestReport} :
    runDoctest i checker settings files d = .ok r ↔
      ∃ own ns reports last,
        copyResources files d (settings.resourcesFor d.name) .empty = .ok own ∧
        i.create d.globals own = .ok ns ∧
        runExamples i checker settings d.examples ns = .ok (reports, last) ∧
        r = ⟨d.name, d.file, d.line, last.counts settings, reports⟩ := by
  constructor
  · intro given
    obtain ⟨own, copied, given⟩ := bind_eq_ok.mp given
    obtain ⟨ns, created, given⟩ := bind_eq_ok.mp given
    obtain ⟨⟨reports, last⟩, ran, given⟩ := bind_eq_ok.mp given
    cases given
    exact ⟨own, ns, reports, last, copied, mapError_eq_ok.mp created, mapError_eq_ok.mp ran, rfl⟩
  · rintro ⟨own, ns, reports, last, copied, created, ran, rfl⟩
    refine bind_eq_ok.mpr ⟨own, copied, bind_eq_ok.mpr ⟨ns, mapError_eq_ok.mpr created, ?_⟩⟩
    exact bind_eq_ok.mpr ⟨(reports, last), mapError_eq_ok.mpr ran, rfl⟩

/-- The parts of a unit's report, and the run that it tells of. -/
theorem runs_of_runDoctest {files : FileSource} {d : Doctest} {r : DoctestReport}
    (given : runDoctest i checker settings files d = .ok r) :
    ∃ own ns session,
      copyResources files d (settings.resourcesFor d.name) .empty = .ok own ∧
      i.create d.globals own = .ok ns ∧ Runs i checker settings {} ns d.examples r.examples session ∧
      r.counts = session.counts settings := by
  obtain ⟨own, ns, reports, session, copied, created, ran, rfl⟩ := runDoctest_eq_ok.mp given
  exact ⟨own, ns, session, copied, created, runs_of_visitAll ran, rfl⟩

/-! ### What a visit leaves -/

namespace Visits

theorem ended (visits : Visits i checker settings session ns e state session' ns') :
    state ≠ .pending ∧ state ≠ .executing := by
  cases visits with
  | illustration => cases i.syntaxError? e.source <;> simp [illustrationState]
  | _ => simp

/-- An example that is skipped leaves everything as it was, apart from the number of skipped ones. -/
theorem of_skipped (visits : Visits i checker settings session ns e .skipped session' ns') :
    e.isSkipped settings = true ∧ session' = session.skip ∧ ns' = ns := by
  generalize ended : ExampleState.skipped = state at visits
  cases visits with
  | skipped skips => exact ⟨skips, rfl, rfl⟩
  | illustration => cases h : i.syntaxError? e.source <;> simp [illustrationState, h] at ended
  | _ => cases ended

theorem skipped_iff (visits : Visits i checker settings session ns e state session' ns') :
    state = .skipped ↔ e.isSkipped settings = true := by
  constructor
  · rintro rfl
    exact visits.of_skipped.1
  · intro skips
    cases visits with
    | skipped => rfl
    | illustration stays => simp [skips] at stays
    | documented executed | cascade executed | unexpected executed | accepted executed
    | mismatch executed => simp [Example.isExecuted, skips] at executed

/-- Only examples that are executed change the namespace. -/
theorem namespace_eq (visits : Visits i checker settings session ns e state session' ns') :
    ns' = if e.isExecuted settings then (i.execute e.source ns).2 else ns := by
  cases visits with
  | skipped skips => simp [Example.isExecuted, skips]
  | illustration _ pseudocode => simp [Example.isExecuted, pseudocode]
  | documented executed answers | cascade executed answers | unexpected executed answers
  | accepted executed answers | mismatch executed answers => simp [executed, answers]

end Visits

end DocExamples
