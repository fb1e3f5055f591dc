import DocExamples.Proofs.Run.Accounting
/-!
Errors that earlier errors cause. The flag of a session stands for the unexpected errors in the
states written so far; from this follows which of two failures an undefined name is, and that a
report which hides the caused ones still shows the first.
-/
namespace DocExamples

/-- The namespace that a run over these examples leaves. -/
def Interpreter.after (i : Interpreter) (settings : Settings) (ns : i.Namespace)
    (es : List Example) : i.Namespace :=
  es.foldl (fun ns e => if e.isExecuted settings then (i.execute e.source ns).2 else ns) ns

variable {i : Interpreter} {checker : Output.Checker} {settings : Settings}
  {session session' last : Session} {ns ns' : i.Namespace} {e : Example} {es : List Example}
  {reports : List ExampleReport} {state : ExampleState} {output : String} {error : Raised}

/-! ### One example of a run -/

/-- A state that is not pending is that of an example which was visited in the namespace that the
examples before it left, by a session that had counted their states. -/
theorem Runs.visited_at (runs : Runs i checker settings session ns es reports last)
    {before : List ExampleState} (tallies : session.Tallies before) {k : Nat}
    (reported : (reports.map (·.state))[k]? = some state) (reached : state ≠ .pending) :
    ∃ e s s' ns', es[k]? = some e ∧
      Visits i checker settings s (i.after settings ns (es.take k)) e state s' ns' ∧
      s.Tallies (before ++ (reports.map (·.state)).take k) := by
  induction runs generalizing before k with
  | nil => simp at reported
  | @stop _ _ _ _ e _ _ visits =>
    cases k with
    | zero =>
      cases reported
      exact ⟨e, _, _, _, rfl, visits, by simpa using tallies⟩
    | succ k =>
      -- Behind the failure all reports are pending.
      simp only [List.map_cons, List.map_map, List.getElem?_cons_succ, List.getElem?_map,
        Option.map_eq_some_iff] at reported
      obtain ⟨_, _, rfl⟩ := reported
      exact absurd rfl reached
  | @next _ _ _ _ _ e _ _ _ visits _ _ ih =>
    cases k with
    | zero =>
      cases reported
      exact ⟨e, _, _, _, rfl, visits, by simpa using tallies⟩
    | succ k =>
      obtain ⟨later, s, s', ns', present, visited, counted⟩ :=
        ih (visits.tallies tallies) reported
      rw [visits.namespace_eq] at visited
      exact ⟨later, s, s', ns', present, visited, by simpa [ExampleReport.withState] using counted⟩

namespace Visits

theorem of_cascade
    (visits : Visits i checker settings session ns e (.failed (.cascade error)) session' ns') :
    error.category = .undefinedName ∧ session.hadError = true := by
  generalize ended : ExampleState.failed (.cascade error) = state at visits
  cases visits with
  | cascade _ _ _ undefined later =>
    cases ended
    exact ⟨undefined, later⟩
  | illustration => cases h : i.syntaxError? e.source <;> simp [illustrationState, h] at ended
  | _ => cases ended

theorem of_unexpected
    (visits : Visits i checker settings session ns e (.failed (.unexpectedError output error))
      session' ns') (undefined : error.category = .undefinedName) : session.hadError = false := by
  generalize ended : ExampleState.failed (.unexpectedError output error) = state at visits
  cases visits with
  | unexpected _ _ _ own =>
    cases ended
    simpa [undefined] using own
  | illustration => cases h : i.syntaxError? e.source <;> simp [illustrationState, h] at ended
  | _ => cases ended

/-- An undefined name that is not documented fails the example, in one of two ways. -/
theorem of_undefined {left : i.Namespace}
    (visits : Visits i checker settings session ns e state session' ns')
    (executed : e.isExecuted settings = true)
    (raises : i.execute e.source ns = (⟨output, some error⟩, left))
    (undefined : error.category = .undefinedName)
    (undocumented : checker.checkError settings e error.reportLine = .ok false) :
    state = .failed (if session.hadError then .cascade error else .unexpectedError output error) := by
  cases visits with
  | skipped skips => simp [Example.isExecuted, skips] at executed
  | illustration _ pseudocode => simp [Example.isExecuted, pseudocode] at executed
  | documented _ answers documented =>
    cases answers.symm.trans raises
    simp [undocumented] at documented
  | cascade _ answers _ _ later =>
    cases answers.symm.trans raises
    rw [if_pos later]
  | unexpected _ answers _ own =>
    cases answers.symm.trans raises
    rw [if_neg fun later => own ⟨undefined, later⟩]
  | accepted _ answers | mismatch _ answers => cases answers.symm.trans raises

end Visits

/-! ### What is shown -/

namespace DoctestReport

theorem renderFailure_ne_empty (r : DoctestReport) (e : ExampleReport) (f : Failure) :
    r.renderFailure e f ≠ "" := by
  simp [renderFailure]

/-- A failure that no other caused is always shown. -/
theorem renderFailures_ne_empty {r : DoctestReport} {e : ExampleReport} {f : Failure}
    (present : e ∈ r.examples) (failed : e.state = .failed f) (own : f.isCascade = false)
    (cascades : Bool) : r.renderFailures cascades ≠ "" := by
  have shown : (e, f) ∈ r.failures cascades := by
    rw [failures, List.mem_filterMap]
    exact ⟨e, present, by simp [failed, ExampleState.failure?, own]⟩
  intro empty
  have letters : (r.renderFailures cascades).toList = [] := by rw [empty]; rfl
  rw [renderFailures, String.toList_join, List.flatMap_eq_nil_iff] at letters
  have none := letters _ (List.mem_map_of_mem shown)
  exact r.renderFailure_ne_empty e f (String.toList_inj.mp none)

end DoctestReport

/-! ### The report on a unit -/

/-- The report tells undefined names that an earlier error caused from others, and hides no more than
these. -/
structure DoctestReport.ExplainsErrors (i : Interpreter) (checker : Output.Checker)
    (settings : Settings) (ns : i.Namespace) (d : Doctest) (r : DoctestReport) : Prop where
  cascade : ∀ (k : Nat) (error : Raised), r.states[k]? = some (.failed (.cascade error)) →
    error.category = .undefinedName ∧ ∃ earlier ∈ r.states.take k, earlier.isUnexpected = true
  unexpected : ∀ (k : Nat) (output : String) (error : Raised),
    r.states[k]? = some (.failed (.unexpectedError output error)) →
      error.category = .undefinedName → ∀ earlier ∈ r.states.take k, earlier.isUnexpected = false
  undefined : ∀ (k : Nat) (e : Example) (state : ExampleState) (output : String) (error : Raised)
    (left : i.Namespace), d.examples[k]? = some e → r.states[k]? = some state → state ≠ .pending →
      e.isExecuted settings = true →
      i.execute e.source (i.after settings ns (d.examples.take k)) = (⟨output, some error⟩, left) →
      error.category = .undefinedName →
      checker.checkError settings e error.reportLine = .ok false →
      (state = .failed (.unexpectedError output error) ↔
        ∀ earlier ∈ r.states.take k, earlier.isUnexpected = false) ∧
      (state = .failed (.cascade error) ↔
        ∃ earlier ∈ r.states.take k, earlier.isUnexpected = true)
  shown : 0 < r.counts.failed → r.renderFailures false ≠ ""

section

variable {files : FileSource} {d : Doctest} {r : DoctestReport}

/-- The flag of a session at an example is set by the unexpected errors before it. -/
theorem Runs.visited_from_start (runs : Runs i checker settings {} ns es r.examples last) {k : Nat}
    (reported : r.states[k]? = some state) (reached : state ≠ .pending) :
    ∃ e s s' ns', es[k]? = some e ∧
      Visits i checker settings s (i.after settings ns (es.take k)) e state s' ns' ∧
      s.hadError = (r.states.take k).any ExampleState.isUnexpected := by
  obtain ⟨e, s, s', ns', present, visits, tallies⟩ := runs.visited_at .start reported reached
  exact ⟨e, s, s', ns', present, visits, tallies.hadError⟩

/-- Where an example failed, one failed that no other caused. -/
theorem Runs.exists_own_failure (runs : Runs i checker settings {} ns es r.examples last)
    {f : Failure} (failed : .failed f ∈ r.states) :
    ∃ own, .failed own ∈ r.states ∧ own.isCascade = false := by
  cases f with
  | cascade error =>
    obtain ⟨k, reported⟩ := List.mem_iff_getElem?.mp failed
    obtain ⟨_, s, _, _, _, visits, flag⟩ := runs.visited_from_start reported (by simp)
    have later := visits.of_cascade.2
    rw [flag] at later
    obtain ⟨state, earlier, unexpected⟩ := List.any_eq_true.mp later
    obtain ⟨output, raised, rfl⟩ := ExampleState.exists_of_isUnexpected unexpected
    exact ⟨_, List.mem_of_mem_take earlier, rfl⟩
  | _ => exact ⟨_, failed, rfl⟩

theorem explainsErrors_of_runDoctest (given : runDoctest i checker settings files d = .ok r) :
    ∃ own ns, copyResources files d (settings.resourcesFor d.name) .empty = .ok own ∧
      i.create d.globals own = .ok ns ∧ r.ExplainsErrors i checker settings ns d := by
  obtain ⟨own, ns, session, copied, created, runs, counted⟩ := runs_of_runDoctest given
  refine ⟨own, ns, copied, created, ?_, ?_, ?_, ?_⟩
  · intro k error reported
    obtain ⟨_, s, _, _, _, visits, flag⟩ := runs.visited_from_start reported (by simp)
    obtain ⟨undefined, later⟩ := visits.of_cascade
    rw [flag] at later
    exact ⟨undefined, List.any_eq_true.mp later⟩
  · intro k output error reported undefined
    obtain ⟨_, s, _, _, _, visits, flag⟩ := runs.visited_from_start reported (by simp)
    have first := visits.of_unexpected undefined
    rw [flag] at first
    simpa using first
  · intro k e state output error left present reported reached executed raises undefined undocumented
    obtain ⟨_, s, _, _, same, visits, flag⟩ := runs.visited_from_start reported reached
    cases same.symm.trans present
    have ended := visits.of_undefined executed raises undefined undocumented
    have none_iff : (∀ earlier ∈ r.states.take k, earlier.isUnexpected = false) ↔
        (r.states.take k).any ExampleState.isUnexpected = false := by
      simp
    rw [none_iff, ← List.any_eq_true, ended, flag]
    cases (r.states.take k).any ExampleState.isUnexpected <;> simp
  · intro failed
    rw [failed_of_runDoctest given] at failed
    obtain ⟨state, present, failed⟩ := List.countP_pos_iff.mp failed
    obtain ⟨f, rfl⟩ := ExampleState.hasFailed_iff.mp failed
    obtain ⟨f, present, own⟩ := runs.exists_own_failure present
    obtain ⟨e, present, failed⟩ := List.mem_map.mp present
    exact DoctestReport.renderFailures_ne_empty present failed own false

/-- Two undefined names, of which only the second is put down to the first. -/
theorem explainsErrors_of_runDoctest_names :
    ∃ d r own ns,
      Transcript.readDoctest .defaults ">>> y\n1\n>>> z\n2\n" "unit" none 0 [] = .ok d ∧
      runDoctest (Script.interpreter .defaults) .exact .defaults (Directory.source []) d = .ok r ∧
      r.states =
        [.failed (.unexpectedError ""
            ⟨.undefinedName, "NameError", "name 'y' is not defined"⟩),
          .failed (.cascade ⟨.undefinedName, "NameError", "name 'z' is not defined"⟩)] ∧
      copyResources (Directory.source []) d (Settings.defaults.resourcesFor d.name) .empty =
        .ok own ∧
      (Script.interpreter .defaults).create d.globals own = .ok ns ∧
      r.ExplainsErrors (Script.interpreter .defaults) .exact .defaults ns d := by
  have given : ((Transcript.readDoctest .defaults ">>> y\n1\n>>> z\n2\n" "unit" none 0
      []).toOption.bind fun d =>
        (runDoctest (Script.interpreter .defaults) .exact .defaults (Directory.source [])
          d).toOption.map (·.states)) =
      some [.failed (.unexpectedError ""
            ⟨.undefinedName, "NameError", "name 'y' is not defined"⟩),
          .failed (.cascade ⟨.undefinedName, "NameError", "name 'z' is not defined"⟩)] := by
    decide +kernel
  obtain ⟨d, r, read, ran, states⟩ := exists_of_toOption_bind given
  obtain ⟨own, ns, copied, created, explained⟩ := explainsErrors_of_runDoctest ran
  exact ⟨d, r, own, ns, read, ran, states, copied, created, explained⟩

end

end DocExamples
