import DocExamples.Proofs.Run.Accounting
/-!
Runs over fewer examples. Sessions that agree on all but the number of skipped examples visit an
example alike. So examples that were skipped may as well not be there, and an example does not
depend on those behind it.
-/
namespace DocExamples

/-- The items at the positions that are kept. -/
def selected {α : Type} (keep : Nat → Bool) : List α → List α
  | [] => []
  | a :: rest =>
    if keep 0 then a :: selected (fun k => keep (k + 1)) rest
    else selected (fun k => keep (k + 1)) rest

theorem selected_cons_kept {α : Type} {keep : Nat → Bool} (kept : keep 0 = true) (a : α)
    (rest : List α) :
    selected keep (a :: rest) = a :: selected (fun k => keep (k + 1)) rest := if_pos kept

theorem selected_cons_dropped {α : Type} {keep : Nat → Bool} (dropped : keep 0 = false) (a : α)
    (rest : List α) : selected keep (a :: rest) = selected (fun k => keep (k + 1)) rest := by
  rw [selected, dropped]
  rfl

theorem selected_map {α β : Type} (f : α → β) (keep : Nat → Bool) (items : List α) :
    selected keep (items.map f) = (selected keep items).map f := by
  induction items generalizing keep with
  | nil => rfl
  | cons a rest ih =>
    rw [List.map_cons]
    cases kept : keep 0 with
    | true => rw [selected_cons_kept kept, selected_cons_kept kept, ih, List.map_cons]
    | false => rw [selected_cons_dropped kept, selected_cons_dropped kept, ih]

/-- The examples that were run, which a session may count with those that were skipped. -/
def Counts.executed (settings : Settings) (c : Counts) : Nat :=
  if settings.countSkippedAsAttempted then c.attempted - c.skipped else c.attempted

/-- The sessions agree on everything but how many examples were skipped. -/
structure Session.Agrees (s t : Session) : Prop where
  attempted : t.attempted = s.attempted
  failed : t.failed = s.failed
  hadError : t.hadError = s.hadError

namespace Session.Agrees

variable {s t : Session}

theorem refl (s : Session) : s.Agrees s := ⟨rfl, rfl, rfl⟩

theorem skip (agrees : s.Agrees t) : s.skip.Agrees t.skip :=
  ⟨agrees.attempted, agrees.failed, agrees.hadError⟩

theorem skip_left (agrees : s.Agrees t) : s.skip.Agrees t :=
  ⟨agrees.attempted, agrees.failed, agrees.hadError⟩

theorem add (agrees : s.Agrees t) (ending : Ending) : (s.add ending).Agrees (t.add ending) where
  attempted := by simp [Session.add, agrees.attempted]
  failed := by simp [Session.add, agrees.failed]
  hadError := rfl

theorem executed (agrees : s.Agrees t) (settings : Settings) :
    (t.counts settings).executed settings = (s.counts settings).executed settings := by
  unfold Counts.executed Session.counts
  split <;> simp [agrees.attempted]

end Session.Agrees

variable {i : Interpreter} {checker : Output.Checker} {settings : Settings}
  {session session' last : Session} {ns ns' : i.Namespace} {e : Example}
  {items : List (Example × ExampleReport)} {reports : List ExampleReport}

/-! ### One example -/

/-- What happens to an example depends on a session by its flag only. -/
theorem visit_of_agrees {other : Session} {report report' : ExampleReport}
    (given : visit i checker settings session ns e report = .ok (report', session', ns'))
    (agrees : session.Agrees other) :
    ∃ other', visit i checker settings other ns e report = .ok (report', other', ns') ∧
      session'.Agrees other' := by
  obtain ⟨flags, resolved, given⟩ := bind_eq_ok.mp given
  cases skips : flags.requestsSkip with
  | true =>
    rw [if_pos skips] at given
    cases given
    refine ⟨other.skip, bind_eq_ok.mpr ⟨flags, resolved, ?_⟩, agrees.skip⟩
    rw [if_pos skips]
    rfl
  | false =>
    have stays : ¬ flags.requestsSkip = true := by simp [skips]
    rw [if_neg stays] at given
    obtain ⟨⟨ending, _⟩, ran, given⟩ := bind_eq_ok.mp given
    cases given
    refine ⟨other.add ending, bind_eq_ok.mpr ⟨flags, resolved, ?_⟩, agrees.add ending⟩
    rw [if_neg stays]
    rw [← agrees.hadError] at ran
    exact bind_eq_ok.mpr ⟨(ending, ns'), ran, rfl⟩

/-! ### A run -/

/-- Without some of the skipped examples, a run leaves the reports of the others. -/
theorem visitAll_selected {other : Session} {keep : Nat → Bool}
    (given : visitAll i checker settings session ns items = .ok (reports, last))
    (agrees : session.Agrees other)
    (skipped : ∀ k report, reports[k]? = some report → keep k = false → report.state = .skipped) :
    ∃ last', visitAll i checker settings other ns (selected keep items) =
      .ok (selected keep reports, last') ∧ last.Agrees last' := by
  induction items generalizing session other ns reports keep with
  | nil =>
    cases given
    exact ⟨other, rfl, agrees⟩
  | cons item items ih =>
    obtain ⟨report, session', ns', visited, ending⟩ := visitAll_cons_eq_ok.mp given
    obtain ⟨state, stateIs, visits⟩ := visits_of_visit visited
    cases kept : keep 0 with
    | true =>
      obtain ⟨other', visited', agrees'⟩ := visit_of_agrees visited agrees
      rw [selected_cons_kept kept]
      rcases ending with ⟨failed, stops, rfl, rfl⟩ | ⟨goesOn, others, later, rfl⟩
      · rw [selected_cons_kept kept, selected_map]
        exact ⟨other', visitAll_cons_eq_ok.mpr
          ⟨report, other', ns', visited', .inl ⟨failed, stops, rfl, rfl⟩⟩, agrees'⟩
      · obtain ⟨last', run, agreesLast⟩ :=
          ih later agrees' fun k r found => skipped (k + 1) r found
        rw [selected_cons_kept kept]
        exact ⟨last', visitAll_cons_eq_ok.mpr
          ⟨report, other', ns', visited', .inr ⟨goesOn, _, run, rfl⟩⟩, agreesLast⟩
    | false =>
      rw [selected_cons_dropped kept]
      rcases ending with ⟨failed, stops, rfl, rfl⟩ | ⟨goesOn, others, later, rfl⟩
      · rw [skipped 0 report rfl kept] at failed
        cases failed
      · -- The example is gone, and so is one of those that the session has skipped.
        have isSkipped : state = .skipped := by
          have state_eq := skipped 0 report rfl kept
          rwa [stateIs] at state_eq
        subst isSkipped
        obtain ⟨-, rfl, rfl⟩ := visits.of_skipped
        rw [selected_cons_dropped kept]
        exact ih later agrees.skip_left fun k r found => skipped (k + 1) r found

/-- The first items are run as if there were no others. -/
theorem visitAll_take (given : visitAll i checker settings session ns items = .ok (reports, last))
    (n : Nat) :
    ∃ last',
      visitAll i checker settings session ns (items.take n) = .ok (reports.take n, last') := by
  induction n generalizing session ns items reports with
  | zero => exact ⟨session, rfl⟩
  | succ n ih =>
    cases items with
    | nil =>
      cases given
      exact ⟨last, rfl⟩
    | cons item items =>
      obtain ⟨report, session', ns', visited, ending⟩ := visitAll_cons_eq_ok.mp given
      rcases ending with ⟨failed, stops, rfl, rfl⟩ | ⟨goesOn, others, later, rfl⟩
      · rw [List.take_succ_cons, List.take_succ_cons, ← List.map_take]
        exact ⟨last, visitAll_cons_eq_ok.mpr
          ⟨report, last, ns', visited, .inl ⟨failed, stops, rfl, rfl⟩⟩⟩
      · obtain ⟨last', run⟩ := ih later
        rw [List.take_succ_cons, List.take_succ_cons]
        exact ⟨last', visitAll_cons_eq_ok.mpr
          ⟨report, session', ns', visited, .inr ⟨goesOn, _, run, rfl⟩⟩⟩

/-! ### A unit -/

variable {files : FileSource} {d : Doctest} {r : DoctestReport}

theorem copyResources_withExamples (es : List Example) (resources : List String) (own : Directory) :
    copyResources files { d with examples := es } resources own =
      copyResources files d resources own := by
  induction resources generalizing own with
  | nil => rfl
  | cons resource rest ih =>
    simp only [copyResources, ih]
    rfl

/-- Without some of the skipped examples, the run of a unit reports the same on the others; and the
report on the first examples is the front of the report on all. -/
theorem inert_of_runDoctest (given : runDoctest i checker settings files d = .ok r) :
    (∀ keep : Nat → Bool,
      (∀ k state, r.states[k]? = some state → keep k = false → state = .skipped) →
      ∃ r', runDoctest i checker settings files { d with examples := selected keep d.examples } =
          .ok r' ∧
        r'.examples = selected keep r.examples ∧ r'.states = selected keep r.states ∧
        r'.counts.failed = r.counts.failed ∧
        r'.counts.executed settings = r.counts.executed settings) ∧
    ∀ n, ∃ r', runDoctest i checker settings files { d with examples := d.examples.take n } =
        .ok r' ∧
      r'.examples = r.examples.take n ∧ r'.states = r.states.take n := by
  obtain ⟨own, ns, reports, last, copied, created, ran, rfl⟩ := runDoctest_eq_ok.mp given
  constructor
  · intro keep skipped
    obtain ⟨last', run, agrees⟩ := visitAll_selected ran (.refl {}) fun k report found dropped =>
      skipped k report.state (by simp [DoctestReport.states, found]) dropped
    rw [selected_map] at run
    refine ⟨_, runDoctest_eq_ok.mpr ⟨own, ns, _, last', ?_, created, run, rfl⟩, rfl, ?_, ?_, ?_⟩
    · rwa [copyResources_withExamples]
    · exact (selected_map _ _ _).symm
    · exact agrees.failed
    · exact agrees.executed settings
  · intro n
    obtain ⟨last', run⟩ := visitAll_take ran n
    rw [← List.map_take] at run
    refine ⟨_, runDoctest_eq_ok.mpr ⟨own, ns, _, last', ?_, created, run, rfl⟩, rfl, ?_⟩
    · rwa [copyResources_withExamples]
    · exact List.map_take

/-- The second of two skipped examples is taken out, between the error and what it causes. -/
theorem inert_of_runDoctest_removed :
    ∃ d r r',
      Transcript.readDoctest .defaults
          ">>> x # doctest: +SKIP\n>>> y\n>>> x # doctest: +SKIP\n>>> z\n" "unit" none 0 [] = .ok d ∧
      runDoctest (Script.interpreter .defaults) .exact .defaults (Directory.source []) d = .ok r ∧
      r.states = [.skipped,
        .failed (.unexpectedError "" ⟨.undefinedName, "NameError", "name 'y' is not defined"⟩),
        .skipped, .failed (.cascade ⟨.undefinedName, "NameError", "name 'z' is not defined"⟩)] ∧
      (∀ k state, r.states[k]? = some state → (k != 2) = false → state = .skipped) ∧
      runDoctest (Script.interpreter .defaults) .exact .defaults (Directory.source [])
        { d with examples := selected (· != 2) d.examples } = .ok r' ∧
      r'.states = [.skipped,
        .failed (.unexpectedError "" ⟨.undefinedName, "NameError", "name 'y' is not defined"⟩),
        .failed (.cascade ⟨.undefinedName, "NameError", "name 'z' is not defined"⟩)] := by
  have given : ((Transcript.readDoctest .defaults
      ">>> x # doctest: +SKIP\n>>> y\n>>> x # doctest: +SKIP\n>>> z\n" "unit" none 0
      []).toOption.bind fun d =>
        (runDoctest (Script.interpreter .defaults) .exact .defaults (Directory.source [])
          d).toOption.map (·.states)) = some [.skipped,
        .failed (.unexpectedError "" ⟨.undefinedName, "NameError", "name 'y' is not defined"⟩),
        .skipped, .failed (.cascade ⟨.undefinedName, "NameError", "name 'z' is not defined"⟩)] := by
    decide +kernel
  obtain ⟨d, r, read, ran, states⟩ := exists_of_toOption_bind given
  have skipped : ∀ k state, r.states[k]? = some state → (k != 2) = false → state = .skipped := by
    intro k state found second
    obtain rfl : k = 2 := by simpa using second
    rw [states] at found
    exact (Option.some.inj found).symm
  obtain ⟨r', run, _, others, _⟩ := (inert_of_runDoctest ran).1 _ skipped
  rw [states] at others
  exact ⟨d, r, r', read, ran, states, skipped, run, others⟩

end DocExamples
