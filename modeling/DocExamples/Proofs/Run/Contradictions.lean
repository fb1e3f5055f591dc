import DocExamples.Proofs.Run.Removal
import DocExamples.Proofs.Transcript.Grouping
import DocExamples.Script.Session
/-!
Which examples contradict themselves. A directive that skips a block switches a flag on for every
example in it; an example whose own directive switches that flag off is then refused with both, and
the run of its unit ends there without a report.
-/
namespace DocExamples

/-! ### Options of an example -/

theorem Flag.mem_all (f : Flag) : f ∈ Flag.all := by
  cases f <;> decide

theorem Flags.isEmpty_iff {flags : Flags} : flags.isEmpty = true ↔ ∀ f, flags.has f = false := by
  rw [isEmpty, List.isEmpty_iff, toList, List.filter_eq_nil_iff]
  constructor
  · intro none f
    simpa using none f f.mem_all
  · intro none f _
    simp [none f]

namespace Overrides

theorem conflict_isEmpty_iff {o : Overrides} :
    o.conflict.isEmpty = true ↔ ∀ f, ¬ (o.enable.has f = true ∧ o.disable.has f = true) := by
  rw [Flags.isEmpty_iff]
  simp [conflict, Flags.inter]

theorem resolve_of_consistent {o : Overrides}
    (consistent : ∀ f, ¬ (o.enable.has f = true ∧ o.disable.has f = true)) (session : Flags) :
    o.resolve session = .ok ((session.union o.enable).diff o.disable) :=
  if_pos (conflict_isEmpty_iff.mpr consistent)

theorem resolve_of_conflict {o : Overrides} {f : Flag} (enabled : o.enable.has f = true)
    (disabled : o.disable.has f = true) (session : Flags) :
    o.resolve session = .error o.conflict :=
  if_neg fun empty => conflict_isEmpty_iff.mp empty f ⟨enabled, disabled⟩

end Overrides

/-- Valid settings skip nothing. -/
theorem Settings.skips_nothing {settings : Settings} (valid : settings.validate = .ok ()) :
    settings.flags.has .skip = false ∧ settings.flags.has .skipBlock = false := by
  have none : (settings.flags.inter (.ofList [.skip, .skipBlock])).isEmpty = true := by
    obtain ⟨_, _, given⟩ := bind_eq_ok.mp valid
    obtain ⟨_, _, given⟩ := bind_eq_ok.mp given
    dsimp only at given
    split at given
    · cases given
    · by_contra some
      rw [Bool.not_eq_true] at some
      rw [some] at given
      cases given
  have absent := Flags.isEmpty_iff.mp none
  have skip := absent .skip
  have skipBlock := absent .skipBlock
  simpa [Flags.inter, Flags.ofList] using And.intro skip skipBlock

/-! ### Options of the examples of a text -/

namespace Transcript

/-- Its own directives, or a directive of its block, skip the example. -/
def AsksToSkip (lines : List (List Char)) (es : List Example) (e : Example) : Prop :=
  Said '+' .skip (e.window lines) ∨ SkipsBlock lines es e.block

/-- A directive of its block skips the example, which has a directive not to skip it. -/
def Torn (lines : List (List Char)) (es : List Example) (e : Example) : Prop :=
  SkipsBlock lines es e.block ∧ Said '-' .skip (e.window lines)

/-- No flag is switched both on and off by the example's own directives. -/
def Consistent (lines : List (List Char)) (e : Example) : Prop :=
  ∀ f, ¬ (Said '+' f (e.window lines) ∧ Said '-' f (e.window lines))

instance (sign : Char) (f : Flag) (lines : List (List Char)) : Decidable (Said sign f lines) :=
  inferInstanceAs (Decidable (∃ line ∈ lines, sign :: f.name.toList ∈ wordsOn line))

instance (lines : List (List Char)) (es : List Example) (e : Example) :
    Decidable (Torn lines es e) :=
  inferInstanceAs (Decidable
    ((∃ other ∈ es, other.block = e.block ∧ Said '+' .skipBlock (other.window lines)) ∧
      Said '-' .skip (e.window lines)))

instance (lines : List (List Char)) (e : Example) : Decidable (Consistent lines e) :=
  decidable_of_iff
    (∀ f ∈ Flag.all, ¬ (Said '+' f (e.window lines) ∧ Said '-' f (e.window lines)))
    ⟨fun all f => all f f.mem_all, fun consistent f _ => consistent f⟩

namespace Grouped

variable {settings : Settings} {lines : List (List Char)} {c : Contents} {e : Example}

theorem disable (grouped : Grouped settings lines c) (member : e ∈ c.examples) (f : Flag) :
    e.overrides.disable.has f = true ↔ Said '-' f (e.window lines) := by
  obtain ⟨own, _, _, disable, skips, stays⟩ := grouped.alone e member
  have same : e.overrides.disable = own.overrides.disable := by
    by_cases inBlock : SkipsBlock lines c.examples e.block
    · rw [skips inBlock]
      rfl
    · rw [stays inBlock]
  rw [same, disable]

/-- Other flags than the one that blocks set are switched on by the example's own directives. -/
theorem enable (grouped : Grouped settings lines c) (member : e ∈ c.examples) {f : Flag}
    (other : f ≠ .skip) : e.overrides.enable.has f = true ↔ Said '+' f (e.window lines) := by
  obtain ⟨own, _, enable, _, skips, stays⟩ := grouped.alone e member
  have same : e.overrides.enable.has f = own.overrides.enable.has f := by
    by_cases inBlock : SkipsBlock lines c.examples e.block
    · rw [skips inBlock]
      simp [Example.skipped, other]
    · rw [stays inBlock]
  rw [same, enable]

theorem switched_both (grouped : Grouped settings lines c) (member : e ∈ c.examples)
    (consistent : Consistent lines e) (f : Flag) :
    (e.overrides.enable.has f = true ∧ e.overrides.disable.has f = true) ↔
      f = .skip ∧ Torn lines c.examples e := by
  rw [grouped.disable member]
  by_cases skip : f = .skip
  · subst skip
    rw [grouped.skip e member, Torn]
    constructor
    · rintro ⟨said | skips, unsaid⟩
      · exact absurd ⟨said, unsaid⟩ (consistent .skip)
      · exact ⟨rfl, skips, unsaid⟩
    · rintro ⟨-, skips, unsaid⟩
      exact ⟨.inr skips, unsaid⟩
  · rw [grouped.enable member skip]
    exact iff_of_false (consistent f) fun given => skip given.1

theorem resolve_of_torn (grouped : Grouped settings lines c) (member : e ∈ c.examples)
    (consistent : Consistent lines e) (torn : Torn lines c.examples e) (session : Flags) :
    e.overrides.resolve session = .error (.ofList [.skip]) := by
  have both := grouped.switched_both member consistent
  obtain ⟨enabled, disabled⟩ := (both .skip).mpr ⟨rfl, torn⟩
  rw [Overrides.resolve_of_conflict enabled disabled]
  congr 1
  apply Flags.ext
  intro f
  rw [Bool.eq_iff_iff]
  have here := both f
  simpa [Overrides.conflict, Flags.inter, Flags.ofList, torn] using here

/-- An example that is not torn has flags, and they skip it if it asks for that. -/
theorem resolve_of_not_torn (grouped : Grouped settings lines c) (member : e ∈ c.examples)
    (consistent : Consistent lines e) (whole : ¬ Torn lines c.examples e) {session : Flags}
    (noSkip : session.has .skip = false) (noSkipBlock : session.has .skipBlock = false) :
    ∃ flags, e.overrides.resolve session = .ok flags ∧
      (flags.requestsSkip = true ↔ AsksToSkip lines c.examples e) := by
  have one : ∀ f, ¬ (e.overrides.enable.has f = true ∧ e.overrides.disable.has f = true) :=
    fun f both => whole ((grouped.switched_both member consistent f).mp both).2
  refine ⟨_, Overrides.resolve_of_consistent one session, ?_⟩
  -- A flag that skips the block of the example skips the example.
  have both : e.overrides.enable.has .skipBlock = true → e.overrides.enable.has .skip = true := by
    intro enabled
    have said := (grouped.enable member (by decide)).mp enabled
    exact (grouped.skip e member).mpr (.inr ⟨e, member, rfl, said⟩)
  have skip := one .skip
  rw [AsksToSkip, ← grouped.skip e member]
  simp only [Flags.requestsSkip, Flags.diff, Flags.union, noSkip, noSkipBlock, Bool.false_or,
    Bool.or_eq_true, Bool.and_eq_true, Bool.not_eq_true']
  constructor
  · rintro (⟨enabled, -⟩ | ⟨enabled, -⟩)
    · exact enabled
    · exact both enabled
  · intro enabled
    exact .inl ⟨enabled, by simpa [enabled] using skip⟩

section

variable {session flags : Flags}

/-- Where the session skips nothing, only torn examples are refused. -/
theorem resolve_eq_error (grouped : Grouped settings lines c) (member : e ∈ c.examples)
    (consistent : Consistent lines e) (noSkip : session.has .skip = false)
    (noSkipBlock : session.has .skipBlock = false) :
    e.overrides.resolve session = .error flags ↔
      flags = .ofList [.skip] ∧ Torn lines c.examples e := by
  by_cases torn : Torn lines c.examples e
  · rw [grouped.resolve_of_torn member consistent torn]
    simp [torn, eq_comm]
  · obtain ⟨_, resolved, -⟩ :=
      grouped.resolve_of_not_torn member consistent torn noSkip noSkipBlock
    rw [resolved]
    simp [torn]

theorem requestsSkip_iff (grouped : Grouped settings lines c) (member : e ∈ c.examples)
    (consistent : Consistent lines e) (noSkip : session.has .skip = false)
    (noSkipBlock : session.has .skipBlock = false)
    (resolved : e.overrides.resolve session = .ok flags) :
    flags.requestsSkip = true ↔ AsksToSkip lines c.examples e := by
  have whole : ¬ Torn lines c.examples e := by
    intro torn
    rw [grouped.resolve_of_torn member consistent torn] at resolved
    cases resolved
  obtain ⟨flags', resolved', asks⟩ :=
    grouped.resolve_of_not_torn member consistent whole noSkip noSkipBlock
  rw [resolved] at resolved'
  cases resolved'
  exact asks

end

end Grouped

end Transcript

/-! ### Refused options -/

section

variable {i : Interpreter} {compare : String → String → Flags → Settings → Output.Verdict}
  {settings : Settings} {session last : Session} {ns : i.Namespace} {e : Example} {flags : Flags}
  {items : List (Example × ExampleReport)} {reports : List ExampleReport}

theorem outcomeEnding_of_resolve (resolved : e.overrides.resolve settings.flags = .ok flags)
    (hadError : Bool) (o : Outcome) :
    ∃ ending, outcomeEnding { compare } settings e hadError o = .ok ending := by
  obtain ⟨output, error⟩ := o
  cases error with
  | none =>
    have judged : ∃ verdict, Output.checkWith compare settings e output = .ok verdict := by
      rw [Output.checkWith, resolved]
      cases Output.unconditional? e output <;> exact ⟨_, rfl⟩
    obtain ⟨verdict, judged⟩ := judged
    exact ⟨_, bind_eq_ok.mpr ⟨verdict, judged, rfl⟩⟩
  | some error =>
    have compared : ∃ documented, ({ compare } : Output.Checker).checkError settings e
        error.reportLine = .ok documented := by
      change ∃ documented, Output.checkReport settings e error.reportLine = .ok documented
      rw [Output.checkReport, resolved]
      exact ⟨_, rfl⟩
    obtain ⟨documented, compared⟩ := compared
    have ended : ∃ ending, errorEnding { compare } settings e hadError output error =
        .ok ending := by
      rw [errorEnding, compared]
      cases documented with
      | true => exact ⟨_, rfl⟩
      | false =>
        by_cases caused : error.category = .undefinedName ∧ hadError = true
        · exact ⟨_, if_pos caused⟩
        · exact ⟨_, if_neg caused⟩
    exact ended

/-- Only options that contradict each other end a run at an example. -/
theorem visit_eq_error {report : ExampleReport} :
    visit i { compare } settings session ns e report = .error flags ↔
      e.overrides.resolve settings.flags = .error flags := by
  rw [visit, bind_eq_error, or_iff_left]
  rintro ⟨resolvedFlags, resolved, given⟩
  split at given
  · cases given
  · rcases bind_eq_error.mp given with refused | ⟨_, _, given⟩
    · rw [runExample] at refused
      split at refused
      · cases refused
      · have judged : ∃ ending, outcomeEnding { compare } settings e session.hadError
            (i.execute e.source ns).1 = .ok ending := outcomeEnding_of_resolve resolved _ _
        obtain ⟨ending, ended⟩ := judged
        change Except.map _ (outcomeEnding { compare } settings e session.hadError
          (i.execute e.source ns).1) = _ at refused
        rw [ended] at refused
        cases refused
    · cases given

theorem visitAll_cons_eq_error {checker : Output.Checker} {item : Example × ExampleReport} :
    visitAll i checker settings session ns (item :: items) = .error flags ↔
      visit i checker settings session ns item.1 item.2 = .error flags ∨
        ∃ report session' ns', visit i checker settings session ns item.1 item.2 =
            .ok (report, session', ns') ∧
          (report.state.hasFailed && settings.stopOnFirstFailure) = false ∧
          visitAll i checker settings session' ns' items = .error flags := by
  rw [visitAll, bind_eq_error]
  refine or_congr_right ?_
  constructor
  · rintro ⟨⟨report, session', ns'⟩, visited, given⟩
    dsimp only at given
    split at given
    · cases given
    · next goesOn =>
      rcases bind_eq_error.mp given with refused | ⟨_, _, given⟩
      · exact ⟨report, session', ns', visited, Bool.not_eq_true _ ▸ goesOn, refused⟩
      · cases given
  · rintro ⟨report, session', ns', visited, goesOn, refused⟩
    refine ⟨(report, session', ns'), visited, ?_⟩
    dsimp only
    rw [goesOn, if_neg Bool.false_ne_true]
    exact bind_eq_error.mpr (.inl refused)

/-- A run ends without reports at the first example whose options contradict each other, unless a
failure ends it before. -/
theorem visitAll_eq_error :
    visitAll i { compare } settings session ns items = .error flags ↔
      ∃ front item back, items = front ++ item :: back ∧
        item.1.overrides.resolve settings.flags = .error flags ∧
        ∃ reports last, visitAll i { compare } settings session ns front = .ok (reports, last) ∧
          (settings.stopOnFirstFailure = true → ∀ r ∈ reports, r.state.hasFailed = false) := by
  induction items generalizing session ns with
  | nil =>
    constructor
    · intro given
      cases given
    · rintro ⟨front, item, back, same, -⟩
      simp at same
  | cons first items ih =>
    rw [visitAll_cons_eq_error, visit_eq_error]
    constructor
    · rintro (refused | ⟨report, session', ns', visited, goesOn, refused⟩)
      · exact ⟨[], first, items, rfl, refused, [], session, rfl, by simp⟩
      · obtain ⟨front, item, back, rfl, torn, reports, last, run, unfailed⟩ := ih.mp refused
        refine ⟨first :: front, item, back, rfl, torn, report :: reports, last, ?_, ?_⟩
        · exact visitAll_cons_eq_ok.mpr
            ⟨report, session', ns', visited, .inr ⟨goesOn, reports, run, rfl⟩⟩
        · intro stops
          rw [stops, Bool.and_true] at goesOn
          exact List.forall_mem_cons.mpr ⟨goesOn, unfailed stops⟩
    · rintro ⟨front, item, back, same, torn, reports, last, run, unfailed⟩
      cases front with
      | nil =>
        cases same
        exact .inl torn
      | cons first' front =>
        cases same
        obtain ⟨report, session', ns', visited, ending⟩ := visitAll_cons_eq_ok.mp run
        rcases ending with ⟨failed, stops, rfl, rfl⟩ | ⟨goesOn, others, later, rfl⟩
        · have passed := unfailed stops report List.mem_cons_self
          rw [failed] at passed
          cases passed
        · refine .inr ⟨report, session', ns', visited, goesOn, ih.mpr ?_⟩
          exact ⟨front, item, back, rfl, torn, others, last, later, fun stops r member =>
            unfailed stops r (List.mem_cons_of_mem _ member)⟩

/-- Every example that a run has reached has flags, and is skipped if these ask for it. -/
theorem resolved_of_visitAll {checker : Output.Checker} {es : List Example} {k : Nat}
    {report : ExampleReport}
    (given : visitAll i checker settings session ns (es.map fun e => (e, .pending e)) =
      .ok (reports, last))
    (present : es[k]? = some e) (reported : reports[k]? = some report)
    (reached : report.state ≠ .pending) :
    ∃ flags, e.overrides.resolve settings.flags = .ok flags ∧
      (report.state = .skipped ↔ flags.requestsSkip = true) := by
  induction es generalizing session ns reports k with
  | nil => cases present
  | cons first es ih =>
    obtain ⟨here, session', ns', visited, ending⟩ := visitAll_cons_eq_ok.mp given
    cases k with
    | zero =>
      cases present
      have same : report = here := by
        rcases ending with ⟨_, _, rfl, _⟩ | ⟨_, _, _, rfl⟩
        · exact (Option.some.inj reported).symm
        · exact (Option.some.inj reported).symm
      subst same
      obtain ⟨flags, resolved, -⟩ := bind_eq_ok.mp visited
      obtain ⟨state, rfl, visits⟩ := visits_of_visit visited
      exact ⟨flags, resolved, visits.skipped_iff.trans (by rw [isSkipped_of_resolve resolved])⟩
    | succ k =>
      rcases ending with ⟨_, _, rfl, _⟩ | ⟨_, others, later, rfl⟩
      · rw [List.getElem?_cons_succ, List.map_map, List.getElem?_map] at reported
        obtain ⟨_, _, rfl⟩ := Option.map_eq_some_iff.mp reported
        exact absurd rfl reached
      · exact ih later present reported

theorem resolved_of_runDoctest {checker : Output.Checker} {files : FileSource} {d : Doctest}
    {r : DoctestReport} (given : runDoctest i checker settings files d = .ok r) {k : Nat}
    {state : ExampleState} (present : d.examples[k]? = some e)
    (reported : r.states[k]? = some state) (reached : state ≠ .pending) :
    ∃ flags, e.overrides.resolve settings.flags = .ok flags ∧
      (state = .skipped ↔ flags.requestsSkip = true) := by
  obtain ⟨own, ns, reports, last, -, -, visited, rfl⟩ := runDoctest_eq_ok.mp given
  rw [DoctestReport.states, List.getElem?_map] at reported
  obtain ⟨report, inside, rfl⟩ := Option.map_eq_some_iff.mp reported
  exact resolved_of_visitAll visited present inside reached

/-! ### Units -/

theorem copyResources_ne_options {files : FileSource} {d : Doctest} (unit : String)
    (resources : List String) (own : Directory) :
    copyResources files d resources own ≠ .error (.options unit flags) := by
  induction resources generalizing own with
  | nil => simp [copyResources]
  | cons resource rest ih =>
    intro given
    rw [copyResources] at given
    dsimp only at given
    split at given
    · cases given
    · rcases bind_eq_error.mp given with refused | ⟨more, _, later⟩
      · obtain ⟨_, _, other⟩ := mapError_eq_error.mp refused
        cases other
      · exact ih more later

theorem runDoctest_eq_error {checker : Output.Checker} {files : FileSource} {d : Doctest}
    {unit : String} :
    runDoctest i checker settings files d = .error (.options unit flags) ↔
      unit = d.name ∧ ∃ own ns,
        copyResources files d (settings.resourcesFor d.name) .empty = .ok own ∧
        i.create d.globals own = .ok ns ∧
        runExamples i checker settings d.examples ns = .error flags := by
  constructor
  · intro given
    rcases bind_eq_error.mp given with refused | ⟨own, copied, given⟩
    · exact absurd refused (copyResources_ne_options unit _ _)
    rcases bind_eq_error.mp given with refused | ⟨ns, created, given⟩
    · obtain ⟨_, _, other⟩ := mapError_eq_error.mp refused
      cases other
    rcases bind_eq_error.mp given with refused | ⟨_, _, given⟩
    · obtain ⟨_, refused, same⟩ := mapError_eq_error.mp refused
      cases same
      exact ⟨rfl, own, ns, copied, mapError_eq_ok.mp created, refused⟩
    · cases given
  · rintro ⟨rfl, own, ns, copied, created, refused⟩
    refine bind_eq_error.mpr (.inr ⟨own, copied, ?_⟩)
    refine bind_eq_error.mpr (.inr ⟨ns, mapError_eq_ok.mpr created, ?_⟩)
    exact bind_eq_error.mpr (.inl (mapError_eq_error.mpr ⟨flags, refused, rfl⟩))

theorem runExamples_eq_error {es : List Example} :
    runExamples i { compare } settings es ns = .error flags ↔
      ∃ front e back, es = front ++ e :: back ∧ e.overrides.resolve settings.flags = .error flags ∧
        ∃ reports last, runExamples i { compare } settings front ns = .ok (reports, last) ∧
          (settings.stopOnFirstFailure = true → ∀ r ∈ reports, r.state.hasFailed = false) := by
  rw [runExamples, visitAll_eq_error]
  constructor
  · rintro ⟨front, item, back, same, refused, reports, last, run, unfailed⟩
    obtain ⟨front, rest, rfl, rfl, more⟩ := List.map_eq_append_iff.mp same
    obtain ⟨e, back, rfl, rfl, -⟩ := List.map_eq_cons_iff.mp more
    exact ⟨front, e, back, rfl, refused, reports, last, run, unfailed⟩
  · rintro ⟨front, e, back, rfl, refused, reports, last, run, unfailed⟩
    exact ⟨_, _, _, List.map_append, refused, reports, last, run, unfailed⟩

theorem failed_eq_zero_iff {checker : Output.Checker} {files : FileSource} {d : Doctest}
    {r : DoctestReport} (given : runDoctest i checker settings files d = .ok r) :
    r.counts.failed = 0 ↔ ∀ report ∈ r.examples, report.state.hasFailed = false := by
  rw [failed_of_runDoctest given, List.countP_eq_zero]
  simp [DoctestReport.states]

/-- The run of a unit ends with refused options if it reaches an example that has them. -/
theorem runDoctest_eq_options {files : FileSource} {d : Doctest} {unit : String} :
    runDoctest i { compare } settings files d = .error (.options unit flags) ↔
      unit = d.name ∧ ∃ front e back, d.examples = front ++ e :: back ∧
        e.overrides.resolve settings.flags = .error flags ∧
        ∃ r, runDoctest i { compare } settings files { d with examples := front } = .ok r ∧
          (settings.stopOnFirstFailure = true → r.counts.failed = 0) := by
  rw [runDoctest_eq_error]
  refine and_congr_right fun _ => ?_
  constructor
  · rintro ⟨own, ns, copied, created, refused⟩
    obtain ⟨front, e, back, same, refused, reports, last, visited, unfailed⟩ :=
      runExamples_eq_error.mp refused
    rw [← copyResources_withExamples front] at copied
    have run := runDoctest_eq_ok.mpr ⟨own, ns, reports, last, copied, created, visited, rfl⟩
    exact ⟨front, e, back, same, refused, _, run, fun stops =>
      (failed_eq_zero_iff run).mpr (unfailed stops)⟩
  · rintro ⟨front, e, back, same, refused, r, run, unfailed⟩
    have passed := failed_eq_zero_iff run
    obtain ⟨own, ns, reports, last, copied, created, visited, rfl⟩ := runDoctest_eq_ok.mp run
    rw [copyResources_withExamples] at copied
    refine ⟨own, ns, copied, created, runExamples_eq_error.mpr ?_⟩
    exact ⟨front, e, back, same, refused, reports, last, visited, fun stops =>
      passed.mp (unfailed stops)⟩

end

/-! ### The unit of a text -/

namespace Transcript

section

variable {settings : Settings} {text name : String} {file : Option String} {line : Nat}
  {globals : List (String × String)} {d : Doctest}

theorem grouped_of_readDoctest (read : readDoctest settings text name file line globals = .ok d) :
    Grouped settings (Text.lines text.toList) ⟨d.examples, d.blocks⟩ := by
  obtain ⟨es, reads, rfl⟩ := map_eq_ok.mp read
  exact grouped_of_read reads

/-- The settings are valid and no example of the text contradicts itself. Then a run ends without a
report at an example only if a block skips it and its own directive does not, and it does so where
it reaches one; the others are skipped if their directives or their block say so. -/
theorem refused_iff_torn (valid : settings.validate = .ok ())
    (read : readDoctest settings text name file line globals = .ok d)
    (consistent : ∀ e ∈ d.examples, Consistent (Text.lines text.toList) e)
    (i : Interpreter) (compare : String → String → Flags → Settings → Output.Verdict)
    (files : FileSource) :
    (∀ unit flags, runDoctest i { compare } settings files d = .error (.options unit flags) ↔
      unit = d.name ∧ flags = .ofList [.skip] ∧ ∃ front e back, d.examples = front ++ e :: back ∧
        Torn (Text.lines text.toList) d.examples e ∧
        ∃ r, runDoctest i { compare } settings files { d with examples := front } = .ok r ∧
          (settings.stopOnFirstFailure = true → r.counts.failed = 0)) ∧
    ∀ r, runDoctest i { compare } settings files d = .ok r →
      ∀ (k : Nat) (e : Example) (state : ExampleState), d.examples[k]? = some e →
        r.states[k]? = some state → state ≠ .pending →
        (state = .skipped ↔ AsksToSkip (Text.lines text.toList) d.examples e) := by
  have grouped := grouped_of_readDoctest read
  obtain ⟨noSkip, noSkipBlock⟩ := Settings.skips_nothing valid
  have refused_iff (e : Example) (member : e ∈ d.examples) (flags : Flags) :
      e.overrides.resolve settings.flags = .error flags ↔
        flags = .ofList [.skip] ∧ Torn (Text.lines text.toList) d.examples e :=
    grouped.resolve_eq_error member (consistent e member) noSkip noSkipBlock
  constructor
  · intro unit flags
    rw [runDoctest_eq_options]
    refine and_congr_right fun _ => ?_
    constructor
    · rintro ⟨front, e, back, same, refused, run⟩
      obtain ⟨rfl, torn⟩ := (refused_iff e (by simp [same]) flags).mp refused
      exact ⟨rfl, front, e, back, same, torn, run⟩
    · rintro ⟨rfl, front, e, back, same, torn, run⟩
      exact ⟨front, e, back, same, (refused_iff e (by simp [same]) _).mpr ⟨rfl, torn⟩, run⟩
  · intro r given k e state present reported reached
    have member := List.mem_of_getElem? present
    obtain ⟨flags, resolved, skipped⟩ := resolved_of_runDoctest given present reported reached
    have asks := grouped.requestsSkip_iff member (consistent e member) noSkip noSkipBlock resolved
    exact skipped.trans asks

end

/-- A text with a torn example, and a run that reaches it. -/
theorem exists_torn (text : String) (k : Nat)
    (given : ((readDoctest .defaults text "unit" none 0 []).toOption.any fun d =>
      (d.examples.all fun e => Consistent (Text.lines text.toList) e) &&
      (d.examples[k]?.any fun e => Torn (Text.lines text.toList) d.examples e) &&
      (runDoctest (Script.interpreter .defaults) .tolerant .defaults (Directory.source [])
        { d with examples := d.examples.take k }).toOption.isSome) = true) :
    ∃ d, readDoctest .defaults text "unit" none 0 [] = .ok d ∧
      (∀ e ∈ d.examples, Consistent (Text.lines text.toList) e) ∧
      ∃ front e back, d.examples = front ++ e :: back ∧
        Torn (Text.lines text.toList) d.examples e ∧
        ∃ r, runDoctest (Script.interpreter .defaults) .tolerant .defaults (Directory.source [])
          { d with examples := front } = .ok r := by
  obtain ⟨d, read, facts⟩ := (Option.any_eq_true _ _).mp given
  simp only [Bool.and_eq_true, List.all_eq_true, decide_eq_true_eq] at facts
  obtain ⟨⟨consistent, torn⟩, run⟩ := facts
  obtain ⟨e, present, torn⟩ := (Option.any_eq_true _ _).mp torn
  obtain ⟨r, run⟩ := Option.isSome_iff_exists.mp run
  obtain ⟨inside, rfl⟩ := List.getElem?_eq_some_iff.mp present
  refine ⟨d, toOption_eq_some.mp read, consistent, d.examples.take k, d.examples[k],
    d.examples.drop (k + 1), ?_, of_decide_eq_true torn, r, toOption_eq_some.mp run⟩
  rw [← List.drop_eq_getElem_cons inside, List.take_append_drop]

theorem valid_defaults : Settings.defaults.validate = .ok () :=
  toOption_eq_some.mp (by decide +kernel)

/-- The first example of a block is skipped, and the run ends at the second. -/
theorem refused_iff_torn_second :
    ∃ d, readDoctest .defaults ">>> a # doctest: +SKIPBLOCK\n>>> b # doctest: -SKIP\n" "unit" none 0
        [] = .ok d ∧
      Settings.defaults.validate = .ok () ∧
      (∀ e ∈ d.examples, Consistent
        (Text.lines ">>> a # doctest: +SKIPBLOCK\n>>> b # doctest: -SKIP\n".toList) e) ∧
      runDoctest (Script.interpreter .defaults) .tolerant .defaults (Directory.source []) d =
        .error (.options d.name (.ofList [.skip])) := by
  obtain ⟨d, read, consistent, front, e, back, same, torn, r, run⟩ :=
    exists_torn ">>> a # doctest: +SKIPBLOCK\n>>> b # doctest: -SKIP\n" 1
      (by decide +kernel)
  refine ⟨d, read, valid_defaults, consistent, ?_⟩
  exact ((refused_iff_torn valid_defaults read consistent _ _ _).1 _ _).mpr
    ⟨rfl, rfl, front, e, back, same, torn, r, run, by simp [Settings.defaults]⟩

/-- All examples are to be skipped, none contradicts itself, and yet the unit has no report. -/
theorem skipped_block_refused :
    ∃ d, readDoctest .defaults ">>> a # doctest: -SKIP\n>>> b # doctest: +SKIPBLOCK\n" "unit" none 0
        [] = .ok d ∧
      Settings.defaults.validate = .ok () ∧
      (∀ e ∈ d.examples, Consistent
        (Text.lines ">>> a # doctest: -SKIP\n>>> b # doctest: +SKIPBLOCK\n".toList) e) ∧
      runDoctest (Script.interpreter .defaults) .tolerant .defaults (Directory.source []) d =
        .error (.options d.name (.ofList [.skip])) := by
  obtain ⟨d, read, consistent, front, e, back, same, torn, r, run⟩ :=
    exists_torn ">>> a # doctest: -SKIP\n>>> b # doctest: +SKIPBLOCK\n" 0
      (by decide +kernel)
  have member : e ∈ d.examples := by simp [same]
  have refused := (grouped_of_readDoctest read).resolve_of_torn member (consistent e member) torn
    Settings.defaults.flags
  exact ⟨d, read, valid_defaults, consistent, runDoctest_eq_options.mpr
    ⟨rfl, front, e, back, same, refused, r, run, by simp [Settings.defaults]⟩⟩

end Transcript

end DocExamples
