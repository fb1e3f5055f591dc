import DocExamples.Proofs.Script.Bindings
import DocExamples.Proofs.Script.Compositional
import DocExamples.Proofs.Script.Nesting
import DocExamples.Proofs.Script.Runs
/-!
The limit on the nesting of bound values, at every point of a session.

Programs check the values that they assign, store and append. They do not check what a call binds
to the parameters of a function, the initial bindings of a session and the keys that are added to
a dictionary. The limit holds throughout a session if and only if these happen to respect it.
-/
namespace DocExamples.Script

/-- Every bound value respects the limit. -/
def Scopes.Bounded (s : Scopes Value) : Prop := s.All (Value.Within maxValueNesting)

/-! ### Steps -/

/-- What is not checked respects the limit. -/
def Step.Admissible : Step → Scopes Value → Prop
  | .define .call _ v, _ | .define .session _ v, _ => v.Within maxValueNesting
  | .edit name e, s => ∀ v, s.lookup name = some v → e.KeyWithin (maxValueNesting - 1) v
  | .define .program _ _, _ | .unbind _, _ | .enterFrame, _ | .leaveFrame, _ => True

/-- An admissible step leads from bounded bindings to bounded ones. -/
def Step.Sound (step : Step) : Prop :=
  ∀ s : Scopes Value, s.Bounded → step.Admissible s → (step.apply s).Bounded

namespace Step

theorem sound_define {origin : Origin} {name : String} {v : Value}
    (within : v.Within maxValueNesting) : (define origin name v).Sound :=
  fun _ bounded _ => bounded.define within

theorem sound_define_call (name : String) (v : Value) : (define .call name v).Sound :=
  fun _ bounded admissible => bounded.define admissible

theorem sound_define_session (name : String) (v : Value) : (define .session name v).Sound :=
  fun _ bounded admissible => bounded.define admissible

theorem sound_edit {e : Edit} (name : String) (stores : e.Stores (maxValueNesting - 1)) :
    (edit name e).Sound := by
  intro s bounded admissible
  exact bounded.change fun v found below => Edit.within_apply below stores (admissible v found)

theorem sound_unbind (name : String) : (unbind name).Sound := fun _ bounded _ => bounded.remove name

theorem sound_enterFrame : enterFrame.Sound := fun _ bounded _ => bounded.pushFrame

theorem sound_leaveFrame : leaveFrame.Sound := fun _ bounded _ => bounded.popFrame

/-- Bindings stay bounded only through admissible steps. -/
theorem admissible_of_bounded {step : Step} {s : Scopes Value} (bounded : (step.apply s).Bounded) :
    step.Admissible s := by
  cases step with
  | define origin name v =>
    cases origin with
    | program => trivial
    | call | session => exact bounded.of_lookup (Scopes.lookup_define s name v)
  | edit name e =>
    intro v found
    exact Edit.keyWithin_of_within_apply (bounded.of_lookup (Scopes.lookup_change e.apply found))
  | unbind | enterFrame | leaveFrame => trivial

end Step

/-- Bindings are bounded after each step. -/
abbrev Safe : List Step → Scopes Value → Prop := Throughout Scopes.Bounded

/-! ### Computations -/

/-- A computation whose steps are sound where it takes them: from bounded bindings, admissible
steps lead only to bounded ones. -/
def KeepsBounded {α : Type} (x : Eval α) : Prop :=
  ∀ m, m.scopes.Bounded → EachStep Step.Admissible (x.steps m) m.scopes →
    Safe (x.steps m) m.scopes

namespace KeepsBounded

variable {α β : Type}

theorem quiet (f : Machine → Except Stop α × Machine) (same : ∀ m, (f m).2.scopes = m.scopes) :
    KeepsBounded (Eval.quiet f same) := fun _ _ _ => trivial

theorem perform {step : Step} (sound : step.Sound) : KeepsBounded (Machine.perform step) :=
  fun m bounded admissible => ⟨sound m.scopes bounded admissible.1, trivial⟩

/-- The second computation may rely on what the first one gives. -/
theorem bind {x : Eval α} {f : α → Eval β} (first : KeepsBounded x)
    (second : ∀ a, (∃ m m', x.run m = (.ok a, m')) → KeepsBounded (f a)) :
    KeepsBounded (x >>= f) := by
  intro m bounded admissible
  change EachStep _ (x.steps m ++ _) _ at admissible
  change EachStep _ (x.steps m ++ _) _
  rw [eachStep_append] at admissible ⊢
  have safe := first m bounded admissible.1
  refine ⟨safe, ?_⟩
  have after := x.scopes_run m
  cases given : x.run m with
  | mk result m' =>
    rw [given] at admissible after
    cases result with
    | error e => trivial
    | ok a =>
      rw [← after] at admissible ⊢
      exact second a ⟨m, m', given⟩ m' (after ▸ safe.replay bounded) admissible.2

theorem endingWith {x : Eval α} {last : Eval Unit} (first : KeepsBounded x)
    (second : KeepsBounded last) : KeepsBounded (x.endingWith last) := by
  intro m bounded admissible
  change EachStep _ (x.steps m ++ last.steps (x.run m).2) _ at admissible
  change EachStep _ (x.steps m ++ last.steps (x.run m).2) _
  rw [eachStep_append, ← x.scopes_run m] at admissible ⊢
  have safe := first m bounded admissible.1
  have after : (x.run m).2.scopes.Bounded := by
    rw [x.scopes_run m]
    exact safe.replay bounded
  exact ⟨safe, second _ after admissible.2⟩

theorem pure (a : α) : KeepsBounded (Pure.pure a : Eval α) := quiet _ _

theorem lift (x : Except Fault α) : KeepsBounded (liftM x : Eval α) := by
  cases x with
  | ok a => exact quiet _ _
  | error f => exact quiet _ _

theorem withinNesting (limit : Nat) (v : Value) : KeepsBounded (Script.withinNesting limit v) := by
  unfold Script.withinNesting
  split
  · exact quiet _ _
  · exact quiet _ _

theorem lookup (name : String) : KeepsBounded (Machine.lookup name) :=
  bind (quiet _ _) fun _ _ => pure _

end KeepsBounded

/-! ### What is checked -/

theorem run_withinNesting_of_deep {limit : Nat} {v : Value} (deep : ¬ v.Within limit)
    (m : Machine) : (withinNesting limit v).run m = (.error (.fault .nestingTooDeep), m) := by
  rw [withinNesting, if_pos (Bool.not_eq_false _ ▸ deep)]
  rfl

theorem within_of_run {limit : Nat} {v : Value} {m m' : Machine}
    (passed : (withinNesting limit v).run m = (.ok (), m')) : v.Within limit := by
  apply Decidable.byContradiction
  intro deep
  rw [run_withinNesting_of_deep deep] at passed
  cases passed

/-- What an assignment of an item stores was checked. -/
theorem stores_of_edit {change : ItemChange} {container : Value} {s : Subscript} {e : Edit}
    {m m' : Machine} (given : (change.edit container s).run m = (.ok e, m')) :
    e.Stores (maxValueNesting - 1) := by
  cases change with
  | set v =>
    obtain ⟨_, m₁, passed, stored⟩ := run_bind_eq_ok.mp given
    exact Edit.stores_of_storeEdit (within_of_run passed) (run_lift_eq_ok.mp stored).1
  | delete => exact Edit.stores_of_deleteEdit (run_lift_eq_ok.mp given).1

/-- The arguments of a mutating method were checked. -/
theorem within_of_run_forM {limit : Nat} {args : List Value} {m m' : Machine}
    (passed : (args.forM (withinNesting limit)).run m = (.ok (), m')) :
    ∀ v ∈ args, v.Within limit := by
  induction args generalizing m with
  | nil => exact fun v member => absurd member List.not_mem_nil
  | cons v rest ih =>
    obtain ⟨_, m₁, first, others⟩ := run_bind_eq_ok.mp passed
    exact List.forall_mem_cons.mpr ⟨within_of_run first, ih others⟩

/-! ### Programs -/

namespace KeepsBounded

theorem define {v : Value} (origin : Origin) (name : String) (within : v.Within maxValueNesting) :
    KeepsBounded (Machine.define origin name v) := perform (Step.sound_define within)

theorem bindName (name : String) (v : Value) : KeepsBounded (Script.bindName name v) := by
  apply bind (withinNesting _ v)
  intro _ passed
  obtain ⟨m, m', passed⟩ := passed
  exact define .program name (within_of_run passed)

theorem edit (change : ItemChange) (container : Value) (s : Subscript) :
    KeepsBounded (change.edit container s) := by
  cases change with
  | set v => exact bind (withinNesting _ v) fun _ _ => lift _
  | delete => exact lift _

theorem storeAt (name : String) (s : Subscript) (change : ItemChange) :
    KeepsBounded (Script.storeAt name s change) := by
  apply bind (lookup name)
  intro found _
  cases found with
  | none => exact quiet _ _
  | some v =>
    apply bind (edit change v s)
    intro e given
    obtain ⟨m, m', given⟩ := given
    exact perform (Step.sound_edit name (stores_of_edit given))

theorem checkAll (limit : Nat) (args : List Value) :
    KeepsBounded (args.forM (Script.withinNesting limit)) := by
  induction args with
  | nil => exact pure _
  | cons v rest ih => exact bind (withinNesting limit v) fun _ _ => ih

theorem mutateBound (callee : Expr) (args : List Value) :
    KeepsBounded (mutateBound? callee args) := by
  unfold mutateBound?
  split
  · refine bind (bind (lookup _) fun found _ => ?_) fun items _ => ?_
    · split
      · exact pure _
      · exact pure _
    · split
      · refine bind (checkAll _ args) fun _ passed => bind (lift _) fun made given => ?_
        obtain ⟨m, m', passed⟩ := passed
        obtain ⟨m₁, m₁', given⟩ := given
        have stores : Edit.Stores (maxValueNesting - 1) (.list made.1) :=
          Mutator.stores_of_edit (within_of_run_forM passed) (run_lift_eq_ok.mp given).1
        exact bind (perform (Step.sound_edit _ stores)) fun _ _ => pure _
      · exact pure _
  · exact pure _

theorem unbind (name : String) : KeepsBounded (Machine.unbind name) :=
  bind (quiet _ _) fun _ _ => bind (perform (Step.sound_unbind name)) fun _ _ => pure _

theorem restoreNames {saved : List (String × Option Value)}
    (within : ∀ name v, (name, some v) ∈ saved → v.Within maxValueNesting) :
    KeepsBounded (Script.restoreNames saved) := by
  induction saved with
  | nil => exact pure _
  | cons entry rest ih =>
    have restored := ih fun name v member => within name v (List.mem_cons_of_mem _ member)
    obtain ⟨name, before⟩ := entry
    cases before with
    | none => exact bind (unbind name) fun _ _ => restored
    | some v =>
      exact bind (define .program name (within name v List.mem_cons_self)) fun _ _ => restored

/-- The values that names are given back were bound when they were saved. -/
theorem keepingNames {α : Type} {x : Eval α} (names : List String) (kept : KeepsBounded x) :
    KeepsBounded (Script.keepingNames names x) := by
  intro m bounded admissible
  refine endingWith kept (restoreNames fun name v member => ?_) m bounded admissible
  obtain ⟨saved, -, same⟩ := List.mem_map.mp member
  exact bounded.of_lookup (Prod.mk.inj same).2

theorem defineAll (locals : List (String × Value)) : KeepsBounded (Script.defineAll locals) := by
  induction locals with
  | nil => exact pure _
  | cons entry rest ih =>
    obtain ⟨name, v⟩ := entry
    exact bind (perform (Step.sound_define_call name v)) fun _ _ => ih

theorem structural : Structural KeepsBounded where
  quiet f same _ := quiet f same
  print _ := quiet _ _
  printLine _ := quiet _ _
  bind := bind
  bindName := bindName
  define name _ flat := define .program name (Value.Within.mono flat (Nat.zero_le _))
  unbind := unbind
  storeAt := storeAt
  mutateBound := mutateBound
  keepingNames := keepingNames

theorem inFrame {α : Type} {x : Eval α} (locals : List (String × Value)) (kept : KeepsBounded x) :
    KeepsBounded (Machine.inFrame (do Script.defineAll locals; x)) := by
  apply bind (perform Step.sound_enterFrame)
  intro _ _
  exact endingWith (bind (defineAll locals) fun _ _ => kept) (perform Step.sound_leaveFrame)

theorem compositional : Compositional .any fun _ {_} R x => KeepsBounded x ∧ x.Gives R where
  evaluative _ := structural.evaluative
  inFrame locals _ kept := ⟨inFrame locals kept.1, kept.2.inFrame locals⟩

end KeepsBounded

/-! ### Sessions -/

section Sessions

variable {limits : Limits} {globals : List (String × String)} {directory : Directory}
  {sources : List String}

theorem keepsBounded_bindInitial : KeepsBounded (bindInitial limits globals) := by
  induction globals with
  | nil => exact .pure _
  | cons entry rest ih =>
    obtain ⟨name, source⟩ := entry
    refine .bind (KeepsBounded.compositional.initialValue limits name source).1 fun v _ => ?_
    exact .bind (.perform (Step.sound_define_session name v)) fun _ _ => ih

theorem safe_steps {ns : Namespace} (bounded : ns.machine.scopes.Bounded)
    (admissible : EachStep Step.Admissible (ns.steps limits sources) ns.machine.scopes) :
    Safe (ns.steps limits sources) ns.machine.scopes := by
  induction sources generalizing ns with
  | nil => trivial
  | cons source rest ih =>
    have kept := (KeepsBounded.compositional.runSource limits source).1 ns.machine bounded
    rw [Namespace.steps, eachStep_append] at admissible
    have safe := kept admissible.1
    have after : (ns.execute limits source).2.machine.scopes.Bounded := by
      rw [scopes_execute]
      exact safe.replay bounded
    rw [← scopes_execute] at admissible
    change EachStep _ (_ ++ _) _
    rw [eachStep_append, ← scopes_execute]
    exact ⟨safe, ih after admissible.2⟩

theorem safe_sessionSteps
    (admissible : EachStep Step.Admissible (sessionSteps limits globals directory sources) .empty) :
    Safe (sessionSteps limits globals directory sources) .empty := by
  rw [sessionSteps, eachStep_append] at admissible
  change EachStep _ (_ ++ _) _
  rw [eachStep_append]
  have safe := keepsBounded_bindInitial (.start directory) Scopes.all_empty admissible.1
  refine ⟨safe, ?_⟩
  cases created : Namespace.create limits globals directory with
  | error e => trivial
  | ok ns =>
    rw [created] at admissible
    have after := scopes_create created
    have bounded : ns.machine.scopes.Bounded := after ▸ safe.replay Scopes.all_empty
    rw [← after] at admissible ⊢
    exact safe_steps bounded admissible.2

end Sessions

/-- Throughout a session every bound value respects the limit if and only if, at every step, what
is not checked does. -/
theorem bounded_throughout_iff (limits : Limits) (globals : List (String × String))
    (directory : Directory) (sources : List String) :
    (∀ front, front <+: sessionSteps limits globals directory sources →
        (replay front .empty).Bounded) ↔
      ∀ front step, front ++ [step] <+: sessionSteps limits globals directory sources →
        step.Admissible (replay front .empty) := by
  constructor
  · intro bounded front step inside
    have after := bounded (front ++ [step]) inside
    rw [replay_append] at after
    exact Step.admissible_of_bounded after
  · intro admissible
    exact (throughout_iff Scopes.all_empty).mp (safe_sessionSteps (eachStep_iff.mpr admissible))

/-! ### Refusals -/

/-- The computation fails because containers nest too deep, and nothing changes. -/
def Eval.RefusesNesting {α : Type} (x : Eval α) (m : Machine) : Prop :=
  x.run m = (.error (.fault .nestingTooDeep), m)

section Refusals

variable {α β : Type} {v : Value} {m : Machine}

theorem Eval.RefusesNesting.bind {x : Eval α} (refuses : x.RefusesNesting m) (f : α → Eval β) :
    (x >>= f).RefusesNesting m := by
  change (Eval.bind x f).run m = _
  rw [Eval.bind]
  dsimp only
  rw [refuses]

theorem withinNesting_refuses {limit : Nat} (deep : ¬ v.Within limit) :
    (withinNesting limit v).RefusesNesting m := run_withinNesting_of_deep deep m

theorem bindName_refuses (name : String) (deep : ¬ v.Within maxValueNesting) :
    (bindName name v).RefusesNesting m := (withinNesting_refuses deep).bind _

theorem edit_refuses (container : Value) (s : Subscript)
    (deep : ¬ v.Within (maxValueNesting - 1)) :
    ((ItemChange.set v).edit container s).RefusesNesting m := (withinNesting_refuses deep).bind _

theorem checkAll_refuses {limit : Nat} {args : List Value} (deep : ∃ v ∈ args, ¬ v.Within limit) :
    (args.forM (withinNesting limit)).RefusesNesting m := by
  induction args with
  | nil =>
    obtain ⟨v, member, -⟩ := deep
    cases member
  | cons v rest ih =>
    by_cases first : v.Within limit
    · have later : ∃ v ∈ rest, ¬ v.Within limit := by
        obtain ⟨w, member, deep⟩ := deep
        rcases List.mem_cons.mp member with same | later
        · exact absurd (same ▸ first) deep
        · exact ⟨w, later, deep⟩
      have passes : withinNesting limit v = pure () := by
        rw [withinNesting, show v.nestsDeeperThan limit = false from first]
        rfl
      change (withinNesting limit v >>= fun _ => _).RefusesNesting m
      rw [passes]
      exact ih later
    · exact (withinNesting_refuses first).bind _

theorem mutateBound_refuses {name method : String} {mutator : Mutator} {items : Array Value}
    {args : List Value} (known : Mutator.ofName? method = some mutator)
    (bound : m.scopes.lookup name = some (.list items))
    (deep : ∃ v ∈ args, ¬ v.Within (maxValueNesting - 1)) :
    (mutateBound? (.attr (.name name) method) args).RefusesNesting m := by
  have found : (boundList? name).run m = (.ok (some items), m) := by
    refine (run_bind_of_ok (x := Machine.lookup name) (a := some (.list items)) ?_).trans rfl
    exact congrArg (fun v => (Except.ok v, m)) bound
  refine (run_bind_of_ok found).trans ?_
  dsimp only
  rw [known]
  exact (checkAll_refuses deep).bind _

end Refusals

/-- The limit on nesting. The bindings that a session leaves behind are those after its steps; they
respect the limit throughout if and only if, at every step, what is not checked does; and the
operations that check what they bind, store or append refuse what nests deeper. -/
theorem nesting_limit (limits : Limits) (globals : List (String × String))
    (directory : Directory) (sources : List String) :
    (∀ ns, Namespace.create limits globals directory = .ok ns →
      (ns.executeAll limits sources).machine.scopes =
        replay (sessionSteps limits globals directory sources) .empty) ∧
    ((∀ front, front <+: sessionSteps limits globals directory sources →
        (replay front .empty).Bounded) ↔
      ∀ front step, front ++ [step] <+: sessionSteps limits globals directory sources →
        step.Admissible (replay front .empty)) ∧
    (∀ name v m, ¬ v.Within maxValueNesting → (bindName name v).RefusesNesting m) ∧
    (∀ container s v m, ¬ v.Within (maxValueNesting - 1) →
      ((ItemChange.set v).edit container s).RefusesNesting m) ∧
    (∀ name method mutator items args m, Mutator.ofName? method = some mutator →
      m.scopes.lookup name = some (.list items) →
      (∃ v ∈ args, ¬ v.Within (maxValueNesting - 1)) →
      (mutateBound? (.attr (.name name) method) args).RefusesNesting m) ∧
    (Stop.fault .nestingTooDeep).toRaised.kind = "RecursionError" := by
  refine ⟨fun ns created => scopes_session created,
    bounded_throughout_iff limits globals directory sources,
    fun name v m deep => bindName_refuses name deep,
    fun container s v m deep => edit_refuses container s deep, ?_, rfl⟩
  exact fun name method mutator items args m known bound deep => mutateBound_refuses known bound deep

/-! ### Bindings beyond the limit -/

/-- An empty list in `n` more lists. -/
def nestedList : Nat → Value
  | 0 => .list #[]
  | n + 1 => .list #[nestedList n]

theorem within_nestedList {limit : Nat} (n : Nat) : (nestedList n).Within limit ↔ n < limit := by
  induction n generalizing limit with
  | zero =>
    cases limit with
    | zero => simp [nestedList, Value.not_within_list]
    | succ limit => simp [nestedList, Value.within_list]
  | succ n ih =>
    cases limit with
    | zero => simp [nestedList, Value.not_within_list]
    | succ limit => simp [nestedList, Value.within_list, ih]

/-- A name that is bound first to an empty list and then again and again to the list of its
value. -/
def nestingGlobals (n : Nat) : List (String × String) := ("x", "[]") :: .replicate n ("x", "[x]")

theorem initialValue_empty (limits : Limits) :
    initialValue limits "x" "[]" = pure (nestedList 0) := by
  have notModule : isModule "[]" = false := rfl
  have program : parsed "[]" = .ok [.expr (.list [])] := rfl
  rw [initialValue, notModule, program]
  change evalExpr _ (.list []) = _
  rw [evalExpr, evalAll]
  rfl

theorem run_initialValue_wrap {limits : Limits} {m : Machine} {v : Value}
    (bound : m.scopes.lookup "x" = some v) :
    (initialValue limits "x" "[x]").run m = (.ok (.list #[v]), m) := by
  have notModule : isModule "[x]" = false := rfl
  have program : parsed "[x]" = .ok [.expr (.list [.name "x"])] := rfl
  have looked : (lookupName "x").run m = (.ok v, m) := by
    refine (run_bind_of_ok (x := Machine.lookup "x") (a := some v) ?_).trans rfl
    exact congrArg (fun v => (Except.ok v, m)) bound
  rw [initialValue, notModule, program]
  change (evalExpr _ (.list [.name "x"])).run m = _
  have items : (evalAll limits.caller [.name "x"]).run m = (.ok [v], m) := by
    rw [evalAll, evalAll, evalExpr]
    exact (run_bind_of_ok looked).trans rfl
  rw [evalExpr]
  exact (run_bind_of_ok items).trans rfl

theorem lookup_after_wraps (limits : Limits) {m : Machine} (depth n : Nat)
    (bound : m.scopes.lookup "x" = some (nestedList depth)) :
    ((bindInitial limits (.replicate n ("x", "[x]"))).run m).2.scopes.lookup "x" =
      some (nestedList (depth + n)) := by
  induction n generalizing m depth with
  | zero => exact bound
  | succ n ih =>
    have first : (bindInitial limits (.replicate (n + 1) ("x", "[x]"))).run m =
        (bindInitial limits (.replicate n ("x", "[x]"))).run
          { m with scopes := m.scopes.define "x" (nestedList (depth + 1)) } :=
      (run_bind_of_ok (run_initialValue_wrap bound)).trans rfl
    rw [first, ih (depth + 1) (Scopes.lookup_define _ _ _), Nat.add_assoc, Nat.add_comm 1 n]

theorem lookup_nestingGlobals (limits : Limits) (directory : Directory) (n : Nat) :
    (replay (sessionSteps limits (nestingGlobals n) directory []) .empty).lookup "x" =
      some (nestedList n) := by
  have steps : sessionSteps limits (nestingGlobals n) directory [] =
      (bindInitial limits (nestingGlobals n)).steps (.start directory) := by
    unfold sessionSteps
    split <;> exact List.append_nil _
  have first : (bindInitial limits (nestingGlobals n)).run (.start directory) =
      (bindInitial limits (.replicate n ("x", "[x]"))).run
        { Machine.start directory with scopes := Scopes.empty.define "x" (nestedList 0) } := by
    rw [nestingGlobals, bindInitial, initialValue_empty]
    rfl
  have after := (bindInitial limits (nestingGlobals n)).scopes_run (.start directory)
  change _ = replay _ .empty at after
  have wrapped := lookup_after_wraps limits
    (m := { Machine.start directory with scopes := Scopes.empty.define "x" (nestedList 0) }) 0 n
    (Scopes.lookup_define .empty "x" (nestedList 0))
  rw [steps, ← after, first, wrapped, Nat.zero_add]

theorem nesting_limit_exceeded :
    ∃ front, front <+: sessionSteps .defaults (nestingGlobals 200) .empty [] ∧
      ¬ (replay front .empty).Bounded := by
  refine ⟨_, List.prefix_rfl, fun bounded => ?_⟩
  have below := bounded.of_lookup (lookup_nestingGlobals .defaults .empty 200)
  exact absurd ((within_nestedList 200).mp below) (Nat.lt_irrefl 200)

end DocExamples.Script
