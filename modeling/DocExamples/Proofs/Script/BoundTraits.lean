import DocExamples.Proofs.Script.Compositional
/-!
Conditions on dictionaries and arrays through whole sessions: operations that keep them keep them
of all bound values, at every step of every program.
-/
namespace DocExamples.Script

/-- All dictionaries and arrays in bound values meet the conditions. -/
abbrev Scopes.Have (T : Trait) (s : Scopes Value) : Prop := s.All (Value.Has T)

/-- From bindings that meet the conditions, every step leads to such bindings, and `R` holds of what
the computation gives. -/
def Keeps (T : Trait) {α : Type} (R : α → Prop) (x : Eval α) : Prop :=
  ∀ m, m.scopes.Have T →
    Throughout (Scopes.Have T) (x.steps m) m.scopes ∧ ∀ a, (x.run m).1 = .ok a → R a

namespace Keeps

variable {T : Trait} {α β : Type} {R : α → Prop} {x : Eval α}

theorem after (kept : Keeps T R x) {m : Machine} (have' : m.scopes.Have T) :
    (x.run m).2.scopes.Have T := by
  rw [x.scopes_run m]
  exact (kept m have').1.replay have'

theorem quiet (f : Machine → Except Stop α × Machine) (same : ∀ m, (f m).2.scopes = m.scopes)
    (gives : ∀ m a, m.scopes.Have T → (f m).1 = .ok a → R a) : Keeps T R (Eval.quiet f same) :=
  fun m have' => ⟨trivial, fun a given => gives m a have' given⟩

theorem perform {step : Step} (sound : ∀ s : Scopes Value, s.Have T → (step.apply s).Have T) :
    Keeps T (fun _ => True) (Machine.perform step) :=
  fun m have' => ⟨⟨sound m.scopes have', trivial⟩, fun _ _ => trivial⟩

theorem bind {S : β → Prop} {f : α → Eval β} (first : Keeps T R x)
    (second : ∀ a, R a → Keeps T S (f a)) : Keeps T S (x >>= f) := by
  intro m have'
  have after := first.after have'
  obtain ⟨throughout, gives⟩ := first m have'
  have scopes := x.scopes_run m
  change Throughout _ (x.steps m ++ _) _ ∧ ∀ b, (Eval.run (Eval.bind x f) m).1 = .ok b → S b
  rw [throughout_append, ← scopes, Eval.bind]
  dsimp only
  cases given : x.run m with
  | mk result m' =>
    rw [given] at after gives
    cases result with
    | error e => exact ⟨⟨throughout, trivial⟩, fun b given => by cases given⟩
    | ok a =>
      obtain ⟨later, gives'⟩ := second a (gives a rfl) m' after
      exact ⟨⟨throughout, later⟩, gives'⟩

theorem endingWith {last : Eval Unit} (first : Keeps T R x)
    (second : Keeps T (fun _ => True) last) : Keeps T R (x.endingWith last) := by
  intro m have'
  have after := first.after have'
  obtain ⟨throughout, gives⟩ := first m have'
  refine ⟨?_, fun a given => gives a ?_⟩
  · change Throughout _ (x.steps m ++ last.steps (x.run m).2) _
    rw [throughout_append, ← x.scopes_run m]
    exact ⟨throughout, (second _ after).1⟩
  · rw [Eval.endingWith] at given
    dsimp only at given
    split at given
    · exact given
    · cases given

theorem sequential (lawful : T.Lawful) : Sequential T (Keeps T) where
  lawful := lawful
  quiet f same _ := quiet f same
  print _ := quiet _ _ fun _ _ _ _ => trivial
  printLine _ := quiet _ _ fun _ _ _ _ => trivial
  bind := bind

theorem define {v : Value} (origin : Origin) (name : String) (holds : v.Has T) :
    Keeps T (fun _ => True) (Machine.define origin name v) := perform fun _ have' => have'.define holds

theorem unbind (lawful : T.Lawful) (name : String) :
    Keeps T (fun _ => True) (Machine.unbind name) := by
  have closed := sequential lawful
  refine closed.bind closed.get fun _ _ => ?_
  exact closed.bind (perform fun _ have' => have'.remove name) fun _ _ => closed.pure trivial

theorem performEdit (lawful : T.Lawful) (name : String) {e : Edit} (puts : e.Has T) :
    Keeps T (fun _ => True) (Machine.edit name e) :=
  perform fun _ have' => have'.change fun _ _ holds => lawful.applyEdit puts holds

theorem mutateBound (lawful : T.Lawful) (callee : Expr) {args : List Value}
    (argsHave : AllHave T args) : Keeps T (IfAny T) (mutateBound? callee args) := by
  have closed := sequential lawful
  have nothing : Keeps T (IfAny T) (Pure.pure none) := closed.pure fun _ given => by cases given
  have checks : ∀ vs : List Value,
      Keeps T (fun _ => True) (vs.forM (withinNesting (maxValueNesting - 1))) := by
    intro vs
    induction vs with
    | nil => exact closed.pure trivial
    | cons v rest ih => exact closed.bind (closed.withinNesting _ v) fun _ _ => ih
  unfold mutateBound?
  split
  · next name method =>
    have bound : Keeps T (fun found : Option (Array Value) =>
        ∀ items, found = some items → AllHave T items.toList) (boundList? name) := by
      apply closed.bind (closed.lookup name)
      intro found holds
      split
      · next items =>
        refine closed.pure ?_
        rintro _ ⟨⟩
        exact Value.has_list.mp (holds _ rfl)
      · exact closed.pure fun _ given => by cases given
    apply closed.bind bound
    intro found itemsHave
    split
    · next mutator items _ =>
      refine closed.bind (checks args) fun _ _ => ?_
      refine closed.bind (closed.lift (lawful.mutatorEdit (itemsHave items rfl) argsHave)) ?_
      intro made puts
      refine closed.bind (performEdit lawful name puts.1) fun _ _ => closed.pure ?_
      rintro _ ⟨⟩
      exact puts.2
    · exact nothing
  · exact nothing

theorem restoreNames (lawful : T.Lawful) {saved : List (String × Option Value)}
    (savedHave : ∀ entry ∈ saved, IfAny T entry.2) :
    Keeps T (fun _ => True) (restoreNames saved) := by
  have closed := sequential lawful
  induction saved with
  | nil => exact closed.pure trivial
  | cons entry rest ih =>
    obtain ⟨here, others⟩ := List.forall_mem_cons.mp savedHave
    obtain ⟨name, before⟩ := entry
    cases before with
    | none => exact closed.bind (unbind lawful name) fun _ _ => ih others
    | some v => exact closed.bind (define .program name (here v rfl)) fun _ _ => ih others

theorem keepingNames (lawful : T.Lawful) (names : List String) (kept : Keeps T R x) :
    Keeps T R (keepingNames names x) := by
  refine (sequential lawful).bind (sequential lawful).get fun m have' => ?_
  refine endingWith kept (restoreNames lawful fun entry member => ?_)
  obtain ⟨name, -, rfl⟩ := List.mem_map.mp member
  exact fun v found => have'.of_lookup found

theorem evaluative (lawful : T.Lawful) : Evaluative T (Keeps T) where
  toSequential := sequential lawful
  bindName name v holds :=
    bind ((sequential lawful).withinNesting _ v) fun _ _ => define .program name holds
  define name v _ holds := define .program name holds
  unbind := unbind lawful
  storeAt name s change inside puts := by
    have closed := sequential lawful
    apply closed.bind (closed.lookup name)
    intro found holds
    cases found with
    | none => exact closed.fail _
    | some v =>
      exact closed.bind (closed.edit inside puts v) fun e puts => performEdit lawful name puts
  mutateBound callee args argsHave := mutateBound lawful callee argsHave
  keepingNames names kept := keepingNames lawful names kept

theorem defineAll (lawful : T.Lawful) {locals : List (String × Value)}
    (localsHave : ∀ entry ∈ locals, entry.2.Has T) :
    Keeps T (fun _ => True) (defineAll locals) := by
  induction locals with
  | nil => exact (sequential lawful).pure trivial
  | cons entry rest ih =>
    obtain ⟨here, others⟩ := List.forall_mem_cons.mp localsHave
    exact bind (define .call entry.1 here) fun _ _ => ih others

theorem compositional (lawful : T.Lawful) : Compositional T fun _ => Keeps T where
  evaluative _ := evaluative lawful
  inFrame locals localsHave kept := by
    refine bind (perform fun _ have' => have'.pushFrame) fun _ _ => ?_
    refine endingWith (bind (defineAll lawful localsHave) fun _ _ => kept) ?_
    exact perform fun _ have' => have'.popFrame

end Keeps

/-! ### Sessions -/

section Sessions

variable {T : Trait} {limits : Limits} {globals : List (String × String)} {directory : Directory}
  {sources : List String}

theorem keeps_bindInitial (lawful : T.Lawful) (limits : Limits) (globals : List (String × String)) :
    Keeps T (fun _ => True) (bindInitial limits globals) := by
  induction globals with
  | nil => exact (Keeps.sequential lawful).pure trivial
  | cons entry rest ih =>
    obtain ⟨name, source⟩ := entry
    refine .bind ((Keeps.compositional lawful).initialValue limits name source) fun v holds => ?_
    exact .bind (.define .session name holds) fun _ _ => ih

theorem have_steps (lawful : T.Lawful) {ns : Namespace} (have' : ns.machine.scopes.Have T) :
    Throughout (Scopes.Have T) (ns.steps limits sources) ns.machine.scopes := by
  induction sources generalizing ns with
  | nil => trivial
  | cons source rest ih =>
    have kept := (Keeps.compositional lawful).runSource limits source
    have after : (ns.execute limits source).2.machine.scopes.Have T := kept.after have'
    change Throughout _ (_ ++ _) _
    rw [throughout_append, ← scopes_execute]
    exact ⟨(kept ns.machine have').1, ih after⟩

theorem have_sessionSteps (lawful : T.Lawful) :
    Throughout (Scopes.Have T) (sessionSteps limits globals directory sources) .empty := by
  have initial := keeps_bindInitial lawful limits globals (.start directory) Scopes.all_empty
  change Throughout _ (_ ++ _) _
  rw [throughout_append]
  refine ⟨initial.1, ?_⟩
  cases created : Namespace.create limits globals directory with
  | error e => trivial
  | ok ns =>
    have after := scopes_create created
    rw [← after]
    exact have_steps lawful (after ▸ initial.1.replay Scopes.all_empty)

/-- At every point of a session, all dictionaries and arrays in bound values meet the conditions. -/
theorem Trait.Lawful.throughout (lawful : T.Lawful) {front : List Step}
    (point : front <+: sessionSteps limits globals directory sources) :
    (replay front .empty).Have T :=
  (throughout_iff Scopes.all_empty).mp (have_sessionSteps lawful) front point

end Sessions

end DocExamples.Script
