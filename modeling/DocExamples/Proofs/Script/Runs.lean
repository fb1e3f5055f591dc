import DocExamples.Script.Session
/-!
Runs of computations and of sessions: what they give, and what they do to the bindings step by
step.
-/
namespace DocExamples.Script

/-- A property of every step, in the bindings that the step meets. -/
def EachStep (P : Step → Scopes Value → Prop) : List Step → Scopes Value → Prop
  | [], _ => True
  | step :: rest, s => P step s ∧ EachStep P rest (step.apply s)

section EachStep

variable {P : Step → Scopes Value → Prop} {steps : List Step} {s : Scopes Value}

theorem eachStep_append {more : List Step} :
    EachStep P (steps ++ more) s ↔ EachStep P steps s ∧ EachStep P more (replay steps s) := by
  induction steps generalizing s with
  | nil => simp [EachStep]
  | cons step rest ih => simp [EachStep, ih, and_assoc]

theorem eachStep_iff :
    EachStep P steps s ↔ ∀ front step, front ++ [step] <+: steps → P step (replay front s) := by
  constructor
  · rintro each front step ⟨rest, rfl⟩
    rw [eachStep_append, eachStep_append] at each
    exact each.1.2.1
  · intro each
    induction steps generalizing s with
    | nil => trivial
    | cons step rest ih =>
      refine ⟨each [] step ⟨rest, rfl⟩, ih fun front next inside => ?_⟩
      exact each (step :: front) next (List.cons_prefix_cons.mpr ⟨rfl, inside⟩)

end EachStep

/-- A property of the bindings after each step. -/
abbrev Throughout (P : Scopes Value → Prop) : List Step → Scopes Value → Prop :=
  EachStep fun step s => P (step.apply s)

section Throughout

variable {P : Scopes Value → Prop} {steps : List Step} {s : Scopes Value}

theorem throughout_append {more : List Step} :
    Throughout P (steps ++ more) s ↔
      Throughout P steps s ∧ Throughout P more (Script.replay steps s) := eachStep_append

theorem Throughout.replay (throughout : Throughout P steps s) (start : P s) :
    P (replay steps s) := by
  induction steps generalizing s with
  | nil => exact start
  | cons step rest ih => exact ih throughout.2 throughout.1

theorem throughout_iff (start : P s) :
    Throughout P steps s ↔ ∀ front, front <+: steps → P (Script.replay front s) := by
  constructor
  · rintro throughout front ⟨rest, rfl⟩
    exact (throughout_append.mp throughout).1.replay start
  · intro throughout
    apply eachStep_iff.mpr
    intro front step inside
    have after := throughout (front ++ [step]) inside
    rwa [replay_append] at after

end Throughout

/-! ### Computations -/

theorem run_bind_eq_ok {α β : Type} {x : Eval α} {f : α → Eval β} {b : β} {m m' : Machine} :
    (x >>= f).run m = (.ok b, m') ↔
      ∃ a m₁, x.run m = (.ok a, m₁) ∧ (f a).run m₁ = (.ok b, m') := by
  change (Eval.bind x f).run m = (.ok b, m') ↔ _
  rw [Eval.bind]
  dsimp only
  rcases x.run m with ⟨e | a, m₁⟩
  · simp
  · constructor
    · intro given
      exact ⟨a, m₁, rfl, given⟩
    · rintro ⟨_, _, same, given⟩
      cases same
      exact given

theorem run_bind_of_ok {α β : Type} {x : Eval α} {f : α → Eval β} {a : α} {m m' : Machine}
    (given : x.run m = (.ok a, m')) : (x >>= f).run m = (f a).run m' := by
  change (Eval.bind x f).run m = _
  rw [Eval.bind]
  dsimp only
  rw [given]

theorem run_bind_of_error {α β : Type} {x : Eval α} {f : α → Eval β} {e : Stop} {m m' : Machine}
    (refused : x.run m = (.error e, m')) : (x >>= f).run m = (.error e, m') := by
  change (Eval.bind x f).run m = _
  rw [Eval.bind]
  dsimp only
  rw [refused]

theorem steps_bind_of_ok {α β : Type} {x : Eval α} {f : α → Eval β} {a : α} {m m' : Machine}
    (given : x.run m = (.ok a, m')) : (x >>= f).steps m = x.steps m ++ (f a).steps m' := by
  change (Eval.bind x f).steps m = _
  rw [Eval.bind]
  dsimp only
  rw [given]

theorem steps_bind_of_error {α β : Type} {x : Eval α} {f : α → Eval β} {e : Stop}
    {m m' : Machine} (refused : x.run m = (.error e, m')) : (x >>= f).steps m = x.steps m := by
  change (Eval.bind x f).steps m = _
  rw [Eval.bind]
  dsimp only
  rw [refused, List.append_nil]

theorem run_bind_pure {α β : Type} (x : Eval α) (g : α → β) (m : Machine) :
    (x >>= fun a => pure (g a)).run m = ((x.run m).1.map g, (x.run m).2) := by
  rcases given : x.run m with ⟨e | a, m'⟩
  · exact run_bind_of_error given
  · exact run_bind_of_ok given

theorem steps_bind_pure {α β : Type} (x : Eval α) (g : α → β) (m : Machine) :
    (x >>= fun a => pure (g a)).steps m = x.steps m := by
  rcases given : x.run m with ⟨e | a, m'⟩
  · exact steps_bind_of_error given
  · exact (steps_bind_of_ok given).trans (List.append_nil _)

theorem run_lift_eq_ok {α : Type} {x : Except Fault α} {a : α} {m m' : Machine} :
    (liftM x : Eval α).run m = (.ok a, m') ↔ x = .ok a ∧ m = m' := by
  cases x with
  | ok b =>
    change ((.ok b, m) : Except Stop α × Machine) = _ ↔ _
    simp
  | error f =>
    change ((.error (.fault f), m) : Except Stop α × Machine) = _ ↔ _
    simp

/-! ### Sessions -/

/-- The namespace after sources were executed one after another. -/
def Namespace.executeAll (limits : Limits) (sources : List String) (ns : Namespace) : Namespace :=
  sources.foldl (fun ns source => (ns.execute limits source).2) ns

/-- What the execution of sources one after another does to the bindings. -/
def Namespace.steps (limits : Limits) : List String → Namespace → List Step
  | [], _ => []
  | source :: rest, ns =>
    (runSource limits source).steps ns.machine ++
      Namespace.steps limits rest (ns.execute limits source).2

/-- What a session does to the bindings: it makes the initial ones and, if that succeeds, executes
sources one after another. -/
def sessionSteps (limits : Limits) (globals : List (String × String)) (directory : Directory)
    (sources : List String) : List Step :=
  (bindInitial limits globals).steps (.start directory) ++
    match Namespace.create limits globals directory with
    | .ok ns => ns.steps limits sources
    | .error _ => []

section Sessions

variable {limits : Limits} {globals : List (String × String)} {directory : Directory}
  {sources : List String}

theorem scopes_execute (source : String) (ns : Namespace) :
    (ns.execute limits source).2.machine.scopes =
      replay ((runSource limits source).steps ns.machine) ns.machine.scopes :=
  (runSource limits source).scopes_run ns.machine

theorem scopes_executeAll (ns : Namespace) :
    (ns.executeAll limits sources).machine.scopes =
      replay (ns.steps limits sources) ns.machine.scopes := by
  induction sources generalizing ns with
  | nil => rfl
  | cons source rest ih =>
    rw [Namespace.steps, replay_append, ← scopes_execute]
    exact ih _

theorem scopes_create {ns : Namespace}
    (created : Namespace.create limits globals directory = .ok ns) :
    ns.machine.scopes = replay ((bindInitial limits globals).steps (.start directory)) .empty := by
  have after := (bindInitial limits globals).scopes_run (.start directory)
  unfold Namespace.create at created
  split at created
  · next m given =>
    cases created
    rwa [given] at after
  · cases created

/-- The steps of a session lead to the bindings of the namespace that it leaves behind. -/
theorem scopes_session {ns : Namespace}
    (created : Namespace.create limits globals directory = .ok ns) :
    (ns.executeAll limits sources).machine.scopes =
      replay (sessionSteps limits globals directory sources) .empty := by
  rw [sessionSteps, created, replay_append, ← scopes_create created]
  exact scopes_executeAll ns

end Sessions

end DocExamples.Script
