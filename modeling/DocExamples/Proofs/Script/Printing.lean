import Mathlib
import DocExamples.Proofs.Script.Compositional
/-!
What a computation prints, text by text, and to which execution of a session the texts are
attributed. An execution gives what it printed, and nothing that another execution printed; but the
first one also gives what was printed when the initial bindings were evaluated.
-/
namespace DocExamples.Script

/-- The texts that a computation prints when it runs in a state, in order. -/
inductive Prints : {α : Type} → Eval α → Machine → List String → Prop where
  | silent {α : Type} {f : Machine → Except Stop α × Machine}
    {same : ∀ m, (f m).2.scopes = m.scopes} {m : Machine} (kept : (f m).2.output = m.output) :
    Prints (Eval.quiet f same) m []
  | step (step : Step) (m : Machine) : Prints (Machine.perform step) m []
  | print (text : String) (m : Machine) : Prints (Machine.print text) m [text]
  | printLine (text : String) (m : Machine) : Prints (Machine.printLine text) m [text ++ "\n"]
  | bind {α β : Type} {x : Eval α} {f : α → Eval β} {m m' : Machine} {a : α}
    {first rest : List String} (given : x.run m = (.ok a, m')) (before : Prints x m first)
    (after : Prints (f a) m' rest) : Prints (x >>= f) m (first ++ rest)
  | stopped {α β : Type} {x : Eval α} {f : α → Eval β} {m m' : Machine} {e : Stop}
    {first : List String} (given : x.run m = (.error e, m')) (before : Prints x m first) :
    Prints (x >>= f) m first
  | endingWith {α : Type} {x : Eval α} {last : Eval Unit} {m : Machine} {first rest : List String}
    (before : Prints x m first) (after : Prints last (x.run m).2 rest) :
    Prints (x.endingWith last) m (first ++ rest)

/-- A computation only appends to the output: the texts that it prints. -/
theorem Prints.text_output {α : Type} {x : Eval α} {m : Machine} {texts : List String}
    (prints : Prints x m texts) :
    (x.run m).2.output.text = m.output.text ++ String.join texts := by
  induction prints with
  | silent kept => exact (congrArg Output.text kept).trans String.append_empty.symm
  | step step m => exact String.append_empty.symm
  | print text m =>
    rw [String.join_cons, String.join_nil, String.append_empty]
    rfl
  | printLine text m =>
    rw [String.join_cons, String.join_nil, String.append_empty, ← String.append_assoc]
    rfl
  | bind given before after first rest =>
    rw [run_bind_of_ok given, rest]
    rw [given] at first
    rw [first, String.join_append, String.append_assoc]
  | stopped given before first =>
    rw [run_bind_of_error given]
    rwa [given] at first
  | @endingWith α x last m firstTexts restTexts before after first rest =>
    have ended : ((x.endingWith last).run m).2 = (last.run (x.run m).2).2 := by
      rw [Eval.endingWith]
      dsimp only
      split <;> simp_all
    rw [ended, rest, first, String.join_append, String.append_assoc]

/-- A computation has texts that it prints, wherever it runs. -/
def Eval.Tells {α : Type} (x : Eval α) : Prop := ∀ m, ∃ texts, Prints x m texts

namespace Tells

theorem flat : Flat Eval.Tells where
  quiet _ _ kept m := ⟨[], .silent (kept m)⟩
  print text m := ⟨[text], .print text m⟩
  printLine text m := ⟨[text ++ "\n"], .printLine text m⟩
  perform step _ m := ⟨[], .step step m⟩
  bind := by
    intro _ _ x f tells onward m
    obtain ⟨first, before⟩ := tells m
    cases given : x.run m with
    | mk result m' =>
      cases result with
      | error e => exact ⟨first, .stopped given before⟩
      | ok a =>
        obtain ⟨rest, after⟩ := onward a ⟨m, m', given⟩ m'
        exact ⟨first ++ rest, .bind given before after⟩
  endingWith := by
    intro _ x last tells onward m
    obtain ⟨first, before⟩ := tells m
    obtain ⟨rest, after⟩ := onward (x.run m).2
    exact ⟨first ++ rest, .endingWith before after⟩

theorem compositional : Compositional .any fun _ {_} R x => Eval.Tells x ∧ x.Gives R where
  evaluative _ := flat.structural.evaluative
  inFrame locals _ kept := by
    refine ⟨?_, kept.2.inFrame locals⟩
    refine flat.andThen (fun m => ⟨[], .step _ m⟩) fun _ => ?_
    refine flat.endingWith ?_ fun m => ⟨[], .step _ m⟩
    exact flat.andThen (flat.defineAll locals) fun _ => kept.1

theorem bindInitial (limits : Limits) (globals : List (String × String)) :
    Eval.Tells (bindInitial limits globals) := by
  induction globals with
  | nil => exact flat.pure _
  | cons entry rest ih =>
    obtain ⟨name, source⟩ := entry
    refine flat.andThen (compositional.initialValue limits name source).1 fun v => ?_
    exact flat.andThen (flat.perform _ rfl) fun _ => ih

end Tells

/-- The texts that a computation prints make up one text only. -/
theorem Prints.join_eq {α : Type} {x : Eval α} {m : Machine} {texts others : List String}
    (prints : Prints x m texts) (again : Prints x m others) :
    String.join texts = String.join others :=
  (String.append_right_inj _).mp (prints.text_output.symm.trans again.text_output)

/-! ### Sessions -/

section Sessions

variable {limits : Limits} {globals : List (String × String)} {directory : Directory}
  {ns : Namespace} {initial : List String}

/-- What was printed and not yet taken when a session starts. -/
theorem text_create (created : Namespace.create limits globals directory = .ok ns)
    (prints : Prints (bindInitial limits globals) (.start directory) initial) :
    ns.machine.output.text = String.join initial := by
  have text := prints.text_output
  unfold Namespace.create at created
  split at created
  · next m given =>
    cases created
    rw [given] at text
    exact text.trans String.empty_append
  · cases created

/-- An execution takes all output. -/
theorem text_executeAll (ns : Namespace) (front : List String) :
    (ns.executeAll limits front).machine.output.text =
      if front = [] then ns.machine.output.text else "" := by
  induction front using List.reverseRecOn with
  | nil => rfl
  | append_singleton front source ih =>
    rw [Namespace.executeAll, List.foldl_append,
      if_neg (List.append_ne_nil_of_right_ne_nil _ (List.cons_ne_nil _ _))]
    rfl

/-- Every execution of a session gives the texts that it prints, in order, also when it fails. In
front of them, the first one gives what was printed for the initial bindings; so an execution gives
nothing but its own texts if and only if it is not the first or nothing was printed before it. -/
theorem executions_print (limits : Limits) (globals : List (String × String))
    (directory : Directory) (created : Namespace.create limits globals directory = .ok ns) :
    ∃ initial, Prints (bindInitial limits globals) (.start directory) initial ∧
      ∀ front source,
        let before := ns.executeAll limits front
        let output := (before.execute limits source).1.output
        ∃ texts, Prints (runSource limits source) before.machine texts ∧
          output = (if front = [] then String.join initial else "") ++ String.join texts ∧
          (output = String.join texts ↔ front ≠ [] ∨ String.join initial = "") := by
  obtain ⟨initial, started⟩ := Tells.bindInitial limits globals (.start directory)
  refine ⟨initial, started, fun front source => ?_⟩
  intro before output
  obtain ⟨texts, prints⟩ := (Tells.compositional.runSource limits source).1 before.machine
  have given : output =
      (if front = [] then String.join initial else "") ++ String.join texts := by
    have text : output = before.machine.output.text ++ String.join texts := prints.text_output
    rw [text, text_executeAll, text_create created started]
  refine ⟨texts, prints, given, ?_⟩
  by_cases first : front = []
  · rw [if_pos first] at given
    have own : output = String.join texts ↔
        String.join initial ++ String.join texts = "" ++ String.join texts := by
      rw [given, String.empty_append]
    rw [own, String.append_left_inj]
    exact ⟨.inr, fun either => either.resolve_left (not_not_intro first)⟩
  · rw [if_neg first, String.empty_append] at given
    exact iff_of_true given (.inl first)

end Sessions

/-- A session that starts with `x` bound to what `print('hi')` gives. -/
def greeting : Namespace :=
  ⟨{ Machine.start .empty with scopes := ⟨[("x", .none)], []⟩, output := ⟨"hi\n"⟩ }⟩

theorem create_greeting :
    Namespace.create .defaults [("x", "print('hi')")] .empty = .ok greeting := by
  have notModule : isModule "print('hi')" = false := rfl
  have program : parsed "print('hi')" =
      .ok [.expr (.call (.name "print") [.str "hi"] [])] := by cbv
  have value : (initialValue .defaults "x" "print('hi')").run (.start .empty) =
      (.ok .none, { Machine.start .empty with output := ⟨"hi\n"⟩ }) := by
    rw [initialValue, notModule, program]
    change (evalExpr _ (.call (.name "print") [.str "hi"] [])).run _ = _
    rw [evalExpr, evalAll, evalAll, evalKeywords, evalExpr, evalExpr, Limits.caller]
    rfl
  rw [Namespace.create, bindInitial, run_bind_of_ok value]
  rfl

theorem executions_print_greeting :
    Namespace.create .defaults [("x", "print('hi')")] .empty = .ok greeting ∧
      ∃ texts, Prints (runSource .defaults "2\n")
        (greeting.executeAll .defaults ["1\n"]).machine texts ∧
      ((greeting.executeAll .defaults ["1\n"]).execute .defaults "2\n").1.output =
        String.join texts := by
  refine ⟨create_greeting, ?_⟩
  obtain ⟨initial, -, executions⟩ := executions_print .defaults _ .empty create_greeting
  obtain ⟨texts, prints, -, own⟩ := executions ["1\n"] "2\n"
  exact ⟨texts, prints, own.mpr (.inl (List.cons_ne_nil _ _))⟩

/-- The first execution prints `1` and gives `hi` too. -/
theorem first_execution_gives_greeting :
    Namespace.create .defaults [("x", "print('hi')")] .empty = .ok greeting ∧
      (greeting.execute .defaults "1\n").1.output = "hi\n1\n" ∧
      ∀ texts, Prints (runSource .defaults "1\n") greeting.machine texts →
        String.join texts = "1\n" := by
  have program : parsed "1\n" = .ok [.expr (.int 1)] := by cbv
  have ran : (runSource .defaults "1\n").run greeting.machine =
      (.ok (), { greeting.machine with output := ⟨"hi\n1\n"⟩ }) := by
    rw [runSource, program]
    change (runProgram .defaults [.expr (.int 1)]).run _ = _
    rw [runProgram, execBlock, execStmt, execBlock, evalExpr]
    rfl
  have output : (greeting.execute .defaults "1\n").1.output = "hi\n1\n" := by
    rw [Namespace.execute, ran]
    rfl
  refine ⟨create_greeting, output, fun texts prints => ?_⟩
  have text := prints.text_output
  rw [ran] at text
  exact (String.append_right_inj "hi\n").mp text.symm

end DocExamples.Script
