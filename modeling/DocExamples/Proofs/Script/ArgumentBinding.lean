import DocExamples.Proofs.Script.Bindings
import DocExamples.Proofs.Script.Runs
import Mathlib.Data.List.Nodup
/-!
How calls bind the parameters of functions. If there is one value for every parameter, by position,
by keyword or by default, then a call starts its body in a frame of its own that binds exactly the
parameters; else it is refused before it changes anything.
-/
namespace DocExamples.Script

/-! ### Arguments that fit -/

/-- The value for the parameter at a position: the argument there, else the one under the name of
the parameter, else the value of its default. -/
def argumentFor (args : List Value) (kwargs : Keywords) (i : Nat) (p : String × Option Value) :
    Option Value :=
  args[i]?.or ((kwargs.lookup p.1).or p.2)

/-- Every argument is for a parameter of its own, and every parameter without one has a default. -/
structure ArgumentsFit (params : List (String × Option Value)) (args : List Value)
    (kwargs : Keywords) : Prop where
  few : args.length ≤ params.length
  /-- Keywords name parameters that have no argument by position. -/
  known : ∀ name ∈ kwargs.map Prod.fst, name ∈ (params.drop args.length).map Prod.fst
  once : (kwargs.map Prod.fst).Nodup
  complete : ∀ p ∈ params.drop args.length, p.1 ∈ kwargs.map Prod.fst ∨ p.2.isSome = true

/-- A frame that binds the parameters, each to its value, and nothing else. -/
structure BindsParameters (params : List (String × Option Value)) (args : List Value)
    (kwargs : Keywords) (frame : Frame Value) : Prop where
  names : frame.map Prod.fst = params.map Prod.fst
  values : ∀ i p, params[i]? = some p →
    ∃ v, argumentFor args kwargs i p = some v ∧ frame.get? p.1 = some v

/-- A computation that fails with an error of type. -/
def RefusesType {α : Type} (x : Except Fault α) : Prop := ∃ f, x = .error (.type f)

theorem Frame.get?_eq_some_of_mem {α : Type} {frame : Frame α} {name : String} {v : α}
    (distinct : (frame.map Prod.fst).Nodup) (member : (name, v) ∈ frame) :
    frame.get? name = some v := by
  obtain ⟨before, after, rfl⟩ := List.append_of_mem member
  refine List.lookup_eq_some_iff.mpr ⟨before, after, rfl, fun entry earlier => ?_⟩
  rw [List.map_append, List.map_cons] at distinct
  have apart := (List.nodup_append.mp distinct).2.2 entry.1 (List.mem_map_of_mem earlier) name
    List.mem_cons_self
  exact bne_iff_ne.mpr (Ne.symm apart)

theorem isSome_lookup_iff {kwargs : Keywords} {name : String} :
    (kwargs.lookup name).isSome = true ↔ name ∈ kwargs.map Prod.fst := by
  rw [List.lookup_isSome_iff, List.mem_map]
  refine exists_congr fun entry => and_congr_right fun _ => ?_
  rw [beq_iff_eq, eq_comm]

/-! ### Binding by keyword -/

/-- A parameter of that name has no value yet. -/
def IsOpen (ps : List Parameter) (name : String) : Prop := ∃ p ∈ ps, p.name = name ∧ p.bound = none

/-- All keywords name open parameters, and none twice. -/
def KeywordsFit (ps : List Parameter) (kwargs : Keywords) : Prop :=
  (∀ name ∈ kwargs.map Prod.fst, IsOpen ps name) ∧ (kwargs.map Prod.fst).Nodup

/-- The parameter with a value, if that is meant for it. -/
def Parameter.give (name : String) (v : Value) (p : Parameter) : Parameter :=
  if p.name = name then { p with bound := some v } else p

/-- The parameter with the value under its name, unless it has one. -/
def Parameter.complete (kwargs : Keywords) (p : Parameter) : Parameter :=
  { p with bound := p.bound.or (kwargs.lookup p.name) }

section Keywords

variable {function name : String} {v : Value} {ps : List Parameter} {kwargs : Keywords}

@[simp]
theorem Parameter.name_give (p : Parameter) : (p.give name v).name = p.name := by
  unfold give
  split <;> rfl

theorem Parameter.bound_give_eq_none {p : Parameter} :
    (p.give name v).bound = none ↔ p.bound = none ∧ p.name ≠ name := by
  unfold give
  split
  · next same => simp [same]
  · next other => simp [other]

theorem map_give_of_notMem (absent : name ∉ ps.map Parameter.name) :
    ps.map (Parameter.give name v) = ps := by
  refine (List.map_congr_left fun p member => ?_).trans (List.map_id ps)
  exact if_neg fun same : p.name = name => absent (same ▸ List.mem_map_of_mem member)

theorem isOpen_map_give {other : String} :
    IsOpen (ps.map (Parameter.give name v)) other ↔ IsOpen ps other ∧ other ≠ name := by
  constructor
  · rintro ⟨_, member, rfl, unbound⟩
    obtain ⟨p, here, rfl⟩ := List.mem_map.mp member
    rw [Parameter.bound_give_eq_none] at unbound
    rw [Parameter.name_give]
    exact ⟨⟨p, here, rfl, unbound.1⟩, unbound.2⟩
  · rintro ⟨⟨p, here, rfl, unbound⟩, different⟩
    exact ⟨p.give name v, List.mem_map_of_mem here, p.name_give,
      Parameter.bound_give_eq_none.mpr ⟨unbound, different⟩⟩

theorem isOpen_cons {p : Parameter} :
    IsOpen (p :: ps) name ↔ p.name = name ∧ p.bound = none ∨ IsOpen ps name := by
  simp [IsOpen]

theorem mem_names_of_isOpen (unbound : IsOpen ps name) : name ∈ ps.map Parameter.name := by
  obtain ⟨p, member, rfl, -⟩ := unbound
  exact List.mem_map_of_mem member

/-- A keyword binds the parameter of its name if that is open, and else is refused. -/
theorem bindKeyword_cases (function : String) (v : Value)
    (distinct : (ps.map Parameter.name).Nodup) :
    IsOpen ps name ∧ bindKeyword function name v ps = .ok (ps.map (.give name v)) ∨
      ¬ IsOpen ps name ∧ RefusesType (bindKeyword function name v ps) := by
  induction ps with
  | nil =>
    refine .inr ⟨?_, _, rfl⟩
    rintro ⟨p, none, -⟩
    cases none
  | cons p rest ih =>
    obtain ⟨other, distinct⟩ := List.nodup_cons.mp distinct
    rw [bindKeyword, isOpen_cons]
    by_cases same : p.name = name
    · subst same
      rw [if_pos rfl]
      cases held : p.bound with
      | none =>
        refine .inl ⟨.inl ⟨rfl, rfl⟩, ?_⟩
        rw [List.map_cons, map_give_of_notMem other, Parameter.give, if_pos rfl]
        rfl
      | some w =>
        refine .inr ⟨?_, _, rfl⟩
        rintro (⟨-, none⟩ | later)
        · cases none
        · exact other (mem_names_of_isOpen later)
    · rw [if_neg same]
      rcases ih distinct with ⟨unbound, run⟩ | ⟨absent, f, run⟩
      · refine .inl ⟨.inr unbound, ?_⟩
        rw [run, List.map_cons, Parameter.give, if_neg same]
        rfl
      · refine .inr ⟨fun unbound => absent (unbound.resolve_left fun here => same here.1), f, ?_⟩
        rw [run]
        rfl

theorem complete_nil (p : Parameter) : p.complete [] = p := by
  rw [Parameter.complete, List.lookup_nil, Option.or_none]

theorem complete_give (distinct : (ps.map Parameter.name).Nodup) (unbound : IsOpen ps name)
    {p : Parameter} (member : p ∈ ps) :
    (p.give name v).complete kwargs = p.complete ((name, v) :: kwargs) := by
  unfold Parameter.give Parameter.complete
  by_cases same : p.name = name
  · obtain ⟨q, here, named, unbound⟩ := unbound
    obtain rfl := List.inj_on_of_nodup_map distinct here member (named.trans same.symm)
    rw [if_pos same, unbound, same, List.lookup_cons_self, Option.none_or, Option.some_or]
  · rw [if_neg same, List.lookup_cons, beq_false_of_ne same]

/-- The parameter of the first keyword is closed to the others. -/
theorem keywordsFit_cons (unbound : IsOpen ps name) :
    KeywordsFit ps ((name, v) :: kwargs) ↔ KeywordsFit (ps.map (.give name v)) kwargs := by
  rw [KeywordsFit, List.map_cons, List.forall_mem_cons, List.nodup_cons]
  constructor
  · rintro ⟨⟨-, others⟩, new, once⟩
    refine ⟨fun other member => isOpen_map_give.mpr ⟨others other member, ?_⟩, once⟩
    rintro rfl
    exact new member
  · rintro ⟨others, once⟩
    refine ⟨⟨unbound, fun other member => (isOpen_map_give.mp (others other member)).1⟩,
      fun again => ?_, once⟩
    exact (isOpen_map_give.mp (others name again)).2 rfl

/-- Keywords that fit are all bound; else they are refused. -/
theorem bindKeywords_cases (function : String) (kwargs : Keywords)
    (distinct : (ps.map Parameter.name).Nodup) :
    KeywordsFit ps kwargs ∧ bindKeywords function kwargs ps = .ok (ps.map (.complete kwargs)) ∨
      ¬ KeywordsFit ps kwargs ∧ RefusesType (bindKeywords function kwargs ps) := by
  induction kwargs generalizing ps with
  | nil =>
    refine .inl ⟨⟨fun name none => ?_, List.nodup_nil⟩, ?_⟩
    · cases none
    · rw [List.map_congr_left fun p _ => complete_nil p, List.map_id']
      rfl
  | cons entry rest ih =>
    obtain ⟨name, v⟩ := entry
    rw [bindKeywords]
    rcases bindKeyword_cases function v distinct with ⟨unbound, run⟩ | ⟨bound, f, run⟩
    · have names : (ps.map (.give name v)).map Parameter.name = ps.map Parameter.name := by
        rw [List.map_map]
        exact List.map_congr_left fun p _ => p.name_give
      rw [run, keywordsFit_cons unbound]
      rcases ih (names ▸ distinct) with ⟨fit, later⟩ | ⟨unfit, f, later⟩
      · refine .inl ⟨fit, later.trans (congrArg Except.ok ?_)⟩
        rw [List.map_map]
        exact List.map_congr_left fun p member => complete_give distinct unbound member
      · exact .inr ⟨unfit, f, later⟩
    · rw [run]
      exact .inr ⟨fun fit => bound (fit.1 name List.mem_cons_self), f, rfl⟩

/-- Every parameter gets its value, or one is missing. -/
theorem localsOf_cases (function : String) (ps : List Parameter) :
    (∃ frame, localsOf function ps = .ok frame ∧ frame.map Prod.fst = ps.map Parameter.name ∧
        ∀ p ∈ ps, ∃ v, p.bound.or p.default = some v ∧ (p.name, v) ∈ frame) ∨
      (∃ p ∈ ps, p.bound.or p.default = none) ∧ RefusesType (localsOf function ps) := by
  induction ps with
  | nil => exact .inl ⟨[], rfl, rfl, by simp⟩
  | cons p rest ih =>
    rw [localsOf, Option.orElse_eq_orElse, Option.orElse_eq_or]
    cases held : p.bound.or p.default with
    | none => exact .inr ⟨⟨p, List.mem_cons_self, held⟩, _, rfl⟩
    | some v =>
      rcases ih with ⟨frame, run, names, values⟩ | ⟨⟨q, member, missing⟩, f, run⟩
      · refine .inl ⟨(p.name, v) :: frame, by rw [run]; rfl, ?_, ?_⟩
        · rw [List.map_cons, List.map_cons, names]
        · refine List.forall_mem_cons.mpr ⟨⟨v, held, List.mem_cons_self⟩, fun q member => ?_⟩
          obtain ⟨w, given, listed⟩ := values q member
          exact ⟨w, given, List.mem_cons_of_mem _ listed⟩
      · exact .inr ⟨⟨q, List.mem_cons_of_mem _ member, missing⟩, f, by rw [run]; rfl⟩

end Keywords

/-! ### Binding all arguments -/

section Arguments

variable {params : List (String × Option Value)} {args : List Value} {kwargs : Keywords}

theorem getElem?_bindPositional (params : List (String × Option Value)) (args : List Value)
    (i : Nat) :
    (bindPositional params args)[i]? = params[i]?.map fun p => ⟨p.1, p.2, args[i]?⟩ := by
  induction params generalizing args i with
  | nil => rfl
  | cons p rest ih =>
    cases args with
    | nil =>
      cases i with
      | zero => rfl
      | succ i => exact (ih [] i).trans (by simp)
    | cons v args =>
      cases i with
      | zero => rfl
      | succ i => exact ih args i

theorem names_bindPositional (params : List (String × Option Value)) (args : List Value) :
    (bindPositional params args).map Parameter.name = params.map Prod.fst := by
  refine List.ext_getElem? fun i => ?_
  rw [List.getElem?_map, List.getElem?_map, getElem?_bindPositional, Option.map_map]
  rfl

theorem mem_bindPositional {q : Parameter} :
    q ∈ bindPositional params args ↔
      ∃ (i : Nat) (p : String × Option Value),
        params[i]? = some p ∧ ⟨p.1, p.2, args[i]?⟩ = q := by
  simp only [List.mem_iff_getElem?, getElem?_bindPositional, Option.map_eq_some_iff]

theorem mem_drop_iff {p : String × Option Value} :
    p ∈ params.drop args.length ↔ ∃ i : Nat, params[i]? = some p ∧ args[i]? = none := by
  simp only [List.mem_iff_getElem?, List.getElem?_drop, List.getElem?_eq_none_iff]
  constructor
  · rintro ⟨k, there⟩
    exact ⟨args.length + k, there, Nat.le_add_right _ k⟩
  · rintro ⟨i, there, behind⟩
    exact ⟨i - args.length, by rwa [Nat.add_sub_cancel' behind]⟩

theorem isOpen_bindPositional {name : String} :
    IsOpen (bindPositional params args) name ↔
      name ∈ (params.drop args.length).map Prod.fst := by
  simp only [IsOpen, mem_bindPositional, List.mem_map, mem_drop_iff]
  constructor
  · rintro ⟨_, ⟨i, p, there, rfl⟩, rfl, unbound⟩
    exact ⟨p, ⟨i, there, unbound⟩, rfl⟩
  · rintro ⟨p, ⟨i, there, unbound⟩, rfl⟩
    exact ⟨_, ⟨i, p, there, rfl⟩, rfl, unbound⟩

theorem argumentFor_eq_none_iff {i : Nat} {p : String × Option Value} :
    argumentFor args kwargs i p = none ↔
      args[i]? = none ∧ p.1 ∉ kwargs.map Prod.fst ∧ p.2 = none := by
  rw [argumentFor, Option.or_eq_none_iff, Option.or_eq_none_iff, ← isSome_lookup_iff,
    Option.not_isSome_iff_eq_none]

/-- Only behind the arguments may a parameter be without a value. -/
theorem complete_iff :
    (∀ p ∈ params.drop args.length, p.1 ∈ kwargs.map Prod.fst ∨ p.2.isSome = true) ↔
      ∀ (i : Nat) p, params[i]? = some p → argumentFor args kwargs i p ≠ none := by
  simp only [ne_eq, argumentFor_eq_none_iff, mem_drop_iff]
  constructor
  · rintro complete i p there ⟨without, unnamed, bare⟩
    have value := (complete p ⟨i, there, without⟩).resolve_left unnamed
    rw [bare] at value
    cases value
  · rintro given p ⟨i, there, without⟩
    by_contra neither
    rw [not_or, Option.not_isSome_iff_eq_none] at neither
    exact given i p there ⟨without, neither⟩

/-- Behind the keywords, every parameter gets its value, or one is missing. -/
theorem localsOf_complete_cases (function : String) (distinct : (params.map Prod.fst).Nodup)
    (args : List Value) (kwargs : Keywords) :
    let ps := (bindPositional params args).map (.complete kwargs)
    (∃ frame, localsOf function ps = .ok frame ∧ BindsParameters params args kwargs frame) ∨
      (∃ (i : Nat) (p : String × Option Value),
        params[i]? = some p ∧ argumentFor args kwargs i p = none) ∧
        RefusesType (localsOf function ps) := by
  intro ps
  have names : ps.map Parameter.name = params.map Prod.fst := by
    rw [List.map_map]
    exact names_bindPositional params args
  rcases localsOf_cases function ps with
    ⟨frame, run, same, values⟩ | ⟨⟨_, member, missing⟩, refused⟩
  · rw [names] at same
    refine .inl ⟨frame, run, same, fun i p there => ?_⟩
    obtain ⟨v, given, listed⟩ := values _
      (List.mem_map_of_mem (mem_bindPositional.mpr ⟨i, p, there, rfl⟩))
    exact ⟨v, Option.or_assoc.symm.trans given, Frame.get?_eq_some_of_mem (same ▸ distinct) listed⟩
  · obtain ⟨_, here, rfl⟩ := List.mem_map.mp member
    obtain ⟨i, p, there, rfl⟩ := mem_bindPositional.mp here
    exact .inr ⟨⟨i, p, there, Option.or_assoc.symm.trans missing⟩, refused⟩

theorem bindArguments_of_few (function : String) (few : args.length ≤ params.length) :
    bindArguments function params args kwargs =
      bindKeywords function kwargs (bindPositional params args) >>= localsOf function := by
  rw [bindArguments, if_neg (Nat.not_lt.mpr few)]

/-- A call of a function binds its parameters if the arguments fit, and else is refused. -/
theorem bindArguments_cases (function : String) (distinct : (params.map Prod.fst).Nodup)
    (args : List Value) (kwargs : Keywords) :
    ArgumentsFit params args kwargs ∧
        (∃ frame, bindArguments function params args kwargs = .ok frame ∧
          BindsParameters params args kwargs frame) ∨
      ¬ ArgumentsFit params args kwargs ∧
        RefusesType (bindArguments function params args kwargs) := by
  by_cases many : params.length < args.length
  · rw [bindArguments, if_pos many]
    exact .inr ⟨fun fit => Nat.not_lt.mpr fit.few many, _, rfl⟩
  have few := Nat.not_lt.mp many
  have apart : ((bindPositional params args).map Parameter.name).Nodup :=
    names_bindPositional params args ▸ distinct
  have given := bindKeywords_cases function kwargs apart
  simp only [KeywordsFit, isOpen_bindPositional] at given
  rw [bindArguments_of_few function few]
  rcases given with ⟨⟨known, once⟩, bound⟩ | ⟨unfit, f, refused⟩
  · rw [bound]
    rcases localsOf_complete_cases function distinct args kwargs with
      ⟨frame, run, binds⟩ | ⟨⟨i, p, there, missing⟩, refused⟩
    · refine .inl ⟨⟨few, known, once, complete_iff.mpr fun i p there none => ?_⟩, frame, run, binds⟩
      obtain ⟨v, some, -⟩ := binds.values i p there
      rw [none] at some
      cases some
    · exact .inr ⟨fun fit => complete_iff.mp fit.complete i p there missing, refused⟩
  · refine .inr ⟨fun fit => unfit ⟨fit.known, fit.once⟩, f, ?_⟩
    rw [refused]
    rfl

end Arguments

/-! ### The frame of a call -/

/-- Steps that bind names, as calls do. -/
def bindingSteps (locals : List (String × Value)) : List Step :=
  locals.map fun entry => .define .call entry.1 entry.2

/-- The machine within a call that has bound its parameters. -/
def Machine.within (m : Machine) (frame : Frame Value) : Machine :=
  { m with scopes := ⟨m.scopes.globals, frame :: m.scopes.frames⟩ }

/-- The machine after the innermost call. -/
def Machine.around (m : Machine) : Machine := { m with scopes := m.scopes.popFrame }

/-- A call whose body starts in a fresh frame, where it binds the names of `frame` one after
another. The frame goes away with the call. -/
structure StartsBody (call : Eval Value) (body : Eval Flow) (frame : Frame Value) (m : Machine) :
    Prop where
  run : call.run m =
    ((body.run (m.within frame)).1.map Flow.result, (body.run (m.within frame)).2.around)
  steps : call.steps m =
    .enterFrame :: (bindingSteps frame ++ body.steps (m.within frame) ++ [.leaveFrame])

section Frames

variable {α : Type} {frame : Frame Value}

theorem Frame.put_of_notMem {α : Type} {frame : Frame α} {name : String} {v : α}
    (new : name ∉ frame.map Prod.fst) : frame.put name v = frame ++ [(name, v)] := by
  induction frame with
  | nil => rfl
  | cons entry rest ih =>
    obtain ⟨other, w⟩ := entry
    rw [List.map_cons, List.mem_cons, not_or] at new
    rw [put, if_neg (Ne.symm new.1), ih new.2]
    rfl

/-- Names that are bound in a call are added to its frame. -/
theorem replay_bindingSteps {locals : List (String × Value)} (globals : Frame Value)
    (frames : List (Frame Value)) (distinct : ((frame ++ locals).map Prod.fst).Nodup) :
    replay (bindingSteps locals) ⟨globals, frame :: frames⟩ =
      ⟨globals, (frame ++ locals) :: frames⟩ := by
  induction locals generalizing frame with
  | nil => rw [List.append_nil]; rfl
  | cons entry rest ih =>
    have new : entry.1 ∉ frame.map Prod.fst := by
      intro before
      rw [List.map_append] at distinct
      exact (List.nodup_append.mp distinct).2.2 _ before _ List.mem_cons_self rfl
    have bound : (Step.define .call entry.1 entry.2).apply ⟨globals, frame :: frames⟩ =
        ⟨globals, (frame ++ [entry]) :: frames⟩ :=
      congrArg (fun frame => (⟨globals, frame :: frames⟩ : Scopes Value)) (Frame.put_of_notMem new)
    rw [List.append_cons] at distinct ⊢
    rw [← ih distinct, ← bound]
    rfl

theorem run_defineAll (locals : List (String × Value)) (m : Machine) :
    (defineAll locals).run m =
      (.ok (), { m with scopes := replay (bindingSteps locals) m.scopes }) := by
  induction locals generalizing m with
  | nil => rfl
  | cons entry rest ih => exact ih _

theorem steps_defineAll (locals : List (String × Value)) (m : Machine) :
    (defineAll locals).steps m = bindingSteps locals := by
  induction locals generalizing m with
  | nil => rfl
  | cons entry rest ih => exact congrArg (_ :: ·) (ih _)

theorem run_inFrame (x : Eval α) (m : Machine) :
    (Machine.inFrame x).run m =
      ((x.run { m with scopes := m.scopes.pushFrame }).1,
        (x.run { m with scopes := m.scopes.pushFrame }).2.around) := rfl

theorem steps_inFrame (x : Eval α) (m : Machine) :
    (Machine.inFrame x).steps m =
      .enterFrame :: (x.steps { m with scopes := m.scopes.pushFrame } ++ [.leaveFrame]) := rfl

end Frames

/-! ### Calls -/

section Calls

variable {rounds levels id : Nat} {name : String} {params : List (String × Option Value)}
  {body : List Stmt} {args : List Value} {kwargs : Keywords} {frame : Frame Value} {f : Fault}

theorem startsBody_of_ok (distinct : (frame.map Prod.fst).Nodup)
    (bound : bindArguments name params args kwargs = .ok frame) (m : Machine) :
    StartsBody (callWithin rounds (levels + 1) (.function id name params body) args kwargs)
      (execBlock (callWithin rounds levels) rounds body) frame m := by
  have entered : replay (bindingSteps frame) m.scopes.pushFrame =
      ⟨m.scopes.globals, frame :: m.scopes.frames⟩ := replay_bindingSteps _ _ distinct
  have given : (liftM (bindArguments name params args kwargs) : Eval _).run m = (.ok frame, m) :=
    run_lift_eq_ok.mpr ⟨bound, rfl⟩
  have defined : (defineAll frame).run { m with scopes := m.scopes.pushFrame } =
      (.ok (), m.within frame) := by
    rw [run_defineAll, entered]
    rfl
  constructor
  · rw [callWithin, run_bind_of_ok given, run_bind_pure, run_inFrame, run_bind_of_ok defined]
  · rw [callWithin, steps_bind_of_ok given, steps_bind_pure, steps_inFrame,
      steps_bind_of_ok defined, steps_defineAll, bound]
    rfl

theorem refused_of_error (refused : bindArguments name params args kwargs = .error f)
    (m : Machine) :
    let call := callWithin rounds (levels + 1) (.function id name params body) args kwargs
    call.run m = (.error (.fault f), m) ∧ call.steps m = [] := by
  dsimp only
  rw [callWithin, refused]
  exact ⟨rfl, rfl⟩

end Calls

/-! ### Defaults -/

/-- Parameters with the values that their defaults have when they are evaluated one after
another. -/
inductive DefaultsGive (call : Caller) :
    List (String × Option Expr) → Machine → List (String × Option Value) → Machine → Prop where
  | nil (m : Machine) : DefaultsGive call [] m [] m
  | required {name : String} {rest : List (String × Option Expr)}
      {held : List (String × Option Value)} {m m' : Machine}
      (later : DefaultsGive call rest m held m') :
      DefaultsGive call ((name, none) :: rest) m ((name, none) :: held) m'
  | default {name : String} {e : Expr} {v : Value} {rest : List (String × Option Expr)}
      {held : List (String × Option Value)} {m m₁ m' : Machine}
      (here : (evalExpr call e).run m = (.ok v, m₁)) (later : DefaultsGive call rest m₁ held m') :
      DefaultsGive call ((name, some e) :: rest) m ((name, some v) :: held) m'

section Defaults

variable {call : Caller} {written : List (String × Option Expr)}
  {held : List (String × Option Value)} {m m' : Machine}

theorem evalDefaults_eq_ok :
    (evalDefaults call written).run m = (.ok held, m') ↔ DefaultsGive call written m held m' := by
  induction written generalizing m held with
  | nil =>
    constructor
    · rintro ⟨⟩
      exact .nil _
    · rintro ⟨⟩
      rfl
  | cons entry rest ih =>
    obtain ⟨name, _ | e⟩ := entry
    · rw [evalDefaults, run_bind_eq_ok]
      constructor
      · rintro ⟨later, m₁, run, ⟨⟩⟩
        exact .required (ih.mp run)
      · rintro (_ | later)
        exact ⟨_, _, ih.mpr later, rfl⟩
    · rw [evalDefaults, run_bind_eq_ok]
      constructor
      · rintro ⟨v, m₁, here, run⟩
        obtain ⟨later, m₂, run, ⟨⟩⟩ := run_bind_eq_ok.mp run
        exact .default here (ih.mp run)
      · rintro (_ | _ | ⟨here, later⟩)
        exact ⟨_, _, here, run_bind_eq_ok.mpr ⟨_, _, ih.mpr later, rfl⟩⟩

/-- A definition binds its name to a function that holds the values of the defaults at that time. -/
theorem run_define_eq_ok {rounds : Nat} {name : String} {body : List Stmt} {flow : Flow} :
    (execStmt call rounds (.define name written body)).run m = (.ok flow, m') ↔
      flow = .next ∧ ∃ held m₁, DefaultsGive call written m held m₁ ∧
        m' = { m₁ with
          scopes := m₁.scopes.define name (.function m₁.defined name held body)
          defined := m₁.defined + 1 } := by
  rw [execStmt, run_bind_eq_ok]
  constructor
  · rintro ⟨held, m₁, given, ⟨⟩⟩
    exact ⟨rfl, held, m₁, evalDefaults_eq_ok.mp given, rfl⟩
  · rintro ⟨rfl, held, m₁, given, rfl⟩
    exact ⟨held, m₁, evalDefaults_eq_ok.mpr given, rfl⟩

end Defaults

/-- How arguments are bound. A call of a function with distinct parameters starts its body in a
fresh frame that binds each parameter once, to its argument by position, else by keyword, else to
its default, if and only if the arguments fit. Else it fails with an error of type and does nothing.
The defaults have the values that they had when the function was defined. -/
theorem argument_binding {limit : Nat} {m : Machine} (below : m.scopes.depth < limit)
    {params : List (String × Option Value)} (distinct : (params.map Prod.fst).Nodup)
    (rounds id : Nat) (name : String) (body : List Stmt) (args : List Value) (kwargs : Keywords) :
    let call := callWithin rounds (limit - m.scopes.depth) (.function id name params body)
      args kwargs
    let run := execBlock (callWithin rounds (limit - (m.scopes.depth + 1))) rounds body
    ((∃ frame, BindsParameters params args kwargs frame ∧ StartsBody call run frame m) ↔
      ArgumentsFit params args kwargs) ∧
    (¬ ArgumentsFit params args kwargs → ∃ f : Fault, f.kind = "TypeError" ∧
      call.run m = (.error (.fault f), m) ∧ call.steps m = []) ∧
    ∀ call written before flow after,
      (execStmt call rounds (.define name written body)).run before = (.ok flow, after) →
      ∃ held between, DefaultsGive call written before held between ∧
        after.scopes = between.scopes.define name (.function between.defined name held body) := by
  intro call run
  have levels : limit - m.scopes.depth = limit - (m.scopes.depth + 1) + 1 := by omega
  have same : call = callWithin rounds (limit - (m.scopes.depth + 1) + 1)
      (.function id name params body) args kwargs := by rw [← levels]
  rw [same]
  refine ⟨?_, fun unfit => ?_, fun call written before flow after defined => ?_⟩
  · rcases bindArguments_cases name distinct args kwargs with
      ⟨fit, frame, bound, binds⟩ | ⟨unfit, f, refused⟩
    · refine iff_of_true ⟨frame, binds, ?_⟩ fit
      exact startsBody_of_ok (binds.names ▸ distinct) bound m
    · refine iff_of_false ?_ unfit
      rintro ⟨frame, -, starts⟩
      have steps := starts.steps
      rw [(refused_of_error refused m).2] at steps
      cases steps
  · rcases bindArguments_cases name distinct args kwargs with ⟨fit, -⟩ | ⟨-, f, refused⟩
    · exact absurd fit unfit
    · exact ⟨.type f, rfl, refused_of_error refused m⟩
  · obtain ⟨-, held, between, given, rfl⟩ := run_define_eq_ok.mp defined
    exact ⟨held, between, given, rfl⟩

/-- A parameter by position, one by default and one by keyword; and one by position and by keyword
at once, which is refused. -/
theorem argument_binding_of_three :
    let m := Machine.start .empty
    let params := [("x", none), ("factor", some (.int 2)), ("offset", some (.int 1))]
    let body := [Stmt.giveBack (some (.name "offset"))]
    let call (kwargs : Keywords) := callWithin 5 1 (.function 0 "f" params body) [.int 3] kwargs
    m.scopes.depth < 1 ∧ (params.map Prod.fst).Nodup ∧
      (∃ frame : Frame Value, frame.map Prod.fst = ["x", "factor", "offset"] ∧
        frame.get? "x" = some (.int 3) ∧ frame.get? "factor" = some (.int 2) ∧
        frame.get? "offset" = some (.int 7) ∧
        StartsBody (call [("offset", .int 7)]) (execBlock (callWithin 5 0) 5 body) frame m) ∧
      ∃ f : Fault, f.kind = "TypeError" ∧ (call [("x", .int 4)]).run m = (.error (.fault f), m) ∧
        (call [("x", .int 4)]).steps m = [] := by
  intro m params body call
  have below : m.scopes.depth < 1 := Nat.zero_lt_one
  have distinct : (params.map Prod.fst).Nodup := by decide
  have fit : ArgumentsFit params [.int 3] [("offset", .int 7)] :=
    ⟨by decide, by decide, by decide, by decide⟩
  have unfit : ¬ ArgumentsFit params [.int 3] [("x", .int 4)] := fun fit =>
    absurd (fit.known "x" List.mem_cons_self) (by decide)
  obtain ⟨frame, binds, starts⟩ :=
    (argument_binding below distinct 5 0 "f" body [.int 3] [("offset", .int 7)]).1.mpr fit
  have refused := (argument_binding below distinct 5 0 "f" body [.int 3] [("x", .int 4)]).2.1 unfit
  obtain ⟨_, ⟨⟩, x⟩ := binds.values 0 ("x", none) rfl
  obtain ⟨_, ⟨⟩, factor⟩ := binds.values 1 ("factor", some (.int 2)) rfl
  obtain ⟨_, ⟨⟩, offset⟩ := binds.values 2 ("offset", some (.int 1)) rfl
  exact ⟨below, distinct, ⟨frame, binds.names, x, factor, offset, starts⟩, refused⟩

end DocExamples.Script
