import DocExamples.Proofs.Script.Bindings
import DocExamples.Proofs.Script.LibraryTraits
import DocExamples.Proofs.Script.Runs
/-!
Properties of computations that sequences inherit. With the property goes what is known of the
values that a computation gives: they are made of dictionaries and arrays that meet conditions if
the bound values are.
-/
namespace DocExamples.Script

/-- All values that a change puts into a container. -/
def ItemChange.Has (T : Trait) : ItemChange → Prop
  | .set v => v.Has T
  | .delete => True

/-- The value that a call is to give back, if one is. -/
def Flow.Has (T : Trait) : Flow → Prop
  | .giveBack v => v.Has T
  | .next | .leaveLoop | .nextRound => True

/-- The value, if there is one. -/
abbrev IfAny (T : Trait) (v : Option Value) : Prop := ∀ w, v = some w → w.Has T

/-- A property `K R x` of computations `x` that give what `R` holds of. Computations that leave the
bindings and the output as they are have it, those that print have it, and sequences inherit it. -/
structure Sequential (T : Trait) (K : ∀ {α : Type}, (α → Prop) → Eval α → Prop) : Prop where
  lawful : T.Lawful
  quiet : ∀ {α : Type} {R : α → Prop} (f : Machine → Except Stop α × Machine)
    (same : ∀ m, (f m).2.scopes = m.scopes), (∀ m, (f m).2.output = m.output) →
    (∀ m a, m.scopes.All (Value.Has T) → (f m).1 = .ok a → R a) → K R (Eval.quiet f same)
  print : ∀ text, K (fun _ => True) (Machine.print text)
  printLine : ∀ text, K (fun _ => True) (Machine.printLine text)
  bind : ∀ {α β : Type} {R : α → Prop} {S : β → Prop} {x : Eval α} {f : α → Eval β},
    K R x → (∀ a, R a → K S (f a)) → K S (x >>= f)

namespace Sequential

variable {T : Trait} {K : ∀ {α : Type}, (α → Prop) → Eval α → Prop} {α β : Type} {R : α → Prop}
  (closed : Sequential T K)
include closed

theorem pure {a : α} (holds : R a) : K R (Pure.pure a : Eval α) := by
  refine closed.quiet _ _ (fun _ => rfl) fun m b _ given => ?_
  cases given
  exact holds

theorem stop (e : Stop) : K R (Eval.stop e : Eval α) :=
  closed.quiet _ _ (fun _ => rfl) fun _ _ _ given => nomatch given

theorem fail (f : Fault) : K R (Script.fail f : Eval α) := closed.stop _

theorem lift {x : Except Fault α} (ensures : Ensures R x) : K R (liftM x : Eval α) := by
  cases x with
  | ok a => exact closed.pure (ensures a rfl)
  | error f => exact closed.fail f

theorem map {S : β → Prop} {f : α → β} {x : Eval α} (part : K R x)
    (onward : ∀ a, R a → S (f a)) : K S (f <$> x) :=
  closed.bind part fun a holds => closed.pure (onward a holds)

theorem get : K (fun m => m.scopes.All (Value.Has T)) Machine.get := by
  refine closed.quiet _ _ (fun _ => rfl) fun m m' all given => ?_
  cases given
  exact all

theorem lookup (name : String) : K (IfAny T) (Machine.lookup name) :=
  closed.bind closed.get fun _ all => closed.pure fun _ found => all.of_lookup found

theorem inCall : K (fun _ => True) Machine.inCall :=
  closed.bind closed.get fun _ _ => closed.pure trivial

theorem withinNesting (limit : Nat) (v : Value) :
    K (fun _ => True) (Script.withinNesting limit v) := by
  unfold Script.withinNesting
  split
  · exact closed.fail _
  · exact closed.pure trivial

theorem edit {change : ItemChange} {s : Subscript} (inside : s.Has T) (puts : change.Has T)
    (container : Value) : K (Edit.Has T) (change.edit container s) := by
  cases change with
  | set v =>
    exact closed.bind (closed.withinNesting _ v) fun _ _ => closed.lift (has_storeEdit inside puts)
  | delete => exact closed.lift has_deleteEdit

/-- Changes of a value that no name holds are lost. -/
theorem editTemporary {x : Eval Value} (part : K (Value.Has T) x) {change : ItemChange}
    {s : Subscript} (inside : s.Has T) (puts : change.Has T) :
    K (fun _ => True) (do let _ ← change.edit (← x) s) :=
  closed.bind part fun v _ => closed.bind (closed.edit inside puts v) fun _ _ => closed.pure trivial

theorem collectFor {visit : Value → Eval (Option Value)} {items : List Value}
    (visits : ∀ v, v.Has T → K (IfAny T) (visit v)) {found : Array Value}
    (foundHave : AllHave T found.toList) (itemsHave : AllHave T items) :
    K (fun made : Array Value => AllHave T made.toList) (Script.collectFor visit found items) := by
  induction items generalizing found with
  | nil => exact closed.pure foundHave
  | cons item rest ih =>
    obtain ⟨here, others⟩ := List.forall_mem_cons.mp itemsHave
    apply closed.bind (visits item here)
    intro result holds
    cases result with
    | some v =>
      refine ih ?_ others
      rw [Array.toList_push]
      exact List.forall_mem_append.mpr ⟨foundHave, List.forall_mem_singleton.mpr (holds v rfl)⟩
    | none => exact ih foundHave others

theorem lookupName (name : String) : K (Value.Has T) (Script.lookupName name) := by
  apply closed.bind (closed.lookup name)
  intro found holds
  cases found with
  | some v => exact closed.pure (holds v rfl)
  | none =>
    dsimp only
    split
    · exact closed.pure (Value.has_of_isAtomic rfl)
    · split
      · exact closed.pure (Value.has_of_isAtomic rfl)
      · exact closed.fail _

/-! ### Loops and output -/

theorem visitAll {visit : Value → Eval Flow} {items : List Value}
    (visits : ∀ v, v.Has T → K (Flow.Has T) (visit v)) (itemsHave : AllHave T items) :
    K (Flow.Has T) (Script.visitAll visit items) := by
  induction items with
  | nil => exact closed.pure trivial
  | cons item rest ih =>
    obtain ⟨here, others⟩ := List.forall_mem_cons.mp itemsHave
    apply closed.bind (visits item here)
    intro flow holds
    cases flow with
    | next | nextRound => exact ih others
    | leaveLoop => exact closed.pure trivial
    | giveBack v => exact closed.pure (R := Flow.Has T) holds

theorem repeatWhile {condition : Eval Bool} {body : Eval Flow}
    (decides : K (fun _ => True) condition) (runs : K (Flow.Has T) body) (rounds : Nat) :
    K (Flow.Has T) (Script.repeatWhile condition body rounds) := by
  induction rounds with
  | zero => exact closed.stop _
  | succ rounds ih =>
    apply closed.bind decides
    intro again _
    split
    · apply closed.bind runs
      intro flow holds
      cases flow with
      | next | nextRound => exact ih
      | leaveLoop => exact closed.pure trivial
      | giveBack v => exact closed.pure (R := Flow.Has T) holds
    · exact closed.pure trivial

theorem echo (v : Value) : K (fun _ => True) (Script.echo v) := by
  unfold Script.echo
  apply closed.bind closed.inCall
  intro called _
  split
  · exact closed.printLine _
  · exact closed.pure trivial

/-! ### Built-in functions -/

theorem random (f : Generator → α × Generator) :
    K (fun _ => True) (Machine.random f) :=
  closed.quiet _ _ (fun _ => rfl) fun _ _ _ _ => trivial

theorem printCall (args : List Value) (kwargs : Keywords) :
    K (Value.Has T) (Script.printCall args kwargs) := by
  refine closed.bind (closed.lift .any) fun _ _ => closed.bind (closed.lift .any) fun separator _ => ?_
  refine closed.bind (closed.lift .any) fun ending _ => closed.bind (closed.print _) fun _ _ => ?_
  exact closed.bind (closed.print _) fun _ _ => closed.pure (Value.has_of_isAtomic rfl)

theorem randomCall (args : List Value) (kwargs : Keywords) :
    K (Value.Has T) (Script.randomCall args kwargs) := by
  apply closed.bind (closed.lift .any)
  intro _ _
  split
  · apply closed.bind (closed.fail (R := fun _ => True) _)
    intro _ _
    exact closed.bind (closed.random _) fun _ _ => closed.pure (Value.has_of_isAtomic rfl)
  · exact closed.bind (closed.random _) fun _ _ => closed.pure (Value.has_of_isAtomic rfl)

theorem drawMany (n : Nat) :
    K (fun xs : List Float => xs.length = n) (Machine.drawMany n) := by
  refine closed.quiet _ _ (fun _ => rfl) fun m xs _ given => ?_
  cases given
  exact Generator.length_take n m.generator

theorem randCall (args : List Value) (kwargs : Keywords) :
    K (Value.Has T) (Script.randCall args kwargs) := by
  apply closed.bind (closed.lift .any)
  intro _ _
  split
  · exact closed.bind (closed.random _) fun _ _ => closed.pure (Value.has_of_isAtomic rfl)
  · apply closed.bind (closed.lift (.any : Ensures _ (List.mapM _ _)))
    intro shape _
    apply closed.bind (closed.lift fun size sized => sized)
    intro size sized
    refine closed.bind (closed.drawMany size) fun xs length => closed.pure (Value.has_tensor.mpr ?_)
    exact closed.lawful.sized .float (by rw [List.size_toArray, length, sized])

theorem seedCall (args : List Value) (kwargs : Keywords) :
    K (Value.Has T) (Script.seedCall args kwargs) := by
  refine closed.bind (closed.lift .any) fun _ _ => closed.bind (closed.lift .any) fun _ _ => ?_
  exact closed.bind (closed.random _) fun _ _ => closed.pure (Value.has_of_isAtomic rfl)

theorem readTextCall (args : List Value) (kwargs : Keywords) :
    K (Value.Has T) (Script.readTextCall args kwargs) := by
  apply closed.bind (closed.lift .any)
  intro v _
  split
  · refine closed.bind closed.get fun _ _ => closed.bind (closed.lift .any) fun _ _ => ?_
    exact closed.pure (Value.has_of_isAtomic rfl)
  · exact closed.fail _

theorem builtinCall (b : Builtin) {args : List Value} (kwargs : Keywords)
    (argsHave : AllHave T args) : K (Value.Has T) (b.call args kwargs) := by
  have laws := closed.lawful
  have sole {f : Value → Except Fault Value} (ensures : ∀ v, v.Has T → Ensures (Value.Has T) (f v)) :
      K (Value.Has T) (do f (← soleArgument b.name args kwargs)) :=
    closed.bind (closed.lift (has_soleArgument argsHave)) fun v holds => closed.lift (ensures v holds)
  have atom {f : Value → Except Fault Value} (atoms : ∀ v, EnsuresAtom (f v)) :
      K (Value.Has T) (do f (← soleArgument b.name args kwargs)) := sole fun v _ => (atoms v).has
  cases b with
  | print => exact closed.printCall args kwargs
  | random => exact closed.randomCall args kwargs
  | rand => exact closed.randCall args kwargs
  | seed => exact closed.seedCall args kwargs
  | readText => exact closed.readTextCall args kwargs
  | plot => exact closed.pure (Value.has_of_isAtomic rfl)
  | sum => exact closed.lift (laws.sumCall argsHave)
  | round => exact closed.lift (laws.roundCall argsHave)
  | min | max => exact closed.lift (laws.extremeCall argsHave _)
  | sorted => exact closed.lift (laws.sortedCall argsHave)
  | str => exact closed.lift atom_strCall.has
  | int => exact closed.lift atom_intCall.has
  | float => exact closed.lift atom_floatCall.has
  | bool => exact closed.lift atom_boolCall.has
  | list => exact closed.lift (laws.listCall argsHave)
  | enumerate => exact closed.lift (laws.enumerateCall argsHave)
  | zip => exact closed.lift (laws.zipCall argsHave)
  | array => exact closed.lift (laws.arrayCall argsHave)
  | zeros | ones => exact closed.lift (laws.filled _ _ args kwargs)
  | mean => exact closed.lift atom_meanCall.has
  | dot => exact closed.lift (laws.dotCall argsHave)
  | allclose => exact closed.lift atom_allcloseCall.has
  | tuple =>
    exact closed.bind (closed.lift (laws.itemsCall argsHave "tuple")) fun _ have' =>
      closed.pure (Value.has_tuple.mpr have')
  | any | all =>
    exact closed.bind (closed.lift .any) fun _ _ => closed.pure (Value.has_of_isAtomic rfl)
  | len => exact atom atom_lengthOf
  | repr => exact atom fun v => .ok rfl
  | abs => exact sole fun v holds => laws.absolute holds
  | sqrt | exp | log | sin | cos => exact sole fun v holds => laws.onElements _ holds
  | floor | ceil => exact sole fun v holds => laws.roundingOn _ holds
  | range => exact closed.bind (closed.lift .any) fun _ _ => closed.lift (has_rangeOf args)
  | arange => exact closed.bind (closed.lift .any) fun _ _ => closed.lift (laws.arangeOf args)
  | linspace =>
    exact closed.bind (closed.lift .any) fun _ _ => closed.lift (laws.linspaceOf args kwargs)

end Sequential

/-! ### Results -/

/-- What a computation gives, wherever it runs, has the property. -/
def Eval.Gives {α : Type} (R : α → Prop) (x : Eval α) : Prop :=
  ∀ m a m', x.run m = (.ok a, m') → R a

section Gives

variable {α β : Type} {R : α → Prop} {x : Eval α}

theorem Eval.Gives.bind {S : β → Prop} {f : α → Eval β} (first : x.Gives R)
    (second : ∀ a, R a → (f a).Gives S) : (x >>= f).Gives S := by
  intro m b m' given
  obtain ⟨a, m₁, first', given⟩ := run_bind_eq_ok.mp given
  exact second a (first m a m₁ first') m₁ b m' given

theorem Eval.Gives.endingWith {last : Eval Unit} (first : x.Gives R) :
    (x.endingWith last).Gives R := by
  intro m a m' given
  cases here : x.run m with
  | mk result m₁ =>
    cases ended : last.run m₁ with
    | mk ending m₂ =>
      cases ending <;> simp [Eval.endingWith, here, ended] at given
      exact first m a m₁ (here.trans (by rw [given.1]))

theorem Eval.gives_true : x.Gives fun _ => True := fun _ _ _ _ => trivial

theorem Eval.Gives.inFrame (locals : List (String × Value)) (gives : x.Gives R) :
    (Machine.inFrame (do defineAll locals; x)).Gives R :=
  Eval.gives_true.bind fun _ _ => (Eval.gives_true.bind fun _ _ => gives).endingWith

end Gives

theorem all_any (s : Scopes Value) : s.All (Value.Has .any) :=
  ⟨fun entry _ => entry.2.has_any, fun _ _ entry _ => entry.2.has_any⟩

/-- A property that does not depend on values; in a sequence, the second computation may rely on
what the first one gives. -/
theorem Sequential.of_gives {K : ∀ {α : Type}, Eval α → Prop}
    (quiet : ∀ {α : Type} (f : Machine → Except Stop α × Machine)
      (same : ∀ m, (f m).2.scopes = m.scopes), (∀ m, (f m).2.output = m.output) →
      K (Eval.quiet f same))
    (print : ∀ text, K (Machine.print text)) (printLine : ∀ text, K (Machine.printLine text))
    (bind : ∀ {α β : Type} {x : Eval α} {f : α → Eval β}, K x →
      (∀ a, (∃ m m', x.run m = (.ok a, m')) → K (f a)) → K (x >>= f)) :
    Sequential .any fun {_} R x => K x ∧ x.Gives R where
  lawful := Trait.lawful_any
  quiet f same kept holds :=
    ⟨quiet f same kept, fun m a m' given => holds m a (all_any _) (congrArg Prod.fst given)⟩
  print text := ⟨print text, Eval.gives_true⟩
  printLine text := ⟨printLine text, Eval.gives_true⟩
  bind first second := by
    refine ⟨bind first.1 fun a ⟨m, m', given⟩ => ?_, ?_⟩
    · exact (second a (first.2 m a m' given)).1
    · exact first.2.bind fun a holds => (second a holds).2

end DocExamples.Script
