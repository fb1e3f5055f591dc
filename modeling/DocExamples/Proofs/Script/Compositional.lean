import DocExamples.Proofs.Script.Sequential
import DocExamples.Script.Session
/-!
Programs are made of a few computations that touch the bindings. A property of computations that
holds of these, and that sequences inherit, holds of every program.
-/
namespace DocExamples.Script

/-- A property that evaluation without calls inherits. -/
structure Evaluative (T : Trait) (K : ∀ {α : Type}, (α → Prop) → Eval α → Prop) : Prop
    extends Sequential T K where
  bindName : ∀ name v, v.Has T → K (fun _ => True) (bindName name v)
  /-- Values that a program binds unseen have no parts. -/
  define : ∀ name v, v.nestsDeeperThan 0 = false → v.Has T →
    K (fun _ => True) (Machine.define .program name v)
  unbind : ∀ name, K (fun _ => True) (Machine.unbind name)
  storeAt : ∀ name s change, s.Has T → change.Has T → K (fun _ => True) (storeAt name s change)
  mutateBound : ∀ callee args, AllHave T args → K (IfAny T) (mutateBound? callee args)
  keepingNames : ∀ {α : Type} {R : α → Prop} {x : Eval α} names, K R x →
    K R (keepingNames names x)

/-- A property for each number of calls that may nest; a call inherits it from what runs in its
frame. -/
structure Compositional (T : Trait) (K : Nat → ∀ {α : Type}, (α → Prop) → Eval α → Prop) :
    Prop where
  evaluative : ∀ levels, Evaluative T (K levels)
  inFrame : ∀ {α : Type} {R : α → Prop} {x : Eval α} {levels} locals,
    (∀ entry ∈ locals, entry.2.Has T) → K levels R x →
    K (levels + 1) R (Machine.inFrame (do defineAll locals; x))

theorem nestsDeeperThan_moduleValue {owner name : String} {v : Value}
    (found : moduleValue? owner name = some v) (limit : Nat) : v.nestsDeeperThan limit = false := by
  obtain ⟨item, -, rfl⟩ := Option.map_eq_some_iff.mp found
  cases item <;> rfl

theorem has_moduleValue {T : Trait} {owner name : String} {v : Value}
    (found : moduleValue? owner name = some v) : v.Has T := by
  obtain ⟨item, -, rfl⟩ := Option.map_eq_some_iff.mp found
  cases item <;> exact Value.has_of_isAtomic rfl

theorem has_unpackItems {T : Trait} (lawful : T.Lawful) {count : Nat} {v : Value} (holds : v.Has T) :
    Ensures (AllHave T) (unpackItems count v) := by
  intro items given
  unfold unpackItems at given
  split at given
  · cases given
  · next found iterated =>
    split at given
    · cases given
    · split at given
      · cases given
      · cases given
        exact lawful.iterate holds _ iterated

/-- What calls have in common with the rest of a program. -/
abbrev CallsHave (T : Trait) (K : ∀ {α : Type}, (α → Prop) → Eval α → Prop) (call : Caller) :
    Prop :=
  ∀ f args kwargs, f.Has T → AllHave T args → kwargs.AllHave T → K (Value.Has T) (call f args kwargs)

namespace Evaluative

variable {T : Trait} {K : ∀ {α : Type}, (α → Prop) → Eval α → Prop} {call : Caller}

/-! ### Expressions -/

-- A subscript, or what a store goes to, may be the whole expression, and counts for one more.
mutual

theorem evalExpr (closed : Evaluative T K) (calls : CallsHave T K call) :
    ∀ e : Expr, K (Value.Has T) (Script.evalExpr call e)
  | .int _ | .float _ | .str _ | .bool _ | .none => by
    simp only [Script.evalExpr]
    exact closed.pure (Value.has_of_isAtomic rfl)
  | .name name => by
    rw [Script.evalExpr]
    exact closed.lookupName name
  | .list items => by
    rw [Script.evalExpr]
    exact closed.map (evalAll closed calls items) fun _ => Value.has_ofList.mpr
  | .tuple items => by
    rw [Script.evalExpr]
    exact closed.map (evalAll closed calls items) fun _ => Value.has_tuple.mpr
  | .dict entries => by
    rw [Script.evalExpr]
    refine closed.map (evalEntries closed calls ?_ entries) fun _ holds => holds
    exact Value.has_dict.mpr ⟨closed.lawful.noEntries, fun _ member => nomatch member⟩
  | .listComp element target source condition => by
    rw [Script.evalExpr]
    apply closed.bind (evalExpr closed calls source)
    intro v holds
    apply closed.bind (closed.lift (closed.lawful.iterate holds))
    intro items itemsHave
    refine closed.map (closed.keepingNames _ (closed.collectFor ?_ ?_ itemsHave)) fun _ =>
      Value.has_list.mpr
    · intro item itemHas
      refine closed.bind (assign closed calls target item itemHas) fun _ _ => ?_
      apply closed.bind (evalCondition closed calls condition)
      intro holds _
      split
      · refine closed.bind (evalExpr closed calls element) fun v vHas => closed.pure ?_
        rintro _ ⟨⟩
        exact vHas
      · exact closed.pure fun _ given => nomatch given
    · exact fun _ member => nomatch member
  | .unary op operand => by
    rw [Script.evalExpr]
    exact closed.bind (evalExpr closed calls operand) fun v holds =>
      closed.lift (closed.lawful.unary holds)
  | .binary op left right => by
    rw [Script.evalExpr]
    apply closed.bind (evalExpr closed calls left)
    intro a aHas
    exact closed.bind (evalExpr closed calls right) fun b bHas =>
      closed.lift (closed.lawful.binary aHas bHas)
  | .compare op left right => by
    rw [Script.evalExpr]
    apply closed.bind (evalExpr closed calls left)
    intro a aHas
    exact closed.bind (evalExpr closed calls right) fun b bHas =>
      closed.lift (closed.lawful.compareValues aHas bHas)
  | .and left right => by
    rw [Script.evalExpr]
    apply closed.bind (evalExpr closed calls left)
    intro a aHas
    refine closed.bind (closed.lift .any) fun _ _ => ?_
    split
    · exact evalExpr closed calls right
    · exact closed.pure aHas
  | .or left right => by
    rw [Script.evalExpr]
    apply closed.bind (evalExpr closed calls left)
    intro a aHas
    refine closed.bind (closed.lift .any) fun _ _ => ?_
    split
    · exact closed.pure aHas
    · exact evalExpr closed calls right
  | .ifElse condition yes no => by
    rw [Script.evalExpr]
    apply closed.bind (evalExpr closed calls condition)
    intro _ _
    apply closed.bind (closed.lift .any)
    intro _ _
    split
    · exact evalExpr closed calls yes
    · exact evalExpr closed calls no
  | .call callee args kwargs => by
    rw [Script.evalExpr]
    apply closed.bind (evalAll closed calls args)
    intro args argsHave
    apply closed.bind (evalKeywords closed calls kwargs)
    intro kwargs kwargsHave
    apply closed.bind (closed.mutateBound callee args argsHave)
    intro result holds
    split
    · next v => exact closed.pure (holds v rfl)
    · exact closed.bind (evalExpr closed calls callee) fun f fHas =>
        calls f args kwargs fHas argsHave kwargsHave
  | .attr object name => by
    rw [Script.evalExpr]
    exact closed.bind (evalExpr closed calls object) fun v holds =>
      closed.lift (closed.lawful.attributeOf name holds)
  | .index container index => by
    rw [Script.evalExpr]
    apply closed.bind (evalExpr closed calls container)
    intro v holds
    exact closed.bind (evalSubscript closed calls index) fun s _ =>
      closed.lift (closed.lawful.getItem holds)
  | .slice .. => by
    rw [Script.evalExpr]
    exact closed.fail _
termination_by e => 2 * sizeOf e

theorem evalAll (closed : Evaluative T K) (calls : CallsHave T K call) :
    ∀ es : List Expr, K (AllHave T) (Script.evalAll call es)
  | [] => by
    rw [Script.evalAll]
    exact closed.pure fun _ member => nomatch member
  | e :: rest => by
    rw [Script.evalAll]
    apply closed.bind (evalExpr closed calls e)
    intro v holds
    exact closed.bind (evalAll closed calls rest) fun vs have' =>
      closed.pure (List.forall_mem_cons.mpr ⟨holds, have'⟩)
termination_by es => 2 * sizeOf es

theorem evalEntries (closed : Evaluative T K) (calls : CallsHave T K call)
    {before : List (Value × Value)} (beforeHas : (Value.dict before).Has T) :
    ∀ entries : List (Expr × Expr),
      K (fun made => (Value.dict made).Has T) (Script.evalEntries call before entries)
  | [] => by
    rw [Script.evalEntries]
    exact closed.pure beforeHas
  | (key, value) :: rest => by
    rw [Script.evalEntries]
    apply closed.bind (evalExpr closed calls key)
    intro k kHas
    apply closed.bind (evalExpr closed calls value)
    intro v vHas
    exact evalEntries closed calls (closed.lawful.putEntries beforeHas kHas vHas) rest
termination_by entries => 2 * sizeOf entries

theorem evalKeywords (closed : Evaluative T K) (calls : CallsHave T K call) :
    ∀ kwargs : List (String × Expr),
      K (Keywords.AllHave T) (Script.evalKeywords call kwargs)
  | [] => by
    rw [Script.evalKeywords]
    exact closed.pure fun _ member => nomatch member
  | (name, e) :: rest => by
    rw [Script.evalKeywords]
    apply closed.bind (evalExpr closed calls e)
    intro v holds
    exact closed.bind (evalKeywords closed calls rest) fun kwargs have' =>
      closed.pure (List.forall_mem_cons.mpr ⟨holds, have'⟩)
termination_by kwargs => 2 * sizeOf kwargs

theorem evalCondition (closed : Evaluative T K) (calls : CallsHave T K call) :
    ∀ condition : Option Expr, K (fun _ => True) (Script.evalCondition call condition)
  | none => by
    rw [Script.evalCondition]
    exact closed.pure trivial
  | some e => by
    rw [Script.evalCondition]
    exact closed.bind (evalExpr closed calls e) fun _ _ => closed.lift .any
termination_by condition => 2 * sizeOf condition

theorem evalBound (closed : Evaluative T K) (calls : CallsHave T K call) :
    ∀ bound : Option Expr, K (fun _ => True) (Script.evalBound call bound)
  | none => by
    rw [Script.evalBound]
    exact closed.pure trivial
  | some e => by
    rw [Script.evalBound]
    exact closed.bind (evalExpr closed calls e) fun _ _ => closed.lift .any
termination_by bound => 2 * sizeOf bound

theorem evalSubscript (closed : Evaluative T K) (calls : CallsHave T K call) (e : Expr) :
    K (Subscript.Has T) (Script.evalSubscript call e) := by
  rw [Script.evalSubscript.eq_def]
  split
  · next start stop step =>
    apply closed.bind (evalBound closed calls start)
    intro _ _
    apply closed.bind (evalBound closed calls stop)
    intro _ _
    exact closed.bind (evalBound closed calls step) fun _ _ => closed.pure (.slice _ _ _)
  · next items => exact closed.map (evalSubscripts closed calls items) fun _ => .multi
  · exact closed.map (evalExpr closed calls _) fun _ => .item
termination_by 2 * sizeOf e + 1

theorem evalSubscripts (closed : Evaluative T K) (calls : CallsHave T K call) :
    ∀ es : List Expr, K (fun parts : List Subscript => ∀ part ∈ parts, part.Has T)
      (Script.evalSubscripts call es)
  | [] => by
    rw [Script.evalSubscripts]
    exact closed.pure fun _ member => nomatch member
  | e :: rest => by
    rw [Script.evalSubscripts]
    apply closed.bind (evalSubscript closed calls e)
    intro s holds
    exact closed.bind (evalSubscripts closed calls rest) fun parts have' =>
      closed.pure (List.forall_mem_cons.mpr ⟨holds, have'⟩)
termination_by es => 2 * sizeOf es

theorem assign (closed : Evaluative T K) (calls : CallsHave T K call) :
    ∀ (target : Target) (v : Value), v.Has T → K (fun _ => True) (Script.assign call target v)
  | .name name, v, holds => by
    rw [Script.assign]
    exact closed.bindName name v holds
  | .index container index, v, holds => by
    rw [Script.assign]
    exact closed.bind (evalSubscript closed calls index) fun s inside =>
      storeItem closed calls container inside (.set v) holds
  | .unpack targets, v, holds => by
    rw [Script.assign]
    exact closed.bind (closed.lift (has_unpackItems closed.lawful holds)) fun items have' =>
      assignAll closed calls targets items have'
termination_by target _ => 2 * sizeOf target

theorem assignAll (closed : Evaluative T K) (calls : CallsHave T K call) :
    ∀ (targets : List Target) (items : List Value), AllHave T items →
      K (fun _ => True) (Script.assignAll call targets items)
  | [], _, _ => by
    simp only [Script.assignAll]
    exact closed.pure trivial
  | _ :: _, [], _ => by
    simp only [Script.assignAll]
    exact closed.pure trivial
  | target :: targets, v :: rest, itemsHave => by
    rw [Script.assignAll]
    obtain ⟨here, others⟩ := List.forall_mem_cons.mp itemsHave
    exact closed.bind (assign closed calls target v here) fun _ _ =>
      assignAll closed calls targets rest others
termination_by targets _ => 2 * sizeOf targets

theorem storeItem (closed : Evaluative T K) (calls : CallsHave T K call) (container : Expr)
    {s : Subscript} (inside : s.Has T) (change : ItemChange) (puts : change.Has T) :
    K (fun _ => True) (Script.storeItem call container s change) := by
  rw [Script.storeItem.eq_def]
  split
  · next name => exact closed.storeAt name s change inside puts
  · next outer index =>
    apply closed.bind (evalSubscript closed calls index)
    intro outerSubscript outerInside
    apply closed.bind (evalExpr closed calls outer)
    intro v vHas
    apply closed.bind (closed.lift (closed.lawful.getItem vHas))
    intro inner innerHas
    apply closed.bind (closed.edit inside puts inner)
    intro e eHas
    exact storeItem closed calls outer outerInside (.set (e.apply inner))
      (closed.lawful.applyEdit eHas innerHas)
  · exact closed.editTemporary (evalExpr closed calls _) inside puts
termination_by 2 * sizeOf container + 1

end

/-! ### Statements -/

theorem assignEach (closed : Evaluative T K) (calls : CallsHave T K call) {v : Value}
    (holds : v.Has T) (targets : List Target) :
    K (fun _ => True) (Script.assignEach call v targets) := by
  induction targets with
  | nil => exact closed.pure trivial
  | cons target rest ih => exact closed.bind (closed.assign calls target v holds) fun _ _ => ih

theorem updateTarget (closed : Evaluative T K) (calls : CallsHave T K call) (target : Target)
    (op : BinaryOp) (value : Expr) :
    K (fun _ => True) (Script.updateTarget call target op value) := by
  unfold Script.updateTarget
  cases target.toExpr? with
  | none => exact closed.fail _
  | some e =>
    apply closed.bind (closed.evalExpr calls e)
    intro current currentHas
    apply closed.bind (closed.evalExpr calls value)
    intro v vHas
    exact closed.bind (closed.lift (closed.lawful.binary currentHas vHas)) fun result holds =>
      closed.assign calls target result holds

mutual

theorem deleteTarget (closed : Evaluative T K) (calls : CallsHave T K call) :
    ∀ target : Target, K (fun _ => True) (Script.deleteTarget call target)
  | .name name => by
    rw [Script.deleteTarget]
    apply closed.bind (closed.unbind name)
    intro bound _
    split
    · exact closed.fail _
    · exact closed.pure trivial
  | .index container index => by
    rw [Script.deleteTarget]
    exact closed.bind (closed.evalSubscript calls index) fun s inside =>
      closed.storeItem calls container inside .delete trivial
  | .unpack targets => by
    rw [Script.deleteTarget]
    exact deleteTargets closed calls targets

theorem deleteTargets (closed : Evaluative T K) (calls : CallsHave T K call) :
    ∀ targets : List Target, K (fun _ => True) (Script.deleteTargets call targets)
  | [] => by
    rw [Script.deleteTargets]
    exact closed.pure trivial
  | target :: rest => by
    rw [Script.deleteTargets]
    exact closed.bind (deleteTarget closed calls target) fun _ _ => deleteTargets closed calls rest

end

theorem evalDefaults (closed : Evaluative T K) (calls : CallsHave T K call)
    (params : List (String × Option Expr)) :
    K (fun made : List (String × Option Value) => ∀ p ∈ made, IfAny T p.2)
      (Script.evalDefaults call params) := by
  induction params with
  | nil => exact closed.pure fun _ member => nomatch member
  | cons param rest ih =>
    obtain ⟨name, default⟩ := param
    cases default with
    | none =>
      exact closed.bind ih fun made have' =>
        closed.pure (List.forall_mem_cons.mpr ⟨fun _ given => (nomatch given), have'⟩)
    | some e =>
      apply closed.bind (closed.evalExpr calls e)
      intro v holds
      refine closed.bind ih fun made have' => closed.pure (List.forall_mem_cons.mpr ⟨?_, have'⟩)
      rintro _ ⟨⟩
      exact holds

theorem checkAssertion (closed : Evaluative T K) (calls : CallsHave T K call) (condition : Expr)
    (message : Option Expr) : K (fun _ => True) (Script.checkAssertion call condition message) := by
  unfold Script.checkAssertion
  apply closed.bind (closed.evalExpr calls condition)
  intro v _
  apply closed.bind (closed.lift .any)
  intro holds _
  split
  · cases message with
    | none => exact closed.fail _
    | some e => exact closed.bind (closed.evalExpr calls e) fun _ _ => closed.fail _
  · exact closed.pure trivial

theorem defineModule (closed : Evaluative T K) (name module : String) :
    K (fun _ => True) (Machine.define .program name (.module module)) :=
  closed.define _ _ rfl (Value.has_of_isAtomic rfl)

theorem importModule (closed : Evaluative T K) (name : String) (newName : Option String) :
    K (fun _ => True) (Script.importModule name newName) := by
  unfold Script.importModule
  cases newName with
  | none =>
    dsimp only
    split
    · exact closed.bind (closed.fail (R := fun _ => True) _) fun _ _ => closed.defineModule _ _
    · exact closed.defineModule _ _
  | some n =>
    dsimp only
    split
    · exact closed.bind (closed.fail (R := fun _ => True) _) fun _ _ => closed.defineModule _ _
    · exact closed.defineModule _ _

theorem importEach (closed : Evaluative T K) (owner : String)
    (names : List (String × Option String)) :
    K (fun _ => True) (Script.importEach owner names) := by
  induction names with
  | nil => exact closed.pure trivial
  | cons entry rest ih =>
    obtain ⟨name, newName⟩ := entry
    unfold Script.importEach
    cases found : moduleValue? owner name with
    | none => exact closed.bind (closed.fail (R := fun _ => True) _) fun _ _ => ih
    | some v =>
      have flat := nestsDeeperThan_moduleValue found 0
      exact closed.bind (closed.define _ v flat (has_moduleValue found)) fun _ _ => ih

theorem importNames (closed : Evaluative T K) (owner : String)
    (names : List (String × Option String)) :
    K (fun _ => True) (Script.importNames owner names) := by
  unfold Script.importNames
  split
  · exact closed.bind (closed.fail (R := fun _ => True) _) fun _ _ => closed.importEach owner names
  · exact closed.importEach owner names

theorem returnValue (closed : Evaluative T K) (calls : CallsHave T K call) (value : Option Expr) :
    K (Value.Has T) (Script.returnValue call value) := by
  cases value with
  | none => exact closed.pure (Value.has_of_isAtomic rfl)
  | some e => exact closed.evalExpr calls e

mutual

theorem execStmt (closed : Evaluative T K) (calls : CallsHave T K call) (rounds : Nat) :
    ∀ s : Stmt, K (Flow.Has T) (Script.execStmt call rounds s)
  | .expr e => by
    rw [Script.execStmt]
    apply closed.bind (closed.evalExpr calls e)
    intro v _
    exact closed.bind (closed.echo v) fun _ _ => closed.pure trivial
  | .assign targets value => by
    rw [Script.execStmt]
    apply closed.bind (closed.evalExpr calls value)
    intro v holds
    exact closed.bind (closed.assignEach calls holds targets) fun _ _ => closed.pure trivial
  | .augAssign target op value => by
    rw [Script.execStmt]
    exact closed.bind (closed.updateTarget calls target op value) fun _ _ => closed.pure trivial
  | .forLoop target source body => by
    rw [Script.execStmt]
    apply closed.bind (closed.evalExpr calls source)
    intro v holds
    apply closed.bind (closed.lift (closed.lawful.iterate holds))
    intro items itemsHave
    refine closed.visitAll (fun item itemHas => ?_) itemsHave
    exact closed.bind (closed.assign calls target item itemHas) fun _ _ =>
      execBlock closed calls rounds body
  | .whileLoop condition body => by
    rw [Script.execStmt]
    refine closed.repeatWhile ?_ (execBlock closed calls rounds body) rounds
    exact closed.bind (closed.evalExpr calls condition) fun _ _ => closed.lift .any
  | .ifElse branches otherwise => by
    rw [Script.execStmt]
    apply closed.bind (execBranches closed calls rounds branches)
    intro taken holds
    cases taken with
    | some flow => exact closed.pure (holds flow rfl)
    | none => exact execBlock closed calls rounds otherwise
  | .define name params body => by
    rw [Script.execStmt]
    apply closed.bind (closed.evalDefaults calls params)
    intro params have'
    apply closed.bind (closed.quiet (R := fun _ => True) _ _ (fun _ => rfl) fun _ _ _ _ => trivial)
    intro id _
    exact closed.bind (closed.define _ _ rfl (Value.has_function.mpr have')) fun _ _ =>
      closed.pure trivial
  | .giveBack value => by
    rw [Script.execStmt]
    apply closed.bind closed.inCall
    intro called _
    split
    · apply closed.bind (closed.fail (R := fun _ => True) _)
      intro _ _
      exact closed.bind (closed.returnValue calls value) fun v holds =>
        closed.pure (R := Flow.Has T) holds
    · exact closed.bind (closed.returnValue calls value) fun v holds =>
        closed.pure (R := Flow.Has T) holds
  | .raise none => by
    rw [Script.execStmt]
    exact closed.fail _
  | .raise (some e) => by
    rw [Script.execStmt]
    exact closed.bind (closed.evalExpr calls e) fun _ _ => closed.fail _
  | .assert condition message => by
    rw [Script.execStmt]
    exact closed.bind (closed.checkAssertion calls condition message) fun _ _ => closed.pure trivial
  | .importModule name newName => by
    rw [Script.execStmt]
    exact closed.bind (closed.importModule name newName) fun _ _ => closed.pure trivial
  | .importNames owner names => by
    rw [Script.execStmt]
    exact closed.bind (closed.importNames owner names) fun _ _ => closed.pure trivial
  | .delete target => by
    rw [Script.execStmt]
    exact closed.bind (closed.deleteTarget calls target) fun _ _ => closed.pure trivial
  | .pass | .leaveLoop | .nextRound => by
    simp only [Script.execStmt]
    exact closed.pure trivial

theorem execBlock (closed : Evaluative T K) (calls : CallsHave T K call) (rounds : Nat) :
    ∀ body : List Stmt, K (Flow.Has T) (Script.execBlock call rounds body)
  | [] => by
    rw [Script.execBlock]
    exact closed.pure trivial
  | s :: rest => by
    rw [Script.execBlock]
    apply closed.bind (execStmt closed calls rounds s)
    intro flow holds
    cases flow with
    | next => exact execBlock closed calls rounds rest
    | giveBack v => exact closed.pure holds
    | leaveLoop | nextRound => exact closed.pure trivial

theorem execBranches (closed : Evaluative T K) (calls : CallsHave T K call) (rounds : Nat) :
    ∀ branches : List (Expr × List Stmt),
      K (fun taken : Option Flow => ∀ flow, taken = some flow → flow.Has T)
        (Script.execBranches call rounds branches)
  | [] => by
    rw [Script.execBranches]
    exact closed.pure fun _ given => nomatch given
  | (condition, body) :: rest => by
    rw [Script.execBranches]
    apply closed.bind (closed.evalExpr calls condition)
    intro _ _
    apply closed.bind (closed.lift .any)
    intro holds _
    split
    · refine closed.map (execBlock closed calls rounds body) fun flow holds => ?_
      rintro _ ⟨⟩
      exact holds
    · exact execBranches closed calls rounds rest

end

end Evaluative

/-! ### Properties apart from values -/

/-- A property that evaluation without calls inherits whatever values are bound. -/
structure Structural (K : ∀ {α : Type}, Eval α → Prop) : Prop where
  quiet : ∀ {α : Type} (f : Machine → Except Stop α × Machine)
    (same : ∀ m, (f m).2.scopes = m.scopes), (∀ m, (f m).2.output = m.output) →
    K (Eval.quiet f same)
  print : ∀ text, K (Machine.print text)
  printLine : ∀ text, K (Machine.printLine text)
  /-- The second computation may rely on what the first one gives. -/
  bind : ∀ {α β : Type} {x : Eval α} {f : α → Eval β}, K x →
    (∀ a, (∃ m m', x.run m = (.ok a, m')) → K (f a)) → K (x >>= f)
  bindName : ∀ name v, K (bindName name v)
  define : ∀ name v, v.nestsDeeperThan 0 = false → K (Machine.define .program name v)
  unbind : ∀ name, K (Machine.unbind name)
  storeAt : ∀ name s change, K (storeAt name s change)
  mutateBound : ∀ callee args, K (mutateBound? callee args)
  keepingNames : ∀ {α : Type} {x : Eval α} names, K x → K (keepingNames names x)

namespace Structural

variable {K : ∀ {α : Type}, Eval α → Prop}

theorem evaluative (structural : Structural K) :
    Evaluative .any fun {_} R x => K x ∧ x.Gives R where
  toSequential :=
    .of_gives structural.quiet structural.print structural.printLine structural.bind
  bindName name v _ := ⟨structural.bindName name v, Eval.gives_true⟩
  define name v flat _ := ⟨structural.define name v flat, Eval.gives_true⟩
  unbind name := ⟨structural.unbind name, Eval.gives_true⟩
  storeAt name s change _ _ := ⟨structural.storeAt name s change, Eval.gives_true⟩
  mutateBound callee args _ :=
    ⟨structural.mutateBound callee args, fun _ _ _ _ v _ => v.has_any⟩
  keepingNames names kept :=
    ⟨structural.keepingNames names kept.1, Eval.gives_true.bind fun _ _ => kept.2.endingWith⟩

end Structural

/-- Whether the step enters or leaves a frame. -/
def Step.isFrame : Step → Bool
  | .enterFrame | .leaveFrame => true
  | .define .. | .edit .. | .unbind _ => false

/-- A property of computations that all steps within a frame have, and that sequences inherit. -/
structure Flat (K : ∀ {α : Type}, Eval α → Prop) : Prop where
  quiet : ∀ {α : Type} (f : Machine → Except Stop α × Machine)
    (same : ∀ m, (f m).2.scopes = m.scopes), (∀ m, (f m).2.output = m.output) →
    K (Eval.quiet f same)
  print : ∀ text, K (Machine.print text)
  printLine : ∀ text, K (Machine.printLine text)
  perform : ∀ step : Step, step.isFrame = false → K (Machine.perform step)
  /-- The second computation may rely on what the first one gives. -/
  bind : ∀ {α β : Type} {x : Eval α} {f : α → Eval β}, K x →
    (∀ a, (∃ m m', x.run m = (.ok a, m')) → K (f a)) → K (x >>= f)
  endingWith : ∀ {α : Type} {x : Eval α} {last : Eval Unit}, K x → K last → K (x.endingWith last)

namespace Flat

variable {K : ∀ {α : Type}, Eval α → Prop} {α β : Type} (flat : Flat K)
include flat

theorem andThen {x : Eval α} {f : α → Eval β} (first : K x) (second : ∀ a, K (f a)) :
    K (x >>= f) := flat.bind first fun a _ => second a

theorem pure (a : α) : K (Pure.pure a : Eval α) := flat.quiet _ _ fun _ => rfl

theorem fail (f : Fault) : K (Script.fail f : Eval α) := flat.quiet _ _ fun _ => rfl

theorem lift (x : Except Fault α) : K (liftM x : Eval α) := by
  cases x with
  | ok a => exact flat.pure a
  | error f => exact flat.fail f

theorem withinNesting (limit : Nat) (v : Value) : K (Script.withinNesting limit v) := by
  unfold Script.withinNesting
  split
  · exact flat.fail _
  · exact flat.pure _

theorem lookup (name : String) : K (Machine.lookup name) :=
  flat.andThen (flat.quiet _ _ fun _ => rfl) fun _ => flat.pure _

theorem edit (change : ItemChange) (container : Value) (s : Subscript) :
    K (change.edit container s) := by
  cases change with
  | set v => exact flat.andThen (flat.withinNesting _ v) fun _ => flat.lift _
  | delete => exact flat.lift _

theorem storeAt (name : String) (s : Subscript) (change : ItemChange) :
    K (Script.storeAt name s change) := by
  apply flat.andThen (flat.lookup name)
  intro found
  cases found with
  | none => exact flat.fail _
  | some v => exact flat.andThen (flat.edit change v s) fun e => flat.perform _ rfl

theorem mutateBound (callee : Expr) (args : List Value) : K (mutateBound? callee args) := by
  have checks : ∀ vs : List Value, K (vs.forM (Script.withinNesting (maxValueNesting - 1))) := by
    intro vs
    induction vs with
    | nil => exact flat.pure _
    | cons v rest ih => exact flat.andThen (flat.withinNesting _ v) fun _ => ih
  have bound (name : String) : K (boundList? name) := by
    apply flat.andThen (flat.lookup name)
    intro found
    split
    · exact flat.pure _
    · exact flat.pure _
  unfold mutateBound?
  split
  · apply flat.andThen (bound _)
    intro found
    split
    · refine flat.andThen (checks args) fun _ => flat.andThen (flat.lift _) fun made => ?_
      exact flat.andThen (flat.perform _ rfl) fun _ => flat.pure _
    · exact flat.pure _
  · exact flat.pure _

theorem unbind (name : String) : K (Machine.unbind name) :=
  flat.andThen (flat.quiet _ _ fun _ => rfl) fun _ =>
    flat.andThen (flat.perform _ rfl) fun _ => flat.pure _

theorem restoreNames (saved : List (String × Option Value)) : K (Script.restoreNames saved) := by
  induction saved with
  | nil => exact flat.pure _
  | cons entry rest ih =>
    obtain ⟨name, before⟩ := entry
    cases before with
    | none => exact flat.andThen (flat.unbind name) fun _ => ih
    | some v => exact flat.andThen (flat.perform _ rfl) fun _ => ih

theorem defineAll (locals : List (String × Value)) : K (Script.defineAll locals) := by
  induction locals with
  | nil => exact flat.pure _
  | cons entry rest ih => exact flat.andThen (flat.perform _ rfl) fun _ => ih

theorem structural : Structural K where
  quiet := flat.quiet
  print := flat.print
  printLine := flat.printLine
  bind := flat.bind
  bindName _ v := flat.andThen (flat.withinNesting _ v) fun _ => flat.perform _ rfl
  define _ _ _ := flat.perform _ rfl
  unbind := flat.unbind
  storeAt := flat.storeAt
  mutateBound := flat.mutateBound
  keepingNames _ kept :=
    flat.andThen (flat.quiet _ _ fun _ => rfl) fun _ =>
      flat.endingWith kept (flat.restoreNames _)

end Flat

/-! ### Arguments of functions -/

section Parameters

variable {T : Trait} {args : List Value} {kwargs : Keywords} {params : List Parameter}

/-- What a parameter is bound to, and its default. -/
def Parameter.Has (T : Trait) (p : Parameter) : Prop := IfAny T p.bound ∧ IfAny T p.default

theorem has_bindPositional {defaults : List (String × Option Value)}
    (defaultsHave : ∀ p ∈ defaults, IfAny T p.2) (argsHave : AllHave T args) :
    ∀ p ∈ bindPositional defaults args, p.Has T := by
  induction defaults generalizing args with
  | nil =>
    rw [bindPositional]
    exact fun _ member => nomatch member
  | cons param rest ih =>
    obtain ⟨name, default⟩ := param
    obtain ⟨here, others⟩ := List.forall_mem_cons.mp defaultsHave
    cases args with
    | nil =>
      rw [bindPositional, List.forall_mem_cons]
      exact ⟨⟨fun _ given => (nomatch given), here⟩, ih others argsHave⟩
    | cons v args =>
      obtain ⟨first, argsHave⟩ := List.forall_mem_cons.mp argsHave
      rw [bindPositional, List.forall_mem_cons]
      refine ⟨⟨?_, here⟩, ih others argsHave⟩
      rintro _ ⟨⟩
      exact first

theorem has_bindKeyword {function keyword : String} {v : Value} (holds : v.Has T)
    (paramsHave : ∀ p ∈ params, p.Has T) :
    Ensures (fun bound => ∀ p ∈ bound, p.Has T) (bindKeyword function keyword v params) := by
  induction params with
  | nil => exact .error
  | cons p rest ih =>
    obtain ⟨here, others⟩ := List.forall_mem_cons.mp paramsHave
    rw [bindKeyword]
    split
    · split
      · exact .error
      · refine .ok (List.forall_mem_cons.mpr ⟨⟨?_, here.2⟩, others⟩)
        rintro _ ⟨⟩
        exact holds
    · exact .map (ih others) fun bound have' => List.forall_mem_cons.mpr ⟨here, have'⟩

theorem has_bindKeywords {function : String} (kwargsHave : kwargs.AllHave T)
    (paramsHave : ∀ p ∈ params, p.Has T) :
    Ensures (fun bound => ∀ p ∈ bound, p.Has T) (bindKeywords function kwargs params) := by
  induction kwargs generalizing params with
  | nil => exact .ok paramsHave
  | cons entry rest ih =>
    obtain ⟨here, others⟩ := List.forall_mem_cons.mp kwargsHave
    exact .bind (has_bindKeyword here paramsHave) fun bound have' => ih others have'

theorem has_localsOf {function : String} (paramsHave : ∀ p ∈ params, p.Has T) :
    Ensures (fun locals : List (String × Value) => ∀ entry ∈ locals, entry.2.Has T)
      (localsOf function params) := by
  induction params with
  | nil => exact .ok fun _ member => nomatch member
  | cons p rest ih =>
    obtain ⟨here, others⟩ := List.forall_mem_cons.mp paramsHave
    rw [localsOf]
    split
    · next v given =>
      have holds : v.Has T := by
        rw [Option.orElse_eq_orElse, Option.orElse_eq_or, Option.or_eq_some_iff] at given
        rcases given with bound | ⟨-, default⟩
        · exact here.1 v bound
        · exact here.2 v default
      exact .bind (ih others) fun locals have' => .pure (List.forall_mem_cons.mpr ⟨holds, have'⟩)
    · exact .error

theorem has_bindArguments (function : String) {defaults : List (String × Option Value)}
    (defaultsHave : ∀ p ∈ defaults, IfAny T p.2) (argsHave : AllHave T args)
    (kwargsHave : kwargs.AllHave T) :
    Ensures (fun locals : List (String × Value) => ∀ entry ∈ locals, entry.2.Has T)
      (bindArguments function defaults args kwargs) := by
  unfold bindArguments
  split
  · exact .error
  · exact .bind (has_bindKeywords kwargsHave (has_bindPositional defaultsHave argsHave))
      fun bound have' => has_localsOf have'

end Parameters

namespace Compositional

variable {T : Trait} {K : Nat → ∀ {α : Type}, (α → Prop) → Eval α → Prop}
  (closed : Compositional T K)
include closed

theorem callWithin (rounds levels : Nat) :
    CallsHave T (K levels) (Script.callWithin rounds levels) := by
  -- Only calls of functions nest, and the function's body runs with one level less.
  induction levels with
  | zero =>
    intro callee args kwargs holds argsHave kwargsHave
    have here := closed.evaluative 0
    cases callee with
    | builtin b => exact here.builtinCall b kwargs argsHave
    | method receiver name =>
      exact here.lift (here.lawful.callMethod argsHave name (Value.has_method.mp holds))
    | exceptionType kind => exact here.pure (Value.has_of_isAtomic rfl)
    | function => exact here.fail _
    | none | bool | int | float | str | list | tuple | dict | tensor | module | exception =>
      exact here.fail _
  | succ levels ih =>
    intro callee args kwargs holds argsHave kwargsHave
    have here := closed.evaluative (levels + 1)
    cases callee with
    | builtin b => exact here.builtinCall b kwargs argsHave
    | method receiver name =>
      exact here.lift (here.lawful.callMethod argsHave name (Value.has_method.mp holds))
    | exceptionType kind => exact here.pure (Value.has_of_isAtomic rfl)
    | function id name params body =>
      have bound := has_bindArguments name (Value.has_function.mp holds) argsHave
        kwargsHave
      apply here.bind (here.lift bound)
      intro locals localsHave
      have runs := (closed.evaluative levels).execBlock ih rounds body
      refine here.bind (closed.inFrame locals localsHave runs) fun flow flowHas => here.pure ?_
      cases flow with
      | giveBack v => exact flowHas
      | next | leaveLoop | nextRound => exact Value.has_of_isAtomic rfl
    | none | bool | int | float | str | list | tuple | dict | tensor | module | exception =>
      exact here.fail _

/-! ### Programs -/

variable (limits : Limits)

theorem runProgram (program : List Stmt) :
    K limits.calls (fun _ => True) (Script.runProgram limits program) := by
  have here := closed.evaluative limits.calls
  apply here.bind (here.execBlock (closed.callWithin _ _) _ program)
  intro flow _
  cases flow with
  | next | giveBack => exact here.pure trivial
  | leaveLoop | nextRound => exact here.fail _

/-- Every source that a session executes has the property. -/
theorem runSource (source : String) :
    K limits.calls (fun _ => True) (Script.runSource limits source) :=
  (closed.evaluative _).bind ((closed.evaluative _).lift .any) fun program _ =>
    closed.runProgram limits program

theorem initialValue (name source : String) :
    K limits.calls (Value.Has T) (Script.initialValue limits name source) := by
  have here := closed.evaluative limits.calls
  unfold Script.initialValue
  split
  · exact here.pure (Value.has_of_isAtomic rfl)
  · apply here.bind (here.lift .any)
    intro program _
    split
    · exact here.evalExpr (closed.callWithin _ _) _
    · exact here.fail _

end Compositional

end DocExamples.Script
