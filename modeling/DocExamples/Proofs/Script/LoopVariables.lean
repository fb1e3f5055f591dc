import DocExamples.Proofs.Script.Brackets
import DocExamples.Proofs.Script.Runs
import DocExamples.Proofs.Script.Scoping
/-!
What list comprehensions do to the bindings. The names of the target are saved, wherever they are
bound, and given back to the innermost scope. At the level of the module this leaves the bindings
as they were. In a call, a name that only the module binds becomes a local name of that call.
-/
namespace DocExamples.Script

/-! ### Targets that consist of names -/

mutual

def Target.isPlain : Target → Bool
  | .name _ => true
  | .index .. => false
  | .unpack targets => Target.allPlain targets

def Target.allPlain : List Target → Bool
  | [] => true
  | t :: rest => t.isPlain && Target.allPlain rest

end

namespace Grammar

variable {atom : Parse Target} {c c' : Cursor}

theorem allPlain_of_targetTail
    (plain : ∀ c t c', atom c = .ok (t, c') → t.isPlain = true) {fuel : Nat} {ts : List Target}
    (read : targetTail atom fuel c = .ok (ts, c')) : Target.allPlain ts = true := by
  induction fuel generalizing c ts with
  | zero =>
    cases read
    rfl
  | succ fuel ih =>
    obtain ⟨more, _, -, read⟩ := ReadsFrom.parse_bind_eq_ok.mp read
    split at read
    · cases read
      rfl
    · obtain ⟨next, _, -, read⟩ := ReadsFrom.parse_bind_eq_ok.mp read
      split at read
      · cases read
        rfl
      · obtain ⟨t, _, first, read⟩ := ReadsFrom.parse_bind_eq_ok.mp read
        obtain ⟨others, _, later, read⟩ := ReadsFrom.parse_bind_eq_ok.mp read
        cases read
        rw [Target.allPlain, plain _ _ _ first, ih later]
        rfl

theorem isPlain_of_targetListOf
    (plain : ∀ c t c', atom c = .ok (t, c') → t.isPlain = true) {t : Target}
    (read : targetListOf atom c = .ok (t, c')) : t.isPlain = true := by
  obtain ⟨head, _, first, read⟩ := ReadsFrom.parse_bind_eq_ok.mp read
  obtain ⟨comma, _, -, read⟩ := ReadsFrom.parse_bind_eq_ok.mp read
  split at read
  · cases read
    exact plain _ _ _ first
  · obtain ⟨left, _, -, read⟩ := ReadsFrom.parse_bind_eq_ok.mp read
    obtain ⟨tail, _, others, read⟩ := ReadsFrom.parse_bind_eq_ok.mp read
    cases read
    rw [Target.isPlain, Target.allPlain, plain _ _ _ first, allPlain_of_targetTail plain others]
    rfl

theorem isPlain_of_targetAtom {budget : Nat} {t : Target}
    (read : targetAtom budget c = .ok (t, c')) : t.isPlain = true := by
  induction budget generalizing c t c' with
  | zero =>
    obtain ⟨paren, _, -, read⟩ := ReadsFrom.parse_bind_eq_ok.mp read
    split at read
    · cases read
    · obtain ⟨name, _, -, read⟩ := ReadsFrom.parse_bind_eq_ok.mp read
      cases read
      rfl
  | succ budget ih =>
    obtain ⟨paren, _, -, read⟩ := ReadsFrom.parse_bind_eq_ok.mp read
    split at read
    · obtain ⟨inner, _, inside, read⟩ := ReadsFrom.parse_bind_eq_ok.mp read
      obtain ⟨_, _, -, read⟩ := ReadsFrom.parse_bind_eq_ok.mp read
      cases read
      exact isPlain_of_targetListOf (fun _ _ _ => ih) inside
    · obtain ⟨name, _, -, read⟩ := ReadsFrom.parse_bind_eq_ok.mp read
      cases read
      rfl

/-- The targets of the comprehensions that programs contain consist of names. -/
theorem isPlain_of_comprehensionTail {below : Below} {budget : Nat} {element e : Expr}
    (read : comprehensionTail below budget element c = .ok (e, c')) :
    ∃ target source condition, e = .listComp element target source condition ∧
      target.isPlain = true := by
  obtain ⟨target, _, targets, read⟩ := ReadsFrom.parse_bind_eq_ok.mp read
  obtain ⟨_, _, -, read⟩ := ReadsFrom.parse_bind_eq_ok.mp read
  obtain ⟨source, _, -, read⟩ := ReadsFrom.parse_bind_eq_ok.mp read
  obtain ⟨guarded, _, -, read⟩ := ReadsFrom.parse_bind_eq_ok.mp read
  have plain : target.isPlain = true :=
    isPlain_of_targetListOf (fun _ _ _ => isPlain_of_targetAtom) targets
  have shape {condition : Option Expr} {c₁ : Cursor}
      (read : (do
        Parse.consume .rightBracket "`]`"
        return Expr.listComp element target source condition : Parse Expr) c₁ = .ok (e, c')) :
      e = .listComp element target source condition := by
    obtain ⟨_, _, -, read⟩ := ReadsFrom.parse_bind_eq_ok.mp read
    cases read
    rfl
  split at read
  · obtain ⟨condition, _, -, read⟩ := ReadsFrom.parse_bind_eq_ok.mp read
    exact ⟨target, source, condition, shape read, plain⟩
  · obtain ⟨condition, _, -, read⟩ := ReadsFrom.parse_bind_eq_ok.mp read
    exact ⟨target, source, condition, shape read, plain⟩

end Grammar

/-! ### Runs that keep the bindings -/

section Runs

variable {α β : Type} {x : Eval α} {f : α → Eval β} {m : Machine} {P Q : Scopes Value → Prop}
  {s : Scopes Value} {names : List String}

/-- A run of `x` ends with bindings that have a property and, if it has a value, as `next` says. -/
def Ends (x : Eval α) (m : Machine) (P : Scopes Value → Prop) (next : α → Machine → Prop) : Prop :=
  P (x.run m).2.scopes ∧ ∀ a m', x.run m = (.ok a, m') → next a m'

/-- A run of `x` leaves the bindings as it meets them. -/
abbrev KeepsThen (x : Eval α) (m : Machine) (next : α → Machine → Prop) : Prop :=
  Ends x m (fun s => s.Same m.scopes) next

theorem Ends.bind {next : β → Machine → Prop}
    (parts : Ends x m P fun a m' => Ends (f a) m' P next) : Ends (x >>= f) m P next := by
  obtain ⟨first, later⟩ := parts
  change Ends (Eval.bind x f) m P next
  unfold Ends Eval.bind
  dsimp only
  rcases given : x.run m with ⟨e | a, m'⟩
  · rw [given] at first
    exact ⟨first, fun b m'' ended => nomatch ended⟩
  · exact later a m' given

theorem Ends.mono {next after : α → Machine → Prop} (ends : Ends x m P next)
    (weaker : ∀ s, P s → Q s) (onward : ∀ a m', Q m'.scopes → next a m' → after a m') :
    Ends x m Q after := by
  refine ⟨weaker _ ends.1, fun a m' given => onward a m' ?_ (ends.2 a m' given)⟩
  have here := weaker _ ends.1
  rwa [given] at here

theorem ends_pure {next : α → Machine → Prop} {a : α} (here : P m.scopes) (onward : next a m) :
    Ends (pure a) m P next := by
  refine ⟨here, fun a' m' given => ?_⟩
  cases given
  exact onward

/-- What keeps the bindings keeps those that agree with `s` in such agreement. -/
theorem Ends.sameBut {next after : α → Machine → Prop} (keeps : KeepsThen x m next)
    (before : s.SameBut names m.scopes)
    (onward : ∀ a m', s.SameBut names m'.scopes → next a m' → after a m') :
    Ends x m (s.SameBut names) after :=
  keeps.mono (fun _ same => before.trans (same.symm.sameBut names)) onward

theorem keepsThen_lift (e : Except Fault α) (m : Machine) :
    KeepsThen (liftM e : Eval α) m fun a m' => e = .ok a ∧ m = m' := by
  refine ⟨?_, fun a m' given => run_lift_eq_ok.mp given⟩
  cases e <;> exact Scopes.Same.refl m.scopes

theorem keepsThen_withinNesting (limit : Nat) (v : Value) (m : Machine) :
    KeepsThen (withinNesting limit v) m fun _ _ => True := by
  refine ⟨?_, fun _ _ _ => trivial⟩
  unfold withinNesting
  split <;> exact Scopes.Same.refl m.scopes

theorem ends_define {next : Unit → Machine → Prop} {origin : Origin} {name : String} {v : Value}
    (holds : P (m.scopes.define name v))
    (onward : next () { m with scopes := m.scopes.define name v }) :
    Ends (Machine.define origin name v) m P next := by
  refine ⟨holds, fun _ m' given => ?_⟩
  cases given
  exact onward

end Runs

/-! ### Rounds -/

section Rounds

variable {call : Caller} {element : Expr} {target : Target} {condition : Option Expr}

mutual

/-- An assignment to a target of names binds no other names. -/
theorem ends_assign (v : Value) (m : Machine) :
    ∀ target : Target, target.isPlain = true →
      Ends (assign call target v) m (m.scopes.SameBut target.names) fun _ _ => True
  | .name name, _ => by
    rw [assign, Target.names]
    apply Ends.bind
    apply (keepsThen_withinNesting _ v m).sameBut (.refl _ _)
    intro _ m' kept _
    exact ends_define (kept.trans (Scopes.sameBut_define name v m'.scopes)) trivial
  | .index .., plain => by cases plain
  | .unpack targets, plain => by
    rw [Target.isPlain] at plain
    rw [assign, Target.names]
    apply Ends.bind
    apply (keepsThen_lift _ m).sameBut (.refl _ _)
    intro items m' kept _
    exact (ends_assignAll targets items m' plain).mono (fun _ => kept.trans) fun _ _ _ _ => trivial

theorem ends_assignAll :
    ∀ (targets : List Target) (items : List Value) (m : Machine), Target.allPlain targets = true →
      Ends (assignAll call targets items) m (m.scopes.SameBut (Target.allNames targets))
        fun _ _ => True
  | [], _, m, _ => by
    simp only [assignAll]
    exact ends_pure (.refl _ _) trivial
  | _ :: _, [], m, _ => by
    simp only [assignAll]
    exact ends_pure (.refl _ _) trivial
  | target :: targets, v :: rest, m, plain => by
    rw [Target.allPlain, Bool.and_eq_true] at plain
    have front := List.subset_append_left target.names (Target.allNames targets)
    have back := List.subset_append_right target.names (Target.allNames targets)
    rw [assignAll, Target.allNames]
    apply Ends.bind
    apply (ends_assign v m target plain.1).mono fun _ same => same.mono front
    intro _ m' kept _
    apply (ends_assignAll targets rest m' plain.2).mono
    · intro s same
      exact kept.trans (same.mono back)
    · intros
      trivial

end

/-- In the rounds that are reached, neither the condition nor the element changes a binding. -/
def RoundsKeep (call : Caller) (element : Expr) (target : Target) (condition : Option Expr) :
    List Value → Machine → Prop
  | [], _ => True
  | item :: rest, m => ∀ m₁, (assign call target item).run m = (.ok (), m₁) →
      KeepsThen (evalCondition call condition) m₁ fun holds m₂ =>
        if holds then
          KeepsThen (evalExpr call element) m₂ fun _ m₃ =>
            RoundsKeep call element target condition rest m₃
        else RoundsKeep call element target condition rest m₂

/-- What a comprehension does with one item. -/
def visitItem (call : Caller) (element : Expr) (target : Target) (condition : Option Expr)
    (item : Value) : Eval (Option Value) := do
  assign call target item
  if ← evalCondition call condition then return some (← evalExpr call element)
  else return none

variable {items : List Value} {m : Machine} {s : Scopes Value}

theorem ends_visitItem (plain : target.isPlain = true) {item : Value}
    (keeps : RoundsKeep call element target condition (item :: items) m)
    (before : s.SameBut target.names m.scopes) :
    Ends (visitItem call element target condition item) m (s.SameBut target.names) fun _ m' =>
      s.SameBut target.names m'.scopes ∧ RoundsKeep call element target condition items m' := by
  have assigned : Ends (assign call target item) m (m.scopes.SameBut target.names) fun _ _ => True :=
    ends_assign item m target plain
  apply Ends.bind
  refine ⟨before.trans assigned.1, fun _ m₁ given => ?_⟩
  have kept : s.SameBut target.names m₁.scopes := by
    have after := before.trans assigned.1
    rwa [given] at after
  apply Ends.bind
  apply (keeps m₁ given).sameBut kept
  intro holds m₂ kept onward
  cases holds with
  | false => exact ends_pure kept ⟨kept, onward⟩
  | true =>
    apply Ends.bind
    apply Ends.sameBut onward kept
    intro v m₃ kept onward
    exact ends_pure kept ⟨kept, onward⟩

/-- The rounds of a comprehension bind no names but those of the target. -/
theorem ends_collectFor (plain : target.isPlain = true)
    (keeps : RoundsKeep call element target condition items m)
    (before : s.SameBut target.names m.scopes) (found : Array Value) :
    Ends (collectFor (visitItem call element target condition) found items) m
      (s.SameBut target.names) fun _ _ => True := by
  induction items generalizing m found with
  | nil => exact ends_pure before trivial
  | cons item rest ih =>
    rw [collectFor]
    apply Ends.bind
    apply (ends_visitItem plain keeps before).mono fun _ same => same
    rintro result m' - ⟨kept, onward⟩
    cases result with
    | none => exact ih onward kept found
    | some v => exact ih onward kept (found.push v)

end Rounds

/-! ### Names that are given back -/

section Restoring

variable {α : Type} {m : Machine} {names : List String}

theorem run_restoreNames (denoted : String → Option Value) (names : List String) (m : Machine) :
    ∃ s, (restoreNames (names.map fun name => (name, denoted name))).run m =
        (.ok (), { m with scopes := s }) ∧
      s.outer = m.scopes.outer ∧
      ∀ name, s.innermost.get? name =
        if name ∈ names then denoted name else m.scopes.innermost.get? name := by
  induction names generalizing m with
  | nil => exact ⟨m.scopes, rfl, rfl, fun name => (if_neg List.not_mem_nil).symm⟩
  | cons first rest ih =>
    -- One name is given back; the others follow, and may give it back once more.
    have later (t : Scopes Value) (same : t.outer = m.scopes.outer)
        (given : t.innermost.get? first = denoted first)
        (others : ∀ name, name ≠ first → t.innermost.get? name = m.scopes.innermost.get? name) :
        ∃ s, (restoreNames (rest.map fun name => (name, denoted name))).run
            { m with scopes := t } = (.ok (), { m with scopes := s }) ∧
          s.outer = m.scopes.outer ∧
          ∀ name, s.innermost.get? name =
            if name ∈ first :: rest then denoted name else m.scopes.innermost.get? name := by
      obtain ⟨s, ran, around, inner⟩ := ih { m with scopes := t }
      refine ⟨s, ran, around.trans same, fun name => ?_⟩
      rw [inner]
      by_cases inRest : name ∈ rest
      · rw [if_pos inRest, if_pos (List.mem_cons_of_mem _ inRest)]
      · rw [if_neg inRest]
        by_cases isFirst : name = first
        · subst isFirst
          rw [if_pos List.mem_cons_self]
          exact given
        · have outside : name ∉ first :: rest := by simp [isFirst, inRest]
          rw [if_neg outside]
          exact others name isFirst
    rw [List.map_cons]
    cases before : denoted first with
    | some v =>
      rw [restoreNames]
      apply later (m.scopes.define first v) (Scopes.outer_define _ _ _)
      · rw [Scopes.innermost_define, Frame.get?_put, before]
      · intro name apart
        rw [Scopes.innermost_define, Frame.get?_put_other apart]
    | none =>
      rw [restoreNames]
      apply later (m.scopes.remove first).2 (Scopes.outer_remove _ _)
      · rw [Scopes.innermost_remove, Frame.get?_erase, before]
      · intro name apart
        rw [Scopes.innermost_remove, Frame.get?_erase_other apart]

/-- What a computation binds of the names goes away, and the innermost scope takes over what they
denoted before. -/
theorem adopted_keepingNames {x : Eval α} (kept : m.scopes.SameBut names (x.run m).2.scopes) :
    m.scopes.Adopted names ((keepingNames names x).run m).2.scopes := by
  obtain ⟨s, ran, around, inner⟩ := run_restoreNames m.scopes.lookup names (x.run m).2
  have after : ((keepingNames names x).run m).2.scopes = s := by
    change (Eval.run (x.endingWith _) m).2.scopes = s
    rw [Eval.endingWith]
    dsimp only
    rw [ran]
  rw [after]
  refine ⟨fun name => ?_, around ▸ kept.outer⟩
  rw [inner]
  by_cases member : name ∈ names
  · rw [if_pos member, if_pos member]
  · rw [if_neg member, if_neg member, kept.innermost name member]

end Restoring

/-! ### Comprehensions -/

section Comprehensions

variable {call : Caller} {element : Expr} {target : Target} {source : Expr}
  {condition : Option Expr} {m : Machine}

/-- What a comprehension iterates over has items. -/
def HasItems (call : Caller) (source : Expr) (m : Machine) : Prop :=
  ∃ v m₁ items, (evalExpr call source).run m = (.ok v, m₁) ∧ v.iterate = .ok items

/-- As far as a comprehension evaluates its parts, none of them changes a binding. -/
def PartsKeep (call : Caller) (element : Expr) (target : Target) (source : Expr)
    (condition : Option Expr) (m : Machine) : Prop :=
  KeepsThen (evalExpr call source) m fun v m₁ =>
    ∀ items, v.iterate = .ok items → RoundsKeep call element target condition items m₁

theorem evalExpr_listComp :
    evalExpr call (.listComp element target source condition) = (do
      let items ← (← evalExpr call source).iterate
      .list <$> keepingNames target.names
        (collectFor (visitItem call element target condition) #[] items)) := by
  rw [evalExpr]
  rfl

theorem run_map {α β : Type} (f : α → β) (x : Eval α) (m : Machine) :
    ((f <$> x).run m).2 = (x.run m).2 := by
  change ((Eval.bind x fun a => pure (f a)).run m).2 = _
  rw [Eval.bind]
  dsimp only
  rcases x.run m with ⟨e | a, m'⟩ <;> rfl

theorem adopted_listComp (plain : target.isPlain = true)
    (keeps : PartsKeep call element target source condition m) (items : HasItems call source m) :
    m.scopes.Adopted target.names
      ((evalExpr call (.listComp element target source condition)).run m).2.scopes := by
  obtain ⟨v, m₁, items, given, found⟩ := items
  have same : m₁.scopes.Same m.scopes := by
    have after := keeps.1
    rwa [given] at after
  have rounds := ends_collectFor plain (keeps.2 v m₁ given items found) (.refl _ m₁.scopes) #[]
  have iterated : (liftM v.iterate : Eval (List Value)).run m₁ = (.ok items, m₁) :=
    run_lift_eq_ok.mpr ⟨found, rfl⟩
  rw [evalExpr_listComp, run_bind_of_ok given, run_bind_of_ok iterated, run_map]
  exact (adopted_keepingNames rounds.1).of_same same.symm

theorem same_listComp_of_no_items (keeps : PartsKeep call element target source condition m)
    (none : ¬ HasItems call source m) :
    ((evalExpr call (.listComp element target source condition)).run m).2.scopes.Same
      m.scopes := by
  have parts : Ends (evalExpr call (.listComp element target source condition)) m
      (fun s => s.Same m.scopes) fun _ _ => True := by
    rw [evalExpr_listComp]
    apply Ends.bind
    refine ⟨keeps.1, fun v m₁ given => Ends.bind ⟨?_, fun items m₂ iterated => ?_⟩⟩
    · have same := keeps.1
      rw [given] at same
      cases v.iterate <;> exact same
    · exact absurd ⟨v, m₁, items, given, (run_lift_eq_ok.mp iterated).1⟩ none
  exact parts.1

/-- The bindings after a comprehension that evaluates parts which change none. Whether it succeeds
or fails, they are those before, save that the innermost scope takes over what the loop variables
denoted; so they are the same unless a loop variable is a name of the module that the innermost
call does not bind. -/
theorem bindings_after_listComp (call : Caller) (element : Expr) (target : Target)
    (source : Expr) (condition : Option Expr) (m : Machine) (plain : target.isPlain = true)
    (keeps : PartsKeep call element target source condition m) :
    let after := ((evalExpr call (.listComp element target source condition)).run m).2.scopes
    (HasItems call source m → m.scopes.Adopted target.names after) ∧
      (¬ HasItems call source m → after.Same m.scopes) ∧
      (after.Same m.scopes ↔ (HasItems call source m → ∀ name ∈ target.names,
        m.scopes.innermost.get? name = none → m.scopes.lookup name = none)) ∧
      (m.scopes.frames = [] → after.Same m.scopes) := by
  intro after
  have adopted (items : HasItems call source m) : m.scopes.Adopted target.names after :=
    adopted_listComp plain keeps items
  have same (none : ¬ HasItems call source m) : after.Same m.scopes :=
    same_listComp_of_no_items keeps none
  have sameIff : after.Same m.scopes ↔ (HasItems call source m → ∀ name ∈ target.names,
      m.scopes.innermost.get? name = none → m.scopes.lookup name = none) := by
    by_cases items : HasItems call source m
    · rw [(adopted items).same_iff]
      exact ⟨fun given _ => given, fun given => given items⟩
    · exact iff_of_true (same items) fun given => absurd given items
  refine ⟨adopted, same, sameIff, fun outside => sameIff.mpr fun _ name _ absent => ?_⟩
  rwa [Scopes.lookup_of_frames_nil outside]

end Comprehensions

/-- The state in a call with these bindings, where the module binds `xs`. -/
def callState (locals : Frame Value) : Machine :=
  { Machine.start .empty with scopes := ⟨[("xs", .list #[.int 1])], [locals]⟩ }

theorem partsKeep_negation :
    PartsKeep Limits.defaults.caller (.unary .neg (.name "x")) (.name "x") (.str "ab") none
      (callState [("x", .int 2)]) := by
  rw [PartsKeep, evalExpr]
  apply ends_pure (.refl _)
  intro items found
  cases found
  change RoundsKeep _ _ _ _ [.str "a", .str "b"] _
  intro m₁ assigned
  rw [assign] at assigned
  cases assigned
  rw [evalCondition]
  apply ends_pure (.refl _)
  rw [if_pos rfl, evalExpr, evalExpr]
  refine ⟨.refl _, fun _ _ given => ?_⟩
  cases given

/-- `[-x for x in "ab"]` fails in its first round, and the call still binds `x` as before. -/
theorem bindings_after_failing_listComp :
    PartsKeep Limits.defaults.caller (.unary .neg (.name "x")) (.name "x") (.str "ab") none
        (callState [("x", .int 2)]) ∧
      ((evalExpr Limits.defaults.caller
        (.listComp (.unary .neg (.name "x")) (.name "x") (.str "ab") none)).run
        (callState [("x", .int 2)])).2.scopes.Same (callState [("x", .int 2)]).scopes := by
  have keeps := partsKeep_negation
  refine ⟨keeps, ?_⟩
  apply (bindings_after_listComp _ _ _ _ _ _ rfl keeps).2.2.1.mpr
  intro _ name member absent
  cases List.mem_singleton.mp member
  cases absent

/-! ### A loop variable that hides a name of the module -/

/-- `[0 for xs in [5]]` -/
def hidingListComp : Expr := .listComp (.int 0) (.name "xs") (.list [.int 5]) none

/-- `xs.append(2)` -/
def appendToXs : Expr := .call (.attr (.name "xs") "append") [.int 2] []

theorem partsKeep_hidingListComp :
    PartsKeep Limits.defaults.caller (.int 0) (.name "xs") (.list [.int 5]) none
      (callState []) := by
  rw [PartsKeep, evalExpr, evalAll, evalAll, evalExpr]
  apply ends_pure (.refl _)
  intro items found
  cases found
  change RoundsKeep _ _ _ _ [.int 5] _
  intro m₁ assigned
  rw [assign] at assigned
  cases assigned
  rw [evalCondition]
  apply ends_pure (.refl _)
  rw [if_pos rfl, evalExpr]
  exact ends_pure (.refl _) trivial

theorem run_hidingListComp :
    (evalExpr Limits.defaults.caller hidingListComp).run (callState []) =
      (.ok (.list #[.int 0]), callState [("xs", .list #[.int 1])]) := by
  have visits : visitItem Limits.defaults.caller (.int 0) (.name "xs") none = fun item => do
      bindName "xs" item
      if ← pure true then return some (← pure (.int 0)) else return none := by
    funext item
    rw [visitItem, assign, evalCondition, evalExpr]
  rw [hidingListComp, evalExpr_listComp, visits, evalExpr, evalAll, evalAll, evalExpr]
  rfl

/-- A comprehension in a call makes a local name of a name of the module, although its parts change
no binding. Without the comprehension, `append` reaches the list of the module; after it, it does
not. -/
theorem loop_variable_becomes_local :
    PartsKeep Limits.defaults.caller (.int 0) (.name "xs") (.list [.int 5]) none (callState []) ∧
      ¬ ((evalExpr Limits.defaults.caller hidingListComp).run (callState [])).2.scopes.Same
        (callState []).scopes ∧
      ((evalExpr Limits.defaults.caller appendToXs).run
        (callState [])).2.scopes.globals.get? "xs" = some (.list #[.int 1, .int 2]) ∧
      ((do
        let _ ← evalExpr Limits.defaults.caller hidingListComp
        evalExpr Limits.defaults.caller appendToXs).run
        (callState [])).2.scopes.globals.get? "xs" = some (.list #[.int 1]) := by
  refine ⟨partsKeep_hidingListComp, ?_, ?_, ?_⟩
  · rw [run_hidingListComp]
    intro same
    cases same.frames with
    | cons inner _ => cases inner "xs"
  · rw [appendToXs]
    simp only [evalExpr, evalAll, evalKeywords]
    rfl
  · rw [run_bind_of_ok run_hidingListComp, appendToXs]
    simp only [evalExpr, evalAll, evalKeywords]
    rfl

end DocExamples.Script
