import Mathlib
import DocExamples.Proofs.Script.Compositional
/-!
The discipline of calls. Frames are entered and left in pairs, however a computation ends, and no
more of them are open at once than calls may nest. So a call leaves the frames around it as they
were, and its local names never become names of the module.
-/
namespace DocExamples.Script

/-! ### Pairs of frames -/

/-- Every frame that is entered is left again, and at most `levels` are open at once. -/
inductive Balanced : (levels : Nat) → List Step → Prop where
  | nil {levels : Nat} : Balanced levels []
  | flat {levels : Nat} {step : Step} {rest : List Step} (flat : step.isFrame = false)
    (more : Balanced levels rest) : Balanced levels (step :: rest)
  | call {levels : Nat} {inner rest : List Step} (within : Balanced levels inner)
    (more : Balanced (levels + 1) rest) :
    Balanced (levels + 1) (.enterFrame :: (inner ++ .leaveFrame :: rest))

namespace Balanced

variable {levels : Nat} {first second : List Step}

theorem append (balanced : Balanced levels first) (more : Balanced levels second) :
    Balanced levels (first ++ second) := by
  induction balanced with
  | nil => exact more
  | flat flat _ ih => exact .flat flat (ih more)
  | call within _ _ ih =>
    rw [List.cons_append, List.append_assoc, List.cons_append]
    exact .call within (ih more)

theorem single {step : Step} (flat : step.isFrame = false) : Balanced levels [step] :=
  .flat flat .nil

end Balanced

/-- What a computation does to the bindings is balanced, wherever it runs. -/
def Balances (levels : Nat) {α : Type} (x : Eval α) : Prop := ∀ m, Balanced levels (x.steps m)

namespace Balances

variable {levels : Nat} {α β : Type} {x : Eval α}

theorem bind {f : α → Eval β} (first : Balances levels x)
    (second : ∀ a, (∃ m m', x.run m = (.ok a, m')) → Balances levels (f a)) :
    Balances levels (x >>= f) := by
  intro m
  change Balanced levels (x.steps m ++ _)
  cases given : x.run m with
  | mk result m' =>
    cases result with
    | error e => exact (first m).append .nil
    | ok a => exact (first m).append (second a ⟨m, m', given⟩ m')

theorem flat (levels : Nat) : Flat (Balances levels) where
  quiet _ _ _ _ := .nil
  print _ _ := .nil
  printLine _ _ := .nil
  perform _ flat _ := .single flat
  bind := bind
  endingWith first second m := (first m).append (second _)

/-- What runs in a frame of its own counts for one more. -/
theorem inFrame (locals : List (String × Value)) (kept : Balances levels x) :
    Balances (levels + 1) (Machine.inFrame (do Script.defineAll locals; x)) := by
  intro m
  have body : Balances levels (do Script.defineAll locals; x) :=
    (flat levels).andThen ((flat levels).defineAll locals) fun _ => kept
  exact .call (body _) .nil

theorem compositional :
    Compositional .any fun levels {_} R x => Balances levels x ∧ x.Gives R where
  evaluative levels := (flat levels).structural.evaluative
  inFrame locals _ kept := ⟨inFrame locals kept.1, kept.2.inFrame locals⟩

end Balances

/-! ### Frames -/

namespace Frame

variable {α : Type}

theorem names_change (name : String) (g : α → α) (f : Frame α) :
    (f.change name g).map Prod.fst = f.map Prod.fst := by
  induction f with
  | nil => rfl
  | cons entry rest ih =>
    obtain ⟨n, v⟩ := entry
    rw [change]
    split
    · rfl
    · rw [List.map_cons, List.map_cons, ih]

end Frame

namespace Step

variable {step : Step} {s : Scopes Value}

theorem length_frames_of_flat (flat : step.isFrame = false) :
    (step.apply s).frames.length = s.frames.length := by
  obtain ⟨globals, frames⟩ := s
  cases step with
  | define origin name v => cases frames <;> rfl
  | edit name e =>
    cases frames with
    | nil => rfl
    | cons frame rest =>
      rw [apply, Scopes.change]
      split <;> rfl
  | unbind name => cases frames <;> rfl
  | enterFrame | leaveFrame => cases flat

/-- Only the innermost frame changes. -/
theorem tail_frames_of_flat (flat : step.isFrame = false) :
    (step.apply s).frames.tail = s.frames.tail := by
  obtain ⟨globals, frames⟩ := s
  cases step with
  | define origin name v => cases frames <;> rfl
  | edit name e =>
    cases frames with
    | nil => rfl
    | cons frame rest =>
      rw [apply, Scopes.change]
      split <;> rfl
  | unbind name => cases frames <;> rfl
  | enterFrame | leaveFrame => cases flat

/-- In a call, names are bound and removed in its frame only. -/
theorem names_in_call (step : Step) (inside : s.frames ≠ []) :
    (step.apply s).globals.map Prod.fst = s.globals.map Prod.fst := by
  obtain ⟨globals, frames⟩ := s
  cases frames with
  | nil => exact absurd rfl inside
  | cons frame rest =>
    cases step with
    | define | unbind | enterFrame | leaveFrame => rfl
    | edit name e =>
      rw [apply, Scopes.change]
      split
      · rfl
      · exact Frame.names_change name e.apply globals

/-- The step binds or removes a name of the module, or edits the value of a name that the current
frame does not bind. -/
def ReachesModule : Step → Scopes Value → Prop
  | .define .., s | .unbind _, s => s.frames = []
  | .edit name _, s => ∀ frame, s.frames.head? = some frame → frame.has name = false
  | .enterFrame, _ | .leaveFrame, _ => False

theorem reachesModule_of_ne (changed : (step.apply s).globals ≠ s.globals) :
    step.ReachesModule s := by
  obtain ⟨globals, frames⟩ := s
  cases step with
  | define origin name v =>
    cases frames with
    | nil => rfl
    | cons frame rest => exact absurd rfl changed
  | edit name e =>
    cases frames with
    | nil => exact fun frame none => nomatch none
    | cons frame rest =>
      rw [apply, Scopes.change] at changed
      split at changed
      · exact absurd rfl changed
      · next absent =>
        rintro _ ⟨⟩
        exact eq_false_of_ne_true absent
  | unbind name =>
    cases frames with
    | nil => rfl
    | cons frame rest => exact absurd rfl changed
  | enterFrame | leaveFrame => exact absurd rfl changed

end Step

/-- The same frames, and the same names in the module. -/
structure Scopes.Spares (s t : Scopes Value) : Prop where
  frames : t.frames = s.frames
  names : t.globals.map Prod.fst = s.globals.map Prod.fst

namespace Balanced

variable {levels : Nat} {steps : List Step}

theorem length_frames (balanced : Balanced levels steps) (s : Scopes Value) :
    (replay steps s).frames.length = s.frames.length := by
  induction balanced generalizing s with
  | nil => rfl
  | flat flat _ ih => exact (ih _).trans (Step.length_frames_of_flat flat)
  | call within _ ih₁ ih₂ =>
    rw [replay_cons, replay_append, replay_cons, ih₂]
    change (replay _ s.pushFrame).frames.tail.length = _
    rw [List.length_tail, ih₁, Scopes.frames_pushFrame, List.length_cons, Nat.add_sub_cancel]

theorem tail_frames (balanced : Balanced levels steps) (s : Scopes Value) :
    (replay steps s).frames.tail = s.frames.tail := by
  induction balanced generalizing s with
  | nil => rfl
  | flat flat _ ih => exact (ih _).trans (Step.tail_frames_of_flat flat)
  | call within _ ih₁ ih₂ =>
    rw [replay_cons, replay_append, replay_cons, ih₂]
    change (replay _ s.pushFrame).frames.tail.tail = _
    rw [ih₁, Scopes.frames_pushFrame, List.tail_cons]

/-- What runs within a call binds no names in the module. -/
theorem names_in_call (balanced : Balanced levels steps) {s : Scopes Value}
    (inside : s.frames ≠ []) :
    (replay steps s).globals.map Prod.fst = s.globals.map Prod.fst := by
  induction balanced generalizing s with
  | nil => rfl
  | @flat _ step _ flat _ ih =>
    rw [replay_cons, ih, Step.names_in_call step inside]
    exact List.ne_nil_of_length_pos (by
      rw [Step.length_frames_of_flat flat]
      exact List.length_pos_iff.mpr inside)
  | call within _ ih₁ ih₂ =>
    have left := (tail_frames within s.pushFrame).trans rfl
    rw [replay_cons, replay_append, replay_cons, ih₂]
    · exact ih₁ (List.cons_ne_nil _ _)
    · change (replay _ s.pushFrame).frames.tail ≠ []
      rw [left]
      exact inside

/-- A frame of its own keeps what runs in it apart from the frames around it. -/
theorem spares_around (balanced : Balanced levels steps) (s : Scopes Value) :
    s.Spares (replay (.enterFrame :: (steps ++ [.leaveFrame])) s) := by
  rw [replay_cons, replay_append]
  exact ⟨balanced.tail_frames s.pushFrame, balanced.names_in_call (List.cons_ne_nil _ _)⟩

end Balanced

/-! ### Calls -/

/-- A computation that leaves frames and names of the module as they are. -/
def Spares {α : Type} (x : Eval α) : Prop := ∀ m : Machine, m.scopes.Spares (x.run m).2.scopes

namespace Spares

variable {α β : Type} {x : Eval α}

theorem quiet (f : Machine → Except Stop α × Machine) (same : ∀ m, (f m).2.scopes = m.scopes) :
    Spares (Eval.quiet f same) := by
  intro m
  change m.scopes.Spares (f m).2.scopes
  rw [same]
  exact ⟨rfl, rfl⟩

theorem bind {f : α → Eval β} (first : Spares x)
    (second : ∀ a, (∃ m m', x.run m = (.ok a, m')) → Spares (f a)) : Spares (x >>= f) := by
  intro m
  have start := first m
  change m.scopes.Spares ((Eval.bind x f).run m).2.scopes
  rw [Eval.bind]
  dsimp only
  cases given : x.run m with
  | mk result m' =>
    rw [given] at start
    cases result with
    | error e => exact start
    | ok a =>
      have later := second a ⟨m, m', given⟩ m'
      exact ⟨later.frames.trans start.frames, later.names.trans start.names⟩

theorem inFrame (levels : Nat) {locals : List (String × Value)} (balances : Balances levels x) :
    Spares (Machine.inFrame (do defineAll locals; x)) := by
  intro m
  rw [(Machine.inFrame _).scopes_run m]
  have flat := Balances.flat levels
  have body : Balances levels (do defineAll locals; x) :=
    flat.andThen (flat.defineAll locals) fun _ => balances
  exact (body _).spares_around m.scopes

theorem sequential : Sequential .any fun {_} R x => Spares x ∧ x.Gives R :=
  .of_gives (fun f same _ => quiet f same) (fun _ => quiet _ _) (fun _ => quiet _ _) bind

/-- A call of a function happens in a frame of its own; other calls do not touch the bindings. -/
theorem callWithin (rounds levels : Nat) (f : Value) (args : List Value) (kwargs : Keywords) :
    Spares (Script.callWithin rounds levels f args kwargs) := by
  rw [Script.callWithin.eq_def]
  split
  · exact (sequential.builtinCall _ kwargs fun v _ => v.has_any).1
  · exact (sequential.lift (R := fun _ => True) .any).1
  · exact quiet _ _
  · next name params body =>
    split
    · exact quiet _ _
    · next levels =>
      apply bind (sequential.lift (R := fun _ => True) .any).1
      intro locals _
      refine bind (inFrame levels ?_) fun flow _ => quiet _ _
      have closed := Balances.compositional
      exact ((closed.evaluative levels).execBlock (closed.callWithin rounds levels) rounds body).1
  · exact quiet _ _

end Spares

/-! ### Records of calls -/

/-- What a machine may note of its calls. -/
structure CallRecord where
  /-- How many calls are active. -/
  depth : Nat
  /-- Whether the values of expression statements are shown. -/
  echo : Bool
  /-- What the active calls found `echo` to be, the innermost first. -/
  found : List Bool
  deriving DecidableEq, Repr

/-- The record of a machine that no call is active on. -/
def CallRecord.fresh : CallRecord := ⟨0, true, []⟩

/-- The record after a step: a call counts itself and turns the echo off, and brings both back when
it ends. -/
def Step.record : Step → CallRecord → CallRecord
  | .enterFrame, c => ⟨c.depth + 1, false, c.echo :: c.found⟩
  | .leaveFrame, c => ⟨c.depth - 1, c.found.headD c.echo, c.found.tail⟩
  | .define .., c | .edit .., c | .unbind _, c => c

def recordAfter (steps : List Step) (c : CallRecord) : CallRecord :=
  steps.foldl (fun c step => step.record c) c

@[simp]
theorem recordAfter_cons (step : Step) (steps : List Step) (c : CallRecord) :
    recordAfter (step :: steps) c = recordAfter steps (step.record c) := rfl

theorem recordAfter_append (first second : List Step) (c : CallRecord) :
    recordAfter (first ++ second) c = recordAfter second (recordAfter first c) := List.foldl_append

theorem Step.record_of_flat {step : Step} (flat : step.isFrame = false) (c : CallRecord) :
    step.record c = c := by
  cases step with
  | define | edit | unbind => rfl
  | enterFrame | leaveFrame => cases flat

theorem Step.record_leaveFrame_enterFrame (c : CallRecord) :
    Step.leaveFrame.record (Step.enterFrame.record c) = c := rfl

/-- Where `more` calls are active than before: their frames lie on the one that was innermost, and
those below it are as they were. -/
structure Nested (more : Nat) (before : Scopes Value) (c : CallRecord) (now : Scopes Value)
    (r : CallRecord) : Prop where
  frames : now.frames.length = before.frames.length + more
  below : (now.frames.drop more).tail = before.frames.tail
  depth : r.depth = c.depth + more
  echo : r.echo = (more == 0 && c.echo)

theorem prefix_append_cons {α : Type} {x : α} {front first rest : List α}
    (inside : front <+: first ++ x :: rest) :
    front <+: first ∨ ∃ after, front = first ++ x :: after ∧ after <+: rest := by
  rcases List.prefix_or_prefix_of_prefix inside (List.prefix_append first _) with
    early | ⟨after, rfl⟩
  · exact .inl early
  · rcases List.prefix_cons_iff.mp ((List.prefix_append_right_inj first).mp inside) with
      rfl | ⟨later, rfl, late⟩
    · exact .inl (by simp)
    · exact .inr ⟨later, rfl, late⟩

namespace Balanced

variable {levels : Nat} {steps : List Step}

theorem recordAfter_eq (balanced : Balanced levels steps) (c : CallRecord) :
    recordAfter steps c = c := by
  induction balanced generalizing c with
  | nil => rfl
  | flat flat _ ih => rw [recordAfter_cons, Step.record_of_flat flat, ih]
  | call _ _ ih₁ ih₂ =>
    rw [recordAfter_cons, recordAfter_append, ih₁, recordAfter_cons,
      Step.record_leaveFrame_enterFrame, ih₂]

/-- At every point, at most `levels` more calls are active than at the start. -/
theorem nested_at (balanced : Balanced levels steps) (s : Scopes Value) (c : CallRecord)
    {front : List Step} (point : front <+: steps) :
    ∃ more ≤ levels, Nested more s c (replay front s) (recordAfter front c) := by
  have start (s : Scopes Value) (c : CallRecord) : Nested 0 s c s c := ⟨rfl, rfl, rfl, rfl⟩
  induction balanced generalizing s c front with
  | nil =>
    cases List.prefix_nil.mp point
    exact ⟨0, Nat.zero_le _, start s c⟩
  | @flat _ step rest flat _ ih =>
    rcases List.prefix_cons_iff.mp point with rfl | ⟨later, rfl, inside⟩
    · exact ⟨0, Nat.zero_le _, start s c⟩
    · obtain ⟨more, within, nested⟩ := ih (step.apply s) c inside
      rw [replay_cons, recordAfter_cons, Step.record_of_flat flat]
      refine ⟨more, within, ?_, ?_, nested.depth, nested.echo⟩
      · rw [nested.frames, Step.length_frames_of_flat flat]
      · rw [nested.below, Step.tail_frames_of_flat flat]
  | @call levels inner rest within _ ih₁ ih₂ =>
    rcases List.prefix_cons_iff.mp point with rfl | ⟨later, rfl, inside⟩
    · exact ⟨0, Nat.zero_le _, start s c⟩
    rw [replay_cons, recordAfter_cons]
    rcases prefix_append_cons inside with early | ⟨after, rfl, late⟩
    · -- Within the call, one more is active than where its frame was entered.
      obtain ⟨more, within, nested⟩ := ih₁ s.pushFrame (Step.enterFrame.record c) early
      refine ⟨more + 1, Nat.succ_le_succ within, ?_, ?_, ?_, ?_⟩
      · exact nested.frames.trans (by rw [Scopes.frames_pushFrame, List.length_cons]; omega)
      · rw [← List.tail_drop]
        exact congrArg List.tail nested.below
      · exact nested.depth.trans (Nat.add_right_comm _ _ _)
      · exact nested.echo.trans (Bool.and_false _)
    · -- After the call, the frames and the record are those that it found.
      have left : (replay inner s.pushFrame).popFrame.frames = s.frames := within.tail_frames _
      obtain ⟨more, within', nested⟩ := ih₂ (replay inner s.pushFrame).popFrame c late
      rw [replay_append, recordAfter_append, within.recordAfter_eq]
      refine ⟨more, within', ?_, ?_, nested.depth, nested.echo⟩
      · exact nested.frames.trans (by rw [left])
      · exact nested.below.trans (by rw [left])

end Balanced

/-! ### The discipline -/

/-- A run that starts with the record `c` keeps to the discipline of calls. -/
structure KeepsDiscipline {α : Type} (limit : Nat) (c : CallRecord) (x : Eval α) (m : Machine) :
    Prop where
  /-- However the run ends, as many frames are left as there were. -/
  frames : (x.run m).2.scopes.frames.length = m.scopes.frames.length
  /-- The frames below the current one are unchanged. -/
  below : (x.run m).2.scopes.frames.tail = m.scopes.frames.tail
  /-- The depth and the echo are restored. -/
  record : recordAfter (x.steps m) c = c
  /-- On the way, no more calls are active than the limit allows, and the frames that were below the
  current one are in their places, unchanged. -/
  throughout : ∀ front, front <+: x.steps m → ∃ more, c.depth + more ≤ limit ∧
    Nested more m.scopes c (replay front m.scopes) (recordAfter front c)
  /-- The module changes only where no call is active, or by an edit of the value of a name that
  the current frame does not bind. -/
  module : ∀ front step, front ++ [step] <+: x.steps m →
    (step.apply (replay front m.scopes)).globals ≠ (replay front m.scopes).globals →
    step.ReachesModule (replay front m.scopes)
  /-- In a call, the names of the module stay the same. -/
  names : m.scopes.frames ≠ [] →
    (x.run m).2.scopes.globals.map Prod.fst = m.scopes.globals.map Prod.fst

theorem Balances.keepsDiscipline {α : Type} {x : Eval α} {levels : Nat}
    (balances : Balances levels x) {limit : Nat} {c : CallRecord}
    (within : c.depth + levels ≤ limit) (m : Machine) : KeepsDiscipline limit c x m where
  frames := by
    rw [x.scopes_run m]
    exact (balances m).length_frames _
  below := by
    rw [x.scopes_run m]
    exact (balances m).tail_frames _
  record := (balances m).recordAfter_eq c
  throughout front point := by
    obtain ⟨more, below, nested⟩ := (balances m).nested_at m.scopes c point
    exact ⟨more, Nat.le_trans (Nat.add_le_add_left below _) within, nested⟩
  module _ _ _ changed := Step.reachesModule_of_ne changed
  names inside := by
    rw [x.scopes_run m]
    exact (balances m).names_in_call inside

/-! ### Names of the module -/

theorem Frame.mem_names_put {name other : String} {v : Value} {f : Frame Value}
    (bound : other ∈ (f.put name v).map Prod.fst) : other ∈ f.map Prod.fst ∨ other = name := by
  induction f with
  | nil => exact .inr (List.mem_singleton.mp bound)
  | cons entry rest ih =>
    obtain ⟨n, w⟩ := entry
    rw [put] at bound
    split at bound
    · exact .inl bound
    · rcases List.mem_cons.mp bound with rfl | later
      · exact .inl List.mem_cons_self
      · exact (ih later).imp (List.mem_cons_of_mem _) id

/-- A step makes a name of the module only by binding it where no call is active. -/
theorem Step.bound_outside_calls {step : Step} {s : Scopes Value} {name : String}
    (bound : name ∈ (step.apply s).globals.map Prod.fst) :
    name ∈ s.globals.map Prod.fst ∨
      (∃ origin v, step = .define origin name v) ∧ s.frames = [] := by
  by_cases inside : s.frames = []
  · obtain ⟨globals, frames⟩ := s
    cases inside
    cases step with
    | define origin n v =>
      rcases Frame.mem_names_put bound with before | rfl
      · exact .inl before
      · exact .inr ⟨⟨origin, v, rfl⟩, rfl⟩
    | edit n e => exact .inl (Frame.names_change n e.apply globals ▸ bound)
    | unbind n =>
      obtain ⟨entry, member, rfl⟩ := List.mem_map.mp bound
      exact .inl (List.mem_map_of_mem (List.mem_filter.mp member).1)
    | enterFrame | leaveFrame => exact .inl bound
  · exact .inl (Step.names_in_call step inside ▸ bound)

theorem bound_outside_calls {steps : List Step} {s : Scopes Value} {name : String}
    (bound : name ∈ (replay steps s).globals.map Prod.fst) :
    name ∈ s.globals.map Prod.fst ∨
      ∃ front origin v, front ++ [.define origin name v] <+: steps ∧
        (replay front s).frames = [] := by
  induction steps generalizing s with
  | nil => exact .inl bound
  | cons step rest ih =>
    rcases ih bound with earlier | ⟨front, origin, v, point, outside⟩
    · rcases Step.bound_outside_calls earlier with before | ⟨⟨origin, v, rfl⟩, outside⟩
      · exact .inl before
      · exact .inr ⟨[], origin, v, ⟨rest, rfl⟩, outside⟩
    · exact .inr ⟨step :: front, origin, v, List.cons_prefix_cons.mpr ⟨rfl, point⟩, outside⟩

/-! ### Sessions -/

/-- An execution that starts where no call is active leaves no frame behind. On the way, what the
machine reads off the frames is what its record says; and the names that the module gets are those
that are bound where no call is active. -/
structure EndsOutsideCalls (limits : Limits) (source : String) (ns : Namespace) : Prop where
  frames : (ns.execute limits source).2.machine.scopes.frames = []
  record : recordAfter ((runSource limits source).steps ns.machine) .fresh = .fresh
  reads : ∀ front, front <+: (runSource limits source).steps ns.machine →
    let scopes := replay front ns.machine.scopes
    let record := recordAfter front .fresh
    record.depth = scopes.depth ∧ record.echo = !decide (0 < scopes.depth) ∧
      scopes.depth ≤ limits.calls
  names : ∀ name ∈ (ns.execute limits source).2.names,
    name ∈ ns.names ∨ ∃ front origin v,
      front ++ [.define origin name v] <+: (runSource limits source).steps ns.machine ∧
        (replay front ns.machine.scopes).frames = []

theorem mem_names_iff {ns : Namespace} {name : String} :
    name ∈ ns.names ↔ name ∈ ns.machine.scopes.globals.map Prod.fst :=
  (List.mergeSort_perm _ _).mem_iff

theorem endsOutsideCalls (limits : Limits) (source : String) {ns : Namespace}
    (outside : ns.machine.scopes.frames = []) : EndsOutsideCalls limits source ns := by
  have balances := (Balances.compositional.runSource limits source).1
  have kept : KeepsDiscipline limits.calls .fresh (runSource limits source) ns.machine :=
    balances.keepsDiscipline (Nat.le_of_eq (Nat.zero_add _)) ns.machine
  refine ⟨?_, kept.record, fun front point => ?_, fun name bound => ?_⟩
  · exact List.eq_nil_of_length_eq_zero (kept.frames.trans (by rw [outside]; rfl))
  · obtain ⟨more, within, nested⟩ := kept.throughout front point
    have depth : (replay front ns.machine.scopes).depth = more := by
      rw [Scopes.depth, nested.frames, outside, List.length_nil, Nat.zero_add]
    dsimp only
    rw [depth, nested.depth, nested.echo]
    refine ⟨Nat.zero_add more, ?_, (Nat.zero_add more ▸ within)⟩
    cases more with
    | zero => rfl
    | succ more => rfl
  · rw [mem_names_iff, scopes_execute] at bound
    rw [mem_names_iff]
    exact bound_outside_calls bound

theorem balances_bindInitial (limits : Limits) (globals : List (String × String)) :
    Balances limits.calls (bindInitial limits globals) := by
  have flat := Balances.flat limits.calls
  induction globals with
  | nil => exact flat.pure _
  | cons entry rest ih =>
    obtain ⟨name, source⟩ := entry
    refine flat.andThen (Balances.compositional.initialValue limits name source).1 fun v => ?_
    exact flat.andThen (flat.perform _ rfl) fun _ => ih

theorem frames_create {limits : Limits} {globals : List (String × String)} {directory : Directory}
    {ns : Namespace} (created : Namespace.create limits globals directory = .ok ns) :
    ns.machine.scopes.frames = [] := by
  apply List.eq_nil_of_length_eq_zero
  rw [scopes_create created]
  exact (balances_bindInitial limits globals (.start directory)).length_frames .empty

/-- Between the executions of a session, no call is active. -/
theorem frames_executeAll {limits : Limits} {ns : Namespace}
    (outside : ns.machine.scopes.frames = []) (sources : List String) :
    (ns.executeAll limits sources).machine.scopes.frames = [] := by
  induction sources generalizing ns with
  | nil => exact outside
  | cons source rest ih => exact ih (endsOutsideCalls limits source outside).frames

/-- The discipline of calls. With calls that may nest as deep as the limit leaves room for, every
statement, expression and call keeps to it; a call leaves even the current frame and the names of
the module as they are. Executions start and end where no call is active. -/
theorem call_frames (limit rounds : Nat) (c : CallRecord) (within : c.depth ≤ limit) (m : Machine) :
    let call := callWithin rounds (limit - c.depth)
    (∀ s, KeepsDiscipline limit c (execStmt call rounds s) m) ∧
    (∀ e, KeepsDiscipline limit c (evalExpr call e) m) ∧
    (∀ f args kwargs, KeepsDiscipline limit c (call f args kwargs) m ∧
      m.scopes.Spares ((call f args kwargs).run m).2.scopes) ∧
    ∀ limits globals directory ns, Namespace.create limits globals directory = .ok ns →
      ∀ sources source, EndsOutsideCalls limits source (ns.executeAll limits sources) := by
  intro call
  have closed := Balances.compositional
  have calls := closed.callWithin rounds (limit - c.depth)
  have room : c.depth + (limit - c.depth) ≤ limit := by omega
  refine ⟨fun s => ?_, fun e => ?_, fun f args kwargs => ⟨?_, ?_⟩, ?_⟩
  · exact ((closed.evaluative _).execStmt calls rounds s).1.keepsDiscipline room m
  · exact ((closed.evaluative _).evalExpr calls e).1.keepsDiscipline room m
  · refine Balances.keepsDiscipline (calls f args kwargs f.has_any ?_ ?_).1 room m
    · exact fun v _ => v.has_any
    · exact fun entry _ => entry.2.has_any
  · exact Spares.callWithin rounds _ f args kwargs m
  · intro limits globals directory ns created sources source
    exact endsOutsideCalls limits source (frames_executeAll (frames_create created) sources)

/-- A function that fails in the call of another one. -/
def failingInner : Value :=
  .function 0 "f" [("g", some (.function 1 "g" [] [.raise none]))]
    [.define "x" [] [], .expr (.call (.name "g") [] [])]

/-- A call within two others that raises an error two frames deeper. -/
theorem call_frames_failing :
    let m : Machine := { Machine.start .empty with
      scopes := ⟨[("x", .int 1)], [[("y", .int 2)], [("z", .int 3)]]⟩ }
    let call : Eval Value := callWithin 5 (4 - 2) failingInner [] []
    2 ≤ 4 ∧ (call.run m).1 = .error (.fault .nothingToReraise) ∧
      KeepsDiscipline 4 ⟨2, false, [false, true]⟩ call m ∧
      m.scopes.Spares (call.run m).2.scopes := by
  have disciplined := (call_frames 4 5 ⟨2, false, [false, true]⟩ (by decide)
    { Machine.start .empty with
      scopes := ⟨[("x", .int 1)], [[("y", .int 2)], [("z", .int 3)]]⟩ }).2.2.1 failingInner [] []
  exact ⟨by decide, by cbv, disciplined⟩

end DocExamples.Script
