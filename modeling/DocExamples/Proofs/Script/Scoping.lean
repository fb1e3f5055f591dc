import DocExamples.Proofs.Script.Bindings
import Mathlib.Data.List.Forall2
/-!
When scopes hold the same bindings. The innermost scope, in which names are bound, is told apart
from the scopes around it: the module and the frames of the calls that wait.
-/
namespace DocExamples.Script

variable {α : Type}

namespace Frame

/-- The same names with the same values. -/
def Same (f g : Frame α) : Prop := ∀ name, f.get? name = g.get? name

theorem Same.refl (f : Frame α) : f.Same f := fun _ => rfl

theorem get?_put_other {name other : String} (apart : other ≠ name) (f : Frame α) (v : α) :
    (f.put name v).get? other = f.get? other := by
  induction f with
  | nil => simp [put, get?, apart]
  | cons entry rest ih =>
    obtain ⟨n, w⟩ := entry
    rw [put]
    by_cases same : n = name
    · subst same
      simp [get?, List.lookup_cons, beq_false_of_ne apart]
    · rw [if_neg same, get?, get?, List.lookup_cons, List.lookup_cons]
      have ih : List.lookup other (put name v rest) = List.lookup other rest := ih
      rw [ih]

theorem erase_cons (name : String) (entry : String × α) (rest : Frame α) :
    erase name (entry :: rest) =
      if entry.1 = name then rest.erase name else entry :: rest.erase name := by
  by_cases same : entry.1 = name <;> simp [erase, same]

theorem get?_erase (name : String) (f : Frame α) : (f.erase name).get? name = none := by
  induction f with
  | nil => rfl
  | cons entry rest ih =>
    rw [erase_cons]
    by_cases same : entry.1 = name
    · rw [if_pos same]
      exact ih
    · rw [if_neg same, get?, List.lookup_cons, beq_false_of_ne (Ne.symm same)]
      exact ih

theorem get?_erase_other {name other : String} (apart : other ≠ name) (f : Frame α) :
    (f.erase name).get? other = f.get? other := by
  induction f with
  | nil => rfl
  | cons entry rest ih =>
    have ih : List.lookup other (erase name rest) = List.lookup other rest := ih
    obtain ⟨n, w⟩ := entry
    rw [erase_cons]
    by_cases same : n = name
    · subst same
      rw [if_pos rfl, get?, get?, ih, List.lookup_cons, beq_false_of_ne apart]
    · rw [if_neg same, get?, get?, List.lookup_cons, List.lookup_cons, ih]

end Frame

namespace Scopes

/-- Where names are bound: the frame of the innermost call, or else the module. -/
def innermost (s : Scopes α) : Frame α := s.frames.headD s.globals

/-- The scopes around the innermost one: the module and the frames of the calls that wait. -/
def outer (s : Scopes α) : List (Frame α) :=
  match s.frames with
  | [] => []
  | _ :: rest => s.globals :: rest

theorem lookup_eq (s : Scopes α) (name : String) :
    s.lookup name = (s.innermost.get? name).or (s.outer.head?.bind (·.get? name)) := by
  obtain ⟨globals, frames⟩ := s
  cases frames with
  | nil => exact (Option.or_none (o := globals.get? name)).symm
  | cons frame rest => cases here : frame.get? name <;> simp [lookup, innermost, outer, here]

@[simp]
theorem innermost_define (s : Scopes α) (name : String) (v : α) :
    (s.define name v).innermost = s.innermost.put name v := by
  obtain ⟨globals, frames⟩ := s
  cases frames <;> rfl

@[simp]
theorem outer_define (s : Scopes α) (name : String) (v : α) :
    (s.define name v).outer = s.outer := by
  obtain ⟨globals, frames⟩ := s
  cases frames <;> rfl

@[simp]
theorem innermost_remove (s : Scopes α) (name : String) :
    (s.remove name).2.innermost = s.innermost.erase name := by
  obtain ⟨globals, frames⟩ := s
  cases frames <;> rfl

@[simp]
theorem outer_remove (s : Scopes α) (name : String) : (s.remove name).2.outer = s.outer := by
  obtain ⟨globals, frames⟩ := s
  cases frames <;> rfl

/-- The same bindings in the module and in every call. -/
structure Same (s t : Scopes α) : Prop where
  globals : s.globals.Same t.globals
  frames : List.Forall₂ Frame.Same s.frames t.frames

/-- The same bindings, apart from those of `names` in the innermost scope. -/
structure SameBut (names : List String) (s t : Scopes α) : Prop where
  innermost : ∀ name, name ∉ names → s.innermost.get? name = t.innermost.get? name
  outer : List.Forall₂ Frame.Same s.outer t.outer

variable {s t u : Scopes α} {names more : List String}

theorem forall₂_same_refl (fs : List (Frame α)) : List.Forall₂ Frame.Same fs fs :=
  List.forall₂_same.mpr fun f _ => Frame.Same.refl f

theorem Same.refl (s : Scopes α) : s.Same s := ⟨Frame.Same.refl _, forall₂_same_refl _⟩

theorem SameBut.refl (names : List String) (s : Scopes α) : SameBut names s s :=
  ⟨fun _ _ => rfl, forall₂_same_refl _⟩

theorem forall₂_same_trans {fs gs hs : List (Frame α)} (first : List.Forall₂ Frame.Same fs gs)
    (second : List.Forall₂ Frame.Same gs hs) : List.Forall₂ Frame.Same fs hs := by
  induction first generalizing hs with
  | nil => exact second
  | cons same _ ih =>
    cases second with
    | cons same' later => exact .cons (fun name => (same name).trans (same' name)) (ih later)

theorem SameBut.trans (first : SameBut names s t) (second : SameBut names t u) :
    SameBut names s u where
  innermost name other := (first.innermost name other).trans (second.innermost name other)
  outer := forall₂_same_trans first.outer second.outer

theorem SameBut.mono (same : SameBut names s t) (within : names ⊆ more) : SameBut more s t :=
  ⟨fun name other => same.innermost name fun member => other (within member), same.outer⟩

theorem sameBut_define (name : String) (v : α) (s : Scopes α) :
    SameBut [name] s (s.define name v) where
  innermost other apart := by
    rw [innermost_define, Frame.get?_put_other (List.ne_of_not_mem_cons apart)]
  outer := by
    rw [outer_define]
    exact forall₂_same_refl _

theorem sameBut_nil : SameBut [] s t ↔ s.Same t := by
  obtain ⟨globals, frames⟩ := s
  obtain ⟨globals', frames'⟩ := t
  constructor
  · rintro ⟨inner, around⟩
    cases frames with
    | nil =>
      cases frames' with
      | nil => exact ⟨fun name => inner name List.not_mem_nil, List.Forall₂.nil⟩
      | cons frame rest => cases around
    | cons frame rest =>
      cases frames' with
      | nil => cases around
      | cons frame' rest' =>
        obtain ⟨outermost, waiting⟩ := List.forall₂_cons.mp around
        exact ⟨outermost, List.Forall₂.cons (fun name => inner name List.not_mem_nil) waiting⟩
  · rintro ⟨outermost, calls⟩
    cases calls with
    | nil => exact ⟨fun name _ => outermost name, List.Forall₂.nil⟩
    | cons inner waiting => exact ⟨fun name _ => inner name, List.Forall₂.cons outermost waiting⟩

theorem Same.sameBut (same : s.Same t) (names : List String) : SameBut names s t :=
  (sameBut_nil.mpr same).mono (List.nil_subset names)

theorem Same.symm (same : s.Same t) : t.Same s where
  globals name := (same.globals name).symm
  frames := same.frames.flip.imp fun _ _ given name => (given name).symm

theorem Same.lookup_eq (same : s.Same t) (name : String) : s.lookup name = t.lookup name := by
  obtain ⟨globals, frames⟩ := s
  obtain ⟨globals', frames'⟩ := t
  obtain ⟨outermost, calls⟩ := same
  have module : globals.get? name = globals'.get? name := outermost name
  cases calls with
  | nil => exact module
  | cons inner waiting => simp only [lookup, inner name, module]

/-- The bindings after the innermost scope took over what `names` denoted. -/
structure Adopted (names : List String) (before after : Scopes α) : Prop where
  innermost : ∀ name, after.innermost.get? name =
    if name ∈ names then before.lookup name else before.innermost.get? name
  outer : List.Forall₂ Frame.Same before.outer after.outer

theorem Adopted.of_same (same : s.Same t) (adopted : t.Adopted names u) : s.Adopted names u where
  innermost name := by
    have inner := (same.sameBut []).innermost name List.not_mem_nil
    rw [adopted.innermost, same.lookup_eq, inner]
  outer := forall₂_same_trans (same.sameBut []).outer adopted.outer

/-- Nothing changes unless a name of the module becomes one of the innermost call, too. -/
theorem Adopted.same_iff (adopted : s.Adopted names t) :
    t.Same s ↔ ∀ name ∈ names, s.innermost.get? name = none → s.lookup name = none := by
  constructor
  · intro same name member absent
    have inner := (same.sameBut []).innermost name List.not_mem_nil
    rwa [adopted.innermost, if_pos member, absent] at inner
  · intro hidden
    apply Same.symm
    apply sameBut_nil.mp
    refine ⟨fun name _ => ?_, adopted.outer⟩
    rw [adopted.innermost]
    by_cases member : name ∈ names
    · rw [if_pos member]
      cases here : s.innermost.get? name with
      | none => exact (hidden name member here).symm
      | some v => rw [lookup_eq, here, Option.some_or]
    · rw [if_neg member]

/-- The scope of the module is the innermost one where no call is active. -/
theorem lookup_of_frames_nil (outside : s.frames = []) (name : String) :
    s.lookup name = s.innermost.get? name := by
  simp [lookup, innermost, outside]

end Scopes

end DocExamples.Script
