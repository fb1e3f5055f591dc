import DocExamples.Script.Scopes
/-!
Properties of all bound values, and the operations on bindings that keep them.
-/
namespace DocExamples.Script

variable {α : Type} {P : α → Prop} {name : String} {v : α}

namespace Frame

/-- A property of the values of a frame. -/
def All (P : α → Prop) (f : Frame α) : Prop := ∀ entry ∈ f, P entry.2

variable {f : Frame α}

theorem all_nil : All P [] := fun _ member => nomatch member

@[simp]
theorem all_cons {entry : String × α} : All P (entry :: f) ↔ P entry.2 ∧ All P f :=
  List.forall_mem_cons

theorem All.of_get? (all : f.All P) (found : f.get? name = some v) : P v := by
  induction f with
  | nil => cases found
  | cons entry rest ih =>
    obtain ⟨n, w⟩ := entry
    rw [all_cons] at all
    rw [get?, List.lookup_cons] at found
    by_cases same : name = n
    · subst same
      simp only [beq_self_eq_true, Option.some.injEq] at found
      exact found ▸ all.1
    · rw [beq_false_of_ne same] at found
      exact ih all.2 found

theorem get?_put (f : Frame α) (name : String) (v : α) : (f.put name v).get? name = some v := by
  induction f with
  | nil => simp [put, get?]
  | cons entry rest ih =>
    obtain ⟨n, w⟩ := entry
    rw [put]
    split
    · next same => simp [get?, same]
    · next other =>
      rw [get?, List.lookup_cons, beq_false_of_ne (Ne.symm other)]
      exact ih

theorem All.put (all : f.All P) (holds : P v) : (f.put name v).All P := by
  induction f with
  | nil => exact all_cons.mpr ⟨holds, all_nil⟩
  | cons entry rest ih =>
    rw [all_cons] at all
    rw [Frame.put]
    split
    · exact all_cons.mpr ⟨holds, all.2⟩
    · exact all_cons.mpr ⟨all.1, ih all.2⟩

theorem get?_change (g : α → α) (found : f.get? name = some v) :
    (f.change name g).get? name = some (g v) := by
  induction f with
  | nil => cases found
  | cons entry rest ih =>
    obtain ⟨n, w⟩ := entry
    rw [get?, List.lookup_cons] at found
    rw [change]
    by_cases same : n = name
    · subst same
      simp only [beq_self_eq_true, Option.some.injEq] at found
      simp [get?, found]
    · rw [beq_false_of_ne (Ne.symm same)] at found
      rw [if_neg same, get?, List.lookup_cons, beq_false_of_ne (Ne.symm same)]
      exact ih found

theorem All.change {g : α → α} (all : f.All P)
    (holds : ∀ v, f.get? name = some v → P v → P (g v)) : (f.change name g).All P := by
  induction f with
  | nil => exact all_nil
  | cons entry rest ih =>
    obtain ⟨n, w⟩ := entry
    rw [all_cons] at all
    rw [Frame.change]
    by_cases same : n = name
    · rw [if_pos same]
      exact all_cons.mpr ⟨holds w (by simp [get?, same]) all.1, all.2⟩
    · rw [if_neg same]
      refine all_cons.mpr ⟨all.1, ih all.2 fun v found => holds v ?_⟩
      rw [get?, List.lookup_cons, beq_false_of_ne (Ne.symm same)]
      exact found

theorem All.erase (all : f.All P) (name : String) : (f.erase name).All P :=
  fun entry member => all entry (List.mem_filter.mp member).1

end Frame

namespace Scopes

/-- A property of the values that are bound, in the module and in every frame. -/
def All (P : α → Prop) (s : Scopes α) : Prop := s.globals.All P ∧ ∀ f ∈ s.frames, f.All P

variable {s : Scopes α}

theorem All.imp {Q : α → Prop} (all : s.All P) (le : ∀ v, P v → Q v) : s.All Q :=
  ⟨fun entry member => le _ (all.1 entry member),
    fun f inside entry member => le _ (all.2 f inside entry member)⟩

theorem all_empty : (empty : Scopes α).All P := ⟨Frame.all_nil, fun _ member => nomatch member⟩

theorem All.of_lookup (all : s.All P) (found : s.lookup name = some v) : P v := by
  obtain ⟨globals, frames⟩ := s
  obtain ⟨outer, inner⟩ := all
  cases frames with
  | nil => exact outer.of_get? found
  | cons frame rest =>
    cases here : frame.get? name with
    | none =>
      simp only [lookup, here] at found
      exact outer.of_get? found
    | some w =>
      simp only [lookup, here] at found
      exact Option.some.inj found ▸ (inner frame List.mem_cons_self).of_get? here

theorem lookup_define (s : Scopes α) (name : String) (v : α) :
    (s.define name v).lookup name = some v := by
  obtain ⟨globals, frames⟩ := s
  cases frames with
  | nil => exact Frame.get?_put _ _ _
  | cons frame rest => simp [define, lookup, Frame.get?_put]

theorem All.define (all : s.All P) (holds : P v) : (s.define name v).All P := by
  obtain ⟨globals, frames⟩ := s
  obtain ⟨outer, inner⟩ := all
  cases frames with
  | nil => exact ⟨outer.put holds, inner⟩
  | cons frame rest =>
    rw [List.forall_mem_cons] at inner
    exact ⟨outer, List.forall_mem_cons.mpr ⟨inner.1.put holds, inner.2⟩⟩

theorem lookup_change (g : α → α) (found : s.lookup name = some v) :
    (s.change name g).lookup name = some (g v) := by
  obtain ⟨globals, frames⟩ := s
  cases frames with
  | nil => exact Frame.get?_change g found
  | cons frame rest =>
    rw [change]
    cases here : frame.get? name with
    | none =>
      simp only [lookup, here] at found
      simp [Frame.has, here, lookup, Frame.get?_change g found]
    | some w =>
      simp only [lookup, here] at found
      simp [Frame.has, here, lookup, Frame.get?_change g here, Option.some.inj found]

theorem All.change {g : α → α} (all : s.All P)
    (holds : ∀ v, s.lookup name = some v → P v → P (g v)) : (s.change name g).All P := by
  obtain ⟨globals, frames⟩ := s
  obtain ⟨outer, inner⟩ := all
  cases frames with
  | nil => exact ⟨outer.change holds, inner⟩
  | cons frame rest =>
    rw [List.forall_mem_cons] at inner
    rw [Scopes.change]
    cases here : frame.get? name with
    | none =>
      rw [Frame.has, here, Option.isSome_none, if_neg Bool.false_ne_true]
      refine ⟨outer.change fun v found => holds v ?_, List.forall_mem_cons.mpr inner⟩
      simp [lookup, here, found]
    | some w =>
      rw [Frame.has, here, Option.isSome_some, if_pos rfl]
      refine ⟨outer, List.forall_mem_cons.mpr ⟨inner.1.change fun v found => holds v ?_, inner.2⟩⟩
      simp [lookup, found]

theorem All.remove (all : s.All P) (name : String) : (s.remove name).2.All P := by
  obtain ⟨globals, frames⟩ := s
  obtain ⟨outer, inner⟩ := all
  cases frames with
  | nil => exact ⟨outer.erase name, inner⟩
  | cons frame rest =>
    rw [List.forall_mem_cons] at inner
    exact ⟨outer, List.forall_mem_cons.mpr ⟨inner.1.erase name, inner.2⟩⟩

theorem All.pushFrame (all : s.All P) : s.pushFrame.All P :=
  ⟨all.1, List.forall_mem_cons.mpr ⟨Frame.all_nil, all.2⟩⟩

theorem All.popFrame (all : s.All P) : s.popFrame.All P :=
  ⟨all.1, fun f member => all.2 f (List.mem_of_mem_tail member)⟩

end Scopes

end DocExamples.Script
