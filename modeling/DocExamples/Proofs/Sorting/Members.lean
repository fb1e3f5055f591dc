import DocExamples.Proofs.Except
import DocExamples.Sorting.Runs
/-!
Sorting makes no items up, whatever the order answers: what holds of every item that is sorted
holds of every item of the result.
-/
namespace DocExamples.Sorting

/-- A property of all items of a list. -/
abbrev Every {α : Type} (Q : α → Prop) (items : List α) : Prop := ∀ x ∈ items, Q x

variable {α ε : Type} {Q : α → Prop} {less : α → α → Except ε Bool}

section Lists

variable {items : List α}

theorem every_nil : Every Q [] := fun _ member => nomatch member

theorem Every.cons {x : α} (holds : Q x) (every : Every Q items) : Every Q (x :: items) :=
  List.forall_mem_cons.mpr ⟨holds, every⟩

theorem Every.append {more : List α} (every : Every Q items) (others : Every Q more) :
    Every Q (items ++ more) := List.forall_mem_append.mpr ⟨every, others⟩

theorem Every.reverse (every : Every Q items) : Every Q items.reverse :=
  fun x member => every x (List.mem_reverse.mp member)

theorem Every.reverseAux {more : List α} (every : Every Q items) (others : Every Q more) :
    Every Q (items.reverseAux more) := List.reverseAux_eq ▸ every.reverse.append others

theorem Every.take (every : Every Q items) (n : Nat) : Every Q (items.take n) :=
  fun x member => every x (List.mem_of_mem_take member)

theorem Every.drop (every : Every Q items) (n : Nat) : Every Q (items.drop n) :=
  fun x member => every x (List.mem_of_mem_drop member)

end Lists

/-! ### Short lists -/

theorem every_insertDescending {x : α} {sorted : List α} (holds : Q x) (every : Every Q sorted) :
    Ensures (Every Q) (insertDescending less x sorted) := by
  induction sorted with
  | nil => exact .ok (.cons holds every)
  | cons y rest ih =>
    obtain ⟨first, others⟩ := List.forall_mem_cons.mp every
    refine .bind .any fun before _ => ?_
    split
    · exact .bind (ih others) fun inserted every => .pure (.cons first every)
    · exact .pure (.cons holds every)

theorem every_insertAll {sorted items : List α} (every : Every Q sorted)
    (others : Every Q items) : Ensures (Every Q) (insertAll less sorted items) := by
  refine .bind (.foldlM every.reverse fun acc every x member => ?_) fun _ every => .pure every.reverse
  exact every_insertDescending (others x member) every

theorem every_mergeUp {out left right : List α} (done : Every Q out) (first : Every Q left)
    (second : Every Q right) : Ensures (Every Q) (mergeUp less out left right) := by
  unfold mergeUp
  split
  · next a left b right =>
    obtain ⟨a', left'⟩ := List.forall_mem_cons.mp first
    obtain ⟨b', right'⟩ := List.forall_mem_cons.mp second
    refine .bind .any fun before _ => ?_
    split
    · exact every_mergeUp (.cons b' done) first right'
    · exact every_mergeUp (.cons a' done) left' second
  · exact .ok (done.reverseAux (first.append second))
termination_by left.length + right.length

theorem every_mergeDown {out left right : List α} (done : Every Q out) (first : Every Q left)
    (second : Every Q right) : Ensures (Every Q) (mergeDown less out left right) := by
  unfold mergeDown
  split
  · next a left b right =>
    obtain ⟨a', left'⟩ := List.forall_mem_cons.mp first
    obtain ⟨b', right'⟩ := List.forall_mem_cons.mp second
    refine .bind .any fun before _ => ?_
    split
    · exact every_mergeDown (.cons a' done) left' second
    · exact every_mergeDown (.cons b' done) first right'
  · exact .ok (first.reverseAux (second.reverseAux done))
termination_by left.length + right.length

theorem every_merge {left right : List α} (first : Every Q left) (second : Every Q right) :
    Ensures (Every Q) (merge less left right) := by
  unfold merge
  split
  · exact every_mergeUp every_nil first second
  · exact every_mergeDown (every_nil) first.reverse second.reverse

theorem every_mergeEnds {half rounds : Nat} {odd : Bool} {left right leftBack rightBack : List α}
    (first : Every Q left) (second : Every Q right) (firstBack : Every Q leftBack)
    (secondBack : Every Q rightBack) :
    Ensures (Every Q) (mergeEnds less half odd rounds left right leftBack rightBack) := by
  have remains (left right leftBack : List α) (first : Every Q left) (second : Every Q right) :
      Every Q (if !odd then [] else if half < left.length + leftBack.length then left.take 1
        else right.take 1) := by
    split
    · exact every_nil
    · split
      · exact first.take 1
      · exact second.take 1
  induction rounds generalizing left right leftBack rightBack with
  | zero => exact .ok (remains left right leftBack first second)
  | succ rounds ih =>
    rw [mergeEnds.eq_def]
    split
    · next a left b right c leftBack d rightBack same =>
      cases same
      obtain ⟨a', left'⟩ := List.forall_mem_cons.mp first
      obtain ⟨b', right'⟩ := List.forall_mem_cons.mp second
      obtain ⟨c', leftBack'⟩ := List.forall_mem_cons.mp firstBack
      obtain ⟨d', rightBack'⟩ := List.forall_mem_cons.mp secondBack
      refine .bind .any fun early _ => .bind .any fun late _ => ?_
      refine .bind (ih ?_ ?_ ?_ ?_) fun inner every =>
        .pure (.cons ?_ (Every.append every (.cons ?_ ?_)))
      · split <;> assumption
      · split <;> assumption
      · split <;> assumption
      · split <;> assumption
      · split <;> assumption
      · split <;> assumption
      · exact every_nil
    · exact .ok (remains _ _ _ first second)

theorem every_sortFour {w x y z : α} (holds : Every Q [w, x, y, z]) :
    Ensures (Every Q) (sortFour less w x y z) := by
  simp only [List.forall_mem_cons, List.not_mem_nil, false_imp_iff, implies_true, and_true] at holds
  obtain ⟨w', x', y', z'⟩ := holds
  refine .bind .any fun firstSwapped _ => .bind .any fun lastSwapped _ => ?_
  refine .bind .any fun lowRight _ => .bind .any fun highLeft _ => .bind .any fun swapped _ => ?_
  cases firstSwapped <;> cases lastSwapped <;> cases lowRight <;> cases highLeft <;>
    cases swapped <;> refine .pure (.cons ?_ (.cons ?_ (.cons ?_ (.cons ?_ every_nil)))) <;> assumption

theorem every_sortStart {items : List α} (every : Every Q items) :
    Ensures (fun parts => Every Q parts.1 ∧ Every Q parts.2) (sortStart less items) := by
  unfold sortStart
  split
  · next w x y z rest =>
    refine .bind (every_sortFour (every.take 4)) fun sorted every' => .pure ⟨every', ?_⟩
    exact every.drop 4
  · exact .ok ⟨every_nil, every⟩

theorem every_sortShort {items : List α} (every : Every Q items) :
    Ensures (Every Q) (sortShort less items) := by
  have starts {part : List α} (every : Every Q part) :
      Ensures (fun parts => Every Q parts.1 ∧ Every Q parts.2)
        ((if items.length < leastWithStart then fun part => .ok ([], part) else sortStart less)
          part) := by
    split
    · exact .ok ⟨every_nil, every⟩
    · exact every_sortStart every
  refine .bind (starts (every.take _)) fun left first => ?_
  refine .bind (starts (every.drop _)) fun right second => ?_
  refine .bind (every_insertAll first.1 first.2) fun left first => ?_
  refine .bind (every_insertAll second.1 second.2) fun right second => ?_
  exact every_mergeEnds first second first.reverse second.reverse

/-! ### Partitions -/

theorem every_splitOnto {test : α → Except ε Bool} {yes no items : List α} (passed : Every Q yes)
    (failed : Every Q no) (every : Every Q items) :
    Ensures (fun parts => Every Q parts.1 ∧ Every Q parts.2) (splitOnto test yes no items) := by
  induction items generalizing yes no with
  | nil => exact .ok ⟨passed, failed⟩
  | cons x rest ih =>
    obtain ⟨here, others⟩ := List.forall_mem_cons.mp every
    refine .bind .any fun passes _ => ?_
    split
    · exact ih (.cons here passed) failed others
    · exact ih passed (.cons here failed) others

theorem every_splitAround {test : α → Except ε Bool} {items : List α} {position : Nat}
    {passes : Bool} (every : Every Q items) :
    Ensures (fun parts => Every Q parts.1 ∧ Every Q parts.2)
      (splitAround test items position passes) := by
  have pivot : Every Q ((items.drop position).take 1) := (every.drop position).take 1
  refine .bind (every_splitOnto every_nil every_nil (every.take position)) fun parts both => ?_
  refine .bind (every_splitOnto ?_ ?_ (every.drop (position + 1))) fun parts both =>
    .pure ⟨both.1.reverse, both.2.reverse⟩
  · cases passes
    · exact both.1
    · exact pivot.append both.1
  · cases passes
    · exact pivot.append both.2
    · exact both.2

theorem every_sortByPivots {otherwise : List α → Except ε (List α)} {limit : Nat}
    {floor : Option α} {items : List α}
    (sorts : ∀ items, Every Q items → Ensures (Every Q) (otherwise items))
    (every : Every Q items) : Ensures (Every Q) (sortByPivots less otherwise limit floor items) := by
  induction limit generalizing floor items with
  | zero =>
    rw [sortByPivots]
    split
    · exact every_sortShort every
    · exact sorts items every
  | succ limit ih =>
    rw [sortByPivots]
    split
    · exact every_sortShort every
    · refine .bind .any fun position _ => ?_
      split
      · exact sorts items every
      · next pivot here =>
        -- What follows once it is known whether nothing is less than the pivot.
        have splits (parts : List α × List α) (both : Every Q parts.1 ∧ Every Q parts.2) :
            Ensures (Every Q) (if parts.1.isEmpty then do
                let parts ← splitAround (fun x => do return !(← less pivot x)) items position true
                return parts.1 ++ (← sortByPivots less otherwise limit none parts.2)
              else do
                let upper ← sortByPivots less otherwise limit (some pivot) parts.2
                return (← sortByPivots less otherwise limit floor parts.1) ++ upper) := by
          split
          · refine .bind (every_splitAround every) fun parts both => ?_
            exact .bind (ih both.2) fun greater every => .pure (both.1.append every)
          · refine .bind (ih both.2) fun upper upper' => ?_
            exact .bind (ih both.1) fun lower lower' => .pure (lower'.append upper')
        split
        · refine .bind .any fun before _ => .bind .any fun isFloor _ => ?_
          cases isFloor
          · exact .bind (every_splitAround every) splits
          · exact .bind (.pure ⟨every_nil, every⟩) splits
        · exact .bind (.pure rfl) fun isFloor false => false ▸ .bind (every_splitAround every) splits

/-! ### Runs -/

/-- A property of all items of a run. -/
abbrev Run.Every (Q : α → Prop) (run : Run α) : Prop := ∀ x ∈ run.items, Q x

variable {sortLoose : List α → Except ε (List α)}

theorem every_continueRun {descending : Bool} {last : α} {run items : List α}
    (held : Every Q run) (every : Every Q items) :
    Ensures (fun parts => Every Q parts.1 ∧ Every Q parts.2)
      (continueRun less descending last run items) := by
  induction items generalizing last run with
  | nil => exact .ok ⟨held, every_nil⟩
  | cons x rest ih =>
    obtain ⟨here, others⟩ := List.forall_mem_cons.mp every
    refine .bind .any fun before _ => ?_
    split
    · exact ih (.cons here held) others
    · exact .pure ⟨held, every⟩

theorem every_naturalRun {items : List α} (every : Every Q items) :
    Ensures (fun parts => Every Q parts.1 ∧ Every Q parts.2) (naturalRun less items) := by
  unfold naturalRun
  split
  · next x y rest =>
    have start : Every Q [y, x] := (every.take 2).reverse
    refine .bind .any fun descending _ => ?_
    refine .bind (every_continueRun start (every.drop 2)) fun parts both => .pure ⟨?_, both.2⟩
    split
    · exact both.1
    · exact both.1.reverse
  · exact .ok ⟨every, every_nil⟩

theorem every_next {cutting : Cutting} {length : Nat} {items : List α} (every : Every Q items) :
    Ensures (fun parts => parts.1.Every Q ∧ Every Q parts.2) (cutting.next less length items) := by
  -- A run that is long enough is taken as it is found; else one is cut off.
  have found {cut : Except ε (Run α × List α)}
      (cuts : Ensures (fun parts => parts.1.Every Q ∧ Every Q parts.2) cut) :
      Ensures (fun parts => parts.1.Every Q ∧ Every Q parts.2)
        (if cutting.good ≤ length then naturalRun less items >>= fun parts =>
            if cutting.good ≤ parts.1.length then pure (.sorted parts.1, parts.2) else cut
          else cut) := by
    split
    · refine .bind (every_naturalRun every) fun parts both => ?_
      split
      · exact .pure both
      · exact cuts
    · exact cuts
  unfold Cutting.next
  split
  · exact found (.bind (every_sortShort (every.take _)) fun run held => .pure ⟨held, every.drop _⟩)
  · exact found (.pure ⟨every.take _, every.drop _⟩)

variable (sorts : ∀ items, Every Q items → Ensures (Every Q) (sortLoose items))
include sorts

theorem every_runSort {run : Run α} (held : run.Every Q) :
    Ensures (Every Q) (run.sort sortLoose) := by
  cases run with
  | sorted items => exact .ok held
  | loose items => exact sorts items held

theorem every_runJoin {left right : Run α} (first : left.Every Q) (second : right.Every Q) :
    Ensures (Run.Every Q) (left.join less sortLoose right) := by
  unfold Run.join
  split
  · exact .ok (Every.append first second)
  · refine .bind (every_runSort sorts first) fun a first => ?_
    refine .bind (every_runSort sorts second) fun b second => ?_
    exact .bind (every_merge first second) fun merged held => .pure held

theorem every_joinUpTo {level : Nat} {run : Run α} {before : List (Run α × Nat)}
    (held : run.Every Q) (others : ∀ entry ∈ before, entry.1.Every Q) :
    Ensures (fun parts => parts.1.Every Q ∧ ∀ entry ∈ parts.2, entry.1.Every Q)
      (joinUpTo less sortLoose level run before) := by
  induction before generalizing run with
  | nil => exact .ok ⟨held, others⟩
  | cons entry rest ih =>
    obtain ⟨left, l⟩ := entry
    obtain ⟨here, later⟩ := List.forall_mem_cons.mp others
    rw [joinUpTo]
    split
    · exact .bind (every_runJoin sorts here held) fun joined held => ih held later
    · exact .ok ⟨held, others⟩

theorem every_mergeRuns {cutting : Cutting} {length fuel position : Nat} {last : Run α}
    {before : List (Run α × Nat)} {items : List α} (held : last.Every Q)
    (others : ∀ entry ∈ before, entry.1.Every Q) (every : Every Q items) :
    Ensures (Every Q) (mergeRuns less sortLoose cutting length fuel position last before items) := by
  have ends (last : Run α) (before : List (Run α × Nat)) (held : last.Every Q)
      (others : ∀ entry ∈ before, entry.1.Every Q) : Ensures (Every Q)
        (do (← joinUpTo less sortLoose topLevel last before).1.sort sortLoose) :=
    .bind (every_joinUpTo sorts held others) fun parts both => every_runSort sorts both.1
  induction fuel generalizing position last before items with
  | zero => exact ends last before held others
  | succ fuel ih =>
    cases items with
    | nil => exact ends last before held others
    | cons x rest =>
      refine .bind (every_next every) fun next both => ?_
      refine .bind (every_joinUpTo sorts held others) fun joined parts => ih both.1 ?_ both.2
      exact List.forall_mem_cons.mpr parts

theorem every_sortRuns {eager : Bool} {items : List α} (every : Every Q items) :
    Ensures (Every Q) (sortRuns less sortLoose eager items) :=
  .bind (every_next every) fun _ both =>
    every_mergeRuns sorts both.1 (fun _ member => nomatch member) both.2

omit sorts

/-- What is sorted is made of the items given. -/
theorem every_sort {items : List α} (every : Every Q items) :
    Ensures (Every Q) (sort less items) := by
  unfold sort
  split
  · exact every_insertAll every_nil every
  · refine every_sortRuns (fun items every => every_sortByPivots ?_ every) every
    exact fun items every => every_sortRuns (fun _ every => .ok every) every

end DocExamples.Sorting
