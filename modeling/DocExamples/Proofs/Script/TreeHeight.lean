import DocExamples.Script.Tree
/-!
The height of syntax trees: how many nodes the longest way from the root to a leaf has.
-/
namespace DocExamples.Script

mutual

def Expr.height : Expr → Nat
  | .int _ | .float _ | .str _ | .bool _ | .none | .name _ => 1
  | .list items | .tuple items => Expr.heights items + 1
  | .dict entries => Expr.entryHeights entries + 1
  | .listComp element target source condition =>
    max (max element.height target.height) (max source.height (Expr.optionHeight condition)) + 1
  | .unary _ e | .attr e _ => e.height + 1
  | .binary _ left right | .compare _ left right | .and left right | .or left right
  | .index left right => max left.height right.height + 1
  | .ifElse condition yes no => max condition.height (max yes.height no.height) + 1
  | .call callee args kwargs =>
    max callee.height (max (Expr.heights args) (Expr.keywordHeights kwargs)) + 1
  | .slice start stop step =>
    max (Expr.optionHeight start) (max (Expr.optionHeight stop) (Expr.optionHeight step)) + 1

def Expr.heights : List Expr → Nat
  | [] => 0
  | e :: rest => max e.height (Expr.heights rest)

def Expr.entryHeights : List (Expr × Expr) → Nat
  | [] => 0
  | (key, value) :: rest => max (max key.height value.height) (Expr.entryHeights rest)

def Expr.keywordHeights : List (String × Expr) → Nat
  | [] => 0
  | (_, e) :: rest => max e.height (Expr.keywordHeights rest)

def Expr.optionHeight : Option Expr → Nat
  | none => 0
  | some e => e.height

def Target.height : Target → Nat
  | .name _ => 1
  | .index container subscript => max container.height subscript.height + 1
  | .unpack targets => Target.heights targets + 1

def Target.heights : List Target → Nat
  | [] => 0
  | t :: rest => max t.height (Target.heights rest)

end

def Expr.parameterHeights : List (String × Option Expr) → Nat
  | [] => 0
  | (_, e) :: rest => max (Expr.optionHeight e) (parameterHeights rest)

mutual

def Stmt.height : Stmt → Nat
  | .expr e => e.height + 1
  | .assign targets value => max (Target.heights targets) value.height + 1
  | .augAssign target _ value => max target.height value.height + 1
  | .forLoop target source body => max (max target.height source.height) (heights body) + 1
  | .whileLoop condition body => max condition.height (heights body) + 1
  | .ifElse branches otherwise => max (branchHeights branches) (heights otherwise) + 1
  | .define _ params body => max (Expr.parameterHeights params) (heights body) + 1
  | .giveBack value | .raise value => Expr.optionHeight value + 1
  | .assert condition message => max condition.height (Expr.optionHeight message) + 1
  | .delete target => target.height + 1
  | .importModule .. | .importNames .. | .pass | .leaveLoop | .nextRound => 1

def Stmt.heights : List Stmt → Nat
  | [] => 0
  | s :: rest => max s.height (heights rest)

def Stmt.branchHeights : List (Expr × List Stmt) → Nat
  | [] => 0
  | (condition, body) :: rest => max (max condition.height (heights body)) (branchHeights rest)

end

namespace Expr

variable {e left right : Expr}

@[simp]
theorem height_dict (entries : List (Expr × Expr)) :
    (dict entries).height = entryHeights entries + 1 := rfl

@[simp]
theorem height_list (items : List Expr) : (list items).height = heights items + 1 := rfl

@[simp]
theorem heights_cons (items : List Expr) : heights (e :: items) = max e.height (heights items) :=
  rfl

@[simp]
theorem height_listComp (target : Target) (source : Expr) (condition : Option Expr) :
    (listComp e target source condition).height =
      max (max e.height target.height) (max source.height (optionHeight condition)) + 1 := rfl

@[simp]
theorem height_unary (op : UnaryOp) : (unary op e).height = e.height + 1 := rfl

@[simp]
theorem height_attr (name : String) : (attr e name).height = e.height + 1 := rfl

@[simp]
theorem height_binary (op : BinaryOp) :
    (binary op left right).height = max left.height right.height + 1 := rfl

@[simp]
theorem height_compare (op : CompareOp) :
    (compare op left right).height = max left.height right.height + 1 := rfl

@[simp]
theorem height_index : (index left right).height = max left.height right.height + 1 := rfl

@[simp]
theorem height_ifElse (condition : Expr) :
    (ifElse condition left right).height =
      max condition.height (max left.height right.height) + 1 := rfl

@[simp]
theorem height_call (args : List Expr) (kwargs : List (String × Expr)) :
    (call e args kwargs).height =
      max e.height (max (heights args) (keywordHeights kwargs)) + 1 := rfl

end Expr

theorem Expr.heights_append (first second : List Expr) :
    heights (first ++ second) = max (heights first) (heights second) := by
  induction first with
  | nil => simp [heights]
  | cons e rest ih => simp only [List.cons_append, heights, ih, Nat.max_assoc]

theorem Expr.keywordHeights_append (first second : List (String × Expr)) :
    keywordHeights (first ++ second) = max (keywordHeights first) (keywordHeights second) := by
  induction first with
  | nil => simp [keywordHeights]
  | cons entry rest ih => simp only [List.cons_append, keywordHeights, ih, Nat.max_assoc]

theorem Target.heights_append (first second : List Target) :
    heights (first ++ second) = max (heights first) (heights second) := by
  induction first with
  | nil => simp [heights]
  | cons t rest ih => simp only [List.cons_append, heights, ih, Nat.max_assoc]

theorem Stmt.heights_append (first second : List Stmt) :
    heights (first ++ second) = max (heights first) (heights second) := by
  induction first with
  | nil => simp [heights]
  | cons s rest ih => simp only [List.cons_append, heights, ih, Nat.max_assoc]

theorem Stmt.heights_le {stmts : List Stmt} {h : Nat} :
    heights stmts ≤ h ↔ ∀ s ∈ stmts, s.height ≤ h := by
  induction stmts with
  | nil => simp [heights]
  | cons s rest ih => rw [heights, Nat.max_le, ih, List.forall_mem_cons]

mutual

/-- A target is not higher than the expression that it was written as. -/
theorem Expr.height_toTarget? {e : Expr} {t : Target} (found : e.toTarget? = some t) :
    t.height ≤ e.height := by
  cases e with
  | name n =>
    cases found
    exact Nat.le_refl 1
  | index container subscript =>
    cases found
    exact Nat.le_refl _
  | tuple items =>
    obtain ⟨targets, all, rfl⟩ := Option.map_eq_some_iff.mp found
    exact Nat.succ_le_succ (heights_toTargets? all)
  | list items =>
    obtain ⟨targets, all, rfl⟩ := Option.map_eq_some_iff.mp found
    exact Nat.succ_le_succ (heights_toTargets? all)
  | int | float | str | bool | none | dict | listComp | unary | binary | compare | and | or
  | ifElse | call | attr | slice => cases found

theorem Expr.heights_toTargets? {items : List Expr} {targets : List Target}
    (found : toTargets? items = some targets) : Target.heights targets ≤ heights items := by
  cases items with
  | nil =>
    cases found
    exact Nat.le_refl 0
  | cons e rest =>
    obtain ⟨t, first, others⟩ := Option.bind_eq_some_iff.mp found
    obtain ⟨more, later, given⟩ := Option.bind_eq_some_iff.mp others
    cases given
    have head := height_toTarget? first
    have tail := heights_toTargets? later
    simp only [Target.heights, heights]
    omega

end

end DocExamples.Script
