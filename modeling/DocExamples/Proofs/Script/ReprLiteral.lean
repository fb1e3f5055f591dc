import DocExamples.Proofs.Literal.Scalars
import DocExamples.Proofs.Script.Nesting
/-!
What a session echoes is read back: the text of a value without functions, arrays and the like is
read as the literal that has the form of the value.
-/
namespace DocExamples.Script

open Literal (IsItem IsEntry Separated)

namespace Value

/-- Values that are made of constants, numbers, strings and containers alone. -/
inductive IsData : Value → Prop where
  | none : IsData none
  | bool (b : Bool) : IsData (bool b)
  | int (i : Int64) : IsData (int i)
  | float (x : Float) : IsData (float x)
  | str (s : String) : IsData (str s)
  | list {items : Array Value} (all : ∀ v ∈ items.toList, IsData v) : IsData (list items)
  | tuple {items : List Value} (all : ∀ v ∈ items, IsData v) : IsData (tuple items)
  | dict {entries : List (Value × Value)} (keys : ∀ entry ∈ entries, IsData entry.1)
    (values : ∀ entry ∈ entries, IsData entry.2) : IsData (dict entries)

mutual

/-- The literal of the same form. The number for a double is the one that its text stands for. -/
def literal? : Value → Option Literal
  | .none => some (.leaf .none)
  | .bool b => some (.leaf (.bool b))
  | .int i => some (.leaf (.number ⟨Binary64.ofInt i.toInt, .int⟩))
  | .float x => (Decimal.readFloat? (floatFormat.render x).toList).map fun y =>
    .leaf (.number ⟨y, .float⟩)
  | .str s => some (.leaf (.str s))
  | .list ⟨items⟩ => (literals? items).map .list
  | .tuple items => (literals? items).map .tuple
  | .dict entries => (entryLiterals? entries).map .dict
  | .tensor _ | .function .. | .builtin _ | .method .. | .module _ | .exceptionType _
  | .exception .. => Option.none

def literals? : List Value → Option (List Literal)
  | [] => some []
  | v :: rest => do
    let l ← literal? v
    let others ← literals? rest
    return l :: others

def entryLiterals? : List (Value × Value) → Option (List (Literal × Literal))
  | [] => some []
  | (key, v) :: rest => do
    let k ← literal? key
    let l ← literal? v
    let others ← entryLiterals? rest
    return (k, l) :: others

end

variable {namedTuples : Bool} {depth : Nat}

/-- The text of the value is read as its literal. -/
def ReadsBack (namedTuples : Bool) (depth : Nat) (v : Value) : Prop :=
  ∃ l tokens, v.literal? = some l ∧ IsItem namedTuples depth v.repr.toList tokens l

/-! ### Parts of containers -/

theorem reprs_eq (items : List Value) : reprs items = items.map repr := by
  induction items with
  | nil => rfl
  | cons v rest ih => rw [reprs, List.map_cons, ih]

theorem entryReprs_eq (entries : List (Value × Value)) :
    entryReprs entries = entries.map fun entry => entry.1.repr ++ ": " ++ entry.2.repr := by
  induction entries with
  | nil => rfl
  | cons entry rest ih => rw [entryReprs, List.map_cons, ih]

theorem literals?_eq (items : List Value) : literals? items = items.mapM literal? := by
  induction items with
  | nil => rfl
  | cons v rest ih => rw [literals?, List.mapM_cons, ih]

theorem entryLiterals?_eq (entries : List (Value × Value)) :
    entryLiterals? entries =
      entries.mapM fun entry => do return (← entry.1.literal?, ← entry.2.literal?) := by
  induction entries with
  | nil => rfl
  | cons entry rest ih =>
    rw [entryLiterals?, List.mapM_cons, ih]
    simp only [bind_assoc, pure_bind]

theorem mapM_forall₂ {α β : Type} {read? : β → Option α} {P : β → α → Prop} {parts : List β}
    (each : ∀ part ∈ parts, ∃ a, read? part = some a ∧ P part a) :
    ∃ found, parts.mapM read? = some found ∧ List.Forall₂ P parts found := by
  induction parts with
  | nil => exact ⟨[], rfl, .nil⟩
  | cons part rest ih =>
    obtain ⟨⟨a, read, holds⟩, others⟩ := List.forall_mem_cons.mp each
    obtain ⟨found, readRest, all⟩ := ih others
    refine ⟨a :: found, ?_, .cons holds all⟩
    rw [List.mapM_cons, read, readRest]
    rfl

theorem commaSeparator : ", ".toList = Literal.Gap.comma.chars ++ [' '] := rfl

theorem separated_reprs {items : List Value} (each : ∀ v ∈ items, v.ReadsBack namedTuples depth) :
    ∃ ls tokens, literals? items = some ls ∧ ls.length = items.length ∧
      Separated .comma (IsItem namedTuples depth) (", ".intercalate (reprs items)).toList
        tokens ls := by
  have parts : ∀ v ∈ items, ∃ l, v.literal? = some l ∧
      ∃ tokens, IsItem namedTuples depth v.repr.toList tokens l := by
    intro v member
    obtain ⟨l, tokens, read, item⟩ := each v member
    exact ⟨l, read, tokens, item⟩
  obtain ⟨ls, read, all⟩ := mapM_forall₂ parts
  obtain ⟨tokens, separated⟩ := Literal.separated_intercalate .single commaSeparator
    (List.forall₂_map_left_iff.mpr all)
  rw [literals?_eq, reprs_eq]
  exact ⟨ls, tokens, read, all.length_eq.symm, separated⟩

theorem separated_entryReprs {entries : List (Value × Value)}
    (keys : ∀ entry ∈ entries, entry.1.ReadsBack namedTuples depth)
    (values : ∀ entry ∈ entries, entry.2.ReadsBack namedTuples depth) :
    ∃ ls tokens, entryLiterals? entries = some ls ∧ ls.length = entries.length ∧
      Separated .comma (IsEntry namedTuples depth) (", ".intercalate (entryReprs entries)).toList
        tokens ls := by
  have parts : ∀ entry ∈ entries, ∃ l : Literal × Literal,
      (do return (← entry.1.literal?, ← entry.2.literal?)) = some l ∧
        ∃ tokens, IsEntry namedTuples depth
          (entry.1.repr ++ ": " ++ entry.2.repr).toList tokens l := by
    intro entry member
    obtain ⟨k, keyTokens, key, isKey⟩ := keys entry member
    obtain ⟨l, valueTokens, value, isValue⟩ := values entry member
    refine ⟨(k, l), ?_, keyTokens ++ .colon :: valueTokens, _, _, _, _, ?_, rfl, isKey, isValue⟩
    · rw [key, value]
      rfl
    · simp
  obtain ⟨ls, read, all⟩ := mapM_forall₂ parts
  obtain ⟨tokens, separated⟩ := Literal.separated_intercalate .single commaSeparator
    (List.forall₂_map_left_iff.mpr all)
  rw [entryLiterals?_eq, entryReprs_eq]
  exact ⟨ls, tokens, read, all.length_eq.symm, separated⟩

/-! ### Containers -/

theorem toList_between (first last body : String) :
    (first ++ body ++ last).toList = first.toList ++ (body.toList ++ last.toList) := by
  rw [String.toList_append, String.toList_append, List.append_assoc]

theorem readsBack_list {items : Array Value}
    (each : ∀ v ∈ items.toList, v.ReadsBack namedTuples depth) :
    (list items).ReadsBack namedTuples (depth + 1) := by
  obtain ⟨items⟩ := items
  obtain ⟨ls, tokens, read, -, separated⟩ := separated_reprs each
  refine ⟨.list ls, .leftBracket :: (tokens ++ [.rightBracket]), ?_, ?_⟩
  · rw [literal?, read, Option.map_some]
  · rw [repr_list, toList_between]
    exact Literal.isItem_list separated

theorem readsBack_dict {entries : List (Value × Value)}
    (keys : ∀ entry ∈ entries, entry.1.ReadsBack namedTuples depth)
    (values : ∀ entry ∈ entries, entry.2.ReadsBack namedTuples depth) :
    (dict entries).ReadsBack namedTuples (depth + 1) := by
  obtain ⟨ls, tokens, read, -, separated⟩ := separated_entryReprs keys values
  have scans := separated.scans fun _ _ _ entry => entry.scans
  refine ⟨.dict ls, .leftBrace :: (tokens ++ [.rightBrace]), ?_, ?_, Literal.reads_dict separated⟩
  · rw [literal?, read, Option.map_some]
  · rw [repr_dict, toList_between]
    exact (scans.after (by decide) (by decide) rfl).before (by decide) rfl

theorem readsBack_tuple {items : List Value}
    (each : ∀ v ∈ items, v.ReadsBack namedTuples depth) :
    (tuple items).ReadsBack namedTuples (depth + 1) := by
  obtain ⟨ls, tokens, read, length, separated⟩ := separated_reprs each
  have scans := separated.scans fun _ _ _ item => item.1
  have made : (tuple items).literal? = some (.tuple ls) := by
    rw [literal?, read, Option.map_some]
  by_cases single : items.length = 1
  · obtain ⟨l, rfl⟩ := List.length_eq_one_iff.mp (length.trans single)
    refine ⟨.tuple [l], .leftParen :: (tokens ++ [.comma] ++ [.rightParen]), made, ?_, ?_⟩
    · have comma := scans.after (c := ',') (by decide) (by decide) rfl
      have closed := comma.after (c := ')') (by decide) (by decide) rfl
      rw [List.append_assoc] at closed
      rw [repr_tuple, if_pos single, toList_between]
      exact closed.before (by decide) rfl
    · rw [List.append_assoc]
      exact Literal.reads_singleton separated.single.2
  · refine ⟨.tuple ls, .leftParen :: (tokens ++ [.rightParen]), made, ?_, ?_⟩
    · rw [repr_tuple, if_neg single, toList_between]
      exact (scans.after (by decide) (by decide) rfl).before (by decide) rfl
    · match ls, length, separated with
      | [], _, separated =>
        obtain rfl := separated.tokens_nil
        exact Literal.reads_emptyTuple
      | [l], length, _ => exact absurd length.symm single
      | a :: b :: ls, _, separated => exact Literal.reads_tuple separated

/-! ### Values -/

theorem readsBack {v : Value} (data : v.IsData) {n : Nat} (below : v.Within n) :
    v.ReadsBack namedTuples (n + 1) := by
  induction data generalizing n with
  | none => exact ⟨_, _, rfl, Literal.isItem_none⟩
  | bool b => exact ⟨_, _, rfl, (Literal.isElement_bool b).isItem⟩
  | int i =>
    obtain ⟨tokens, element⟩ := Literal.isElement_int i
    exact ⟨_, tokens, rfl, element.isItem⟩
  | float x =>
    obtain ⟨y, tokens, read, element⟩ := Literal.isElement_float (Literal.isDoubleText_render x)
    refine ⟨_, tokens, ?_, element.isItem⟩
    rw [literal?, read]
    rfl
  | str s =>
    obtain ⟨tokens, item⟩ := Literal.isItem_str s
    exact ⟨_, tokens, rfl, item⟩
  | list all ih =>
    cases n with
    | zero => exact absurd below not_within_list
    | succ n => exact readsBack_list fun v member => ih v member (within_list.mp below v member)
  | tuple all ih =>
    cases n with
    | zero => exact absurd below not_within_tuple
    | succ n => exact readsBack_tuple fun v member => ih v member (within_tuple.mp below v member)
  | dict keys values ihKeys ihValues =>
    cases n with
    | zero => exact absurd below not_within_dict
    | succ n =>
      have parts := within_dict.mp below
      exact readsBack_dict (fun entry member => ihKeys entry member (parts entry member).1)
        fun entry member => ihValues entry member (parts entry member).2

/-! ### No blanks at the ends -/

theorem trim_of_visible {text : List Char} (visible : ∀ c ∈ text, Text.isBlank c = false) :
    Text.trim text = text :=
  Text.trim_eq_self (fun c found => visible c (List.mem_of_mem_head? found))
    fun c found => visible c (List.mem_of_getLast? found)

theorem trim_of_any {text : List Char} (visible : text.any Text.isBlank = false) :
    Text.trim text = text :=
  trim_of_visible fun c member => Bool.eq_false_iff.mpr (List.any_eq_false.mp visible c member)

theorem visible_toString_int (i : Int) : ∀ c ∈ (toString i).toList, Text.isBlank c = false := by
  have digits {c : Char} (member : c ∈ Decimal.digitChars i.natAbs) : Text.isBlank c = false :=
    Text.isBlank_of_isDigit (Decimal.allDigits_digitChars _ c member)
  intro c member
  rw [Literal.toList_toString_int] at member
  split at member
  · rcases List.mem_cons.mp member with rfl | later
    · rfl
    · exact digits later
  · exact digits member

theorem trim_floatText (x : Float) :
    Text.trim (floatFormat.render x).toList = (floatFormat.render x).toList := by
  have form := Literal.isDoubleText_render x
  generalize (floatFormat.render x).toList = text at form ⊢
  cases form with
  | nan => exact trim_of_any (by decide)
  | infinity negative => cases negative <;> exact trim_of_any (by decide)
  | @number negative body form =>
    cases negative with
    | false => exact trim_of_visible form.visible
    | true => exact trim_of_visible (List.forall_mem_cons.mpr ⟨rfl, form.visible⟩)

theorem trim_literalText (chars : List Char) : Text.trim (literalText chars) = literalText chars := by
  rcases Literal.quoteFor_eq chars with quote | quote
  · rw [literalText, quote]
    exact Text.trim_wrapped _ rfl rfl
  · rw [literalText, quote]
    exact Text.trim_wrapped _ rfl rfl

theorem trim_repr {v : Value} (data : v.IsData) : Text.trim v.repr.toList = v.repr.toList := by
  cases data with
  | none => exact trim_of_any (by decide)
  | bool b => cases b <;> exact trim_of_any (by decide)
  | int i => exact trim_of_visible (visible_toString_int i.toInt)
  | float x => exact trim_floatText x
  | str s =>
    have text : (str s).repr.toList = literalText s.toList := String.toList_ofList
    rw [text]
    exact trim_literalText s.toList
  | @list items all =>
    obtain ⟨items⟩ := items
    rw [repr_list, toList_between]
    exact Text.trim_wrapped _ rfl rfl
  | @tuple items all =>
    rw [repr_tuple]
    split
    · have ending : ",)".toList = ',' :: [')'] := rfl
      rw [toList_between, ending, List.append_cons]
      exact Text.trim_wrapped _ rfl rfl
    · rw [toList_between]
      exact Text.trim_wrapped _ rfl rfl
  | dict keys values =>
    rw [repr_dict, toList_between]
    exact Text.trim_wrapped _ rfl rfl

/-- What a session echoes of such a value is read as the literal of the same form. -/
theorem parse?_repr {v : Value} (data : v.IsData) (below : v.Within maxValueNesting)
    (namedTuples : Bool) :
    ∃ l, v.literal? = some l ∧ Literal.parse? v.repr namedTuples = some l := by
  have deeper : v.Within 255 := below.mono (by decide)
  obtain ⟨l, tokens, made, isItem⟩ := readsBack data deeper
  exact ⟨l, made, Literal.parse?_eq_some isItem (trim_repr data)⟩

theorem parse?_repr_pair :
    ∃ l, (tuple [str "it's", list #[int (-1), float 0.5]]).literal? = some l ∧
      Literal.parse? (tuple [str "it's", list #[int (-1), float 0.5]]).repr false = some l := by
  have numbers : IsData (list #[int (-1), float 0.5]) :=
    .list (by simp [IsData.int, IsData.float])
  have data : IsData (tuple [str "it's", list #[int (-1), float 0.5]]) :=
    .tuple (by simp [IsData.str, numbers])
  exact parse?_repr data rfl false

end Value

end DocExamples.Script
