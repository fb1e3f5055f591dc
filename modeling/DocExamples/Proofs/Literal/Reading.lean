import DocExamples.Literal.Reader
import DocExamples.Proofs.Literal.Scanning
/-!
Tokens of values that are read as literals, and the containers that are put together from them.
-/
namespace DocExamples.Literal

open Text Token

variable {namedTuples : Bool} {depth : Nat}

/-- The tokens are read as the literal, whatever follows but for an opening parenthesis, which
would make a name that of a call. They start neither with a closing bracket nor with nothing. -/
structure Reads (namedTuples : Bool) (depth : Nat) (tokens : List Token) (l : Literal) : Prop where
  value : ∀ rest, rest.head? ≠ some .leftParen →
    value namedTuples depth (tokens ++ rest) = some (l, rest)
  starts : ∃ token rest, tokens = token :: rest ∧
    token ∉ [Token.rightBracket, .rightParen, .rightBrace]

/-! ### Steps of readers -/

theorem bind_of_some {α β : Type} {x : Reader α} {f : α → Reader β} {a : α}
    {tokens rest : List Token} (given : x tokens = some (a, rest)) :
    (x >>= f) tokens = f a rest := by
  change (x tokens).bind (fun p => f p.1 p.2) = _
  rw [given]
  rfl

theorem bind_of_none {α β : Type} {x : Reader α} {f : α → Reader β} {tokens : List Token}
    (failed : x tokens = none) : (x >>= f) tokens = none := by
  change (x tokens).bind (fun p => f p.1 p.2) = _
  rw [failed]
  rfl

theorem get_eq (tokens : List Token) :
    (get : Reader (List Token)) tokens = some (tokens, tokens) := rfl

theorem pure_eq {α : Type} (a : α) (tokens : List Token) :
    (pure a : Reader α) tokens = some (a, tokens) := rfl

theorem set_eq (tokens rest : List Token) :
    (set rest : Reader PUnit) tokens = some (.unit, rest) := rfl

theorem left_eq (tokens : List Token) : Reader.left tokens = some (tokens.length, tokens) := rfl

theorem eat_same (token : Token) (rest : List Token) :
    Reader.eat token (token :: rest) = some (true, rest) := by
  simp [Reader.eat]

theorem eat_other {token other : Token} (different : other ≠ token) (rest : List Token) :
    Reader.eat token (other :: rest) = some (false, other :: rest) := by
  simp [Reader.eat, different]

theorem consume_same (token : Token) (rest : List Token) :
    Reader.consume token (token :: rest) = some ((), rest) := bind_of_some (eat_same token rest)

/-! ### Parts one after another -/

/-- What stands between parts, apart from blanks. -/
inductive Gap where
  | comma
  | nothing

namespace Gap

@[simp]
def chars : Gap → List Char
  | comma => [',']
  | nothing => []

@[simp]
def tokens : Gap → List Token
  | comma => [.comma]
  | nothing => []

end Gap

/-- A text of parts with a gap and blanks between them, its tokens, and what the parts are read
as. -/
inductive Separated {α : Type} (gap : Gap) (Part : List Char → List Token → α → Prop) :
    List Char → List Token → List α → Prop where
  | nil : Separated gap Part [] [] []
  | last {text : List Char} {tokens : List Token} {a : α} (part : Part text tokens a) :
    Separated gap Part text tokens [a]
  | cons {text blanks more : List Char} {tokens others : List Token} {a b : α} {rest : List α}
    (between : IsBlanks blanks) (part : Part text tokens a)
    (later : Separated gap Part more others (b :: rest)) :
    Separated gap Part (text ++ (gap.chars ++ (blanks ++ more)))
      (tokens ++ (gap.tokens ++ others)) (a :: b :: rest)

section

variable {α : Type} {gap : Gap} {Part : List Char → List Token → α → Prop} {text : List Char}
  {tokens : List Token}

theorem Separated.scans (scans : ∀ text tokens a, Part text tokens a → Scans text tokens)
    {items : List α} (separated : Separated gap Part text tokens items) : Scans text tokens := by
  induction separated with
  | nil => exact fun rest more _ later => later
  | last part => exact scans _ _ _ part
  | cons between part later ih =>
    intro rest more delimited scanned
    have after := between.scanned (ih rest more delimited scanned)
    simp only [List.append_assoc] at after ⊢
    cases gap with
    | comma =>
      exact scans _ _ _ part _ _ (delimited_cons (by decide)) (.symbol (by decide) rfl after)
    | nothing => exact scans _ _ _ part _ _ (between.delimited _) after

theorem Separated.imp {Part' : List Char → List Token → α → Prop}
    (each : ∀ text tokens a, Part text tokens a → Part' text tokens a) {items : List α}
    (separated : Separated gap Part text tokens items) : Separated gap Part' text tokens items := by
  induction separated with
  | nil => exact .nil
  | last part => exact .last (each _ _ _ part)
  | cons between part later ih => exact .cons between (each _ _ _ part) ih

theorem Separated.tokens_nil (separated : Separated gap Part text tokens []) : tokens = [] := by
  cases separated
  rfl

theorem Separated.single {a : α} (separated : Separated gap Part text tokens [a]) :
    Part text tokens a := by
  cases separated with
  | last part => exact part

/-- There are at least as many tokens as items. -/
theorem Separated.length_le (some : ∀ text tokens a, Part text tokens a → 0 < tokens.length)
    {items : List α} (separated : Separated gap Part text tokens items) :
    items.length ≤ tokens.length := by
  induction separated with
  | nil => exact Nat.le_refl 0
  | last part => exact some _ _ _ part
  | cons between part later ih =>
    have filled := some _ _ _ part
    simp only [List.length_append, List.length_cons] at ih ⊢
    omega

/-- Parts that are read, joined by a separator, are a text of parts. -/
theorem separated_intercalate {separator : String} {blanks : List Char} (between : IsBlanks blanks)
    (shape : separator.toList = gap.chars ++ blanks) {texts : List String} {items : List α}
    (each : List.Forall₂ (fun text a => ∃ tokens, Part text.toList tokens a) texts items) :
    ∃ tokens, Separated gap Part (separator.intercalate texts).toList tokens items := by
  induction each with
  | nil => exact ⟨[], .nil⟩
  | @cons text a texts items isPart each ih =>
    obtain ⟨tokens, part⟩ := isPart
    cases each with
    | nil => exact ⟨tokens, .last part⟩
    | @cons next b texts items isNext each =>
      obtain ⟨others, later⟩ := ih
      have whole : (separator.intercalate (text :: next :: texts)).toList = text.toList ++
          (gap.chars ++ (blanks ++ (separator.intercalate (next :: texts)).toList)) := by
        rw [String.intercalate_cons_cons]
        simp [shape]
      rw [whole]
      exact ⟨_, .cons between part later⟩

end

def IsItem (namedTuples : Bool) (depth : Nat) (text : List Char) (tokens : List Token)
    (l : Literal) : Prop := Scans text tokens ∧ Reads namedTuples depth tokens l

/-- The text of a key and a value with a colon between them. -/
def IsEntry (namedTuples : Bool) (depth : Nat) (text : List Char) (tokens : List Token)
    (entry : Literal × Literal) : Prop :=
  ∃ keyText valueText keyTokens valueTokens, text = keyText ++ ':' :: ' ' :: valueText ∧
    tokens = keyTokens ++ .colon :: valueTokens ∧
    IsItem namedTuples depth keyText keyTokens entry.1 ∧
    IsItem namedTuples depth valueText valueTokens entry.2

theorem IsEntry.scans {text : List Char} {tokens : List Token} {entry : Literal × Literal}
    (isEntry : IsEntry namedTuples depth text tokens entry) : Scans text tokens := by
  obtain ⟨keyText, valueText, keyTokens, valueTokens, rfl, rfl, key, value⟩ := isEntry
  intro rest more delimited scanned
  rw [List.append_assoc, List.append_assoc]
  apply key.1 _ _ (delimited_cons (by decide))
  exact Scanned.symbol (by decide) rfl (.skip rfl (value.1 rest more delimited scanned))

theorem Reads.length_pos {tokens : List Token} {l : Literal}
    (reads : Reads namedTuples depth tokens l) : 0 < tokens.length := by
  obtain ⟨token, rest, rfl, -⟩ := reads.starts
  exact Nat.succ_pos _

theorem IsEntry.length_pos {text : List Char} {tokens : List Token} {entry : Literal × Literal}
    (isEntry : IsEntry namedTuples depth text tokens entry) : 0 < tokens.length := by
  obtain ⟨keyText, valueText, keyTokens, valueTokens, rfl, rfl, key, value⟩ := isEntry
  rw [List.length_append]
  exact Nat.add_pos_left key.2.length_pos _

theorem Reads.eat_close {tokens : List Token} {l : Literal} {close : Token}
    (reads : Reads namedTuples depth tokens l)
    (closes : close ∈ [Token.rightBracket, .rightParen, .rightBrace]) (rest : List Token) :
    Reader.eat close (tokens ++ rest) = some (false, tokens ++ rest) := by
  obtain ⟨token, others, rfl, opens⟩ := reads.starts
  exact eat_other (fun same => opens (by rwa [same])) _

/-- What may close brackets is neither a comma nor an opening parenthesis. -/
theorem of_closes {close : Token} (closes : close ∈ [Token.rightBracket, .rightParen, .rightBrace]) :
    close ≠ .comma ∧ close ≠ .leftParen := by
  constructor
  · rintro rfl
    revert closes
    decide
  · rintro rfl
    revert closes
    decide

theorem sequenceLoop_items {text : List Char} {tokens : List Token} {items : List Literal}
    (separated : Separated .comma (IsItem namedTuples depth) text tokens items) {close : Token}
    (closes : close ∈ [Token.rightBracket, .rightParen, .rightBrace]) {fuel : Nat}
    (enough : items.length < fuel) (rest : List Token) :
    sequenceLoop (value namedTuples depth) close fuel (tokens ++ close :: rest) =
      some (items, rest) := by
  obtain ⟨notComma, notParen⟩ := of_closes closes
  induction separated generalizing fuel with
  | nil =>
    cases fuel with
    | zero => cases enough
    | succ fuel => exact (bind_of_some (eat_same close rest)).trans rfl
  | last part =>
    cases fuel with
    | zero => cases enough
    | succ fuel =>
      refine (bind_of_some (part.2.eat_close closes _)).trans ?_
      refine (bind_of_some (part.2.value (close :: rest) (by simpa using notParen))).trans ?_
      refine (bind_of_some (eat_other notComma rest)).trans ?_
      exact (bind_of_some (consume_same close rest)).trans rfl
  | cons _ part later ih =>
    cases fuel with
    | zero => cases enough
    | succ fuel =>
      rw [List.append_assoc]
      refine (bind_of_some (part.2.eat_close closes _)).trans ?_
      refine (bind_of_some (part.2.value _ (by simp))).trans ?_
      refine (bind_of_some (eat_same .comma _)).trans ?_
      exact (bind_of_some (ih (Nat.lt_of_succ_lt_succ enough))).trans rfl

theorem dictLoop_entries {text : List Char} {tokens : List Token} {entries : List (Literal × Literal)}
    (separated : Separated .comma (IsEntry namedTuples depth) text tokens entries) {fuel : Nat}
    (enough : entries.length < fuel) (rest : List Token) :
    dictLoop (value namedTuples depth) fuel (tokens ++ .rightBrace :: rest) =
      some (entries, rest) := by
  have closes : Token.rightBrace ∈ [Token.rightBracket, .rightParen, .rightBrace] := by decide
  induction separated generalizing fuel with
  | nil =>
    cases fuel with
    | zero => cases enough
    | succ fuel => exact (bind_of_some (eat_same .rightBrace rest)).trans rfl
  | last part =>
    cases fuel with
    | zero => cases enough
    | succ fuel =>
      obtain ⟨_, _, keyTokens, valueTokens, -, rfl, key, value⟩ := part
      rw [List.append_assoc, List.cons_append]
      refine (bind_of_some (key.2.eat_close closes _)).trans ?_
      refine (bind_of_some (key.2.value _ (by simp))).trans ?_
      refine (bind_of_some (consume_same .colon _)).trans ?_
      refine (bind_of_some (value.2.value _ (by simp))).trans ?_
      refine (bind_of_some (eat_other (by decide) rest)).trans ?_
      exact (bind_of_some (consume_same .rightBrace rest)).trans rfl
  | cons _ part later ih =>
    cases fuel with
    | zero => cases enough
    | succ fuel =>
      obtain ⟨_, _, keyTokens, valueTokens, -, rfl, key, value⟩ := part
      rw [List.append_assoc, List.append_assoc, List.cons_append]
      refine (bind_of_some (key.2.eat_close closes _)).trans ?_
      refine (bind_of_some (key.2.value _ (by simp))).trans ?_
      refine (bind_of_some (consume_same .colon _)).trans ?_
      refine (bind_of_some (value.2.value _ (by simp))).trans ?_
      refine (bind_of_some (eat_same .comma _)).trans ?_
      exact (bind_of_some (ih (Nat.lt_of_succ_lt_succ enough))).trans rfl

/-! ### Containers -/

theorem sequence_items {text : List Char} {tokens : List Token} {items : List Literal}
    (separated : Separated .comma (IsItem namedTuples depth) text tokens items) (close : Token)
    (closes : close ∈ [Token.rightBracket, .rightParen, .rightBrace]) (rest : List Token) :
    sequence (value namedTuples depth) close (tokens ++ close :: rest) = some (items, rest) := by
  have bound := separated.length_le fun _ _ _ item => item.2.length_pos
  refine sequenceLoop_items separated closes ?_ rest
  rw [List.length_append]
  omega

theorem value_leftBracket (rest : List Token) :
    value namedTuples (depth + 1) (.leftBracket :: rest) =
      (sequence (value namedTuples depth) .rightBracket >>= fun items => pure (.list items)) rest :=
  rfl

theorem value_leftParen (rest : List Token) :
    value namedTuples (depth + 1) (.leftParen :: rest) =
      parenthesized (value namedTuples depth) rest := rfl

theorem value_leftBrace (rest : List Token) :
    value namedTuples (depth + 1) (.leftBrace :: rest) =
      (dictLoop (value namedTuples depth) (rest.length + 1) >>= fun entries =>
        pure (.dict entries)) rest := rfl

theorem reads_list {text : List Char} {tokens : List Token} {items : List Literal}
    (separated : Separated .comma (IsItem namedTuples depth) text tokens items) :
    Reads namedTuples (depth + 1) (.leftBracket :: (tokens ++ [.rightBracket])) (.list items) where
  value rest _ := by
    rw [List.cons_append, List.append_assoc, value_leftBracket]
    exact bind_of_some (sequence_items separated .rightBracket (by decide) rest)
  starts := ⟨_, _, rfl, by decide⟩

theorem isItem_list {text : List Char} {tokens : List Token} {items : List Literal}
    (separated : Separated .comma (IsItem namedTuples depth) text tokens items) :
    IsItem namedTuples (depth + 1) ('[' :: (text ++ [']']))
      (.leftBracket :: (tokens ++ [.rightBracket])) (.list items) := by
  have scans := separated.scans fun _ _ _ item => item.1
  refine ⟨?_, reads_list separated⟩
  exact (scans.after (by decide) (by decide) rfl).before (by decide) rfl

theorem reads_dict {text : List Char} {tokens : List Token} {entries : List (Literal × Literal)}
    (separated : Separated .comma (IsEntry namedTuples depth) text tokens entries) :
    Reads namedTuples (depth + 1) (.leftBrace :: (tokens ++ [.rightBrace])) (.dict entries) where
  value rest _ := by
    have bound := separated.length_le fun _ _ _ entry => entry.length_pos
    rw [List.cons_append, List.append_assoc, value_leftBrace]
    refine bind_of_some (dictLoop_entries separated ?_ rest)
    rw [List.length_append]
    omega
  starts := ⟨_, _, rfl, by decide⟩

theorem reads_emptyTuple :
    Reads namedTuples (depth + 1) [.leftParen, .rightParen] (.tuple []) where
  value rest _ := by
    rw [List.cons_append, value_leftParen]
    exact bind_of_some (eat_same .rightParen rest)
  starts := ⟨_, _, rfl, by decide⟩

/-- A comma stands after the item of a tuple with one item. -/
theorem reads_singleton {tokens : List Token} {l : Literal}
    (item : Reads namedTuples depth tokens l) :
    Reads namedTuples (depth + 1) (.leftParen :: (tokens ++ [.comma, .rightParen])) (.tuple [l]) where
  value rest _ := by
    have none : Separated .comma (IsItem namedTuples depth) [] [] [] := .nil
    rw [List.cons_append, List.append_assoc, value_leftParen]
    refine (bind_of_some (item.eat_close (by decide) _)).trans ?_
    refine (bind_of_some (item.value _ (by simp))).trans ?_
    refine (bind_of_some (eat_other (by decide) _)).trans ?_
    refine (bind_of_some (consume_same .comma _)).trans ?_
    exact bind_of_some (sequence_items none .rightParen (by decide) rest)
  starts := ⟨_, _, rfl, by decide⟩

theorem reads_tuple {text : List Char} {tokens : List Token} {a b : Literal} {items : List Literal}
    (separated : Separated .comma (IsItem namedTuples depth) text tokens (a :: b :: items)) :
    Reads namedTuples (depth + 1) (.leftParen :: (tokens ++ [.rightParen]))
      (.tuple (a :: b :: items)) where
  value rest _ := by
    cases separated with
    | cons _ part later =>
      rw [List.cons_append, List.append_assoc, List.append_assoc, value_leftParen]
      refine (bind_of_some (part.2.eat_close (by decide) _)).trans ?_
      refine (bind_of_some (part.2.value _ (by simp))).trans ?_
      refine (bind_of_some (eat_other (by decide) _)).trans ?_
      refine (bind_of_some (consume_same .comma _)).trans ?_
      exact bind_of_some (sequence_items later .rightParen (by decide) rest)
  starts := ⟨_, _, rfl, by decide⟩

/-! ### Texts -/

theorem scan_nil {text : List Char} (none : text = []) : scan text = some [] := by
  rw [none]
  rfl

/-- A text that is one value, without blanks at its ends, shows that value. -/
theorem parse?_eq_some {text : String} {tokens : List Token} {l : Literal}
    (isItem : IsItem namedTuples maxDepth text.toList tokens l)
    (trimmed : trim text.toList = text.toList) : parse? text namedTuples = some l := by
  have scanned := isItem.1.scanned.scan
  have nonempty : text.toList.isEmpty = false := by
    rw [List.isEmpty_eq_false_iff]
    intro none
    rw [scan_nil none, Option.some.injEq] at scanned
    exact absurd isItem.2.length_pos (by simp [← scanned])
  have read : document namedTuples tokens = some (l, []) := by
    have value := isItem.2.value [] (by simp)
    rw [List.append_nil] at value
    exact (bind_of_some value).trans rfl
  unfold parse?
  simp [trimmed, nonempty, scanned, readAll?, read]

end DocExamples.Literal
