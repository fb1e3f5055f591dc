import DocExamples.Proofs.Literal.Nesting
import DocExamples.Proofs.Literal.Printed
/-!
How deep brackets nest in what is read as a literal, in a logic of the brackets that a reader takes.
A value nests as deep as its reader may go. A printed array nests one level deeper, since its own
bracket is not counted.
-/
namespace DocExamples.Literal

def bracketsOf (tokens : List Token) : List Bracket := tokens.filterMap Token.bracket?

theorem bracketsOf_append (first second : List Token) :
    bracketsOf (first ++ second) = bracketsOf first ++ bracketsOf second :=
  List.filterMap_append ..

/-- If the reader succeeds on the tokens, those that it takes have brackets as wanted. -/
def TakesFrom {α : Type} (wanted : List Bracket → Prop) (tokens : List Token) (p : Reader α) :
    Prop :=
  ∀ a rest, p tokens = some (a, rest) →
    ∃ taken, tokens = taken ++ rest ∧ wanted (bracketsOf taken)

/-- Wherever the reader succeeds, it takes brackets as wanted. -/
abbrev TakesBrackets {α : Type} (wanted : List Bracket → Prop) (p : Reader α) : Prop :=
  ∀ tokens, TakesFrom wanted tokens p

/-- Brackets that close one that was open before. -/
def Closes (depth : Nat) (brackets : List Bracket) : Prop :=
  ∃ inside, Nested depth inside ∧ brackets = inside ++ [.closing]

theorem bracketsOf_single (token : Token) : bracketsOf [token] = token.bracket?.toList := by
  rw [bracketsOf, List.filterMap_cons]
  cases token.bracket? <;> rfl

theorem Closes.prepend {depth : Nat} {first second : List Bracket} (nested : Nested depth first)
    (closes : Closes depth second) : Closes depth (first ++ second) := by
  obtain ⟨inside, inner, rfl⟩ := closes
  exact ⟨first ++ inside, nested.append inner, (List.append_assoc ..).symm⟩

theorem Closes.wrap {depth : Nat} {brackets : List Bracket} (closes : Closes depth brackets) :
    Nested (depth + 1) (.opening :: brackets) := by
  obtain ⟨inside, inner, rfl⟩ := closes
  exact .wrap inner .nil

namespace TakesFrom

variable {α β : Type} {wanted : List Bracket → Prop} {tokens : List Token}

theorem pure {a : α} (met : wanted []) : TakesFrom wanted tokens (pure a) := by
  intro _ _ given
  cases given
  exact ⟨[], rfl, met⟩

theorem mono {first : List Bracket → Prop} {p : Reader α} (takes : TakesFrom first tokens p)
    (implies : ∀ brackets, first brackets → wanted brackets) : TakesFrom wanted tokens p := by
  intro a rest given
  obtain ⟨taken, whole, met⟩ := takes a rest given
  exact ⟨taken, whole, implies _ met⟩

theorem fail : TakesFrom wanted tokens (Reader.fail : Reader α) := fun _ _ given => nomatch given

theorem bind {first : List Bracket → Prop} {p : Reader α} {f : α → Reader β}
    (here : TakesFrom first tokens p)
    (next : ∀ a brackets, first brackets →
      TakesBrackets (fun more => wanted (brackets ++ more)) (f a)) :
    TakesFrom wanted tokens (p >>= f) := by
  intro b rest given
  obtain ⟨⟨a, mid⟩, read, later⟩ := Option.bind_eq_some_iff.mp given
  obtain ⟨taken, rfl, met⟩ := here a mid read
  obtain ⟨more, rfl, metLater⟩ := next a _ met mid b rest later
  refine ⟨taken ++ more, (List.append_assoc ..).symm, ?_⟩
  rw [bracketsOf_append]
  exact metLater

theorem map {first : List Bracket → Prop} {p : Reader α} {f : α → β}
    (here : TakesFrom first tokens p) (implies : ∀ brackets, first brackets → wanted brackets) :
    TakesFrom wanted tokens (do return f (← p)) := by
  refine .bind here fun a brackets met rest => .pure ?_
  rw [List.append_nil]
  exact implies brackets met

/-- A step that leaves the tokens as they are. -/
theorem stay {p : Reader α} {f : α → Reader β} {a : α} (run : p tokens = some (a, tokens))
    (next : TakesFrom wanted tokens (f a)) : TakesFrom wanted tokens (p >>= f) := by
  intro b rest given
  obtain ⟨⟨_, _⟩, read, later⟩ := Option.bind_eq_some_iff.mp given
  rw [run] at read
  cases read
  exact next b rest later

theorem get {f : List Token → Reader β} (next : TakesFrom wanted tokens (f tokens)) :
    TakesFrom wanted tokens (MonadState.get >>= f) := stay rfl next

theorem left {f : Nat → Reader β} (next : TakesFrom wanted tokens (f tokens.length)) :
    TakesFrom wanted tokens (Reader.left >>= f) := stay rfl next

/-- Tokens that were looked at are taken. -/
theorem set {taken rest : List Token} {f : PUnit → Reader β}
    (next : TakesFrom (fun more => wanted (bracketsOf taken ++ more)) rest (f .unit)) :
    TakesFrom wanted (taken ++ rest) (MonadStateOf.set rest >>= f) := by
  intro b after given
  obtain ⟨more, rfl, met⟩ := next b after given
  refine ⟨taken ++ more, (List.append_assoc ..).symm, ?_⟩
  rw [bracketsOf_append]
  exact met

theorem setOne {token : Token} {rest : List Token} {f : PUnit → Reader β}
    (next : TakesFrom (fun more => wanted (token.bracket?.toList ++ more)) rest (f .unit)) :
    TakesFrom wanted (token :: rest) (MonadStateOf.set rest >>= f) := by
  rw [← bracketsOf_single] at next
  have taken := set next
  exact taken

theorem setTwo {first second : Token} {rest : List Token} {f : PUnit → Reader β}
    (next : TakesFrom (fun more => wanted (bracketsOf [first, second] ++ more)) rest (f .unit)) :
    TakesFrom wanted (first :: second :: rest) (MonadStateOf.set rest >>= f) := by
  have taken := set next
  exact taken

theorem eat {token : Token} {f : Bool → Reader β}
    (taken : TakesBrackets (fun more => wanted (token.bracket?.toList ++ more)) (f true))
    (other : TakesFrom wanted tokens (f false)) :
    TakesFrom wanted tokens (Reader.eat token >>= f) := by
  cases tokens with
  | nil => exact stay rfl other
  | cons first rest =>
    by_cases same : first = token
    · intro b after given
      have run : Reader.eat token (first :: rest) = some (true, rest) := if_pos same
      obtain ⟨⟨_, _⟩, read, later⟩ := Option.bind_eq_some_iff.mp given
      rw [run] at read
      cases read
      obtain ⟨more, rfl, met⟩ := taken rest b after later
      refine ⟨token :: more, by rw [same, List.cons_append], ?_⟩
      rw [← List.singleton_append, bracketsOf_append, bracketsOf_single]
      exact met
    · exact stay (if_neg same) other

theorem consume {token : Token} {f : Unit → Reader β}
    (next : TakesBrackets (fun more => wanted (token.bracket?.toList ++ more)) (f ())) :
    TakesFrom wanted tokens (Reader.consume token >>= f) := by
  rw [Reader.consume, bind_assoc]
  refine eat (fun rest => ?_) ?_
  · exact stay (a := ()) rfl (next rest)
  · intro b rest given
    cases given

theorem eatPlain {token : Token} (plain : token.bracket? = none) {f : Bool → Reader β}
    (taken : TakesBrackets wanted (f true)) (other : TakesFrom wanted tokens (f false)) :
    TakesFrom wanted tokens (Reader.eat token >>= f) := by
  apply eat
  · rw [plain]
    exact taken
  · exact other

theorem consumePlain {token : Token} (plain : token.bracket? = none) {f : Unit → Reader β}
    (next : TakesBrackets wanted (f ())) :
    TakesFrom wanted tokens (Reader.consume token >>= f) := by
  apply consume
  rw [plain]
  exact next

/-- A computation without tokens. -/
theorem lift {found : Option α} {f : α → Reader β} (next : ∀ a, TakesFrom wanted tokens (f a)) :
    TakesFrom wanted tokens ((liftM found : Reader α) >>= f) := by
  cases found with
  | none =>
    intro b rest given
    cases given
  | some a => exact stay rfl (next a)

end TakesFrom

variable {depth : Nat} {value row : Reader Literal} {namedTuples : Bool}

/-! ### Readers -/

/-- A number without its sign, or a constant. -/
def unsigned (negative : Bool) : Reader Literal := do
  match ← get with
  | .int digits :: rest =>
    set rest
    return signed negative (wholeNumber digits)
  | .float chars :: rest =>
    set rest
    return signed negative ⟨← Decimal.readFloat? chars, .float⟩
  | .name chars :: rest =>
    set rest
    constant negative chars
  | _ => Reader.fail

theorem scalar_eq : scalar = (do
    if ← Reader.eat .minus then unsigned true
    else
      let _ ← Reader.eat .plus
      unsigned false) := by
  unfold scalar
  congr
  funext negative
  cases negative <;> rfl

theorem takes_unsigned (negative : Bool) : TakesBrackets (Nested depth) (unsigned negative) := by
  intro tokens
  refine .get ?_
  split
  · exact .setOne (.pure .nil)
  · exact .setOne (.lift fun _ => .pure .nil)
  · next chars rest =>
    refine .setOne ?_
    rw [← bind_pure (liftM (constant negative chars) : Reader Literal)]
    exact .lift fun _ => .pure .nil
  · exact .fail

theorem takes_scalar : TakesBrackets (Nested depth) scalar := by
  intro tokens
  rw [scalar_eq]
  refine .eatPlain rfl (fun rest => ?_) ?_
  · exact takes_unsigned true rest
  · exact .eatPlain rfl (takes_unsigned false) (takes_unsigned false tokens)

theorem takes_sequenceLoop (inner : TakesBrackets (Nested depth) value) {close : Token}
    (closes : close.bracket? = some .closing) (fuel : Nat) :
    TakesBrackets (Closes depth) (sequenceLoop value close fuel) := by
  induction fuel with
  | zero => exact fun _ => .fail
  | succ fuel ih =>
    intro tokens
    rw [sequenceLoop]
    refine .eat (fun rest => ?_) ?_
    · rw [if_pos rfl, closes]
      exact .pure ⟨[], .nil, rfl⟩
    · rw [if_neg Bool.false_ne_true]
      refine .bind (inner tokens) fun item brackets nested rest => ?_
      refine .eatPlain rfl (fun rest => ?_) ?_
      · rw [if_pos rfl]
        exact .map (ih rest) fun more later => later.prepend nested
      · rw [if_neg Bool.false_ne_true]
        refine .consume fun _ => .pure ?_
        rw [closes]
        exact ⟨brackets, nested, rfl⟩

theorem takes_sequence (inner : TakesBrackets (Nested depth) value) {close : Token}
    (closes : close.bracket? = some .closing) :
    TakesBrackets (Closes depth) (sequence value close) :=
  fun tokens => .left (takes_sequenceLoop inner closes _ tokens)

theorem takes_parenthesized (inner : TakesBrackets (Nested depth) value) :
    TakesBrackets (Closes depth) (parenthesized value) := by
  intro tokens
  unfold parenthesized
  refine .eat (fun rest => ?_) ?_
  · rw [if_pos rfl]
    exact .pure ⟨[], .nil, rfl⟩
  · rw [if_neg Bool.false_ne_true]
    refine .bind (inner tokens) fun first brackets nested rest => ?_
    refine .eat (fun rest => ?_) ?_
    · rw [if_pos rfl]
      exact .pure ⟨brackets, nested, rfl⟩
    · rw [if_neg Bool.false_ne_true]
      refine .consumePlain rfl fun rest => ?_
      exact .map (takes_sequence inner rfl rest) fun more later => later.prepend nested

theorem takes_dictLoop (inner : TakesBrackets (Nested depth) value) (fuel : Nat) :
    TakesBrackets (Closes depth) (dictLoop value fuel) := by
  induction fuel with
  | zero => exact fun _ => .fail
  | succ fuel ih =>
    intro tokens
    rw [dictLoop]
    refine .eat (fun rest => ?_) ?_
    · rw [if_pos rfl]
      exact .pure ⟨[], .nil, rfl⟩
    · rw [if_neg Bool.false_ne_true]
      refine .bind (inner tokens) fun key brackets nested rest => ?_
      refine .consumePlain rfl fun rest => ?_
      refine .bind (inner rest) fun item more nestedMore rest => ?_
      have both : Nested depth (brackets ++ more) := nested.append nestedMore
      refine .eatPlain rfl (fun rest => ?_) ?_
      · rw [if_pos rfl]
        refine .map (ih rest) fun last later => ?_
        rw [← List.append_assoc]
        exact later.prepend both
      · rw [if_neg Bool.false_ne_true]
        refine .consume fun _ => .pure ?_
        rw [← List.append_assoc]
        exact ⟨brackets ++ more, both, rfl⟩

theorem takes_keywordValue (inner : TakesBrackets (Nested depth) value) :
    TakesBrackets (Nested depth) (keywordValue value) := by
  intro tokens
  refine .get ?_
  split
  · next chars rest =>
    split
    · exact .setOne (.pure .nil)
    · exact inner _
  · exact inner _

theorem takes_argumentsLoop (inner : TakesBrackets (Nested depth) value) (acc : Arguments)
    (fuel : Nat) : TakesBrackets (Closes depth) (argumentsLoop value acc fuel) := by
  induction fuel generalizing acc with
  | zero => exact fun _ => .fail
  | succ fuel ih =>
    have onward (acc : Arguments) {brackets : List Bracket} (nested : Nested depth brackets) :
        TakesBrackets (fun more => Closes depth (brackets ++ more)) (do
          if ← Reader.eat .comma then argumentsLoop value acc fuel
          else
            Reader.consume .rightParen
            return acc) := by
      intro tokens
      refine .eatPlain rfl (fun rest => ?_) ?_
      · rw [if_pos rfl]
        exact .mono (ih acc rest) fun more closes => closes.prepend nested
      · rw [if_neg Bool.false_ne_true]
        exact .consume fun _ => .pure ⟨brackets, nested, rfl⟩
    intro tokens
    rw [argumentsLoop]
    refine .eat (fun rest => ?_) ?_
    · rw [if_pos rfl]
      exact .pure ⟨[], .nil, rfl⟩
    · rw [if_neg Bool.false_ne_true]
      refine .get ?_
      dsimp only
      split
      · next key rest =>
        refine .setTwo (.bind (takes_keywordValue inner rest) fun item brackets nested => ?_)
        exact onward _ nested
      · split
        · intro found after given
          cases given
        · exact .bind (inner _) fun item brackets nested => onward _ nested

theorem takes_item (inner : TakesBrackets (Nested depth) value) :
    TakesBrackets (Nested (depth + 1)) (item namedTuples value) := by
  intro tokens
  refine .get ?_
  split
  · next rest =>
    exact .setOne (.map (takes_sequence inner rfl rest) fun brackets closes => closes.wrap)
  · next rest =>
    exact .setOne (.mono (takes_parenthesized inner rest) fun brackets closes => closes.wrap)
  · next rest =>
    exact .setOne (.map (takes_dictLoop inner _ rest) fun brackets closes => closes.wrap)
  · exact .setOne (.pure .nil)
  · exact .setOne (.pure .nil)
  · exact .setOne (.pure .nil)
  · next name rest =>
    refine .setTwo (.bind (takes_argumentsLoop inner .none _ rest) ?_)
    intro args brackets closes _
    split
    · refine .pure ?_
      rw [List.append_nil]
      exact closes.wrap
    · exact .fail
  · exact takes_scalar _

theorem takes_value (depth : Nat) :
    TakesBrackets (Nested depth) (Literal.value namedTuples depth) := by
  induction depth with
  | zero => exact fun _ => .fail
  | succ depth ih => exact takes_item ih

theorem takes_documentLoop (inner : TakesBrackets (Nested depth) value) (fuel : Nat) :
    TakesBrackets (Nested depth) (documentLoop value fuel) := by
  induction fuel with
  | zero => exact fun _ => .fail
  | succ fuel ih =>
    intro tokens
    rw [documentLoop]
    refine .eatPlain rfl (fun rest => ?_) ?_
    · rw [if_pos rfl]
      refine .get ?_
      split
      · exact .pure .nil
      · refine .bind (inner rest) fun item brackets nested rest => ?_
        exact .map (ih rest) fun more later => nested.append later
    · rw [if_neg Bool.false_ne_true]
      exact .pure .nil

/-- The strict reading takes brackets within the limit. -/
theorem takes_document : TakesBrackets (Nested maxDepth) (document namedTuples) := by
  intro tokens
  refine .bind (takes_value maxDepth tokens) fun first brackets nested rest => .get ?_
  split
  · refine .pure ?_
    rw [List.append_nil]
    exact nested
  · refine .left (.map (takes_documentLoop (takes_value maxDepth) _ rest) ?_)
    exact fun more later => nested.append later

theorem takes_printedLoop (inner : TakesBrackets (Nested depth) value)
    (rows : TakesBrackets (Nested depth) row) (fuel : Nat) :
    TakesBrackets (Closes depth) (printedLoop value row fuel) := by
  induction fuel with
  | zero => exact fun _ => .fail
  | succ fuel ih =>
    have onward (item : Literal) {brackets : List Bracket} (nested : Nested depth brackets) :
        TakesBrackets (fun more => Closes depth (brackets ++ more)) (do
          return item :: (← printedLoop value row fuel)) := by
      intro tokens
      exact .map (ih tokens) fun more later => later.prepend nested
    intro tokens
    rw [printedLoop]
    refine .get ?_
    split
    · exact .setOne (.pure ⟨[], .nil, rfl⟩)
    · exact .setOne (ih _)
    · exact .bind (rows _) fun item brackets nested => onward item nested
    · exact .bind (inner _) fun item brackets nested => onward item nested

/-- A printed array nests one level deeper than its rows may. -/
theorem takes_printedSequence (depth : Nat) :
    TakesBrackets (Nested (depth + 1)) (printedSequence namedTuples depth) := by
  induction depth with
  | zero =>
    intro tokens
    have none : TakesBrackets (Nested 0) (Reader.fail : Reader Literal) := fun _ => .fail
    refine .consume fun rest => .left ?_
    exact .map (takes_printedLoop none none _ rest) fun brackets closes => closes.wrap
  | succ depth ih =>
    intro tokens
    refine .consume fun rest => .left ?_
    exact .map (takes_printedLoop (takes_value (depth + 1)) ih _ rest) fun brackets closes =>
      closes.wrap

/-! ### Brackets around nothing -/

/-- `n` brackets inside one another. -/
def nestedBrackets : Nat → List Char
  | 0 => []
  | n + 1 => '[' :: (nestedBrackets n ++ [']'])

def bracketTokens : Nat → List Token
  | 0 => []
  | n + 1 => .leftBracket :: (bracketTokens n ++ [.rightBracket])

/-- The empty list inside `n` lists. -/
def emptyWithin : Nat → Literal
  | 0 => .list []
  | n + 1 => .list [emptyWithin n]

theorem scans_nestedBrackets (n : Nat) : Token.Scans (nestedBrackets n) (bracketTokens n) := by
  induction n with
  | zero => exact fun rest more _ later => later
  | succ n ih => exact (ih.after (by decide) (by decide) rfl).before (by decide) rfl

theorem opens_bracketTokens (n : Nat) (rest : List Token) :
    Opens (bracketTokens (n + 1) ++ rest) := ⟨_, _, rfl, by decide⟩

theorem le_depthFrom (opened : Nat) (brackets : List Bracket) :
    opened ≤ depthFrom opened brackets := by
  induction brackets generalizing opened with
  | nil => exact Nat.le_refl opened
  | cons bracket rest ih =>
    cases bracket with
    | opening => exact Nat.le_of_succ_le (ih (opened + 1))
    | closing => exact Nat.le_max_left _ _

theorem depthFrom_bracketTokens (n opened : Nat) (more : List Bracket) :
    depthFrom opened (bracketsOf (bracketTokens n) ++ more) =
      max (opened + n) (depthFrom opened more) := by
  induction n generalizing opened more with
  | zero => exact (Nat.max_eq_right (le_depthFrom opened more)).symm
  | succ n ih =>
    have split : bracketsOf (bracketTokens (n + 1)) ++ more =
        .opening :: (bracketsOf (bracketTokens n) ++ .closing :: more) := by
      rw [bracketTokens, ← List.singleton_append, bracketsOf_append, bracketsOf_append,
        bracketsOf_single, bracketsOf_single, List.append_assoc, List.append_assoc]
      rfl
    rw [split, depthFrom, ih, depthFrom, Nat.add_sub_cancel]
    omega

/-- A row of rows is read as a printed array. -/
theorem printedSequence_bracketTokens {n depth : Nat} (within : n ≤ depth) (rest : List Token) :
    printedSequence namedTuples depth (bracketTokens (n + 1) ++ rest) =
      some (emptyWithin n, rest) := by
  induction n generalizing depth rest with
  | zero => cases depth <;> rfl
  | succ n ih =>
    cases depth with
    | zero => cases within
    | succ depth =>
      have row : IsPart (Literal.value namedTuples (depth + 1)) (printedSequence namedTuples depth)
          (nestedBrackets (n + 1)) (bracketTokens (n + 1)) (emptyWithin n) :=
        isPart_row (scans_nestedBrackets (n + 1)) (ih (Nat.le_of_succ_le_succ within))
      rw [bracketTokens, List.cons_append, List.append_assoc]
      exact printedSequence_parts (.last row) rest

theorem isItem_nestedBrackets {n depth : Nat} (within : n < depth) :
    IsItem namedTuples depth (nestedBrackets (n + 1)) (bracketTokens (n + 1)) (emptyWithin n) := by
  induction n generalizing depth with
  | zero =>
    cases depth with
    | zero => cases within
    | succ depth => exact isItem_list .nil
  | succ n ih =>
    cases depth with
    | zero => cases within
    | succ depth => exact isItem_list (.last (ih (Nat.lt_of_succ_lt_succ within)))

/-- As a value they are refused if they nest deeper than a value may. -/
theorem value_bracketTokens (depth : Nat) (rest : List Token) :
    Literal.value namedTuples depth (bracketTokens (depth + 1) ++ rest) = none := by
  induction depth generalizing rest with
  | zero => rfl
  | succ depth ih =>
    rw [bracketTokens, List.cons_append, List.append_assoc]
    exact value_of_refused (opens_bracketTokens depth _) (ih _)

theorem flatten_emptyWithin (n : Nat) : flatten (emptyWithin n) = some ([], false) := by
  induction n with
  | zero => rfl
  | succ n ih => simp [emptyWithin, flatten, flattenAll, ih]

theorem exists_inferShape_emptyWithin (n : Nat) : ∃ shape, inferShape (emptyWithin n) = some shape := by
  induction n with
  | zero => exact ⟨[0], rfl⟩
  | succ n ih =>
    obtain ⟨shape, inner⟩ := ih
    exact ⟨1 :: shape, by simp [emptyWithin, inferShape, commonShape, inner]⟩

theorem bracketNesting_nestedBrackets (n : Nat) :
    bracketNesting (String.ofList (nestedBrackets n)) = n := by
  have scanned : Token.scan (nestedBrackets n) = some (bracketTokens n) :=
    (scans_nestedBrackets n).scanned.scan
  have brackets := bracketsIn_of_scanWith scanned []
  have deep := depthFrom_bracketTokens n 0 []
  rw [List.append_nil] at brackets deep
  rw [bracketNesting, String.toList_ofList, brackets]
  simpa [bracketsOf, bracketsIn, depthFrom] using deep

/-! ### Texts -/

theorem nested_of_readAll? {reader : Reader Literal} {wanted : List Bracket → Prop}
    (takes : TakesBrackets wanted reader) {tokens : List Token} {l : Literal}
    (read : readAll? reader tokens = some l) : wanted (bracketsOf tokens) := by
  unfold readAll? at read
  split at read
  · next found run =>
    obtain ⟨taken, whole, met⟩ := takes tokens _ _ run
    rw [List.append_nil] at whole
    rwa [whole]
  · cases read

theorem style_of_arrayLiteral {data l : Literal} {args : Arguments} {style : ArrayStyle}
    (made : arrayLiteral data args style = some l) : ∃ a, l = .array a ∧ a.style = style := by
  obtain ⟨⟨leaves, abbreviated⟩, -, made⟩ := Option.bind_eq_some_iff.mp made
  cases abbreviated with
  | true =>
    obtain ⟨declared, -, made⟩ := Option.bind_eq_some_iff.mp made
    obtain ⟨dtype, -, made⟩ := Option.bind_eq_some_iff.mp made
    cases made
    exact ⟨_, rfl, rfl⟩
  | false =>
    obtain ⟨shape, -, made⟩ := Option.bind_eq_some_iff.mp made
    obtain ⟨declared, -, made⟩ := Option.bind_eq_some_iff.mp made
    obtain ⟨dtype, -, made⟩ := Option.bind_eq_some_iff.mp made
    cases made
    exact ⟨_, rfl, rfl⟩

theorem takes_printedArray : TakesBrackets (Nested (maxDepth + 1)) (printedArray namedTuples) := by
  intro tokens
  refine .bind (takes_printedSequence maxDepth tokens) fun rows brackets nested rest => ?_
  split
  · refine .pure ?_
    rw [List.append_nil]
    exact nested
  · exact .fail

theorem style_of_printedArray {tokens : List Token} {l : Literal}
    (read : readAll? (printedArray namedTuples) tokens = some l) :
    ∃ a, l = .array a ∧ a.style = .printed := by
  unfold readAll? at read
  split at read
  · next found run =>
    cases read
    obtain ⟨⟨rows, rest⟩, -, later⟩ := Option.bind_eq_some_iff.mp run
    cases made : arrayLiteral rows .none .printed with
    | none =>
      dsimp only at later
      rw [made] at later
      cases later
    | some literal =>
      dsimp only at later
      rw [made] at later
      cases later
      exact style_of_arrayLiteral made
  · cases read

theorem trim_nestedBrackets (n : Nat) :
    Text.trim (nestedBrackets (n + 1)) = nestedBrackets (n + 1) := Text.trim_wrapped _ rfl rfl

/-- Within the limit, brackets around nothing are read as lists. -/
theorem parse?_nestedBrackets {n : Nat} (within : n < maxDepth) (namedTuples : Bool) :
    parse? (String.ofList (nestedBrackets (n + 1))) namedTuples = some (emptyWithin n) := by
  have isItem : IsItem namedTuples maxDepth (nestedBrackets (n + 1)) (bracketTokens (n + 1))
      (emptyWithin n) := isItem_nestedBrackets within
  have trimmed := trim_nestedBrackets n
  rw [← String.toList_ofList (l := nestedBrackets (n + 1))] at isItem trimmed
  exact parse?_eq_some isItem trimmed

/-- One level beyond the limit they are read as a printed array. -/
theorem exists_parse?_nestedBrackets (namedTuples : Bool) :
    ∃ a, parse? (String.ofList (nestedBrackets (maxDepth + 1))) namedTuples = some (.array a) := by
  obtain ⟨shape, isShape⟩ := exists_inferShape_emptyWithin maxDepth
  have made : ∃ a, arrayLiteral (emptyWithin maxDepth) .none .printed = some (.array a) := by
    unfold arrayLiteral
    rw [flatten_emptyWithin]
    simp [isShape, Arguments.keyword?, Arguments.none, declaredShape?, dtype?]
  obtain ⟨a, made⟩ := made
  have refused : Literal.value namedTuples maxDepth (bracketTokens (maxDepth + 1)) = none := by
    simpa using value_bracketTokens maxDepth []
  have printed : printedSequence namedTuples maxDepth (bracketTokens (maxDepth + 1)) =
      some (emptyWithin maxDepth, []) := by
    simpa using printedSequence_bracketTokens (Nat.le_refl maxDepth) []
  have chars : (String.ofList (nestedBrackets (maxDepth + 1))).toList =
      nestedBrackets (maxDepth + 1) := String.toList_ofList
  refine ⟨a, parse?_eq_printed ?_ ?_ ?_ ?_ refused printed made⟩
  · rw [chars]
    exact scans_nestedBrackets (maxDepth + 1)
  · rw [chars]
    exact trim_nestedBrackets maxDepth
  · rw [chars, nestedBrackets, List.head?_cons]
  · rw [chars, nestedBrackets, ← List.cons_append, List.getLast?_concat]

/-- How deep the texts nest that are read as literals. -/
structure DepthLimit (namedTuples : Bool) : Prop where
  strict : ∀ text tokens l, Token.scan (Text.trim text.toList) = some tokens →
    readAll? (document namedTuples) tokens = some l → bracketNesting text ≤ maxDepth
  printed : ∀ text tokens l, Token.scan (Text.trim text.toList) = some tokens →
    readAll? (printedArray namedTuples) tokens = some l → bracketNesting text ≤ maxDepth + 1
  /-- One level beyond the limit, only a printed array is read. -/
  read : ∀ text l, parse? text namedTuples = some l →
    bracketNesting text ≤ maxDepth ∨
      bracketNesting text = maxDepth + 1 ∧ ∃ a, l = .array a ∧ a.style = .printed
  refused : ∀ text, maxDepth + 1 < bracketNesting text → parse? text namedTuples = none
  /-- The limit is reached. -/
  reached : ∀ n < maxDepth,
    parse? (String.ofList (nestedBrackets (n + 1))) namedTuples = some (emptyWithin n)

/-- The strict reading nests within the limit, the reading of printed arrays one level beyond it;
deeper text is no literal. -/
theorem depth_limit (namedTuples : Bool) : DepthLimit namedTuples := by
  have strict : ∀ text tokens l, Token.scan (Text.trim text.toList) = some tokens →
      readAll? (document namedTuples) tokens = some l → bracketNesting text ≤ maxDepth := by
    intro text tokens l scanned read
    rw [bracketNesting, bracketsIn_of_scan scanned]
    exact (nested_of_readAll? takes_document read).depth_le
  have printed : ∀ text tokens l, Token.scan (Text.trim text.toList) = some tokens →
      readAll? (printedArray namedTuples) tokens = some l →
      bracketNesting text ≤ maxDepth + 1 := by
    intro text tokens l scanned read
    rw [bracketNesting, bracketsIn_of_scan scanned]
    exact (nested_of_readAll? takes_printedArray read).depth_le
  have read : ∀ text l, parse? text namedTuples = some l →
      bracketNesting text ≤ maxDepth ∨
        bracketNesting text = maxDepth + 1 ∧ ∃ a, l = .array a ∧ a.style = .printed := by
    intro text l given
    unfold parse? at given
    dsimp only at given
    split at given
    · cases given
    · obtain ⟨tokens, scanned, given⟩ := Option.bind_eq_some_iff.mp given
      split at given
      · next found document =>
        exact .inl (strict text tokens found scanned document)
      · split at given
        · have deep := printed text tokens l scanned given
          by_cases within : bracketNesting text ≤ maxDepth
          · exact .inl within
          · exact .inr ⟨by omega, style_of_printedArray given⟩
        · cases given
  constructor
  · exact strict
  · exact printed
  · exact read
  · intro text deep
    cases given : parse? text namedTuples with
    | none => rfl
    | some l =>
      rcases read text l given with within | ⟨same, -⟩
      · omega
      · omega
  · exact fun n within => parse?_nestedBrackets within namedTuples

/-- The limit does not hold of printed arrays. -/
theorem depth_limit_exceeded :
    maxDepth < bracketNesting (String.ofList (nestedBrackets 257)) ∧
      ∀ namedTuples, parse? (String.ofList (nestedBrackets 257)) namedTuples ≠ none := by
  constructor
  · rw [bracketNesting_nestedBrackets]
    decide
  · intro namedTuples refused
    obtain ⟨a, read⟩ := exists_parse?_nestedBrackets namedTuples
    have printed : parse? (String.ofList (nestedBrackets 257)) namedTuples = some (.array a) := read
    rw [refused] at printed
    cases printed

end DocExamples.Literal
