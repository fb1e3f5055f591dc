import DocExamples.Proofs.Script.Lexing
import DocExamples.Proofs.Script.LineEnds
/-!
Programs laid out in lines: one simple statement or one header to a line, and every block deeper
than the statement that owns it. Whatever the widths of the blocks are, and whatever lines without
statements stand in between, the text is read as the program that was laid out.
-/
namespace DocExamples.Script

open ReadsFrom (bind_run)
open Takes (eat_symbol eatWord_keyword)
open Grammar

/-! ### Layouts -/

/-- A line without statements: blanks, and a comment at most. -/
inductive IsGap : List Char → Prop where
  | blank (blanks : List Char) (blank : ∀ c ∈ blanks, c = ' ' ∨ c = '\t' ∨ c = '\r') : IsGap blanks
  | comment (blanks note : List Char) (blank : ∀ c ∈ blanks, c = ' ' ∨ c = '\t' ∨ c = '\r')
    (within : '\n' ∉ note) : IsGap (blanks ++ '#' :: note)

/-- A line with the given tokens, so many blanks in. -/
inductive IsLine (indent : Nat) (toks : List Token) : List Char → Prop where
  | mk {text : List Char} (starts : ∀ c, text.head? = some c → isLineBlank c = false)
    (lexed : tokens (String.ofList text) = .ok toks) :
    IsLine indent toks (List.replicate indent ' ' ++ text)

/-- The tokens of a word and a condition up to the colon. -/
inductive IsCondition (levels : Nat) (word : Keyword) (condition : Expr) : List Token → Prop where
  | mk {toks : List Token}
    (reads : expression levels ⟨toks, 0⟩ = .ok (condition, ⟨[.symbol .colon], 0⟩)) :
    IsCondition levels word condition (.keyword word :: toks)

/-- The tokens up to the colon of a loop or a definition, which its block completes. -/
inductive IsHeader (levels : Nat) : (List Stmt → Stmt) → List Token → Prop where
  | forLoop {toks sourceToks : List Token} {target : Target} {source : Expr}
    (readsTarget : targetList levels ⟨toks, 0⟩ = .ok (target, ⟨.keyword .inKw :: sourceToks, 0⟩))
    (readsSource : expressionList expression levels ⟨sourceToks, 0⟩ =
      .ok (source, ⟨[.symbol .colon], 0⟩)) :
    IsHeader levels (.forLoop target source) (.keyword .forKw :: toks)
  | whileLoop {toks : List Token} {condition : Expr}
    (reads : IsCondition levels .whileKw condition toks) :
    IsHeader levels (.whileLoop condition) toks
  | define {toks : List Token} {name : String} {params : List (String × Option Expr)}
    (reads : parameters expression levels (toks.length + 1) ⟨toks, 0⟩ =
      .ok (params, ⟨[.symbol .colon], 0⟩)) :
    IsHeader levels (.define name params)
      (.keyword .defKw :: .name name :: .symbol .leftParen :: toks)

/-- What lines hold: statements of one block, or the branches of a conditional after its first. -/
inductive Part where
  | block (stmts : List Stmt)
  | branches (more : List (Expr × List Stmt)) (otherwise : List Stmt)

/-- The lines hold the part at the given indentation. Blocks inside its statements, or inside its
branches, are as many levels deep as given at most. -/
inductive LaidOut : Nat → Nat → Part → List (List Char) → Prop where
  | done {levels indent : Nat} : LaidOut levels indent (.block []) []
  | gap {levels indent : Nat} {part : Part} {line : List Char} {lines : List (List Char)}
    (isGap : IsGap line) (later : LaidOut levels indent part lines) :
    LaidOut levels indent part (line :: lines)
  | simple {levels indent : Nat} {s : Stmt} {rest : List Stmt} {toks : List Token}
    {line : List Char} {lines : List (List Char)} (isLine : IsLine indent toks line)
    (reads : simpleStatement expression levels ⟨toks, 0⟩ = .ok (s, ⟨[], 0⟩))
    (later : LaidOut levels indent (.block rest) lines) :
    LaidOut levels indent (.block (s :: rest)) (line :: lines)
  | owner {levels indent inner : Nat} {complete : List Stmt → Stmt} {body rest : List Stmt}
    {toks : List Token} {line : List Char} {inside lines : List (List Char)}
    (isLine : IsLine indent toks line) (header : IsHeader (levels + 1) complete toks)
    (deeper : indent < inner) (some : body ≠ []) (block : LaidOut levels inner (.block body) inside)
    (later : LaidOut (levels + 1) indent (.block rest) lines) :
    LaidOut (levels + 1) indent (.block (complete body :: rest)) (line :: (inside ++ lines))
  | ifElse {levels indent inner : Nat} {condition : Expr} {body otherwise rest : List Stmt}
    {more : List (Expr × List Stmt)} {toks : List Token} {line : List Char}
    {inside further lines : List (List Char)} (isLine : IsLine indent toks line)
    (reads : IsCondition (levels + 1) .ifKw condition toks) (deeper : indent < inner)
    (some : body ≠ []) (block : LaidOut levels inner (.block body) inside)
    (others : LaidOut levels indent (.branches more otherwise) further)
    (later : LaidOut (levels + 1) indent (.block rest) lines) :
    LaidOut (levels + 1) indent (.block (.ifElse ((condition, body) :: more) otherwise :: rest))
      (line :: (inside ++ (further ++ lines)))
  | elif {levels indent inner : Nat} {condition : Expr} {body otherwise : List Stmt}
    {more : List (Expr × List Stmt)} {toks : List Token} {line : List Char}
    {inside further : List (List Char)} (isLine : IsLine indent toks line)
    (reads : IsCondition (levels + 1) .elifKw condition toks) (deeper : indent < inner)
    (some : body ≠ []) (block : LaidOut levels inner (.block body) inside)
    (others : LaidOut levels indent (.branches more otherwise) further) :
    LaidOut levels indent (.branches ((condition, body) :: more) otherwise)
      (line :: (inside ++ further))
  | otherwise {levels indent inner : Nat} {body : List Stmt} {line : List Char}
    {inside : List (List Char)}
    (isLine : IsLine indent [.keyword .elseKw, .symbol .colon] line) (deeper : indent < inner)
    (some : body ≠ []) (block : LaidOut levels inner (.block body) inside) :
    LaidOut levels indent (.branches [] body) (line :: inside)
  | noElse {levels indent : Nat} : LaidOut levels indent (.branches [] []) []

/-! ### The tokens of lines -/

def lineTokens (line : List Char) : List Token := (tokens (String.ofList line)).toOption.getD []

/-- The tokens of a line that stands below another. -/
def row (line : List Char) : List Token :=
  .newline (indentWidth (line.takeWhile isLineBlank)) :: lineTokens line

theorem lineTokens_eq {line : List Char} {toks : List Token} (lexed : Lexed 0 line toks) :
    lineTokens line = toks := by
  have split : tokens (String.ofList line) = .ok toks := by
    rwa [tokens_eq_ok, String.toList_ofList]
  rw [lineTokens, split]
  rfl

theorem lexed_blanks {blanks text : List Char} {toks : List Token}
    (blank : ∀ c ∈ blanks, c = ' ' ∨ c = '\t' ∨ c = '\r') (lexed : Lexed 0 text toks) :
    Lexed 0 (blanks ++ text) toks := by
  induction blanks with
  | nil => exact lexed
  | cons c blanks ih =>
    have ⟨first, others⟩ := List.forall_mem_cons.mp blank
    exact .skip (.blank first) (ih others)

theorem IsGap.lexed {line : List Char} (isGap : IsGap line) : Lexed 0 line [] := by
  cases isGap with
  | blank blanks blank =>
    have lexed := lexed_blanks blank .done
    rwa [List.append_nil] at lexed
  | comment blanks note blank within =>
    have none : note.dropWhile (· != '\n') = [] := by
      rw [List.dropWhile_eq_nil_iff]
      intro c member
      simpa using fun same : c = '\n' => within (same ▸ member)
    refine lexed_blanks blank (.skip .comment ?_)
    rw [none]
    exact .done

theorem IsLine.lexed {indent : Nat} {toks : List Token} {line : List Char}
    (isLine : IsLine indent toks line) : Lexed 0 line toks := by
  cases isLine with
  | mk starts lexed =>
    rw [tokens_eq_ok, String.toList_ofList] at lexed
    exact lexed_blanks (fun c member => .inl (List.eq_of_mem_replicate member)) lexed

theorem indentWidth_spaces (n : Nat) : indentWidth (List.replicate n ' ') = n := by
  have wider (start : Nat) : (List.replicate n ' ').foldl
      (fun width c => width + if c = '\t' then 8 else 1) start = start + n := by
    induction n generalizing start with
    | zero => rfl
    | succ n ih =>
      rw [List.replicate_succ, List.foldl_cons, ih, if_neg (by decide)]
      omega
  exact (wider 0).trans (Nat.zero_add n)

theorem IsLine.row_eq {indent : Nat} {toks : List Token} {line : List Char}
    (isLine : IsLine indent toks line) : row line = .newline indent :: toks := by
  rw [row, lineTokens_eq isLine.lexed]
  cases isLine with
  | @mk text starts lexed =>
    have blanks : (List.replicate indent ' ' ++ text).takeWhile isLineBlank =
        List.replicate indent ' ' := by
      rw [List.takeWhile_append_of_pos]
      · cases text with
        | nil => exact List.append_nil _
        | cons c text => simp [starts c rfl]
      · intro c member
        rw [List.eq_of_mem_replicate member]
        rfl
    rw [blanks, indentWidth_spaces]

theorem IsGap.row_eq {line : List Char} (isGap : IsGap line) : ∃ width, row line = [.newline width] :=
  ⟨_, by rw [row, lineTokens_eq isGap.lexed]⟩

/-- The tokens of lines that stand below another. -/
def rows (lines : List (List Char)) : List Token := lines.flatMap row

theorem rows_cons (line : List Char) (lines : List (List Char)) :
    rows (line :: lines) = row line ++ rows lines := List.flatMap_cons

theorem rows_append (first second : List (List Char)) :
    rows (first ++ second) = rows first ++ rows second := List.flatMap_append

theorem Ended.rows {after : List Token} (ended : Ended after) (lines : List (List Char)) :
    Ended (rows lines ++ after) := by
  cases lines with
  | nil => exact ended
  | cons line lines => exact .line _ _

theorem LaidOut.lexed {levels indent : Nat} {part : Part} {lines : List (List Char)}
    (laid : LaidOut levels indent part lines) : ∀ line ∈ lines, Lexed 0 line (lineTokens line) := by
  have ofLine {indent : Nat} {toks : List Token} {line : List Char}
      (isLine : IsLine indent toks line) : Lexed 0 line (lineTokens line) := by
    rw [lineTokens_eq isLine.lexed]
    exact isLine.lexed
  induction laid with
  | done | noElse => simp
  | gap isGap later ih =>
    refine List.forall_mem_cons.mpr ⟨?_, ih⟩
    rw [lineTokens_eq isGap.lexed]
    exact isGap.lexed
  | simple isLine reads later ih => exact List.forall_mem_cons.mpr ⟨ofLine isLine, ih⟩
  | owner isLine header deeper some block later ihBlock ih =>
    exact List.forall_mem_cons.mpr ⟨ofLine isLine, List.forall_mem_append.mpr ⟨ihBlock, ih⟩⟩
  | ifElse isLine reads deeper some block others later ihBlock ihOthers ih =>
    refine List.forall_mem_cons.mpr ⟨ofLine isLine, List.forall_mem_append.mpr ⟨ihBlock, ?_⟩⟩
    exact List.forall_mem_append.mpr ⟨ihOthers, ih⟩
  | elif isLine reads deeper some block others ihBlock ihOthers =>
    exact List.forall_mem_cons.mpr ⟨ofLine isLine, List.forall_mem_append.mpr ⟨ihBlock, ihOthers⟩⟩
  | otherwise isLine deeper some block ih => exact List.forall_mem_cons.mpr ⟨ofLine isLine, ih⟩

/-- The tokens of a text of several lines. -/
theorem lexed_join {line : List Char} {lines : List (List Char)}
    (lexed : ∀ l ∈ line :: lines, Lexed 0 l (lineTokens l)) :
    Lexed 0 (Text.join ['\n'] (line :: lines)) (lineTokens line ++ rows lines) := by
  induction lines generalizing line with
  | nil =>
    rw [rows, List.flatMap_nil, List.append_nil]
    exact lexed line List.mem_cons_self
  | cons next lines ih =>
    have ⟨first, others⟩ := List.forall_mem_cons.mp lexed
    have blanks : (Text.join ['\n'] (next :: lines)).takeWhile isLineBlank =
        next.takeWhile isLineBlank := by
      cases lines with
      | nil => rfl
      | cons line' lines =>
        rw [Text.join, List.append_assoc]
        exact Text.takeWhile_append_of_stops (by simp [isLineBlank]) next
    have later := (ih others).line
    rw [blanks] at later
    rw [Text.join, List.append_assoc, rows_cons, row]
    exact first.append (by simp) later

/-! ### Lines that are read one after another -/

/-- The cursor behind the line ends that come next. -/
def settle (c : Cursor) : Cursor :=
  ⟨(Parse.dropNewlines c.indent c.tokens).2, (Parse.dropNewlines c.indent c.tokens).1⟩

theorem skipNewlines_eq (c : Cursor) : Parse.skipNewlines c = .ok ((), settle c) := rfl

theorem settle_cons {token : Token} (other : token.isNewline = false) (rest : List Token)
    (indent : Nat) : settle ⟨token :: rest, indent⟩ = ⟨token :: rest, indent⟩ := by
  cases token with
  | newline => cases other
  | keyword | symbol | int | float | str | name => rfl

theorem settle_settle (c : Cursor) : settle (settle c) = settle c := by
  obtain ⟨tokens, indent⟩ := c
  induction tokens generalizing indent with
  | nil => rfl
  | cons token rest ih =>
    cases token with
    | newline width => exact ih width
    | keyword | symbol | int | float | str | name => rfl

theorem length_settle_le (c : Cursor) : (settle c).tokens.length ≤ c.tokens.length := by
  obtain ⟨tokens, indent⟩ := c
  induction tokens generalizing indent with
  | nil => exact Nat.le_refl _
  | cons token rest ih =>
    cases token with
    | newline width => exact Nat.le_succ_of_le (ih width)
    | keyword | symbol | int | float | str | name => exact Nat.le_refl _

/-- From a line at the indentation on, a statement is read off every line, up to the last cursor. -/
inductive LinesRead (read : Parse (List Stmt)) (indent : Nat) : Cursor → List Stmt → Cursor → Prop where
  | nil {c : Cursor} : LinesRead read indent c [] c
  | cons {c c' last : Cursor} {s : Stmt} {rest : List Stmt} (some : c.tokens ≠ [])
    (here : c.indent = indent) (first : read c = .ok ([s], c'))
    (shorter : (settle c').tokens.length < c.tokens.length)
    (later : LinesRead read indent (settle c') rest last) :
    LinesRead read indent c (s :: rest) last

/-- The block ends where the tokens do, or at a line that is less deep. -/
def EndsBlock (indent : Nat) (c : Cursor) : Prop := c.tokens = [] ∨ c.indent < indent

theorem LinesRead.blockLines_eq {read : Parse (List Stmt)} {indent : Nat} {c last : Cursor}
    {stmts : List Stmt} (reads : LinesRead read indent c stmts last) (some : stmts ≠ [])
    (ends : EndsBlock indent last) {fuel : Nat} (enough : c.tokens.length ≤ fuel) :
    blockLines read indent fuel c = .ok (stmts, last) := by
  induction reads generalizing fuel with
  | nil => exact absurd rfl some
  | @cons c c' last s rest isSome here first shorter later ih =>
    have positive := List.length_pos_iff.mpr isSome
    match fuel, enough with
    | 0, enough => omega
    | fuel + 1, enough =>
      refine (bind_run first).trans ((bind_run (skipNewlines_eq c')).trans ?_)
      refine (bind_run (a := settle c') rfl).trans ?_
      cases later with
      | nil =>
        have stops : ((settle c').tokens.isEmpty || decide ((settle c').indent < indent)) = true := by
          simpa [EndsBlock] using ends
        rw [if_pos stops]
        rfl
      | cons isSome' here' first' shorter' later' =>
        have goesOn : ¬((settle c').tokens.isEmpty || decide ((settle c').indent < indent)) = true := by
          simp [isSome', here']
        rw [if_neg goesOn, if_neg (by omega)]
        exact bind_run (ih (by simp) ends (by omega))

theorem LinesRead.programLines_eq {indent : Nat} {c last : Cursor} {stmts : List Stmt}
    (reads : LinesRead (line expression maxNesting indent) indent c stmts last)
    (ends : last.tokens = []) {fuel : Nat} (enough : c.tokens.length < fuel) :
    programLines expression indent fuel c = .ok (stmts, last) := by
  induction reads generalizing fuel with
  | nil => 
    match fuel, enough with
    | fuel + 1, enough =>
      refine (bind_run (a := _) rfl).trans ?_
      rw [ends]
      rfl
  | @cons c c' last s rest isSome here first shorter later ih =>
    match fuel, enough with
    | fuel + 1, enough =>
      have goesOn : ¬c.tokens.isEmpty = true := by simp [isSome]
      refine (bind_run (a := c) rfl).trans ?_
      rw [if_neg goesOn, if_neg (by simp [here])]
      refine (bind_run first).trans ((bind_run (skipNewlines_eq c')).trans ?_)
      exact bind_run (ih ends (by omega))

/-! ### Blocks and branches -/

/-- The tokens after a block of the given indentation belong to what is around it: they are none, or
their line is less deep, or it goes on with no branch. -/
def Free (indent : Nat) (c : Cursor) : Prop :=
  EndsBlock indent c ∨ c.indent = indent ∧ c.tokens.head? ≠ some (.keyword .elifKw) ∧
    c.tokens.head? ≠ some (.keyword .elseKw)

/-- The block of a statement, from its colon on. -/
theorem block_eq {levels indent inner start : Nat} {toks : List Token} {body : List Stmt}
    {last : Cursor} (ended : Ended toks) (deeper : indent < inner) (some : body ≠ [])
    (reads : LinesRead (line expression levels inner) inner (settle ⟨toks, start⟩) body last)
    (ends : EndsBlock inner last) :
    block expression (line expression levels) levels indent ⟨.symbol .colon :: toks, start⟩ =
      .ok (body, last) := by
  have colon : Parse.consume .colon "`:`" ⟨.symbol .colon :: toks, start⟩ = .ok ((), ⟨toks, start⟩) := rfl
  have lineEnd : Parse.atLineEnd ⟨toks, start⟩ = .ok (true, ⟨toks, start⟩) := by
    cases ended <;> rfl
  refine (bind_run colon).trans ((bind_run lineEnd).trans ?_)
  refine (bind_run (skipNewlines_eq _)).trans ((bind_run (a := settle ⟨toks, start⟩) rfl).trans ?_)
  have lines := reads.blockLines_eq some ends (Nat.le_refl _)
  cases reads with
  | nil => exact absurd rfl some
  | cons isSome here first shorter later =>
    have goesOn : ¬((settle ⟨toks, start⟩).tokens.isEmpty ||
        decide ((settle ⟨toks, start⟩).indent ≤ indent)) = true := by
      simp [isSome, here, deeper]
    rw [if_neg goesOn, here]
    exact lines

/-- A token that starts a line of the part. -/
def Part.Opens (token : Token) : Part → Prop
  | .block _ => token.isNewline = false ∧ token ≠ .keyword .elifKw ∧ token ≠ .keyword .elseKw
  | .branches _ _ => token = .keyword .elifKw ∨ token = .keyword .elseKw

theorem settle_row {indent : Nat} {token : Token} {toks : List Token} {line : List Char}
    (isLine : IsLine indent (token :: toks) line) (other : token.isNewline = false)
    (after : List Token) (start : Nat) :
    settle ⟨row line ++ after, start⟩ = ⟨token :: toks ++ after, indent⟩ := by
  rw [isLine.row_eq]
  exact settle_cons other _ _

theorem opens_of_simple {levels : Nat} {s : Stmt} {toks : List Token}
    (reads : simpleStatement expression levels ⟨toks, 0⟩ = .ok (s, ⟨[], 0⟩)) :
    ∃ token rest, toks = token :: rest ∧ ∀ stmts, (Part.block stmts).Opens token := by
  have starts := startsSimple_of_simpleStatement reads
  cases toks with
  | nil => cases starts
  | cons token rest =>
    refine ⟨token, rest, rfl, fun _ => ⟨?_, ?_, ?_⟩⟩
    · cases token with
      | newline => cases starts
      | keyword | symbol | int | float | str | name => rfl
    · rintro rfl
      cases starts
    · rintro rfl
      cases starts

theorem IsHeader.opens {levels : Nat} {complete : List Stmt → Stmt} {toks : List Token}
    (header : IsHeader levels complete toks) :
    ∃ token rest, toks = token :: rest ∧ ∀ stmts, (Part.block stmts).Opens token := by
  cases header with
  | forLoop => exact ⟨_, _, rfl, fun _ => ⟨rfl, by simp, by simp⟩⟩
  | whileLoop reads =>
    cases reads
    exact ⟨_, _, rfl, fun _ => ⟨rfl, by simp, by simp⟩⟩
  | define => exact ⟨_, _, rfl, fun _ => ⟨rfl, by simp, by simp⟩⟩

/-- What comes next is the first line of the part, or what comes after its lines. -/
theorem LaidOut.front {levels indent : Nat} {part : Part} {lines : List (List Char)}
    (laid : LaidOut levels indent part lines) {P : Cursor → Prop} {after : List Token}
    (here : ∀ token rest, part.Opens token → P ⟨token :: rest, indent⟩)
    (later : ∀ start, P (settle ⟨after, start⟩)) (start : Nat) :
    P (settle ⟨rows lines ++ after, start⟩) := by
  induction laid generalizing start with
  | done | noElse => exact later start
  | gap isGap _ ih =>
    obtain ⟨width, isRow⟩ := isGap.row_eq
    rw [rows_cons, isRow]
    exact ih here width
  | simple isLine reads =>
    obtain ⟨token, rest, rfl, opens⟩ := opens_of_simple reads
    rw [rows_cons, List.append_assoc, settle_row isLine (opens []).1]
    exact here _ _ (opens _)
  | owner isLine header =>
    obtain ⟨token, rest, rfl, opens⟩ := header.opens
    rw [rows_cons, List.append_assoc, settle_row isLine (opens []).1]
    exact here _ _ (opens _)
  | ifElse isLine reads =>
    cases reads
    rw [rows_cons, List.append_assoc, settle_row isLine rfl]
    exact here _ _ ⟨rfl, by simp, by simp⟩
  | elif isLine reads =>
    cases reads
    rw [rows_cons, List.append_assoc, settle_row isLine rfl]
    exact here _ _ (.inl rfl)
  | otherwise isLine =>
    rw [rows_cons, List.append_assoc, settle_row isLine rfl]
    exact here _ _ (.inr rfl)

/-- A deeper block ends where lines of the given indentation come next. -/
theorem LaidOut.endsBlock {levels indent inner : Nat} {part : Part} {lines : List (List Char)}
    (laid : LaidOut levels indent part lines) (deeper : indent < inner) {after : List Token}
    (later : ∀ start, EndsBlock inner (settle ⟨after, start⟩)) (start : Nat) :
    EndsBlock inner (settle ⟨rows lines ++ after, start⟩) :=
  laid.front (fun _ _ _ => .inr deeper) later start

theorem Free.endsBlock {indent inner : Nat} {c : Cursor} (free : Free indent c)
    (deeper : indent < inner) : EndsBlock inner c := by
  rcases free with (none | less) | ⟨here, -⟩
  · exact .inl none
  · exact .inr (Nat.lt_trans less deeper)
  · exact .inr (here ▸ deeper)

theorem LaidOut.free {levels indent : Nat} {stmts : List Stmt} {lines : List (List Char)}
    (laid : LaidOut levels indent (.block stmts) lines) {after : List Token}
    (later : ∀ start, Free indent (settle ⟨after, start⟩)) (start : Nat) :
    Free indent (settle ⟨rows lines ++ after, start⟩) := by
  refine laid.front (fun token rest opens => .inr ⟨rfl, ?_, ?_⟩) later start
  · simpa using opens.2.1
  · simpa using opens.2.2

/-! ### Headers -/

section

variable {levels indent : Nat} {more : List Token} {suite : Parse (List Stmt)} {body : List Stmt}
  {last : Cursor}

theorem eatWord_other {k : Keyword} {c : Cursor} (other : c.tokens.head? ≠ some (.keyword k)) :
    Parse.eatWord k c = .ok (false, c) := by
  rcases ReadsFrom.eatWord_cases k c with ⟨rest, shape, -⟩ | run
  · exact absurd (congrArg List.head? shape) other
  · exact run

theorem expression_condition (indent : Nat) {word : Keyword} {condition : Expr} {toks : List Token}
    (reads : IsCondition levels word condition toks) (ended : Ended more) :
    ∃ rest, toks = .keyword word :: rest ∧ expression levels ⟨rest ++ more, indent⟩ =
      .ok (condition, ⟨.symbol .colon :: more, indent⟩) := by
  cases reads with
  | mk reads => exact ⟨_, rfl, (extends_expression ended levels _ _ _ reads).2⟩

theorem lineWith_header {complete : List Stmt → Stmt} {toks : List Token}
    (header : IsHeader levels complete toks) (ended : Ended more)
    (reads : suite ⟨.symbol .colon :: more, indent⟩ = .ok (body, last)) :
    lineWith expression suite levels indent ⟨toks ++ more, indent⟩ = .ok ([complete body], last) := by
  cases header with
  | @forLoop toks sourceToks target source readsTarget readsSource =>
    have first : targetList levels ⟨toks ++ more, indent⟩ =
        .ok (target, ⟨.keyword .inKw :: sourceToks ++ more, indent⟩) :=
      (extends_targetList ended levels _ _ _ readsTarget).2
    have second : expressionList expression levels ⟨sourceToks ++ more, indent⟩ =
        .ok (source, ⟨.symbol .colon :: more, indent⟩) :=
      (extends_expressionList ended levels _ _ _ readsSource).2
    refine (bind_run (eatWord_keyword .forKw (toks ++ more) indent)).trans ?_
    have word : Parse.consumeWord .inKw "`in`" ⟨.keyword .inKw :: (sourceToks ++ more), indent⟩ =
      .ok ((), ⟨sourceToks ++ more, indent⟩) := rfl
    exact (bind_run first).trans ((bind_run word).trans ((bind_run second).trans (bind_run reads)))
  | whileLoop condition =>
    obtain ⟨rest, rfl, run⟩ := expression_condition indent condition ended
    refine (bind_run (eatWord_other (by simp))).trans ?_
    refine (bind_run (eatWord_keyword .whileKw (rest ++ more) indent)).trans ?_
    exact (bind_run run).trans (bind_run reads)
  | @define toks name params readsParams =>
    have first : parameters expression levels ((toks ++ more).length + 1) ⟨toks ++ more, indent⟩ =
        .ok (params, ⟨.symbol .colon :: more, indent⟩) :=
      (extends_parameters ended levels (by simp) _ _ _ readsParams).2
    have isName : Parse.name "a function name"
        ⟨.name name :: .symbol .leftParen :: (toks ++ more), indent⟩ =
      .ok (name, ⟨.symbol .leftParen :: (toks ++ more), indent⟩) := rfl
    have opened : Parse.consume .leftParen "`(`" ⟨.symbol .leftParen :: (toks ++ more), indent⟩ =
      .ok ((), ⟨toks ++ more, indent⟩) := rfl
    refine (bind_run (eatWord_other (by simp))).trans ((bind_run (eatWord_other (by simp))).trans ?_)
    refine (bind_run (eatWord_other (by simp))).trans ?_
    refine (bind_run (eatWord_keyword .defKw _ indent)).trans ((bind_run isName).trans ?_)
    refine (bind_run opened).trans ((bind_run (a := (toks ++ more).length) rfl).trans ?_)
    exact (bind_run first).trans (bind_run reads)

theorem lineWith_ifElse {condition : Expr} {toks : List Token} {mid : Cursor}
    {others : List (Expr × List Stmt)} {otherwise : List Stmt}
    (header : IsCondition levels .ifKw condition toks) (ended : Ended more)
    (reads : suite ⟨.symbol .colon :: more, indent⟩ = .ok (body, mid))
    (further : branches expression suite levels indent (mid.tokens.length + 1) mid =
      .ok ((others, otherwise), last)) :
    lineWith expression suite levels indent ⟨toks ++ more, indent⟩ =
      .ok ([.ifElse ((condition, body) :: others) otherwise], last) := by
  obtain ⟨rest, rfl, run⟩ := expression_condition indent header ended
  refine (bind_run (eatWord_other (by simp))).trans ((bind_run (eatWord_other (by simp))).trans ?_)
  refine (bind_run (eatWord_keyword .ifKw _ indent)).trans ((bind_run run).trans ?_)
  refine (bind_run reads).trans ((bind_run (a := mid.tokens.length) rfl).trans ?_)
  exact bind_run further

theorem simpleLine_eq {s : Stmt} {toks : List Token}
    (reads : simpleStatement expression levels ⟨toks, 0⟩ = .ok (s, ⟨[], 0⟩)) (ended : Ended more) :
    simpleLine expression levels ⟨toks ++ more, indent⟩ = .ok ([s], ⟨more, indent⟩) := by
  have statement : simpleStatement expression levels ⟨toks ++ more, indent⟩ =
      .ok (s, ⟨more, indent⟩) := (extends_simpleStatement ended levels _ _ _ reads).2
  have single (fuel : Nat) :
      statementTail expression levels fuel ⟨more, indent⟩ = .ok ([], ⟨more, indent⟩) := by
    cases fuel with
    | zero => rfl
    | succ fuel => cases ended <;> rfl
  have lineEnd : Parse.atLineEnd ⟨more, indent⟩ = .ok (true, ⟨more, indent⟩) := by
    cases ended <;> rfl
  refine (bind_run statement).trans ((bind_run (a := more.length) rfl).trans ?_)
  exact (bind_run (single _)).trans (bind_run lineEnd)

theorem lineWith_simple {s : Stmt} {toks : List Token}
    (reads : simpleStatement expression levels ⟨toks, 0⟩ = .ok (s, ⟨[], 0⟩)) (ended : Ended more) :
    lineWith expression suite levels indent ⟨toks ++ more, indent⟩ =
      .ok ([s], ⟨more, indent⟩) := by
  have starts := startsSimple_of_simpleStatement reads
  have other {k : Keyword} (isOther : startsSimple (some (.keyword k)) = false) :
      (toks ++ more).head? ≠ some (.keyword k) := by
    cases toks with
    | nil => cases starts
    | cons token rest =>
      rintro ⟨⟩
      exact Bool.false_ne_true (isOther.symm.trans starts)
  refine (bind_run (eatWord_other (other rfl))).trans ((bind_run (eatWord_other (other rfl))).trans ?_)
  refine (bind_run (eatWord_other (other rfl))).trans ((bind_run (eatWord_other (other rfl))).trans ?_)
  exact simpleLine_eq reads ended

/-! ### Branches -/

theorem branches_elif {condition : Expr} {toks : List Token} {mid : Cursor} {fuel : Nat}
    {others : List (Expr × List Stmt)} {otherwise : List Stmt}
    (header : IsCondition levels .elifKw condition toks) (ended : Ended more)
    (reads : suite ⟨.symbol .colon :: more, indent⟩ = .ok (body, mid))
    (further : branches expression suite levels indent fuel mid = .ok ((others, otherwise), last)) :
    branches expression suite levels indent (fuel + 1) ⟨toks ++ more, indent⟩ =
      .ok (((condition, body) :: others, otherwise), last) := by
  obtain ⟨rest, rfl, run⟩ := expression_condition indent header ended
  rw [List.cons_append]
  refine (bind_run rfl).trans ((bind_run (skipNewlines_eq _)).trans ((bind_run rfl).trans ?_))
  rw [settle_cons rfl, if_pos rfl]
  refine (bind_run (eatWord_keyword .elifKw _ indent)).trans ((bind_run run).trans ?_)
  exact (bind_run reads).trans (bind_run further)

theorem branches_else {fuel : Nat}
    (reads : suite ⟨.symbol .colon :: more, indent⟩ = .ok (body, last)) :
    branches expression suite levels indent (fuel + 1)
      ⟨.keyword .elseKw :: .symbol .colon :: more, indent⟩ = .ok (([], body), last) := by
  refine (bind_run rfl).trans ((bind_run (skipNewlines_eq _)).trans ((bind_run rfl).trans ?_))
  rw [settle_cons rfl, if_pos rfl]
  refine (bind_run (eatWord_other (by simp))).trans ?_
  exact (bind_run (eatWord_keyword .elseKw _ indent)).trans (bind_run reads)

theorem branches_none {fuel : Nat} {c : Cursor} (free : Free indent c) (settled : settle c = c) :
    branches expression suite levels indent (fuel + 1) c = .ok (([], []), c) := by
  refine (bind_run rfl).trans ((bind_run (skipNewlines_eq _)).trans ((bind_run rfl).trans ?_))
  rw [settled]
  rcases free with (none | less) | ⟨here, noElif, noElse⟩
  · have noWord (k : Keyword) : c.tokens.head? ≠ some (.keyword k) := by simp [none]
    split
    · refine (bind_run (eatWord_other (noWord .elifKw))).trans ?_
      exact (bind_run (eatWord_other (noWord .elseKw))).trans rfl
    · rfl
  · rw [if_neg (Nat.ne_of_lt less)]
    rfl
  · rw [if_pos here]
    exact (bind_run (eatWord_other noElif)).trans ((bind_run (eatWord_other noElse)).trans rfl)

end

/-! ### The whole -/

/-- The part is read from the first cursor to the last. -/
def IsRead (levels indent : Nat) (c last : Cursor) : Part → Prop
  | .block stmts => LinesRead (line expression levels indent) indent c stmts last
  | .branches more otherwise => ∀ fuel, c.tokens.length < fuel →
    branches expression (block expression (line expression levels) levels indent) (levels + 1) indent
      fuel c = .ok ((more, otherwise), last)

theorem linesRead_cons {read : Parse (List Stmt)} {indent : Nat} {token : Token}
    {toks more : List Token} {l : List Char} {s : Stmt} {rest : List Stmt} {c last : Cursor}
    (isLine : IsLine indent (token :: toks) l) (other : token.isNewline = false)
    (first : read ⟨token :: toks ++ more, indent⟩ = .ok ([s], c))
    (shorter : c.tokens.length ≤ more.length) (later : LinesRead read indent (settle c) rest last)
    (start : Nat) : LinesRead read indent (settle ⟨row l ++ more, start⟩) (s :: rest) last := by
  rw [settle_row isLine other]
  have bound := length_settle_le c
  refine .cons (by simp) rfl first ?_ later
  simp
  omega

/-- Whatever comes after its lines, a part that is laid out is read off them. -/
theorem LaidOut.isRead {levels indent : Nat} {part : Part} {lines : List (List Char)}
    (laid : LaidOut levels indent part lines) {after : List Token} (ended : Ended after)
    (free : ∀ start, Free indent (settle ⟨after, start⟩)) (start : Nat) :
    ∃ final, IsRead levels indent (settle ⟨rows lines ++ after, start⟩) (settle ⟨after, final⟩)
      part := by
  induction laid generalizing after start with
  | done => exact ⟨start, .nil⟩
  | gap isGap later ih =>
    obtain ⟨width, isRow⟩ := isGap.row_eq
    rw [rows_cons, isRow]
    exact ih ended free width
  | @simple levels indent s rest toks l lines isLine reads later ih =>
    obtain ⟨final, others⟩ := ih ended free indent
    obtain ⟨token, toks, rfl, opens⟩ := opens_of_simple reads
    have first : line expression levels indent ⟨token :: toks ++ (rows lines ++ after), indent⟩ =
        .ok ([s], ⟨rows lines ++ after, indent⟩) := by
      cases levels <;> exact lineWith_simple reads (ended.rows lines)
    rw [rows_cons, List.append_assoc]
    exact ⟨final, linesRead_cons isLine (opens []).1 first (Nat.le_refl _) others start⟩
  | @owner levels indent inner complete body rest toks l inside lines isLine header deeper some block
      later ihBlock ih =>
    have ends := later.endsBlock deeper fun start => (free start).endsBlock deeper
    obtain ⟨mid, bodyRead⟩ := ihBlock (ended.rows lines) (fun start => .inl (ends start)) indent
    obtain ⟨final, others⟩ := ih ended free mid
    have isBlock := block_eq ((ended.rows lines).rows inside) deeper some bodyRead (ends mid)
    have first := lineWith_header header ((ended.rows lines).rows inside) isBlock
    obtain ⟨token, toks, rfl, opens⟩ := header.opens
    rw [rows_cons, rows_append, List.append_assoc, List.append_assoc]
    refine ⟨final, linesRead_cons isLine (opens []).1 first ?_ ?_ start⟩
    · have bound := length_settle_le ⟨rows lines ++ after, mid⟩
      simp at bound ⊢
      omega
    · rwa [settle_settle]
  | @ifElse levels indent inner condition body otherwise rest more toks l inside further lines isLine
      reads deeper some block others later ihBlock ihOthers ih =>
    have ends := others.endsBlock deeper (later.endsBlock deeper fun start =>
      (free start).endsBlock deeper)
    have endedLines := (ended.rows lines).rows further
    obtain ⟨mid, bodyRead⟩ := ihBlock endedLines (fun start => .inl (ends start)) indent
    obtain ⟨next, branchesRead⟩ := ihOthers (ended.rows lines) (later.free free) mid
    obtain ⟨final, restRead⟩ := ih ended free next
    have isBlock := block_eq (endedLines.rows inside) deeper some bodyRead (ends mid)
    have first := lineWith_ifElse reads (endedLines.rows inside) isBlock
      (branchesRead _ (Nat.lt_succ_self _))
    cases reads
    rw [rows_cons, rows_append, rows_append, List.append_assoc, List.append_assoc, List.append_assoc]
    refine ⟨final, linesRead_cons isLine rfl first ?_ ?_ start⟩
    · have bound := length_settle_le ⟨rows lines ++ after, next⟩
      simp at bound ⊢
      omega
    · rwa [settle_settle]
  | @elif levels indent inner condition body otherwise more toks l inside further isLine reads deeper
      some block others ihBlock ihOthers =>
    have ends := others.endsBlock deeper fun start => (free start).endsBlock deeper
    have endedLines := ended.rows further
    obtain ⟨mid, bodyRead⟩ := ihBlock endedLines (fun start => .inl (ends start)) indent
    obtain ⟨final, branchesRead⟩ := ihOthers ended free mid
    have isBlock := block_eq (endedLines.rows inside) deeper some bodyRead (ends mid)
    have bound := length_settle_le ⟨rows further ++ after, mid⟩
    rw [rows_cons, rows_append, List.append_assoc, List.append_assoc]
    refine ⟨final, fun fuel enough => ?_⟩
    have header := reads
    cases reads
    rw [settle_row isLine rfl] at enough ⊢
    match fuel, enough with
    | fuel + 1, enough =>
      refine branches_elif header (endedLines.rows inside) isBlock (branchesRead fuel ?_)
      simp at bound enough
      omega
  | @otherwise levels indent inner body l inside isLine deeper some block ih =>
    have ends := fun start => (free start).endsBlock deeper
    obtain ⟨final, bodyRead⟩ := ih ended (fun start => .inl (ends start)) indent
    have isBlock := block_eq (ended.rows inside) deeper some bodyRead (ends final)
    rw [rows_cons, List.append_assoc, settle_row isLine rfl]
    refine ⟨final, fun fuel enough => ?_⟩
    match fuel, enough with
    | fuel + 1, _ => exact branches_else isBlock
  | noElse =>
    refine ⟨start, fun fuel enough => ?_⟩
    match fuel, enough with
    | fuel + 1, _ => exact branches_none (free start) (settle_settle _)

/-- The tokens of a program that is laid out from the first column on. -/
theorem LaidOut.program_eq {stmts : List Stmt} {lines : List (List Char)}
    (laid : LaidOut maxNesting 0 (.block stmts) lines) {toks : List Token}
    (same : settle ⟨toks, 0⟩ = settle ⟨rows lines, 0⟩) :
    ∃ last, program expression ⟨toks, 0⟩ = .ok (stmts, last) := by
  have free (start : Nat) : Free 0 (settle ⟨[], start⟩) := .inl (.inl rfl)
  obtain ⟨final, reads⟩ := laid.isRead .nil free 0
  rw [List.append_nil, ← same] at reads
  have skipped := skipNewlines_eq ⟨toks, 0⟩
  generalize settle ⟨toks, 0⟩ = c at reads skipped
  obtain ⟨last, atEnd, lines⟩ : ∃ last, last.tokens = [] ∧
    LinesRead (line expression maxNesting 0) 0 c stmts last := ⟨_, rfl, reads⟩
  have base : LinesRead (line expression maxNesting c.indent) c.indent c stmts last := by
    cases lines with
    | nil => exact .nil
    | cons some here first shorter later =>
      rw [here]
      exact .cons some here first shorter later
  refine ⟨last, (bind_run skipped).trans ((bind_run rfl).trans ?_)⟩
  exact base.programLines_eq atEnd (Nat.lt_succ_self _)

theorem LaidOut.first_line {levels indent : Nat} {part : Part} {l : List Char}
    {lines : List (List Char)} (laid : LaidOut levels indent part (l :: lines)) :
    IsGap l ∧ LaidOut levels indent part lines ∨ ∃ toks, IsLine indent toks l := by
  cases laid with
  | gap isGap later => exact .inl ⟨isGap, later⟩
  | simple isLine | owner isLine | ifElse isLine | elif isLine | otherwise isLine =>
    exact .inr ⟨_, isLine⟩

/-- A program that is laid out in lines is what their text is read as: every statement is in the
block that it was laid out in, and every branch belongs to its own conditional. -/
theorem parse_laidOut {stmts : List Stmt} {lines : List (List Char)}
    (laid : LaidOut maxNesting 0 (.block stmts) lines) :
    parse (String.ofList (Text.join ['\n'] lines)) = .ok stmts := by
  cases lines with
  | nil =>
    cases laid
    rfl
  | cons l lines =>
    have split : tokens (String.ofList (Text.join ['\n'] (l :: lines))) =
        .ok (lineTokens l ++ rows lines) := by
      rw [tokens_eq_ok, String.toList_ofList]
      exact lexed_join laid.lexed
    have read : ∃ last, program expression ⟨lineTokens l ++ rows lines, 0⟩ = .ok (stmts, last) := by
      rcases laid.first_line with ⟨isGap, later⟩ | ⟨toks, isLine⟩
      · rw [lineTokens_eq isGap.lexed]
        exact later.program_eq rfl
      · refine laid.program_eq ?_
        rw [rows_cons, isLine.row_eq, lineTokens_eq isLine.lexed]
        rfl
    obtain ⟨last, run⟩ := read
    exact bind_eq_ok.mpr ⟨_, split, bind_eq_ok.mpr ⟨_, run, rfl⟩⟩

/-- A loop around a conditional with two further branches, the first of which ends two levels deeper
than the second begins; lines without statements stand at columns of no block. -/
def nestedLines : List String :=
  ["# count", "for i in [1, 2]:", "", "      if i:", "   # odd", "        x = i", "  # then",
    "      elif x:", "       while x:", "              pass", "\t", "      else:", "          x = 2", "y = x"]

def nestedProgram : List Stmt :=
  [.forLoop (.name "i") (.list [.int 1, .int 2])
      [.ifElse [(.name "i", [.assign [.name "x"] (.name "i")]),
        (.name "x", [.whileLoop (.name "x") [.pass]])] [.assign [.name "x"] (.int 2)]],
    .assign [.name "y"] (.name "x")]

theorem IsLine.of_text {indent : Nat} {line : List Char} (text : String) (toks : List Token)
    (shape : line = List.replicate indent ' ' ++ text.toList)
    (starts : text.toList.head?.any isLineBlank = false) (lexed : tokens text = .ok toks) :
    IsLine indent toks line := by
  subst shape
  refine .mk (fun c first => ?_) (by rwa [String.ofList_toList])
  simpa [first] using starts

theorem laidOut_nested :
    LaidOut maxNesting 0 (.block nestedProgram) (nestedLines.map String.toList) := by
  have pass : LaidOut 197 14 (.block [.pass]) ["              pass".toList, "\t".toList] :=
    .simple (.of_text "pass" [.keyword .passKw] rfl rfl rfl) rfl (.gap (.blank _ (by simp)) .done)
  have loop : LaidOut 198 7 (.block [.whileLoop (.name "x") [.pass]])
      ["       while x:".toList, "              pass".toList, "\t".toList] :=
    .owner (.of_text "while x:" [.keyword .whileKw, .name "x", .symbol .colon] rfl rfl rfl)
      (.whileLoop (.mk rfl)) (by decide) (by simp) pass .done
  have store : LaidOut 198 10 (.block [.assign [.name "x"] (.int 2)]) ["          x = 2".toList] :=
    .simple (.of_text "x = 2" [.name "x", .symbol .equal, .int 2] rfl rfl rfl) rfl .done
  have others : LaidOut 198 6 (.branches [(.name "x", [.whileLoop (.name "x") [.pass]])]
      [.assign [.name "x"] (.int 2)])
      ["      elif x:".toList, "       while x:".toList, "              pass".toList, "\t".toList,
        "      else:".toList, "          x = 2".toList] :=
    .elif (.of_text "elif x:" [.keyword .elifKw, .name "x", .symbol .colon] rfl rfl rfl) (.mk rfl)
      (by decide) (by simp) loop
      (.otherwise (.of_text "else:" _ rfl rfl rfl) (by decide) (by simp) store)
  have first : LaidOut 198 8 (.block [.assign [.name "x"] (.name "i")])
      ["   # odd".toList, "        x = i".toList, "  # then".toList] :=
    .gap (.comment "   ".toList " odd".toList (by simp) (by decide))
      (.simple (.of_text "x = i" [.name "x", .symbol .equal, .name "i"] rfl rfl rfl) rfl
        (.gap (.comment "  ".toList " then".toList (by simp) (by decide)) .done))
  have last : LaidOut maxNesting 0 (.block [.assign [.name "y"] (.name "x")]) ["y = x".toList] :=
    .simple (.of_text "y = x" [.name "y", .symbol .equal, .name "x"] rfl rfl rfl) rfl .done
  have conditional : LaidOut 199 6
      (.block [.ifElse [(.name "i", [.assign [.name "x"] (.name "i")]),
        (.name "x", [.whileLoop (.name "x") [.pass]])] [.assign [.name "x"] (.int 2)]])
      (["      if i:", "   # odd", "        x = i", "  # then", "      elif x:", "       while x:",
        "              pass", "\t", "      else:", "          x = 2"].map String.toList) :=
    .ifElse (.of_text "if i:" [.keyword .ifKw, .name "i", .symbol .colon] rfl rfl rfl) (.mk rfl)
      (by decide) (by simp) first others .done
  refine .gap (.comment [] " count".toList (by simp) (by decide)) ?_
  exact .owner (.of_text "for i in [1, 2]:" [.keyword .forKw, .name "i", .keyword .inKw,
    .symbol .leftBracket, .int 1, .symbol .comma, .int 2, .symbol .rightBracket, .symbol .colon]
    rfl rfl rfl) (.forLoop rfl rfl) (by decide) (by simp) (.gap (.blank _ (by simp)) conditional) last

theorem parse_laidOut_nested :
    LaidOut maxNesting 0 (.block nestedProgram) (nestedLines.map String.toList) ∧
      parse (String.ofList (Text.join ['\n'] (nestedLines.map String.toList))) = .ok nestedProgram :=
  ⟨laidOut_nested, parse_laidOut laidOut_nested⟩

end DocExamples.Script
