import DocExamples.Example
import DocExamples.Settings
import DocExamples.Transcript.Directive
/-!
Reading examples out of a documentation text, one line at a time. A line that starts with `>>> `
begins an example, lines that start with `... ` in the same column continue its source, and the
lines up to the next blank line or prompt are its expected output. All other lines are prose.
-/
namespace DocExamples.Transcript

/-- What makes a text unreadable, with the line, counted from zero. -/
inductive ReadError where
  | missingSpaceAfterPrompt (line : Nat)
  | inconsistentIndentation (line expected : Nat)
  | unterminatedContinuation (line : Nat)
  | unknownDirective (line : Nat) (directive : String)
  deriving DecidableEq, Repr

def ReadError.line : ReadError → Nat
  | .missingSpaceAfterPrompt line => line
  | .inconsistentIndentation line _ => line
  | .unterminatedContinuation line => line
  | .unknownDirective line _ => line

/-- Lines count from one in messages. -/
def ReadError.message (e : ReadError) : String :=
  "line " ++ toString (e.line + 1) ++ ": " ++ match e with
    | .missingSpaceAfterPrompt _ => "prompt `>>>` must be followed by a space"
    | .inconsistentIndentation _ expected =>
      "inconsistent leading whitespace (expected at least " ++ toString expected ++ " columns)"
    | .unterminatedContinuation _ =>
      "source ends with a line continuation but has no continuation line"
    | .unknownDirective _ directive => "unknown option directive `" ++ directive ++ "`"

def prompt : List Char := ['>', '>', '>']

def continuationPrompt : List Char := ['.', '.', '.']

def isIndent (c : Char) : Bool := c == ' ' || c == '\t'

/-- How many spaces and tabs a line starts with. -/
def indentation (line : List Char) : Nat := (line.takeWhile isIndent).length

def dropSpace : List Char → List Char
  | ' ' :: rest => rest
  | rest => rest

/-- A text that may stand directly after a prompt. -/
def endsPrompt : List Char → Bool
  | [] => true
  | c :: _ => c == ' '

/-- What a line is where no example is open. -/
inductive LineKind where
  | blank
  | prose
  | barePrompt
  | crampedPrompt
  | source (indent : Nat) (text : List Char)
  deriving DecidableEq, Repr

def LineKind.of (line : List Char) : LineKind :=
  let indent := indentation line
  match Text.stripStart? prompt (line.drop indent) with
  | none => if Text.allBlank line then .blank else .prose
  | some after =>
    if !endsPrompt after then .crampedPrompt
    else if Text.allBlank after then .barePrompt
    else .source indent (dropSpace after)

def continuation? (line : List Char) : Option (List Char) :=
  match Text.stripStart? continuationPrompt (line.drop (indentation line)) with
  | none => none
  | some after => if endsPrompt after then some (dropSpace after) else none

/-- A line that ends the expected output before it. -/
def endsOutput (line : List Char) : Bool :=
  Text.allBlank line || prompt.isPrefixOf (Text.trimStart line)

/-- The lines of one example, the latest first. -/
structure Snippet where
  line : Nat
  indent : Nat
  source : List (List Char)
  want : List (List Char)
  deriving DecidableEq, Repr

/-- Where the reader stands between two lines. -/
inductive Mode where
  | between
  | inSource (s : Snippet)
  | inOutput (s : Snippet)
  deriving DecidableEq, Repr

structure State where
  /-- The number of the next line. -/
  line : Nat
  mode : Mode
  /-- Prose was read since the last example. -/
  prose : Bool
  /-- The block of the last example. -/
  block : Nat
  /-- The latest example first. -/
  examples : List Example

def State.start : State := ⟨0, .between, false, 0, []⟩

/-- Applies the directives of consecutive source lines. -/
def sourceOverrides (line : Nat) (o : Overrides) : List (List Char) → Except ReadError Overrides
  | [] => .ok o
  | text :: rest =>
    match findDirective? text with
    | none => sourceOverrides (line + 1) o rest
    | some (_, body) =>
      match applyDirective o body with
      | .ok o => sourceOverrides (line + 1) o rest
      | .error word => .error (.unknownDirective line word)

/-- Applies the directives of consecutive output lines and takes them out of the lines. -/
def outputOverrides (line : Nat) (o : Overrides) :
    List (List Char) → Except ReadError (Overrides × List (List Char))
  | [] => .ok (o, [])
  | text :: rest =>
    match findDirective? text with
    | none => (outputOverrides (line + 1) o rest).map fun (o, kept) => (o, text :: kept)
    | some (before, body) =>
      match applyDirective o body with
      | .ok o =>
        (outputOverrides (line + 1) o rest).map fun (o, kept) => (o, Text.trimEnd before :: kept)
      | .error word => .error (.unknownDirective line word)

/-- A line of a traceback that is not part of the report: an indented one or an ellipsis. -/
def isFrameLine (line : List Char) : Bool :=
  (line.head?.any isIndent) || Text.trim line == continuationPrompt

/-- The error report that an output documents: what follows the header and the frames. -/
def errorReport? (want : List Char) : Option (List Char) :=
  match Text.lines want with
  | [] => none
  | first :: rest =>
    if Text.trimEnd first ≠ tracebackHeader.toList then none
    else
      match rest.dropWhile isFrameLine with
      | [] => none
      | report => some (Text.join ['\n'] report ++ ['\n'])

def containsAny (words : List String) (text : List Char) : Bool :=
  words.any fun word => Text.occursIn word.toList text

/-- The example that a finished snippet describes. -/
def Snippet.toExample (settings : Settings) (s : Snippet) (block : Nat) :
    Except ReadError Example := do
  let o ← sourceOverrides s.line {} s.source.reverse
  let (o, kept) ← outputOverrides (s.line + s.source.length) o s.want.reverse
  let source := Text.join ['\n'] s.source.reverse
  let want := kept.flatMap (· ++ ['\n'])
  return {
    source := String.ofList source
    want := String.ofList want
    errorReport := (errorReport? want).map String.ofList
    line := s.line
    indent := s.indent
    overrides := o
    randomized := containsAny settings.randomizedMarkers source ||
      containsAny settings.randomizedMarkers want
    pseudocode := containsAny settings.pseudocodeMarkers source
    stopword := containsAny settings.stopwords source
    block }

/-- Adds the example of a finished snippet; after prose it opens a new block. -/
def State.close (settings : Settings) (st : State) (s : Snippet) : Except ReadError State := do
  let block := if st.prose && !st.examples.isEmpty then st.block + 1 else st.block
  let e ← s.toExample settings block
  return { st with mode := .between, prose := false, block, examples := e :: st.examples }

/-- Source that ends in a backslash wants another line. -/
def Snippet.checkEnd (s : Snippet) : Except ReadError Unit :=
  if (s.source.head?.map Text.trimEnd).any (·.getLast? == some '\\') then
    .error (.unterminatedContinuation (s.line + s.source.length - 1))
  else .ok ()

def State.between (st : State) (line : List Char) : Except ReadError State :=
  match LineKind.of line with
  | .blank | .barePrompt => .ok st
  | .prose => .ok { st with prose := true }
  | .crampedPrompt => .error (.missingSpaceAfterPrompt st.line)
  | .source indent text => .ok { st with mode := .inSource ⟨st.line, indent, [text], []⟩ }

/-- Reads a line after the source of a snippet. -/
def State.inOutput (settings : Settings) (st : State) (s : Snippet) (line : List Char) :
    Except ReadError State := do
  if endsOutput line then
    let st ← st.close settings s
    st.between line
  else if indentation line < s.indent then
    throw (.inconsistentIndentation st.line s.indent)
  else return { st with mode := .inOutput { s with want := line.drop s.indent :: s.want } }

def State.inSource (settings : Settings) (st : State) (s : Snippet) (line : List Char) :
    Except ReadError State := do
  match continuation? line with
  | some text =>
    if indentation line ≠ s.indent then throw (.inconsistentIndentation st.line s.indent)
    return { st with mode := .inSource { s with source := text :: s.source } }
  | none =>
    s.checkEnd
    st.inOutput settings s line

def State.step (settings : Settings) (st : State) (line : List Char) : Except ReadError State := do
  let st ← match st.mode with
    | .between => st.between line
    | .inSource s => st.inSource settings s line
    | .inOutput s => st.inOutput settings s line
  return { st with line := st.line + 1 }

/-- Closes the snippet that is open at the end of the text. -/
def State.finish (settings : Settings) (st : State) : Except ReadError State :=
  match st.mode with
  | .between => .ok st
  | .inSource s => do
    s.checkEnd
    st.close settings s
  | .inOutput s => st.close settings s

/-- The blocks with an example that skips its block. -/
def skippedBlocks (examples : List Example) : List Nat :=
  (examples.filter (·.overrides.enable.has .skipBlock)).map (·.block)

def Example.skipped (e : Example) : Example :=
  { e with overrides := { e.overrides with enable := e.overrides.enable.insert .skip } }

def applyBlockSkips (examples : List Example) : List Example :=
  let blocks := skippedBlocks examples
  examples.map fun e => if blocks.contains e.block then Example.skipped e else e

def readLines (settings : Settings) (lines : List (List Char)) :
    Except ReadError (List Example) := do
  let st ← lines.foldlM (State.step settings) .start
  let st ← st.finish settings
  return applyBlockSkips st.examples.reverse

/-- The examples of a documentation text. -/
def read (settings : Settings) (text : String) : Except ReadError (List Example) :=
  readLines settings (Text.lines text.toList)

/-- What a documentation text holds: examples, and the blocks that they form. -/
structure Contents where
  examples : List Example
  blocks : List Block

def readContents (settings : Settings) (text : String) : Except ReadError Contents :=
  (read settings text).map fun examples => ⟨examples, blocksOf examples⟩

/-- The examples of a text as a unit of its own. -/
def readDoctest (settings : Settings) (text name : String) (file : Option String) (line : Nat)
    (globals : List (String × String)) : Except ReadError Doctest :=
  (read settings text).map fun examples => { name, file, line, text, examples, globals }

end DocExamples.Transcript
