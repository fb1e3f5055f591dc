import DocExamples.Flag
import DocExamples.Text.Pieces
/-!
Comparison of output as text: marked blank lines, runs of blanks, and ellipses that stand for any
text.
-/
namespace DocExamples.Output

/-- Stands for an empty line of expected output. -/
def blankLineMarker : List Char := "<BLANKLINE>".toList

def ellipsisMarker : List Char := ['.', '.', '.']

/-- Empties the lines that `blank` holds of; line feeds stay. -/
def emptyLines (blank : List Char → Bool) (text : List Char) : List Char :=
  Text.join ['\n'] ((Text.fields (· == '\n') text).map fun line => if blank line then [] else line)

/-- The words with one space between neighbours. -/
def collapse (text : List Char) : List Char := Text.join [' '] (Text.words text)

/-- Whether the pieces occur in the text one after another without overlap. -/
def occurInOrder : List (List Char) → List Char → Bool
  | [], _ => true
  | piece :: rest, text =>
    match Text.afterFirst? piece text with
    | some after => occurInOrder rest after
    | none => false

/-- Whether `got` is the pieces in order, any text standing between neighbours: the first piece at
the start, the last at the end, the others in between. -/
def matchPieces : List (List Char) → List Char → Bool
  | [], _ => false
  | [piece], got => piece == got
  | first :: next :: rest, got =>
    let last := (next :: rest).getLastD []
    first.isPrefixOf got && last.isSuffixOf got && first.length + last.length ≤ got.length &&
      occurInOrder (next :: rest).dropLast
        ((got.drop first.length).take (got.length - first.length - last.length))

/-- Whether `got` is `want` with some text, possibly none, in place of each `...`. -/
def ellipsisMatches (want got : List Char) : Bool :=
  matchPieces (Text.pieces ellipsisMarker want) got

/-- Both texts with their blank lines made equal. -/
def unmarkBlankLines (flags : Flags) (want got : List Char) : List Char × List Char :=
  if flags.has .dontAcceptBlankline then (want, got)
  else
    (emptyLines (fun line => Text.trimEnd line == blankLineMarker) want,
      emptyLines Text.allBlank got)

def unifyBlanks (flags : Flags) (want got : List Char) : List Char × List Char :=
  if flags.has .normalizeWhitespace then (collapse want, collapse got) else (want, got)

/-- Whether output matches as text. Each relaxation applies to the outcome of those before it. -/
def textMatches (want got : List Char) (flags : Flags) : Bool :=
  if want == got then true
  else
    let (want, got) := unmarkBlankLines flags want got
    if want == got then true
    else
      let (want, got) := unifyBlanks flags want got
      want == got || (flags.has .ellipsis && ellipsisMatches want got)

/-- The kind of error that a report names, without the modules it is in. -/
def errorKind (report : List Char) : List Char :=
  let first := (Text.lines report).headD []
  let kind := Text.trim (first.takeWhile (· != ':'))
  (kind.reverse.takeWhile (· != '.')).reverse

/-- Whether error reports match: as text, or by the kind of error only. -/
def errorMatches (want got : List Char) (flags : Flags) : Bool :=
  if flags.has .ignoreExceptionDetail then errorKind want == errorKind got
  else textMatches want got flags

end DocExamples.Output
