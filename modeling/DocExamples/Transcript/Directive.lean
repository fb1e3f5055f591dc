import DocExamples.Flag
import DocExamples.Text.Pieces
/-!
Directives: comments such as `# doctest: +SKIP, -ELLIPSIS` that switch flags for one example.
-/
namespace DocExamples.Transcript

/-- Where a scan for a comment stands: outside quotes, or inside the quotes of `mark`. -/
inductive QuoteState where
  | outside
  | inside (mark : Char)
  | escaped (mark : Char)
  deriving DecidableEq, Repr

def QuoteState.next (c : Char) : QuoteState → QuoteState
  | .outside => if c = '\'' ∨ c = '"' then .inside c else .outside
  | .inside mark => if c = '\\' then .escaped mark else if c = mark then .outside else .inside mark
  | .escaped mark => .inside mark

/-- Splits a line at its first `#` outside quotes. -/
def splitComment? (state : QuoteState) : List Char → Option (List Char × List Char)
  | [] => none
  | c :: rest =>
    if c = '#' ∧ state = .outside then some ([], rest)
    else (splitComment? (state.next c) rest).map fun (before, comment) => (c :: before, comment)

/-- The line before its directive comment and the directive's body. -/
def findDirective? (line : List Char) : Option (List Char × List Char) := do
  let (before, comment) ← splitComment? .outside line
  let body ← Text.stripStart? "doctest:".toList (Text.trimStart comment)
  return (before, Text.trim body)

/-- The words of a directive's body, which commas and blanks separate. -/
def directiveWords (body : List Char) : List (List Char) :=
  (Text.fields (fun c => c == ',' || Text.isBlank c) body).filter (!·.isEmpty)

/-- Applies one word of a directive, a sign and a flag's name; other words are refused. -/
def applyWord (o : Overrides) (word : List Char) : Except String Overrides :=
  let refused := Except.error (String.ofList word)
  match word with
  | '+' :: name =>
    match Flag.ofName? (String.ofList name) with
    | some flag => .ok { o with enable := o.enable.insert flag }
    | none => refused
  | '-' :: name =>
    match Flag.ofName? (String.ofList name) with
    | some flag => .ok { o with disable := o.disable.insert flag }
    | none => refused
  | _ => refused

/-- Applies the words of a directive from left to right; the error is the first refused one. -/
def applyDirective (o : Overrides) (body : List Char) : Except String Overrides :=
  (directiveWords body).foldlM applyWord o

end DocExamples.Transcript
