import DocExamples.Example
import DocExamples.Literal.Agreement
import DocExamples.Literal.Reader
import DocExamples.Output.Matching
/-!
Verdicts on the output of an example. Illustrations, random output, comments in place of output
and output that shows addresses pass; other output is compared, as text and then as a value.
-/
namespace DocExamples.Output

/-- Why output passes. -/
inductive Rule where
  /-- The example is an illustration. -/
  | unchecked
  | randomized
  /-- The expected output is a comment. -/
  | comment
  /-- The output shows the address of an object. -/
  | objectAddress
  | text
  | structural
  deriving DecidableEq, Repr

inductive Verdict where
  | pass (rule : Rule)
  | fail
  deriving DecidableEq, Repr

def Verdict.isPass : Verdict → Bool
  | .pass _ => true
  | .fail => false

def isHexDigit (c : Char) : Bool :=
  c.isDigit || ('a' ≤ c && c ≤ 'f') || ('A' ≤ c && c ≤ 'F')

/-- What follows `at 0x`, hexadecimal digits and `>` at the start of a text. -/
def address? (text : List Char) : Option (List Char) := do
  let rest ← Text.stripStart? "at 0x".toList text
  match rest.takeWhile isHexDigit, rest.dropWhile isHexDigit with
  | _ :: _, '>' :: after => some after
  | _, _ => none

/-- Whether the address of an object occurs, as in `<function f at 0x7f00>`. -/
def hasAddress : List Char → Bool
  | [] => false
  | c :: rest => (address? (c :: rest)).isSome || hasAddress rest

/-- The rule that passes an example's output without a comparison. -/
def unconditional? (e : Example) (got : String) : Option Rule :=
  if e.pseudocode || e.stopword then some .unchecked
  else if e.randomized then some .randomized
  else if (Text.trimStart e.want.toList).head? = some '#' then some .comment
  else if hasAddress got.toList then some .objectAddress
  else none

/-- The verdict on the output of an example, whose options must not contradict each other; where no
rule passes the output, `compare` decides. -/
def checkWith (compare : (want got : String) → Flags → Settings → Verdict) (settings : Settings)
    (e : Example) (got : String) : Except Flags Verdict := do
  let flags ← e.overrides.resolve settings.flags
  match unconditional? e got with
  | some rule => return .pass rule
  | none => return compare e.want got flags settings

/-- Whether a report is the one that an example documents. -/
def checkReport (settings : Settings) (e : Example) (report : String) : Except Flags Bool := do
  let flags ← e.overrides.resolve settings.flags
  return e.errorReport.any fun want => errorMatches want.toList report.toList flags

/-- How output and errors are judged. A checker says how texts compare; the rules on marked examples
and on options are shared by all that do not replace them. -/
structure Checker where
  compare : (want got : String) → Flags → Settings → Verdict
  check : Settings → Example → String → Except Flags Verdict := checkWith compare
  checkError : Settings → Example → String → Except Flags Bool := checkReport

namespace Checker

/-- Compares as text only. -/
def exact : Checker where
  compare want got flags _ :=
    if textMatches want.toList got.toList flags then .pass .text else .fail

/-- Compares as text, then as values with the tolerance of the settings. -/
def tolerant : Checker where
  compare want got flags settings :=
    if textMatches want.toList got.toList flags then .pass .text
    else
      match Literal.parse? want settings.parseNamedTuples,
        Literal.parse? got settings.parseNamedTuples with
      | some w, some g =>
        if Literal.structurallyEqual settings w g then .pass .structural else .fail
      | _, _ => .fail

end Checker

end DocExamples.Output
