import DocExamples.Files.Path
import DocExamples.Flag
/-!
Examples of a documentation text, the blocks they form, and the named unit that owns them.
-/
namespace DocExamples

/-- The first line of the output that documents an error. -/
def tracebackHeader : String := "Traceback (most recent call last):"

structure Example where
  /-- The lines of the source, joined by line feeds. -/
  source : String
  /-- The expected output; each of its lines ends in a line feed. -/
  want : String
  /-- The expected error report, if the output documents an error. -/
  errorReport : Option String
  /-- The line of the prompt, counted from zero. -/
  line : Nat
  /-- The column of the prompt. -/
  indent : Nat
  overrides : Overrides
  randomized : Bool
  pseudocode : Bool
  stopword : Bool
  /-- The index of the block that the example belongs to. -/
  block : Nat

/-- The positions of a run of examples with no prose between them. -/
structure Block where
  start : Nat
  stop : Nat
  deriving DecidableEq, Repr

def Block.size (b : Block) : Nat := b.stop - b.start

/-- The blocks of the examples whose first has position `start`: the runs of neighbours with one
block index. -/
def blocksFrom (start : Nat) : List Example → List Block
  | [] => []
  | e :: rest =>
    match rest, blocksFrom (start + 1) rest with
    | next :: _, b :: bs =>
      if e.block = next.block then ⟨start, b.stop⟩ :: bs else ⟨start, start + 1⟩ :: b :: bs
    | _, bs => ⟨start, start + 1⟩ :: bs

def blocksOf (examples : List Example) : List Block := blocksFrom 0 examples

/-- A documentation text with its name and place, and its examples. -/
structure Doctest where
  name : String
  file : Option String
  /-- The line of the text within its file. -/
  line : Nat
  text : String
  examples : List Example
  /-- Names and expressions bound before the first example. -/
  globals : List (String × String)

/-- The directory of the unit's file. -/
def Doctest.directory? (d : Doctest) : Option String :=
  d.file.bind fun file => (Path.parent? file.toList).map String.ofList

def Doctest.blocks (d : Doctest) : List Block := blocksOf d.examples

end DocExamples
