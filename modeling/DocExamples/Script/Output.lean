/-!
Captured output: everything that was printed and not yet taken.
-/
namespace DocExamples.Script

structure Output where
  text : String
  deriving DecidableEq, Repr

namespace Output

def empty : Output := ⟨""⟩

def print (o : Output) (s : String) : Output := ⟨o.text ++ s⟩

def printLine (o : Output) (s : String) : Output := ⟨o.text ++ s ++ "\n"⟩

/-- The text so far, and output with nothing in it. -/
def take (o : Output) : String × Output := (o.text, empty)

end Output

end DocExamples.Script
