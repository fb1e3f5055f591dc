import DocExamples.Files.Tree
/-!
What a language has to offer for its examples to be run: namespaces that sources are executed in,
and errors as transcripts show them.
-/
namespace DocExamples

/-- Broad classes of errors. -/
inductive ErrorCategory where
  /-- The source is not a program. -/
  | syntaxError
  /-- A name was used that is not bound. -/
  | undefinedName
  | runtime
  deriving DecidableEq, Repr

/-- An error as a transcript shows it. -/
structure Raised where
  category : ErrorCategory
  kind : String
  message : String
  deriving DecidableEq, Repr

/-- The last line of a report on the error. -/
def Raised.reportLine (r : Raised) : String :=
  if r.message.isEmpty then r.kind ++ "\n" else r.kind ++ ": " ++ r.message ++ "\n"

/-- What executing a source shows: the output, and the error if there is one. -/
structure Outcome where
  output : String
  error : Option Raised
  deriving DecidableEq, Repr

structure Interpreter where
  Namespace : Type
  /-- A namespace with initial bindings, each a name and an expression, that can read the files of
  a directory. -/
  create : List (String × String) → Directory → Except Raised Namespace
  /-- The error that a source shows without being executed. -/
  syntaxError? : String → Option Raised
  execute : String → Namespace → Outcome × Namespace

end DocExamples
