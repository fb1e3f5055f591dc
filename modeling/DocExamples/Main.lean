import DocExamples.CommandLine
import DocExamples.Script.Session
/-!
The program: reads the files that its arguments name, and prints what is answered.
-/
namespace DocExamples.CommandLine

/-- The cause that kept a file from being read. -/
def fileError : IO.Error → FileError
  | .noFileOrDirectory .. => .notFound
  | .permissionDenied .. => .permissionDenied
  | .inappropriateType (some _) .. => .notADirectory
  | .inappropriateType none .. => .isADirectory
  | .invalidArgument .. => .nameTooLong
  | e => .other (toString e)

def readFile (path : String) : IO (Except FileError ByteArray) := do
  try
    return .ok (← IO.FS.readBinFile path)
  catch e => return .error (fileError e)

/-- What the files hold that arguments name. -/
def readFiles (arguments : List String) : IO FileSource := do
  let found ← arguments.mapM fun path => return (path.toList, ← readFile path)
  return ⟨fun path => (found.lookup path).getD (.error .notFound)⟩

end DocExamples.CommandLine

open DocExamples in
def main (arguments : List String) : IO UInt32 := do
  let files ← CommandLine.readFiles (CommandLine.filesOf arguments)
  let answer := CommandLine.answer ⟨Script.interpreter .defaults, .tolerant, files⟩ arguments
  IO.print answer.output
  IO.eprint answer.errors
  return UInt32.ofNat answer.code
