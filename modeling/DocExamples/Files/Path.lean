import DocExamples.Text.Pieces
/-!
Paths with `/` between their parts. Empty parts and `.` count for nothing, save a `.` at the start.
-/
namespace DocExamples.Path

def isAbsolute (path : List Char) : Bool := path.head? = some '/'

/-- The root or the `.` at the start of a path, and the rest. -/
def splitLead : List Char → List Char × List Char
  | '/' :: rest => (['/'], rest)
  | ['.'] => (['.'], [])
  | '.' :: '/' :: rest => (['.'], '/' :: rest)
  | path => ([], path)

/-- The text before the last `/`, and the part after it. -/
def splitLast (body : List Char) : List Char × List Char :=
  let part := (body.reverse.takeWhile (· != '/')).reverse
  (body.take (body.length - part.length - 1), part)

def countsForNothing (part : List Char) : Bool := part == [] || part == ['.']

/-- Takes the last part that counts off the end of a path's body, of at most `fuel` characters. -/
def popPart? : Nat → List Char → Option (List Char × List Char)
  | _, [] => none
  | 0, _ => none
  | fuel + 1, body =>
    let (before, part) := splitLast body
    if countsForNothing part then popPart? fuel before else some (before, part)

/-- Takes parts that count for nothing off the end, at most `fuel` of them. -/
def trimParts : Nat → List Char → List Char
  | _, [] => []
  | 0, body => body
  | fuel + 1, body =>
    let (before, part) := splitLast body
    if countsForNothing part then trimParts fuel before else body

/-- The path without its last part; the root and the empty path have no parent. -/
def parent? (path : List Char) : Option (List Char) :=
  let (lead, body) := splitLead path
  match popPart? body.length body with
  | some (before, _) => some (lead ++ trimParts before.length before)
  | none => if lead = ['.'] then some [] else none

def fileName? (path : List Char) : Option (List Char) :=
  let body := (splitLead path).2
  match popPart? body.length body with
  | some (_, part) => if part = ['.', '.'] then none else some part
  | none => none

/-- What follows the last point of the file's name; a point at its start does not count. -/
def extension? (path : List Char) : Option (List Char) := do
  let name ← fileName? path
  let suffix := (name.reverse.takeWhile (· != '.')).reverse
  if suffix.length + 1 < name.length then some suffix else none

/-- `path` as seen from the directory `base`. -/
def join (base path : List Char) : List Char :=
  if isAbsolute path then path
  else if base.isEmpty || base.getLast? = some '/' then base ++ path
  else base ++ '/' :: path

def segments (path : List Char) : List (List Char) := Text.fields (· == '/') path

/-- Whether a path may leave the directory it is read in. -/
def escapes (path : List Char) : Bool :=
  isAbsolute path || (segments path).contains ['.', '.']

end DocExamples.Path
