import DocExamples.Files.Path
/-!
Directories and the files in them, and reading a file by its path.
-/
namespace DocExamples

inductive FileError where
  | notFound
  | notADirectory
  | isADirectory
  | nameTooLong
  | nulInPath
  | notText
  | notAFile
  | noFileName
  | permissionDenied
  /-- Anything else that keeps a file from being read. -/
  | other (reason : String)
  deriving DecidableEq, Repr

def FileError.message : FileError → String
  | .notFound => "No such file or directory (os error 2)"
  | .notADirectory => "Not a directory (os error 20)"
  | .isADirectory => "Is a directory (os error 21)"
  | .nameTooLong => "File name too long (os error 36)"
  | .nulInPath => "file name contained an unexpected NUL byte"
  | .notText => "stream did not contain valid UTF-8"
  | .notAFile => "the source path is neither a regular file nor a symlink to a regular file"
  | .noFileName => "resource path has no file name"
  | .permissionDenied => "Permission denied (os error 13)"
  | .other reason => reason

inductive FileNode where
  | file (content : ByteArray)
  | directory (entries : List (String × FileNode))

abbrev Directory := List (String × FileNode)

namespace Directory

def maxNameBytes : Nat := 255

def maxPathBytes : Nat := 4095

def empty : Directory := []

/-- Replaces the entry of that name, or adds one. -/
def put (name : String) (node : FileNode) : Directory → Directory
  | [] => [(name, node)]
  | (n, old) :: rest => if n = name then (n, node) :: rest else (n, old) :: put name node rest

/-- Puts a node at a path, in directories that are made where they are missing. -/
def insert (node : FileNode) : List String → Directory → Directory
  | [], dir => dir
  | [name], dir =>
    match node, dir.lookup name with
    | .directory [], some (.directory _) => dir
    | _, _ => put name node dir
  | name :: rest, dir =>
    let inner := match dir.lookup name with
      | some (.directory entries) => entries
      | _ => []
    put name (.directory (insert node rest inner)) dir

/-- Follows the parts of a path from a node; `above` are the directories around it, innermost
first. Of the directories around the outermost one no entries are known. -/
def walk (above : List Directory) (node : FileNode) : List (List Char) → Except FileError FileNode
  | [] => .ok node
  | part :: rest =>
    match node with
    | .file _ => .error .notADirectory
    | .directory entries =>
      if Path.countsForNothing part then walk above node rest
      else if part = ['.', '.'] then
        match above with
        | [] => walk [] (.directory []) rest
        | outer :: above => walk above (.directory outer) rest
      else if maxNameBytes < (String.ofList part).utf8ByteSize then .error .nameTooLong
      else
        match entries.lookup (String.ofList part) with
        | none => .error .notFound
        | some inner => walk (entries :: above) inner rest

/-- The node at a path. No entries are known of the root, which absolute paths start from. -/
def find (dir : Directory) (path : List Char) : Except FileError FileNode :=
  if path.contains '\x00' then .error .nulInPath
  else if path.isEmpty then .error .notFound
  else if maxPathBytes < (String.ofList path).utf8ByteSize then .error .nameTooLong
  else walk [] (.directory (if Path.isAbsolute path then [] else dir)) (Path.segments path)

def read (dir : Directory) (path : List Char) : Except FileError ByteArray := do
  match ← dir.find path with
  | .file content => return content
  | .directory _ => throw .isADirectory

end Directory

/-- What files hold, by their paths. -/
structure FileSource where
  read : List Char → Except FileError ByteArray

/-- The files of a directory, by their paths in it. -/
def Directory.source (dir : Directory) : FileSource := ⟨dir.read⟩

/-- The files of a directory, by their paths in it, if these are followed from the root: the path
of the directory and the slash after it take `lead` bytes of what a path may have. -/
def Directory.sourceBelow (lead : Nat) (dir : Directory) : FileSource where
  read path :=
    let length := lead + (String.ofList path).utf8ByteSize
    if !path.contains '\x00' && Directory.maxPathBytes < length then .error .nameTooLong
    else dir.read (Path.join ['.'] path)

namespace FileSource

def readText (files : FileSource) (path : List Char) : Except FileError String := do
  match String.fromUTF8? (← files.read path) with
  | some text => return text
  | none => throw .notText

/-- Copies the file at a path to the top of a directory, under a name. -/
def copyInto (files : FileSource) (path name : List Char) (target : Directory) :
    Except FileError Directory :=
  match files.read path with
  | .ok content => .ok (target.put (String.ofList name) (.file content))
  | .error .isADirectory => .error .notAFile
  | .error e => .error e

end FileSource

end DocExamples
