/-!
Option flags: how an example is run and how its output is compared. A session has default flags;
an example may switch flags on and off, and a flag switched both ways is a contradiction.
-/
namespace DocExamples

inductive Flag where
  /-- Do not run the example. -/
  | skip
  /-- Skip every example of the block. -/
  | skipBlock
  /-- `...` in the expected output stands for any text. -/
  | ellipsis
  /-- Runs of blanks compare equal. -/
  | normalizeWhitespace
  /-- Compare the kind of an expected error only. -/
  | ignoreExceptionDetail
  /-- `<BLANKLINE>` stands for itself. -/
  | dontAcceptBlankline
  deriving DecidableEq, Repr

def Flag.all : List Flag :=
  [.skip, .skipBlock, .ellipsis, .normalizeWhitespace, .ignoreExceptionDetail, .dontAcceptBlankline]

def Flag.name : Flag → String
  | .skip => "SKIP"
  | .skipBlock => "SKIPBLOCK"
  | .ellipsis => "ELLIPSIS"
  | .normalizeWhitespace => "NORMALIZE_WHITESPACE"
  | .ignoreExceptionDetail => "IGNORE_EXCEPTION_DETAIL"
  | .dontAcceptBlankline => "DONT_ACCEPT_BLANKLINE"

def Flag.ofName? (name : String) : Option Flag := Flag.all.find? (·.name == name)

structure Flags where
  has : Flag → Bool

namespace Flags

def empty : Flags := ⟨fun _ => false⟩

def ofList (flags : List Flag) : Flags := ⟨flags.contains⟩

/-- In the order of declaration. -/
def toList (flags : Flags) : List Flag := Flag.all.filter flags.has

def isEmpty (flags : Flags) : Bool := flags.toList.isEmpty

def insert (flag : Flag) (flags : Flags) : Flags := ⟨fun f => f == flag || flags.has f⟩

def union (a b : Flags) : Flags := ⟨fun f => a.has f || b.has f⟩

def inter (a b : Flags) : Flags := ⟨fun f => a.has f && b.has f⟩

def diff (a b : Flags) : Flags := ⟨fun f => a.has f && !b.has f⟩

/-- Whether an example under these flags is skipped, alone or with its block. -/
def requestsSkip (flags : Flags) : Bool := flags.has .skip || flags.has .skipBlock

def render (flags : Flags) : String :=
  if flags.isEmpty then "(none)" else " | ".intercalate (flags.toList.map Flag.name)

/-- The flags of a session that names none. -/
def defaults : Flags := ofList [.normalizeWhitespace, .ellipsis, .ignoreExceptionDetail]

@[ext]
theorem ext {a b : Flags} (h : ∀ f, a.has f = b.has f) : a = b := by
  cases a
  cases b
  congr
  exact funext h

@[simp]
theorem has_insert (flag : Flag) (flags : Flags) (f : Flag) :
    (insert flag flags).has f = (f == flag || flags.has f) := rfl

end Flags

/-- What an example's directives switch on and off. -/
structure Overrides where
  enable : Flags := .empty
  disable : Flags := .empty

namespace Overrides

def isEmpty (o : Overrides) : Bool := o.enable.isEmpty && o.disable.isEmpty

/-- The flags switched both on and off. -/
def conflict (o : Overrides) : Flags := o.enable.inter o.disable

/-- The flags an example runs under, or the flags that its directives contradict each other on. -/
def resolve (o : Overrides) (session : Flags) : Except Flags Flags :=
  if o.conflict.isEmpty then .ok ((session.union o.enable).diff o.disable) else .error o.conflict

end Overrides

end DocExamples
