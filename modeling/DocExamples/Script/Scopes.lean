/-!
Bindings of names: those of the module, and a frame of local ones for each active call. Names are
looked up in the innermost frame and then in the module.
-/
namespace DocExamples.Script

/-- Names with their values; no name twice. -/
abbrev Frame (α : Type) := List (String × α)

namespace Frame

variable {α : Type}

def get? (name : String) (f : Frame α) : Option α := f.lookup name

/-- Replaces the value of a name, or adds the name at the end. -/
def put (name : String) (value : α) : Frame α → Frame α
  | [] => [(name, value)]
  | (n, v) :: rest => if n = name then (n, value) :: rest else (n, v) :: put name value rest

def erase (name : String) (f : Frame α) : Frame α := f.filter (·.1 != name)

def has (name : String) (f : Frame α) : Bool := (f.get? name).isSome

def change (name : String) (g : α → α) : Frame α → Frame α
  | [] => []
  | (n, v) :: rest => if n = name then (n, g v) :: rest else (n, v) :: change name g rest

end Frame

structure Scopes (α : Type) where
  globals : Frame α
  /-- The frames of the active calls, the innermost first. -/
  frames : List (Frame α)

namespace Scopes

variable {α : Type}

def empty : Scopes α := ⟨[], []⟩

def lookup (s : Scopes α) (name : String) : Option α :=
  match s.frames with
  | [] => s.globals.get? name
  | frame :: _ => frame.get? name <|> s.globals.get? name

/-- Binds a name in the innermost scope. -/
def define (s : Scopes α) (name : String) (value : α) : Scopes α :=
  match s.frames with
  | [] => { s with globals := s.globals.put name value }
  | frame :: rest => { s with frames := frame.put name value :: rest }

/-- Changes the value of a bound name where it is bound. -/
def change (s : Scopes α) (name : String) (g : α → α) : Scopes α :=
  match s with
  | ⟨globals, []⟩ => ⟨globals.change name g, []⟩
  | ⟨globals, frame :: rest⟩ =>
    if frame.has name then ⟨globals, frame.change name g :: rest⟩
    else ⟨globals.change name g, frame :: rest⟩

/-- Removes a binding of the innermost scope. -/
def remove (s : Scopes α) (name : String) : Option α × Scopes α :=
  match s.frames with
  | [] => (s.globals.get? name, { s with globals := s.globals.erase name })
  | frame :: rest => (frame.get? name, { s with frames := frame.erase name :: rest })

def pushFrame (s : Scopes α) : Scopes α := { s with frames := [] :: s.frames }

def popFrame (s : Scopes α) : Scopes α := { s with frames := s.frames.tail }

/-- How many calls are active. -/
def depth (s : Scopes α) : Nat := s.frames.length

/-- The names bound in the module, in increasing order. -/
def globalNames (s : Scopes α) : List String := (s.globals.map (·.1)).mergeSort (· ≤ ·)

@[simp]
theorem frames_pushFrame (s : Scopes α) : s.pushFrame.frames = [] :: s.frames := rfl

@[simp]
theorem popFrame_pushFrame (s : Scopes α) : s.pushFrame.popFrame = s := rfl

end Scopes

end DocExamples.Script
