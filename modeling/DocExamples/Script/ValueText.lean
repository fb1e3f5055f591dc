import DocExamples.Script.Value
/-!
Values as text: the form that a session echoes, and the form that `print` writes.
-/
namespace DocExamples.Script

/-- Doubles in programs: an exponent below `10 ^ -4` and from `10 ^ 16` on, else a point. -/
def floatFormat : Decimal.FloatFormat where
  leastPlace := some (-3)
  greatestPlace := some 16
  pointZero := true
  exponent := ⟨true, 2⟩
  nan := "nan"

/-- Double quotes are used only around a text with single quotes and without double ones. -/
def quoteFor (text : List Char) : Char :=
  if text.contains '\'' && !text.contains '"' then '"' else '\''

def escapeIn (quote c : Char) : List Char :=
  if c = '\\' then ['\\', '\\']
  else if c = '\n' then ['\\', 'n']
  else if c = '\t' then ['\\', 't']
  else if c = quote then ['\\', c]
  else [c]

def literalText (text : List Char) : List Char :=
  let quote := quoteFor text
  quote :: text.flatMap (escapeIn quote) ++ [quote]

def quotedText (text : String) : String := String.ofList (literalText text.toList)

def addressText (id : Nat) : String := "0x" ++ String.ofList (Nat.toDigits 16 (id + 1))

namespace Value

mutual

/-- The form that a session echoes. -/
def repr : Value → String
  | .none => "None"
  | .bool b => boolText b
  | .int i => intText i
  | .float x => floatFormat.render x
  | .str s => quotedText s
  | .list ⟨items⟩ => "[" ++ ", ".intercalate (reprs items) ++ "]"
  | .tuple items =>
    let body := ", ".intercalate (reprs items)
    if items.length = 1 then "(" ++ body ++ ",)" else "(" ++ body ++ ")"
  | .dict entries => "\x7b" ++ ", ".intercalate (entryReprs entries) ++ "\x7d"
  | .tensor t => t.repr
  | .function id name _ _ => "<function " ++ name ++ " at " ++ addressText id ++ ">"
  | .builtin b => "<built-in function " ++ b.name ++ ">"
  | .method receiver name =>
    "<built-in method " ++ name ++ " of " ++ receiver.typeName ++ " object>"
  | .module name => "<module '" ++ name ++ "'>"
  | .exceptionType kind => "<class '" ++ kind ++ "'>"
  | .exception kind message => kind ++ "(" ++ quotedText message ++ ")"

def reprs : List Value → List String
  | [] => []
  | v :: rest => repr v :: reprs rest

def entryReprs : List (Value × Value) → List String
  | [] => []
  | (key, value) :: rest => (repr key ++ ": " ++ repr value) :: entryReprs rest

end

theorem repr_list (items : List Value) :
    repr (.list ⟨items⟩) = "[" ++ ", ".intercalate (reprs items) ++ "]" := rfl

theorem repr_tuple (items : List Value) :
    repr (.tuple items) =
      if items.length = 1 then "(" ++ ", ".intercalate (reprs items) ++ ",)"
      else "(" ++ ", ".intercalate (reprs items) ++ ")" := rfl

theorem repr_dict (entries : List (Value × Value)) :
    repr (.dict entries) = "\x7b" ++ ", ".intercalate (entryReprs entries) ++ "\x7d" := rfl

/-- The form that `print` writes. -/
def display : Value → String
  | .str s => s
  | .tensor t => t.print
  | .exception _ message => message
  | v => v.repr

end Value

end DocExamples.Script
