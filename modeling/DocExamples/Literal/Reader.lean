import DocExamples.Decimal.Reading
import DocExamples.Literal.Basic
import DocExamples.Literal.Token
import DocExamples.Text.Pieces
/-!
Reading printed output back as a literal: scalars, lists, tuples and dictionaries, wrapped numbers
such as `float64(1.5)`, `array(…)` and `masked_array(…)`, named tuples, and arrays printed without
commas. Text of any other form is no literal.
-/
namespace DocExamples.Literal

/-- Containers nest at most this deep. -/
def maxDepth : Nat := 256

/-- A reader takes tokens off the front, or fails. -/
abbrev Reader (α : Type) := StateT (List Token) Option α

namespace Reader

def fail {α : Type} : Reader α := fun _ => none

/-- Takes `token` if it comes next, and tells whether it did. -/
def eat (token : Token) : Reader Bool := fun tokens =>
  match tokens with
  | t :: rest => if t = token then some (true, rest) else some (false, t :: rest)
  | [] => some (false, [])

def consume (token : Token) : Reader Unit := do
  if !(← eat token) then fail

/-- How many tokens are left. -/
def left : Reader Nat := do return (← get).length

end Reader

/-- The part of a dotted name after its last point. -/
def lastSegment (name : List Char) : List Char := (name.reverse.takeWhile (· != '.')).reverse

def constantNames : List String := ["nan", "NaN", "inf", "Inf", "True", "False", "None"]

def isConstant (name : List Char) : Bool :=
  constantNames.contains (String.ofList (lastSegment name))

/-- Escapes other than those of line feed and tab stand for the character itself. -/
def escapeMeaning : Char → Option Char
  | 'n' => some '\n'
  | 't' => some '\t'
  | _ => none

def wholeNumber (digits : List Char) : Number :=
  ⟨Decimal.toFloat false (Decimal.ofDigits digits) 0, .int⟩

def signed (negative : Bool) (n : Number) : Literal :=
  .leaf (.number { n with value := if negative then -n.value else n.value })

/-- A name that stands for a value. The truth values and `None` take no minus sign. -/
def constant (negative : Bool) (name : List Char) : Option Literal :=
  match String.ofList (lastSegment name) with
  | "nan" | "NaN" => some (signed negative ⟨Binary64.nan, .float⟩)
  | "inf" | "Inf" => some (signed negative ⟨Binary64.infinity, .float⟩)
  | "True" => if negative then none else some (.leaf (.bool true))
  | "False" => if negative then none else some (.leaf (.bool false))
  | "None" => if negative then none else some (.leaf .none)
  | _ => none

/-- A number with an optional sign, or a constant. -/
def scalar : Reader Literal := do
  let negative ← Reader.eat .minus
  if !negative then let _ ← Reader.eat .plus
  match ← get with
  | .int digits :: rest =>
    set rest
    return signed negative (wholeNumber digits)
  | .float chars :: rest =>
    set rest
    return signed negative ⟨← Decimal.readFloat? chars, .float⟩
  | .name chars :: rest =>
    set rest
    constant negative chars
  | _ => Reader.fail

/-- Values with commas between them up to `close`, which is taken too. Every value takes a token,
so that the number of tokens left bounds the number of rounds. -/
def sequenceLoop (value : Reader Literal) (close : Token) : Nat → Reader (List Literal)
  | 0 => Reader.fail
  | fuel + 1 => do
    if ← Reader.eat close then return []
    let item ← value
    if ← Reader.eat .comma then return item :: (← sequenceLoop value close fuel)
    Reader.consume close
    return [item]

def sequence (value : Reader Literal) (close : Token) : Reader (List Literal) := do
  sequenceLoop value close ((← Reader.left) + 1)

/-- One value in parentheses is that value; otherwise they hold a tuple. -/
def parenthesized (value : Reader Literal) : Reader Literal := do
  if ← Reader.eat .rightParen then return .tuple []
  let first ← value
  if ← Reader.eat .rightParen then return first
  Reader.consume .comma
  return .tuple (first :: (← sequence value .rightParen))

def dictLoop (value : Reader Literal) : Nat → Reader (List (Literal × Literal))
  | 0 => Reader.fail
  | fuel + 1 => do
    if ← Reader.eat .rightBrace then return []
    let key ← value
    Reader.consume .colon
    let item ← value
    if ← Reader.eat .comma then return (key, item) :: (← dictLoop value fuel)
    Reader.consume .rightBrace
    return [(key, item)]

structure Arguments where
  positional : List Literal
  keyword : List (List Char × Literal)

namespace Arguments

def none : Arguments := ⟨[], []⟩

def keyword? (a : Arguments) (name : String) : Option Literal := a.keyword.lookup name.toList

end Arguments

/-- The value of a keyword argument, which may be the bare name of a type. -/
def keywordValue (value : Reader Literal) : Reader Literal := do
  match ← get with
  | .name chars :: rest =>
    if rest.head? != some .leftParen && !isConstant chars then
      set rest
      return .leaf (.str (String.ofList chars))
    else value
  | _ => value

/-- Positional arguments, then keyword arguments, up to the closing parenthesis. -/
def argumentsLoop (value : Reader Literal) (acc : Arguments) : Nat → Reader Arguments
  | 0 => Reader.fail
  | fuel + 1 => do
    if ← Reader.eat .rightParen then return acc
    let acc ← match ← get with
      | .name key :: .equals :: rest => do
        set rest
        let item ← keywordValue value
        pure { acc with keyword := acc.keyword ++ [(key, item)] }
      | _ => do
        if !acc.keyword.isEmpty then Reader.fail
        let item ← value
        pure { acc with positional := acc.positional ++ [item] }
    if ← Reader.eat .comma then argumentsLoop value acc fuel
    else
      Reader.consume .rightParen
      return acc

mutual

/-- The leaves of nested lists, and whether a mark of abbreviation stands among them. Other
containers have no place in an array. -/
def flatten : Literal → Option (List Leaf × Bool)
  | .list items => flattenAll items
  | .ellipsis => some ([], true)
  | .leaf l => some ([l], false)
  | .tuple _ | .dict _ | .array _ => none

def flattenAll : List Literal → Option (List Leaf × Bool)
  | [] => some ([], false)
  | item :: rest => do
    let (leaves, short) ← flatten item
    let (more, alsoShort) ← flattenAll rest
    return (leaves ++ more, short || alsoShort)

end

mutual

/-- The shape of rectangular nested lists. -/
def inferShape : Literal → Option (List Nat)
  | .list items => (commonShape items).map fun inner => items.length :: inner.getD []
  | _ => some []

/-- The shape that all items have, if there are any. -/
def commonShape : List Literal → Option (Option (List Nat))
  | [] => some none
  | item :: rest => do
    let shape ← inferShape item
    match ← commonShape rest with
    | none => return some shape
    | some other => if shape = other then return some shape else none

end

/-- The greatest size that a machine word holds. -/
def maxSize : Nat := UInt64.size - 1

/-- A whole number that is not negative; beyond `maxSize` it counts as `maxSize`. -/
def dimension? : Literal → Option Nat
  | .leaf (.number ⟨value, .int⟩) =>
    match Binary64.parts value with
    | .finite negative mantissa exponent =>
      if negative && mantissa != 0 then none
      else some (min (mantissa <<< exponent.toNat >>> (-exponent).toNat) maxSize)
    | _ => none
  | _ => none

def declaredShape? : Option Literal → Option (Option (List Nat))
  | some (.tuple dims) => (dims.mapM dimension?).map some
  | some single => (dimension? single).map fun n => some [n]
  | none => some none

def dtype? : Option Literal → Option (Option String)
  | some (.leaf (.str name)) => some (some (String.ofList (lastSegment name.toList)))
  | some _ => none
  | none => some none

/-- The array with the given nested lists, annotated by keyword arguments. -/
def arrayLiteral (data : Literal) (args : Arguments) (style : ArrayStyle) : Option Literal := do
  let (leaves, abbreviated) ← flatten data
  let shape ← if abbreviated then pure none else (inferShape data).map some
  let declaredShape ← declaredShape? (args.keyword? "shape")
  let dtype ← dtype? (args.keyword? "dtype")
  return .array { style, leaves, shape, declaredShape, dtype, abbreviated }

/-- What a call stands for: an array, a named tuple, or a number of a named kind. -/
def callValue (namedTuples : Bool) (name : List Char) (args : Arguments) : Option Literal :=
  match String.ofList (lastSegment name) with
  | "array" => do
    let data ← args.positional.head? <|> args.keyword? "data"
    arrayLiteral data args .repr
  | "masked_array" => do
    let data ← args.keyword? "data" <|> args.positional.head?
    arrayLiteral data args .repr
  | kind =>
    match args.positional, args.keyword with
    | [], _ :: _ => if namedTuples then some (.tuple (args.keyword.map (·.2))) else none
    | [.leaf (.number n)], [] => some (.leaf (.number ⟨n.value, .named kind⟩))
    | _, _ => none

/-- One value, the values inside it read by `inner`. -/
def item (namedTuples : Bool) (inner : Reader Literal) : Reader Literal := do
  match ← get with
  | .leftBracket :: rest =>
    set rest
    return .list (← sequence inner .rightBracket)
  | .leftParen :: rest =>
    set rest
    parenthesized inner
  | .leftBrace :: rest =>
    set rest
    return .dict (← dictLoop inner (rest.length + 1))
  | .ellipsis :: rest =>
    set rest
    return .ellipsis
  | .masked :: rest =>
    set rest
    return .leaf .masked
  | .str chars :: rest =>
    set rest
    return .leaf (.str (String.ofList (Text.unescape escapeMeaning chars)))
  | .name name :: .leftParen :: rest =>
    set rest
    let args ← argumentsLoop inner .none (rest.length + 1)
    match callValue namedTuples name args with
    | some literal => return literal
    | none => Reader.fail
  | _ => scalar

/-- A value in which containers nest at most `depth` levels deep. -/
def value (namedTuples : Bool) : Nat → Reader Literal
  | 0 => Reader.fail
  | depth + 1 => item namedTuples (value namedTuples depth)

def documentLoop (value : Reader Literal) : Nat → Reader (List Literal)
  | 0 => Reader.fail
  | fuel + 1 => do
    if ← Reader.eat .comma then
      if (← get).isEmpty then return []
      let item ← value
      return item :: (← documentLoop value fuel)
    return []

/-- One value, or the values of a tuple without parentheses. -/
def document (namedTuples : Bool) : Reader Literal := do
  let value := value namedTuples maxDepth
  let first ← value
  if (← get).isEmpty then return first
  return .tuple (first :: (← documentLoop value ((← Reader.left) + 1)))

/-- The rows and elements of an array printed without commas, up to the closing bracket. -/
def printedLoop (value row : Reader Literal) : Nat → Reader (List Literal)
  | 0 => Reader.fail
  | fuel + 1 => do
    match ← get with
    | .rightBracket :: rest =>
      set rest
      return []
    | .comma :: rest =>
      set rest
      printedLoop value row fuel
    | .leftBracket :: _ =>
      let item ← row
      return item :: (← printedLoop value row fuel)
    | _ =>
      let item ← value
      return item :: (← printedLoop value row fuel)

/-- A printed array with rows that nest at most `depth` levels deeper. -/
def printedSequence (namedTuples : Bool) : Nat → Reader Literal
  | 0 => do
    Reader.consume .leftBracket
    return .list (← printedLoop Reader.fail Reader.fail ((← Reader.left) + 1))
  | depth + 1 => do
    Reader.consume .leftBracket
    let value := value namedTuples (depth + 1)
    return .list (← printedLoop value (printedSequence namedTuples depth) ((← Reader.left) + 1))

def printedArray (namedTuples : Bool) : Reader Literal := do
  let nested ← printedSequence namedTuples maxDepth
  match arrayLiteral nested .none .printed with
  | some literal => return literal
  | none => Reader.fail

def readAll? (reader : Reader Literal) (tokens : List Token) : Option Literal :=
  match reader tokens with
  | some (literal, []) => some literal
  | _ => none

/-- The literal that a text shows. A text in brackets that is no literal in the strict reading may
be a printed array. -/
def parse? (text : String) (namedTuples : Bool) : Option Literal :=
  let text := Text.trim text.toList
  if text.isEmpty then none
  else do
    let tokens ← Token.scan text
    match readAll? (document namedTuples) tokens with
    | some literal => return literal
    | none =>
      if text.head? = some '[' ∧ text.getLast? = some ']' then
        readAll? (printedArray namedTuples) tokens
      else none

end DocExamples.Literal
