import DocExamples.Text.Blank
import DocExamples.Text.Pieces
/-!
Strict JSON: one value with blanks around it and nothing else. Of numbers only the natural ones
that fit sixty-four bits are told apart.
-/
namespace DocExamples

inductive JsonNode where
  | null
  | bool (b : Bool)
  | natural (n : Nat)
  /-- Any other number. -/
  | number
  | str (s : String)
  | array (items : List JsonNode)
  | object (fields : List (String × JsonNode))

/-- What a text is when it is no JSON. -/
inductive JsonFault where
  | unfinishedList
  | unfinishedObject
  | unfinishedString
  | unfinishedValue
  | noValue
  | noColon
  | noListEnd
  | noObjectEnd
  | noKey
  | trailingComma
  | badNumber
  | badEscape
  | badCodePoint
  | controlCharacter
  | tooDeep
  | trailingText
  deriving DecidableEq, Repr

def JsonFault.message : JsonFault → String
  | .unfinishedList => "EOF while parsing a list"
  | .unfinishedObject => "EOF while parsing an object"
  | .unfinishedString => "EOF while parsing a string"
  | .unfinishedValue => "EOF while parsing a value"
  | .noValue => "expected value"
  | .noColon => "expected `:`"
  | .noListEnd => "expected `,` or `]`"
  | .noObjectEnd => "expected `,` or `\x7d`"
  | .noKey => "key must be a string"
  | .trailingComma => "trailing comma"
  | .badNumber => "invalid number"
  | .badEscape => "invalid escape"
  | .badCodePoint => "invalid unicode code point"
  | .controlCharacter =>
    "control character (\\u0000-\\u001F) found while parsing a string"
  | .tooDeep => "recursion limit exceeded"
  | .trailingText => "trailing characters"

namespace Json

/-- A fault, and the text from the place where it was found. -/
abbrev Result (α : Type) := Except (JsonFault × List Char) α

def isBlank (c : Char) : Bool := c == ' ' || c == '\n' || c == '\t' || c == '\r'

def skipBlanks (text : List Char) : List Char := text.dropWhile isBlank

/-! ### Strings -/

def hexValue? (c : Char) : Option Nat :=
  if c.isDigit then some (c.toNat - '0'.toNat)
  else if 'a' ≤ c && c ≤ 'f' then some (c.toNat - 'a'.toNat + 10)
  else if 'A' ≤ c && c ≤ 'F' then some (c.toNat - 'A'.toNat + 10)
  else none

def codeUnit? (a b c d : Char) : Option Nat := do
  return (← hexValue? a) * 4096 + (← hexValue? b) * 256 + (← hexValue? c) * 16 + (← hexValue? d)

def simpleEscape? : Char → Option Char
  | '"' => some '"'
  | '\\' => some '\\'
  | '/' => some '/'
  | 'b' => some '\x08'
  | 'f' => some '\x0c'
  | 'n' => some '\n'
  | 'r' => some '\r'
  | 't' => some '\t'
  | _ => none

def isHighSurrogate (n : Nat) : Bool := 0xd800 ≤ n && n < 0xdc00

def isLowSurrogate (n : Nat) : Bool := 0xdc00 ≤ n && n < 0xe000

def surrogatePair (high low : Nat) : Char :=
  Char.ofNat (0x10000 + (high - 0xd800) * 0x400 + (low - 0xdc00))

/-- The rest of a string after its opening quote, `high` being a high surrogate that waits for its
low one. -/
def stringTail (acc : List Char) (high : Option Nat) : List Char → Result (String × List Char)
  | [] => .error (.unfinishedString, [])
  | '\\' :: 'u' :: a :: b :: c :: d :: rest =>
    match codeUnit? a b c d, high with
    | none, _ => .error (.badEscape, rest)
    | some n, some h =>
      if isLowSurrogate n then stringTail (surrogatePair h n :: acc) none rest
      else .error (.badCodePoint, rest)
    | some n, none =>
      if isHighSurrogate n then stringTail acc (some n) rest
      else if isLowSurrogate n then .error (.badCodePoint, rest)
      else stringTail (Char.ofNat n :: acc) none rest
  | '\\' :: e :: rest =>
    match simpleEscape? e, high with
    | some c, none => stringTail (c :: acc) none rest
    | _, _ => .error (.badEscape, rest)
  | c :: rest =>
    if high.isSome then .error (.badCodePoint, rest)
    else if c = '"' then .ok (String.ofList acc.reverse, rest)
    else if c = '\\' then .error (.unfinishedString, rest)
    else if c.toNat < 0x20 then .error (.controlCharacter, rest)
    else stringTail (c :: acc) none rest

/-! ### Numbers -/

def digits (text : List Char) : Result (List Char × List Char) :=
  let found := text.takeWhile (·.isDigit)
  let rest := text.dropWhile (·.isDigit)
  if found.isEmpty then .error (if rest.isEmpty then .unfinishedValue else .badNumber, rest)
  else .ok (found, rest)

def wholePart (text : List Char) : Result (List Char × List Char) := do
  let (found, rest) ← digits text
  if found.head? = some '0' ∧ 1 < found.length then throw (.badNumber, rest)
  return (found, rest)

/-- Takes a fraction and an exponent off the front of a text; tells whether there was one. -/
def fractionAndExponent (text : List Char) : Result (Bool × List Char) := do
  let (fraction, text) ← match text with
    | '.' :: rest => do pure (true, (← digits rest).2)
    | text => pure (false, text)
  match text with
  | e :: rest =>
    if e = 'e' ∨ e = 'E' then
      let rest := match rest with
        | '+' :: rest | '-' :: rest => rest
        | rest => rest
      return (true, (← digits rest).2)
    else return (fraction, text)
  | [] => return (fraction, text)

def ofDigits (found : List Char) : Nat :=
  found.foldl (fun n c => 10 * n + (c.toNat - '0'.toNat)) 0

def numeral (negative : Bool) (text : List Char) : Result (JsonNode × List Char) := do
  let (whole, rest) ← wholePart text
  let (more, rest) ← fractionAndExponent rest
  let n := ofDigits whole
  return (if negative || more || UInt64.size ≤ n then .number else .natural n, rest)

/-! ### Values -/

/-- Reads a value at the front of a text. -/
abbrev ReadValue := List Char → Result (JsonNode × List Char)

/-- The items of a list after its opening bracket or a comma. -/
def listItems (value : ReadValue) : Nat → List Char → Result (List JsonNode × List Char)
  | 0, text => .error (.unfinishedList, text)
  | fuel + 1, text => do
    let (item, rest) ← value (skipBlanks text)
    match skipBlanks rest with
    | ',' :: rest =>
      if (skipBlanks rest).head? = some ']' then throw (.trailingComma, rest)
      let (items, rest) ← listItems value fuel rest
      return (item :: items, rest)
    | ']' :: rest => return ([item], rest)
    | [] => throw (.unfinishedList, [])
    | rest => throw (.noListEnd, rest)

/-- The fields of an object after its opening brace or a comma. -/
def objectFields (value : ReadValue) :
    Nat → List Char → Result (List (String × JsonNode) × List Char)
  | 0, text => .error (.unfinishedObject, text)
  | fuel + 1, text => do
    match skipBlanks text with
    | '"' :: rest =>
      let (key, rest) ← stringTail [] none rest
      match skipBlanks rest with
      | ':' :: rest =>
        let (item, rest) ← value (skipBlanks rest)
        match skipBlanks rest with
        | ',' :: rest =>
          if (skipBlanks rest).head? = some '\x7d' then throw (.trailingComma, rest)
          let (fields, rest) ← objectFields value fuel rest
          return ((key, item) :: fields, rest)
        | '\x7d' :: rest => return ([(key, item)], rest)
        | [] => throw (.unfinishedObject, [])
        | rest => throw (.noObjectEnd, rest)
      | [] => throw (.unfinishedObject, [])
      | rest => throw (.noColon, rest)
    | [] => throw (.unfinishedObject, [])
    | rest => throw (.noKey, rest)

def literalNames : List (String × JsonNode) :=
  [("null", .null), ("true", .bool true), ("false", .bool false)]

def scalar (text : List Char) : Result (JsonNode × List Char) :=
  match text with
  | [] => .error (.unfinishedValue, [])
  | '"' :: rest => do
    let (s, rest) ← stringTail [] none rest
    return (.str s, rest)
  | '-' :: rest => numeral true rest
  | c :: rest =>
    if c.isDigit then numeral false (c :: rest)
    else
      (literalNames.findSome? fun (name, node) =>
        (Text.stripStart? name.toList (c :: rest)).map (node, ·)).elim
          (.error (.noValue, c :: rest)) .ok

/-- A value in which lists and objects nest at most `depth` deep. -/
def value : (depth : Nat) → ReadValue
  | depth, text =>
    match text with
    | '[' :: rest =>
      match depth with
      | 0 => .error (.tooDeep, rest)
      | depth + 1 =>
        match skipBlanks rest with
        | ']' :: rest => .ok (.array [], rest)
        | [] => .error (.unfinishedList, [])
        | _ => do
          let (items, rest) ← listItems (value depth) (rest.length + 1) rest
          return (.array items, rest)
    | '\x7b' :: rest =>
      match depth with
      | 0 => .error (.tooDeep, rest)
      | depth + 1 =>
        match skipBlanks rest with
        | '\x7d' :: rest => .ok (.object [], rest)
        | _ => do
          let (fields, rest) ← objectFields (value depth) (rest.length + 1) rest
          return (.object fields, rest)
    | text => scalar text

/-- Lists and objects nest at most this deep. -/
def maxDepth : Nat := 127

/-- A fault with the line and the column where it was found, both counted from one; columns count
bytes. -/
structure Located where
  fault : JsonFault
  line : Nat
  column : Nat
  deriving DecidableEq, Repr

def Located.message (l : Located) : String :=
  l.fault.message ++ " at line " ++ toString l.line ++ " column " ++ toString l.column

/-- The place of a fault after a part of the text. -/
def locate (fault : JsonFault) (before : List Char) : Located :=
  let lines := Text.fields (· == '\n') before
  ⟨fault, lines.length, (String.ofList (lines.getLastD [])).utf8ByteSize⟩

def readWhole (text : List Char) : Result JsonNode := do
  let (node, rest) ← value maxDepth (skipBlanks text)
  let rest := skipBlanks rest
  if rest.isEmpty then return node else throw (.trailingText, rest)

/-- The value that a text is. -/
def read (text : String) : Except Located JsonNode :=
  let chars := text.toList
  (readWhole chars).mapError fun (fault, rest) =>
    locate fault (chars.take (chars.length - rest.length))

end Json

end DocExamples
