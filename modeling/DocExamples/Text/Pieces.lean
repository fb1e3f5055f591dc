import DocExamples.Text.Blank
/-!
Occurrences of one text in another: membership, the pieces between occurrences, replacement.
-/
namespace DocExamples.Text

/-- Whether `needle` occurs in `text` as a run of neighbouring characters. -/
def occursIn (needle : List Char) : List Char → Bool
  | [] => needle.isEmpty
  | c :: rest => needle.isPrefixOf (c :: rest) || occursIn needle rest

/-- What follows the first occurrence of `needle`. -/
def afterFirst? (needle : List Char) : List Char → Option (List Char)
  | [] => if needle.isEmpty then some [] else none
  | c :: rest =>
    if needle.isPrefixOf (c :: rest) then some ((c :: rest).drop needle.length)
    else afterFirst? needle rest

/-- The pieces between the occurrences of a separator of `width + 1` characters; `skip` of them
are still to be passed over. -/
def piecesFrom (separator : List Char) (width : Nat) : Nat → List Char → List (List Char)
  | _, [] => [[]]
  | skip + 1, _ :: rest => piecesFrom separator width skip rest
  | 0, c :: rest =>
    if separator.isPrefixOf (c :: rest) then [] :: piecesFrom separator width width rest
    else consHead c (piecesFrom separator width 0 rest)

/-- The pieces between the occurrences of `separator`, found from left to right without overlap.
The empty separator occurs before every character and at the end. -/
def pieces (separator text : List Char) : List (List Char) :=
  match separator with
  | [] => [] :: text.map ([·]) ++ [[]]
  | _ :: tail => piecesFrom separator tail.length 0 text

/-- The parts one after another, with `separator` between neighbours. -/
def join (separator : List Char) : List (List Char) → List Char
  | [] => []
  | [part] => part
  | part :: next :: rest => part ++ separator ++ join separator (next :: rest)

def replace (old new text : List Char) : List Char := join new (pieces old text)

/-- The text after `start`, if it begins with it. -/
def stripStart? (start text : List Char) : Option (List Char) :=
  if start.isPrefixOf text then some (text.drop start.length) else none

theorem stripStart?_eq_some {start text rest : List Char} :
    stripStart? start text = some rest ↔ text = start ++ rest := by
  rw [stripStart?]
  constructor
  · intro found
    split at found
    · next isPrefix =>
      obtain ⟨tail, rfl⟩ := List.isPrefixOf_iff_prefix.mp isPrefix
      rw [List.drop_left, Option.some.injEq] at found
      rw [found]
    · cases found
  · rintro rfl
    rw [if_pos (List.isPrefixOf_iff_prefix.mpr (List.prefix_append _ _)), List.drop_left]

/-- Pads on the left with blanks up to `width` characters. -/
def padLeft (width : Nat) (text : String) : String :=
  String.ofList (List.replicate (width - text.length) ' ' ++ text.toList)

/-- Pads on the right with blanks up to `width` characters. -/
def padRight (width : Nat) (text : String) : String :=
  String.ofList (text.toList ++ List.replicate (width - text.length) ' ')

end DocExamples.Text
