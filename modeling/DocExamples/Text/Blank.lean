/-!
Blank characters, and what they delimit: the trimmed text, its words and its lines.
-/
namespace DocExamples.Text

/-- The twenty-five characters with the Unicode property `White_Space`. -/
def isBlank (c : Char) : Bool :=
  let n := c.toNat
  (0x09 ≤ n && n ≤ 0x0d) || n == 0x20 || n == 0x85 || n == 0xa0 || n == 0x1680 ||
    (0x2000 ≤ n && n ≤ 0x200a) || n == 0x2028 || n == 0x2029 || n == 0x202f || n == 0x205f ||
    n == 0x3000

def trimStart (text : List Char) : List Char := text.dropWhile isBlank

def trimEnd (text : List Char) : List Char := (text.reverse.dropWhile isBlank).reverse

def trim (text : List Char) : List Char := trimEnd (trimStart text)

def allBlank (text : List Char) : Bool := text.all isBlank

/-- Puts a character in front of the first word of a list of words. -/
def consHead (c : Char) : List (List Char) → List (List Char)
  | [] => [[c]]
  | word :: rest => (c :: word) :: rest

/-- The maximal runs of characters outside `separates`, empty runs included. -/
def fields (separates : Char → Bool) : List Char → List (List Char)
  | [] => [[]]
  | c :: rest =>
    if separates c then [] :: fields separates rest else consHead c (fields separates rest)

/-- The words of a text: its non-empty runs of characters that are not blank. -/
def words (text : List Char) : List (List Char) :=
  (fields isBlank text).filter (!·.isEmpty)

/-- A line as it was before its line feed, less one carriage return at its end. -/
def dropReturn (line : List Char) : List Char :=
  if line.getLast? = some '\r' then line.dropLast else line

/-- The lines of a text. A line feed ends a line and takes one carriage return before it along;
what follows the last line feed is a line if it is not empty, and keeps its characters. -/
def lines (text : List Char) : List (List Char) :=
  let pieces := fields (· == '\n') text
  let ended := pieces.dropLast.map dropReturn
  match pieces.getLast? with
  | some [] | none => ended
  | some rest => ended ++ [rest]

theorem fields_ne_nil (separates : Char → Bool) (text : List Char) : fields separates text ≠ [] := by
  cases text with
  | nil => simp [fields]
  | cons c rest =>
    by_cases h : separates c = true
    · simp [fields, h]
    · cases hf : fields separates rest <;> simp [fields, h, consHead, hf]

/-- A text without blanks at its ends keeps all of its characters. -/
theorem trim_eq_self {text : List Char} (first : ∀ c, text.head? = some c → isBlank c = false)
    (last : ∀ c, text.getLast? = some c → isBlank c = false) : trim text = text := by
  have dropNothing {chars : List Char} (visible : ∀ c, chars.head? = some c → isBlank c = false) :
      chars.dropWhile isBlank = chars := by
    cases chars with
    | nil => rfl
    | cons c rest => exact List.dropWhile_cons_of_neg (by simp [visible c rfl])
  rw [trim, trimStart, dropNothing first, trimEnd, dropNothing, List.reverse_reverse]
  simpa using last

theorem trim_wrapped {first last : Char} (body : List Char) (noBlank : isBlank first = false)
    (alsoNone : isBlank last = false) :
    trim (first :: (body ++ [last])) = first :: (body ++ [last]) := by
  refine trim_eq_self (fun c found => ?_) fun c found => ?_
  · cases found
    exact noBlank
  · rw [← List.cons_append, List.getLast?_concat] at found
    cases found
    exact alsoNone

theorem words_nil : words [] = [] := rfl

theorem lines_nil : lines [] = [] := rfl

end DocExamples.Text
