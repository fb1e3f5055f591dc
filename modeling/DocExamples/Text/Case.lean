import DocExamples.Text.Cased
import DocExamples.Text.CaseRuns
/-!
Upper and lower case of texts.
-/
namespace DocExamples.Text

def upperChars (text : List Char) : List Char := text.flatMap upperTable.counterpart

/-- The text in lower case, after the characters `before`, which stand nearest first. A capital sigma
that ends a word, with a letter before it and none after it, has a form of its own. -/
def lowerAfter (before : List Char) : List Char → List Char
  | [] => []
  | c :: rest =>
    let changed :=
      if c = 'Σ' then [if startsCased before && !startsCased rest then 'ς' else 'σ']
      else lowerTable.counterpart c
    changed ++ lowerAfter (c :: before) rest

def upper (text : String) : String := String.ofList (upperChars text.toList)

def lower (text : String) : String := String.ofList (lowerAfter [] text.toList)

example : upperChars ['ß', 'é', '1'] = ['S', 'S', 'É', '1'] := by decide +kernel

example : lowerAfter [] ['Ο', 'Σ', ' ', 'Σ', 'Α'] = ['ο', 'ς', ' ', 'σ', 'α'] := by decide +kernel

end DocExamples.Text
