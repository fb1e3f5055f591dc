import DocExamples.Decimal.Layout
import DocExamples.Script.Tensor
import DocExamples.Text.Pieces
/-!
Arrays as text: the elements in columns of one width, the rows on lines of their own.
-/
namespace DocExamples.Script

/-- Vectors longer than this show their ends only. -/
def summaryThreshold : Nat := 1000

/-- How many elements an abbreviated vector shows at each end. -/
def edgeItems : Nat := 3

/-- Digits after the point of array elements, before zeros are dropped. -/
def elementPlaces : Nat := 8

def elementExponent : Decimal.ExponentStyle := ⟨true, 2⟩

def alignRight (items : List String) : List String :=
  let width := (items.map String.length).foldl max 0
  items.map (Text.padLeft width)

def signed (negative : Bool) (text : List Char) : List Char :=
  if negative then '-' :: text else text

def specialText (negative : Bool) : List Char := signed negative ['i', 'n', 'f']

/-- The digits before the point, with the sign, and the point with the digits after it. -/
def fixedElement (x : Float) : List Char × List Char :=
  match Binary64.parts x with
  | .nan => (['n', 'a', 'n'], [])
  | .infinite negative => (specialText negative, [])
  | .finite negative mantissa exponent =>
    let (whole, fraction) := Decimal.fixed elementPlaces mantissa exponent
    (signed negative whole, '.' :: Decimal.dropTrailingZeros fraction)

def scientificElement (x : Float) : String :=
  match Binary64.parts x with
  | .nan => "nan"
  | .infinite negative => String.ofList (specialText negative)
  | .finite negative mantissa exponent =>
    let (digits, power) := Decimal.fixedScientific elementPlaces mantissa exponent
    String.ofList (signed negative
      (digits.take 1 ++ '.' :: Decimal.dropTrailingZeros (digits.drop 1) ++
        'e' :: elementExponent.render power))

/-- Whether a nonzero number needs an exponent to show in few digits. -/
def needsExponent (x : Float) : Bool :=
  x.isFinite && x != 0.0 && !(1e-4 ≤ x.abs && x.abs < 1e8)

def floatElements (xs : List Float) : List String :=
  if xs.any needsExponent then alignRight (xs.map scientificElement)
  else
    let parts := xs.map fixedElement
    let wholeWidth := (parts.map (·.1.length)).foldl max 0
    let fractionWidth := (parts.map (·.2.length)).foldl max 0
    parts.map fun (whole, fraction) =>
      Text.padLeft wholeWidth (String.ofList whole) ++
        Text.padRight fractionWidth (String.ofList fraction)

def intText (i : Int64) : String := toString i.toInt

def boolText (b : Bool) : String := if b then "True" else "False"

def elementTexts (kind : ElementKind) (xs : List Float) : List String :=
  match kind with
  | .bool => alignRight (xs.map fun x => boolText (x != 0.0))
  | .int => alignRight (xs.map fun x => intText (Binary64.toInt64 x))
  | .float => floatElements xs

/-- Consecutive runs of `n` items of a list with at most `fuel` items. -/
def runsOf {α : Type} (n : Nat) : Nat → List α → List (List α)
  | _, [] => []
  | 0, _ => []
  | fuel + 1, xs => xs.take n :: runsOf n fuel (xs.drop n)

/-- Brackets around items according to a shape. Each row starts under the one before it. -/
def bracketed (separator : String) : Nat → List Nat → List String → String
  | _, [], items => items.headD ""
  | _, [_], items => "[" ++ (separator ++ " ").intercalate items ++ "]"
  | indent, _ :: next :: rest, items =>
    let stride := max (volume (next :: rest)) 1
    let between := separator ++ String.ofList (List.replicate (rest.length + 1) '\n') ++
      String.ofList (List.replicate (indent + 1) ' ')
    let rows := (runsOf stride items.length items).map
      (bracketed separator (indent + 1) (next :: rest))
    "[" ++ between.intercalate rows ++ "]"

namespace Tensor

def isAbbreviated (t : Tensor) : Bool := t.dimensions == 1 && summaryThreshold < t.size

/-- The elements that are shown, and the mark of those that are not. -/
def texts (t : Tensor) : List String :=
  let xs := t.data.toList
  if t.isAbbreviated then
    let items := elementTexts t.kind (xs.take edgeItems ++ xs.drop (t.size - edgeItems))
    items.take edgeItems ++ "..." :: items.drop edgeItems
  else elementTexts t.kind xs

/-- The array as a call that makes it. -/
def repr (t : Tensor) : String :=
  if t.size = 0 then "array([], dtype=" ++ t.kind.name ++ ")"
  else
    let body := bracketed "," "array(".length t.shape t.texts
    if t.isAbbreviated then "array(" ++ body ++ ", shape=" ++ shapeText ", " t.shape ++ ")"
    else "array(" ++ body ++ ")"

def print (t : Tensor) : String :=
  if t.size = 0 then "[]" else bracketed "" 0 t.shape t.texts

end Tensor

end DocExamples.Script
