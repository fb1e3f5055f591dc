/-!
Integers of sixty-four bits. Main statement: an integer has a word exactly if it is one's value.
-/
namespace DocExamples.Integer

def least : Int := -0x8000000000000000

def greatest : Int := 0x7fffffffffffffff

def fits (i : Int) : Bool := least ≤ i && i ≤ greatest

/-- The word whose value an integer is, if there is one. -/
def word? (i : Int) : Option Int64 := if fits i then some (Int64.ofInt i) else none

theorem fits_iff (i : Int) : fits i = true ↔ least ≤ i ∧ i ≤ greatest := by
  simp [fits]

theorem toInt_ofInt {i : Int} (h : fits i = true) : (Int64.ofInt i).toInt = i := by
  obtain ⟨lower, upper⟩ := (fits_iff i).mp h
  simp only [least, greatest] at lower upper
  exact Int64.toInt_ofInt_of_le (by omega) (by omega)

theorem fits_toInt (n : Int64) : fits n.toInt = true := by
  have lower := n.le_toInt
  have upper := n.toInt_lt
  rw [fits_iff, least, greatest]
  omega

theorem word?_eq_some_iff {i : Int} {n : Int64} : word? i = some n ↔ n.toInt = i := by
  constructor
  · intro found
    by_cases h : fits i = true
    · simp only [word?, h, if_true, Option.some.injEq] at found
      rw [← found, toInt_ofInt h]
    · simp [word?, h] at found
  · rintro rfl
    simp [word?, fits_toInt]

end DocExamples.Integer
