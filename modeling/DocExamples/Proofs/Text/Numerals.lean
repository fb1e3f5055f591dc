import DocExamples.Decimal.Layout
import DocExamples.Proofs.Negation
import DocExamples.Text.Blank
import DocExamples.Text.Numeral
/-!
Numerals that are written are read back: how far a numeral reaches in a text, and the value that
its characters have.
-/
namespace DocExamples.Text

def AllDigits (chars : List Char) : Prop := ∀ c ∈ chars, c.isDigit = true

theorem AllDigits.append {first second : List Char} (a : AllDigits first) (b : AllDigits second) :
    AllDigits (first ++ second) := fun c member => (List.mem_append.mp member).elim (a c) (b c)

theorem AllDigits.take {digits : List Char} (all : AllDigits digits) (n : Nat) :
    AllDigits (digits.take n) := fun c member => all c (List.mem_of_mem_take member)

theorem AllDigits.drop {digits : List Char} (all : AllDigits digits) (n : Nat) :
    AllDigits (digits.drop n) := fun c member => all c (List.mem_of_mem_drop member)

theorem allDigits_zeros (n : Nat) : AllDigits (List.replicate n '0') := by
  intro c member
  rw [List.eq_of_mem_replicate member]
  rfl

/-- What may follow a value in a text. -/
def delimiters : List Char := [',', ':', ']', ')', '\x7d', ' ', '\n']

/-- The text is at its end, or a delimiter follows. -/
def Delimited (rest : List Char) : Prop := ∀ c, rest.head? = some c → c ∈ delimiters

variable {rest : List Char}

theorem delimited_nil : Delimited [] := fun _ found => nomatch found

theorem delimited_cons {c : Char} (member : c ∈ delimiters) : Delimited (c :: rest) := by
  intro d found
  cases found
  exact member

theorem Delimited.stops (delimited : Delimited rest) {p : Char → Bool}
    (outside : delimiters.any p = false) : ∀ c, rest.head? = some c → p c = false :=
  fun c found => Bool.eq_false_iff.mpr (List.any_eq_false.mp outside c (delimited c found))

theorem Delimited.stopsDigits (delimited : Delimited rest) :
    ∀ c, rest.head? = some c → c.isDigit = false := delimited.stops (by decide)

theorem takeWhile_isDigit {digits : List Char} (all : AllDigits digits)
    (delimited : ∀ c, rest.head? = some c → c.isDigit = false) :
    (digits ++ rest).takeWhile (·.isDigit) = digits := by
  rw [List.takeWhile_append_of_pos all]
  cases rest with
  | nil => exact List.append_nil _
  | cons c tail => simp [delimited c rfl]

theorem dropWhile_isDigit {digits : List Char} (all : AllDigits digits)
    (delimited : ∀ c, rest.head? = some c → c.isDigit = false) :
    (digits ++ rest).dropWhile (·.isDigit) = rest := by
  rw [List.dropWhile_append_of_pos all]
  cases rest with
  | nil => rfl
  | cons c tail => simp [delimited c rfl]

/-! ### The forms of numerals -/

/-- A point and digits, or nothing. -/
inductive IsFraction : List Char → Prop where
  | none : IsFraction []
  | point {digits : List Char} (all : AllDigits digits) : IsFraction ('.' :: digits)

/-- An exponent with a sign, or nothing. -/
inductive IsExponent : List Char → Prop where
  | none : IsExponent []
  | signed {sign : Char} {digits : List Char} (isSign : sign = '+' ∨ sign = '-')
      (all : AllDigits digits) (some : digits ≠ []) : IsExponent ('e' :: sign :: digits)

/-- The text of a double that is a number and has no sign. -/
inductive IsFloatText : List Char → Prop where
  | mk {whole fraction exponent : List Char} (some : whole ≠ []) (all : AllDigits whole)
    (fractionForm : IsFraction fraction) (exponentForm : IsExponent exponent)
    (notWhole : fraction = [] → exponent ≠ []) : IsFloatText (whole ++ (fraction ++ exponent))

theorem IsExponent.exponentSpan_append {exponent : List Char} (form : IsExponent exponent)
    (delimited : Delimited rest) : exponentSpan (exponent ++ rest) = exponent := by
  cases form with
  | none =>
    cases rest with
    | nil => rfl
    | cons c tail =>
      have noExponent : ¬(c = 'e' ∨ c = 'E') := by
        simpa using delimited.stops (p := fun c => c = 'e' ∨ c = 'E') (by decide) c rfl
      simp [exponentSpan, noExponent]
  | @signed sign digits isSign all some =>
    have taken := takeWhile_isDigit all delimited.stopsDigits
    rcases isSign with rfl | rfl
    · simp [exponentSpan, taken, some]
    · simp [exponentSpan, taken, some]

/-- What follows the digits of a fraction. -/
theorem IsExponent.stopsDigits {exponent : List Char} (form : IsExponent exponent)
    (delimited : Delimited rest) :
    ∀ c, (exponent ++ rest).head? = some c → c.isDigit = false := by
  cases form with
  | none => exact delimited.stopsDigits
  | signed =>
    intro c found
    cases found
    rfl

theorem IsFraction.fractionSpan_append {fraction exponent : List Char} (form : IsFraction fraction)
    (exponentForm : IsExponent exponent) (delimited : Delimited rest) :
    fractionSpan true (fraction ++ (exponent ++ rest)) = fraction := by
  cases form with
  | none =>
    cases exponentForm with
    | none =>
      cases rest with
      | nil => rfl
      | cons c tail =>
        have noPoint : c ≠ '.' := by
          simpa using delimited.stops (p := (· = '.')) (by decide) c rfl
        simp [fractionSpan, noPoint]
    | signed => rfl
  | point all =>
    have taken := takeWhile_isDigit all (exponentForm.stopsDigits delimited)
    simp [fractionSpan, taken]

/-- What follows the whole part of a numeral. -/
theorem IsFraction.stopsDigits {fraction exponent : List Char} (form : IsFraction fraction)
    (exponentForm : IsExponent exponent) (delimited : Delimited rest) :
    ∀ c, (fraction ++ (exponent ++ rest)).head? = some c → c.isDigit = false := by
  cases form with
  | none => exact exponentForm.stopsDigits delimited
  | point =>
    intro c found
    cases found
    rfl

/-- A numeral in front of a delimiter reaches up to it. -/
theorem numeral?_append {whole fraction exponent : List Char} (some : whole ≠ [])
    (all : AllDigits whole) (fractionForm : IsFraction fraction) (exponentForm : IsExponent exponent)
    (delimited : Delimited rest) :
    numeral? (whole ++ (fraction ++ exponent) ++ rest) =
      .some ⟨whole ++ (fraction ++ exponent), fraction.isEmpty && exponent.isEmpty⟩ := by
  have digits := takeWhile_isDigit all (fractionForm.stopsDigits exponentForm delimited)
  have leading : (!whole.isEmpty) = true := by simpa using some
  rw [List.append_assoc, List.append_assoc, numeral?]
  dsimp only
  rw [digits, leading, List.drop_left, fractionForm.fractionSpan_append exponentForm delimited]
  rw [if_neg (by simp [some]), ← List.append_assoc whole fraction, List.drop_left,
    exponentForm.exponentSpan_append delimited, List.append_assoc]

theorem numeral?_digits {digits : List Char} (all : AllDigits digits) (some : digits ≠ [])
    (delimited : Delimited rest) : numeral? (digits ++ rest) = .some ⟨digits, true⟩ := by
  simpa using numeral?_append some all .none .none delimited

theorem IsFloatText.starts {text : List Char} (form : IsFloatText text) :
    ∃ c rest, c.isDigit = true ∧ text = c :: rest := by
  cases form with
  | @mk whole fraction exponent some all fractionForm exponentForm notWhole =>
    obtain ⟨c, digits, rfl⟩ := List.exists_cons_of_ne_nil some
    exact ⟨c, _, all c List.mem_cons_self, rfl⟩

theorem IsFloatText.numeral?_append {text : List Char} (form : IsFloatText text)
    (delimited : Delimited rest) : numeral? (text ++ rest) = .some ⟨text, false⟩ := by
  cases form with
  | @mk whole fraction exponent some all fractionForm exponentForm notWhole =>
    rw [Text.numeral?_append some all fractionForm exponentForm delimited]
    cases fraction with
    | nil => simp [notWhole rfl]
    | cons => rfl

theorem numeral?_eq_none {c : Char} (noDigit : c.isDigit = false) (noPoint : c ≠ '.')
    (rest : List Char) : numeral? (c :: rest) = none := by
  simp [numeral?, noDigit, fractionSpan, noPoint]

/-! ### Characters of numerals -/

theorem isBlank_of_isDigit {c : Char} (digit : c.isDigit = true) : isBlank c = false := by
  have range : '0'.val.toNat ≤ c.val.toNat ∧ c.val.toNat ≤ '9'.val.toNat := by
    simpa only [Char.isDigit, Bool.and_eq_true, decide_eq_true_eq, ge_iff_le,
      UInt32.le_iff_toNat_le] using digit
  have codes : '0'.val.toNat = 0x30 ∧ '9'.val.toNat = 0x39 := by decide
  have same : c.toNat = c.val.toNat := rfl
  simp [isBlank]
  omega

theorem IsFraction.visible {fraction : List Char} (form : IsFraction fraction) :
    ∀ c ∈ fraction, isBlank c = false := by
  cases form with
  | none => exact fun c member => nomatch member
  | point all => exact List.forall_mem_cons.mpr ⟨rfl, fun c member => isBlank_of_isDigit (all c member)⟩

theorem IsExponent.visible {exponent : List Char} (form : IsExponent exponent) :
    ∀ c ∈ exponent, isBlank c = false := by
  cases form with
  | none => exact fun c member => nomatch member
  | signed isSign all =>
    refine List.forall_mem_cons.mpr ⟨rfl, List.forall_mem_cons.mpr ⟨?_, ?_⟩⟩
    · rcases isSign with rfl | rfl <;> rfl
    · exact fun c member => isBlank_of_isDigit (all c member)

theorem IsFloatText.visible {text : List Char} (form : IsFloatText text) :
    ∀ c ∈ text, isBlank c = false := by
  cases form with
  | mk some all fractionForm exponentForm notWhole =>
    intro c member
    rcases List.mem_append.mp member with whole | later
    · exact isBlank_of_isDigit (all c whole)
    · exact (List.mem_append.mp later).elim (fractionForm.visible c) (exponentForm.visible c)

end DocExamples.Text
