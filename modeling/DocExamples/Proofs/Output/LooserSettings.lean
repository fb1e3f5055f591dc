import DocExamples.Output.Checker
import DocExamples.Proofs.Except
import DocExamples.Proofs.Literal.NamedTuples
import DocExamples.Proofs.OrderedDoubles
/-!
Settings that accept more lose nothing that others accept. Greater tolerances accept the numbers
that smaller ones do, so that literals agree that agreed before, at whatever depth and under
whatever key. Named tuples add literals. In both cases output that passes keeps the rule that
passes it.
-/
namespace DocExamples

open Binary64

/-! ### Tolerances -/

namespace Settings

variable {s s' : Settings}

theorem exists_isAmount_tolerance {name : String} {value : Float}
    (checked : checkTolerance name value = .ok ()) : ∃ q, IsAmount q value ∧ q < limit := by
  unfold checkTolerance at checked
  split at checked
  · cases checked
  · next finite =>
    split at checked
    · cases checked
    · next nonneg => exact exists_isAmount (by simpa using finite) nonneg

/-- Valid tolerances stand for fractions. -/
theorem exists_isAmount_of_valid (valid : s.validate = .ok ()) :
    (∃ q, IsAmount q s.atol ∧ q < limit) ∧ ∃ q, IsAmount q s.rtol ∧ q < limit := by
  obtain ⟨_, atol, valid⟩ := bind_eq_ok.mp valid
  obtain ⟨_, rtol, -⟩ := bind_eq_ok.mp valid
  exact ⟨exists_isAmount_tolerance atol, exists_isAmount_tolerance rtol⟩

/-- The tolerance of every finite number grows with the tolerances of the settings. -/
theorem toleranceFor_mono (valid : s.validate = .ok ()) (valid' : s'.validate = .ok ())
    (atol : s.atol ≤ s'.atol) (rtol : s.rtol ≤ s'.rtol) {want : Float}
    (finite : want.isFinite = true) : s.toleranceFor want ≤ s'.toleranceFor want := by
  obtain ⟨⟨a, isA, smallA⟩, r, isR, smallR⟩ := exists_isAmount_of_valid valid
  obtain ⟨⟨a', isA', smallA'⟩, r', isR', smallR'⟩ := exists_isAmount_of_valid valid'
  obtain ⟨w, isW, smallW⟩ := exists_isAmount_abs finite
  have absolute := (le_iff_of_isAmount isA isA').mp atol
  have relative := (le_iff_of_isAmount isR isR').mp rtol
  obtain ⟨p, p', isP, isP', products⟩ :=
    mul_mono isR isR' isW isW smallR' smallW relative (le_refl w)
  obtain ⟨t, t', isT, isT', sums⟩ := add_mono isA isA' isP isP' smallA' absolute products
  exact (le_iff_of_isAmount isT isT').mpr sums

end Settings

/-! ### Agreement -/

/-- What is compared by strict settings only is not compared by settings that are less strict. -/
theorem Settings.compared_by_strict {s s' : Settings}
    (types : s'.strictTypes = true → s.strictTypes = true) {differ : Bool}
    (agree : (s.strictTypes && differ) = false) : (s'.strictTypes && differ) = false := by
  cases strict : s'.strictTypes with
  | false => rfl
  | true => rwa [types strict] at agree

/-- The second settings accept the numbers that the first do, and ask for no more types. -/
structure Settings.Loosens (s s' : Settings) : Prop where
  numbers : ∀ want got : Number, want.agrees s got = true → want.agrees s' got = true
  types : s'.strictTypes = true → s.strictTypes = true

namespace Settings.Loosens

variable {s s' : Settings}

/-- Greater tolerances, and types that are not compared. -/
theorem of_tolerances (valid : s.validate = .ok ()) (valid' : s'.validate = .ok ())
    (atol : s.atol ≤ s'.atol) (rtol : s.rtol ≤ s'.rtol)
    (types : s'.strictTypes = true → s.strictTypes = true) : s.Loosens s' := by
  refine ⟨fun want got agree => ?_, types⟩
  unfold Number.agrees at *
  split at agree
  · cases agree
  · next same =>
    rw [if_neg (Bool.not_eq_true _ ▸ compared_by_strict types (Bool.not_eq_true _ ▸ same))]
    split at agree
    · next special => rwa [if_pos special]
    · next numbers =>
      rw [if_neg numbers]
      split at agree
      · next infinite => rwa [if_pos infinite]
      · next bounded =>
        rw [if_neg bounded]
        have finite : want.value.isFinite = true := by
          simp only [Bool.or_eq_true, not_or, Bool.not_eq_true] at numbers bounded
          exact isFinite_of_number numbers.1 bounded.1
        rw [decide_eq_true_iff] at *
        exact abs_le_trans agree (toleranceFor_mono valid valid' atol rtol finite)

theorem leaf (looser : s.Loosens s') {want got : Leaf} (agree : want.agrees s got = true) :
    want.agrees s' got = true := by
  cases want with
  | number want =>
    cases got with
    | number got => exact looser.numbers want got agree
    | _ => exact agree
  | _ => exact agree

theorem leaves (looser : s.Loosens s') {want got : List Leaf}
    (agree : Leaf.agreeAll s want got = true) : Leaf.agreeAll s' want got = true := by
  induction want generalizing got with
  | nil =>
    cases got with
    | nil => rfl
    | cons => cases agree
  | cons first rest ih =>
    cases got with
    | nil => cases agree
    | cons first' rest' =>
      rw [Leaf.agreeAll, Bool.and_eq_true] at *
      exact ⟨looser.leaf agree.1, ih agree.2⟩

theorem array (looser : s.Loosens s') {want got : ArrayLiteral} (agree : want.agrees s got = true) :
    want.agrees s' got = true := by
  unfold ArrayLiteral.agrees at *
  simp only [Bool.and_eq_true, Bool.not_eq_true'] at *
  obtain ⟨⟨⟨⟨style, types⟩, declared⟩, shape⟩, leaves⟩ := agree
  exact ⟨⟨⟨⟨style, compared_by_strict looser.types types⟩, declared⟩, shape⟩, looser.leaves leaves⟩

open Literal

mutual

theorem literal (looser : s.Loosens s') :
    ∀ want got : Literal, agrees s want got = true → agrees s' want got = true
  | .leaf want, got, agree => by
    cases got with
    | leaf got =>
      rw [agrees] at *
      exact looser.leaf agree
    | _ => simp [agrees] at agree
  | .ellipsis, got, agree => by
    cases got with
    | ellipsis => rw [agrees]
    | _ => simp [agrees] at agree
  | .list want, got, agree => by
    cases got with
    | list got =>
      rw [agrees] at *
      exact looser.items want got agree
    | _ => simp [agrees] at agree
  | .tuple want, got, agree => by
    cases got with
    | tuple got =>
      rw [agrees] at *
      exact looser.items want got agree
    | _ => simp [agrees] at agree
  | .dict want, got, agree => by
    cases got with
    | dict got =>
      rw [agrees, Bool.and_eq_true] at *
      exact ⟨agree.1, looser.entries want got agree.2⟩
    | _ => simp [agrees] at agree
  | .array want, got, agree => by
    cases got with
    | array got =>
      rw [agrees] at *
      exact looser.array agree
    | _ => simp [agrees] at agree

theorem items (looser : s.Loosens s') :
    ∀ want got : List Literal, agreeAll s want got = true → agreeAll s' want got = true
  | [], got, agree => by
    cases got with
    | nil => rw [agreeAll]
    | cons => simp [agreeAll] at agree
  | first :: rest, got, agree => by
    cases got with
    | nil => simp [agreeAll] at agree
    | cons first' rest' =>
      rw [agreeAll, Bool.and_eq_true] at *
      exact ⟨looser.literal first first' agree.1, looser.items rest rest' agree.2⟩

/-- The entry that is found under a key does not depend on the settings. -/
theorem entries (looser : s.Loosens s') : ∀ want got : List (Literal × Literal),
    agreeEntries s want got = true → agreeEntries s' want got = true
  | [], got, _ => by rw [agreeEntries]
  | (key, value) :: rest, got, agree => by
    rw [agreeEntries, Bool.and_eq_true] at *
    obtain ⟨here, others⟩ := agree
    refine ⟨?_, looser.entries rest got others⟩
    cases found : valueOf? key got with
    | none =>
      rw [found] at here
      cases here
    | some item =>
      rw [found] at here
      exact looser.literal value item here

end

theorem structurallyEqual (looser : s.Loosens s') {want got : Literal}
    (equal : structurallyEqual s want got = true) : structurallyEqual s' want got = true := by
  unfold Literal.structurallyEqual at *
  rw [Bool.and_eq_true] at *
  exact ⟨equal.1, looser.literal want got equal.2⟩

end Settings.Loosens

/-! ### Verdicts -/

namespace Output

variable {s s' : Settings}

/-- What has a reading under the first settings has it under the second. -/
def Reads (s s' : Settings) : Prop :=
  ∀ text l, Literal.parse? text s.parseNamedTuples = some l →
    Literal.parse? text s'.parseNamedTuples = some l

theorem compare_pass_of_loosens (looser : s.Loosens s') (reads : Reads s s') {want got : String}
    {flags : Flags} {rule : Rule}
    (passes : Checker.tolerant.compare want got flags s = .pass rule) :
    Checker.tolerant.compare want got flags s' = .pass rule := by
  unfold Checker.tolerant at *
  dsimp only at *
  split at passes
  · next matched =>
    rw [if_pos matched]
    exact passes
  · next apart =>
    rw [if_neg apart]
    split at passes
    · next w g readWant readGot =>
      rw [reads want w readWant, reads got g readGot]
      dsimp only
      split at passes
      · next equal =>
        rw [if_pos (looser.structurallyEqual equal)]
        exact passes
      · cases passes
    · cases passes

/-- Looser settings with the same options pass what others pass, by the same rule. -/
theorem check_pass_of_loosens (looser : s.Loosens s') (reads : Reads s s')
    (flags : s.flags = s'.flags) {e : Example} {got : String} {rule : Rule}
    (passes : Checker.tolerant.check s e got = .ok (.pass rule)) :
    Checker.tolerant.check s' e got = .ok (.pass rule) := by
  change checkWith Checker.tolerant.compare s e got = _ at passes
  change checkWith Checker.tolerant.compare s' e got = _
  unfold checkWith at *
  rw [← flags]
  obtain ⟨f, resolved, given⟩ := bind_eq_ok.mp passes
  refine bind_eq_ok.mpr ⟨f, resolved, ?_⟩
  split at given
  · exact given
  · injection given with passed
    exact congrArg Except.ok (compare_pass_of_loosens looser reads passed)

/-- Greater tolerances and types that are not compared lose no agreement and no pass. -/
theorem tolerances_keep_passes (s s' : Settings) (valid : s.validate = .ok ())
    (valid' : s'.validate = .ok ()) (atol : s.atol ≤ s'.atol) (rtol : s.rtol ≤ s'.rtol)
    (types : s'.strictTypes = true → s.strictTypes = true) :
    (∀ want got, Literal.structurallyEqual s want got = true →
      Literal.structurallyEqual s' want got = true) ∧
    (s.flags = s'.flags → s.parseNamedTuples = s'.parseNamedTuples → ∀ e got rule,
      Checker.tolerant.check s e got = .ok (.pass rule) →
        Checker.tolerant.check s' e got = .ok (.pass rule)) := by
  have looser := Settings.Loosens.of_tolerances valid valid' atol rtol types
  refine ⟨fun want got equal => looser.structurallyEqual equal, fun flags named e got rule => ?_⟩
  refine check_pass_of_loosens looser (fun text l read => ?_) flags
  rwa [← named]

/-- An example that documents this output. -/
def documents (want : String) : Example where
  source := "x"
  want := want
  errorReport := none
  line := 0
  indent := 0
  overrides := {}
  randomized := false
  pseudocode := false
  stopword := false
  block := 0

/-- A number within the default tolerance, of the kind that is expected, is within ten times that
tolerance. -/
theorem tolerances_keep_passes_tenfold :
    let s := { Settings.defaults with strictTypes := true }
    let s' := { Settings.defaults with rtol := Decimal.toFloat false 1 (-4) }
    s.validate = .ok () ∧ s'.validate = .ok () ∧ s.atol ≤ s'.atol ∧ s.rtol ≤ s'.rtol ∧
      Checker.tolerant.check s (documents "[1.0]\n") "[1.000001]\n" = .ok (.pass .structural) ∧
      Checker.tolerant.check s' (documents "[1.0]\n") "[1.000001]\n" = .ok (.pass .structural) := by
  intro s s'
  have valid : s.validate = .ok () := toOption_eq_some.mp (by decide +kernel)
  have valid' : s'.validate = .ok () := toOption_eq_some.mp (by decide +kernel)
  have atol : s.atol ≤ s'.atol := by decide +kernel
  have rtol : s.rtol ≤ s'.rtol := by decide +kernel
  have types : s'.strictTypes = true → s.strictTypes = true := fun _ => rfl
  have passes : Checker.tolerant.check s (documents "[1.0]\n") "[1.000001]\n" =
      .ok (.pass .structural) := toOption_eq_some.mp (by decide +kernel)
  exact ⟨valid, valid', atol, rtol, passes,
    (tolerances_keep_passes s s' valid valid' atol rtol types).2 rfl rfl _ _ _ passes⟩

/-- Named tuples add readings of texts and change none: what the strict reading reads without them
it reads with them, and what only the reading of printed arrays reads is left to that reading. No
pass is lost. -/
theorem namedTuples_keep_passes :
    (∀ text l, Literal.parse? text false = some l → Literal.parse? text true = some l) ∧
    (∀ tokens l, Literal.readAll? (Literal.document false) tokens = some l →
      Literal.readAll? (Literal.document true) tokens = some l) ∧
    (∀ tokens l, Literal.readAll? (Literal.document false) tokens = none →
      Literal.readAll? (Literal.printedArray false) tokens = some l →
      Literal.readAll? (Literal.document true) tokens = none ∧
        Literal.readAll? (Literal.printedArray true) tokens = some l) ∧
    ∀ (s : Settings) e got rule, s.parseNamedTuples = false →
      Checker.tolerant.check s e got = .ok (.pass rule) →
      Checker.tolerant.check { s with parseNamedTuples := true } e got = .ok (.pass rule) := by
  refine ⟨fun _ _ => Literal.parse?_extends, fun _ _ => Literal.extends_document.readAll?,
    fun _ _ strict printed => ⟨Literal.document_refused strict printed,
      Literal.extends_printedArray.readAll? printed⟩, fun s e got rule off => ?_⟩
  have same : s.Loosens { s with parseNamedTuples := true } := ⟨fun _ _ agree => agree, id⟩
  refine check_pass_of_loosens same (fun text l read => ?_) rfl
  rw [off] at read
  exact Literal.parse?_extends read

/-- An array that is printed without commas has the same literal, and agrees as before. -/
theorem namedTuples_keep_passes_printed :
    let s := { Settings.defaults with parseNamedTuples := false }
    (∃ l, Literal.parse? "[1 2]" false = some l ∧ Literal.parse? "[1 2]" true = some l) ∧
      Checker.tolerant.check s (documents "[1 2]\n") "[1. 2.]\n" = .ok (.pass .structural) ∧
      Checker.tolerant.check { s with parseNamedTuples := true } (documents "[1 2]\n") "[1. 2.]\n" =
        .ok (.pass .structural) := by
  intro s
  have some : (Literal.parse? "[1 2]" false).isSome = true := by decide +kernel
  obtain ⟨l, read⟩ := Option.isSome_iff_exists.mp some
  have passes : Checker.tolerant.check s (documents "[1 2]\n") "[1. 2.]\n" =
      .ok (.pass .structural) := toOption_eq_some.mp (by decide +kernel)
  exact ⟨⟨l, read, namedTuples_keep_passes.1 _ l read⟩, passes,
    namedTuples_keep_passes.2.2.2 s _ _ _ rfl passes⟩

example : (Literal.parse? "P(x=1)" false).isSome = false ∧
    (Literal.parse? "P(x=1)" true).isSome = true := by decide +kernel

end Output

end DocExamples
