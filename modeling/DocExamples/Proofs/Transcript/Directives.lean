import DocExamples.Proofs.Transcript.Windows
/-!
What the directives of an example say. Its flags are those that stand, with a sign, in a directive
on one of the lines that it was read from; nothing else sets or clears a flag.
-/
namespace DocExamples

theorem Flag.ofName?_name (f : Flag) : Flag.ofName? f.name = some f := by
  cases f <;> rfl

theorem Flag.name_of_ofName? {name : String} {f : Flag} (found : Flag.ofName? name = some f) :
    f.name = name := by
  simpa using List.find?_some found

theorem Flag.eq_of_name {f g : Flag} (same : f.name = g.name) : f = g := by
  have found := f.ofName?_name
  rw [same, g.ofName?_name] at found
  exact (Option.some.inj found).symm

namespace Transcript

/-- The words of the directive on a line; there are none on a line without one. -/
def wordsOn (line : List Char) : List (List Char) :=
  match findDirective? line with
  | some (_, body) => directiveWords body
  | none => []

/-- A directive on one of the lines has the flag with this sign. -/
def Said (sign : Char) (f : Flag) (lines : List (List Char)) : Prop :=
  ∃ line ∈ lines, sign :: f.name.toList ∈ wordsOn line

@[simp]
theorem said_nil (sign : Char) (f : Flag) : ¬ Said sign f [] := by
  simp [Said]

@[simp]
theorem said_cons (sign : Char) (f : Flag) (line : List Char) (rest : List (List Char)) :
    Said sign f (line :: rest) ↔ sign :: f.name.toList ∈ wordsOn line ∨ Said sign f rest := by
  simp [Said]

@[simp]
theorem said_append (sign : Char) (f : Flag) (front back : List (List Char)) :
    Said sign f (front ++ back) ↔ Said sign f front ∨ Said sign f back := by
  simp [Said, or_and_right, exists_or]

/-! ### Flags from directives -/

/-- The second overrides are the first with the flags added that are said. -/
structure Adds (said : Char → Flag → Prop) (o o' : Overrides) : Prop where
  enable : ∀ f, o'.enable.has f = true ↔ o.enable.has f = true ∨ said '+' f
  disable : ∀ f, o'.disable.has f = true ↔ o.disable.has f = true ∨ said '-' f

namespace Adds

variable {o o' o'' : Overrides} {said said' : Char → Flag → Prop}

theorem refl (nothing : ∀ sign f, ¬ said sign f) (o : Overrides) : Adds said o o where
  enable f := by simp [nothing]
  disable f := by simp [nothing]

theorem trans (first : Adds said o o') (second : Adds said' o' o'') :
    Adds (fun sign f => said sign f ∨ said' sign f) o o'' where
  enable f := by rw [second.enable, first.enable, or_assoc]
  disable f := by rw [second.disable, first.disable, or_assoc]

theorem congr (adds : Adds said o o') (same : ∀ sign f, said sign f ↔ said' sign f) :
    Adds said' o o' where
  enable f := by rw [adds.enable, same]
  disable f := by rw [adds.disable, same]

end Adds

theorem word_eq_iff {name : List Char} {flag f : Flag} (found : flag.name = String.ofList name) :
    f = flag ↔ name = f.name.toList := by
  constructor
  · rintro rfl
    rw [found, String.toList_ofList]
  · rintro rfl
    rw [String.ofList_toList] at found
    exact Flag.eq_of_name found.symm

theorem adds_applyWord {o o' : Overrides} {word : List Char} (given : applyWord o word = .ok o') :
    Adds (fun sign f => word = sign :: f.name.toList) o o' := by
  unfold applyWord at given
  split at given
  · next name =>
    split at given
    · next flag found =>
      cases given
      have named := Flag.name_of_ofName? found
      constructor
      · intro f
        simp [word_eq_iff named, or_comm]
      · intro f
        simp
    · cases given
  · next name =>
    split at given
    · next flag found =>
      cases given
      have named := Flag.name_of_ofName? found
      constructor
      · intro f
        simp
      · intro f
        simp [word_eq_iff named, or_comm]
    · cases given
  · cases given

theorem adds_foldlM_applyWord {words : List (List Char)} {o o' : Overrides}
    (given : words.foldlM applyWord o = .ok o') :
    Adds (fun sign f => sign :: f.name.toList ∈ words) o o' := by
  induction words generalizing o with
  | nil =>
    cases given
    exact .refl (by simp) _
  | cons word rest ih =>
    obtain ⟨next, first, later⟩ := bind_eq_ok.mp given
    refine ((adds_applyWord first).trans (ih later)).congr fun sign f => ?_
    rw [List.mem_cons, eq_comm]

theorem adds_sourceOverrides {line : Nat} {o o' : Overrides} {texts : List (List Char)}
    (given : sourceOverrides line o texts = .ok o') :
    Adds (fun sign f => Said sign f texts) o o' := by
  induction texts generalizing line o with
  | nil =>
    cases given
    exact .refl said_nil _
  | cons text rest ih =>
    rw [sourceOverrides] at given
    cases found : findDirective? text with
    | none =>
      rw [found] at given
      refine (ih given).congr fun sign f => ?_
      simp [wordsOn, found]
    | some directive =>
      obtain ⟨before, body⟩ := directive
      rw [found] at given
      dsimp only at given
      split at given
      · next applied =>
        refine ((adds_foldlM_applyWord applied).trans (ih given)).congr fun sign f => ?_
        simp [wordsOn, found]
      · cases given

theorem adds_outputOverrides {line : Nat} {o o' : Overrides} {texts kept : List (List Char)}
    (given : outputOverrides line o texts = .ok (o', kept)) :
    Adds (fun sign f => Said sign f texts) o o' := by
  induction texts generalizing line o kept with
  | nil =>
    cases given
    exact .refl said_nil _
  | cons text rest ih =>
    rw [outputOverrides] at given
    cases found : findDirective? text with
    | none =>
      rw [found] at given
      obtain ⟨⟨_, others⟩, later, same⟩ := map_eq_ok.mp given
      cases same
      refine (ih later).congr fun sign f => ?_
      simp [wordsOn, found]
    | some directive =>
      obtain ⟨before, body⟩ := directive
      rw [found] at given
      dsimp only at given
      split at given
      · next applied =>
        obtain ⟨⟨_, others⟩, later, same⟩ := map_eq_ok.mp given
        cases same
        refine ((adds_foldlM_applyWord applied).trans (ih later)).congr fun sign f => ?_
        simp [wordsOn, found]
      · cases given

theorem adds_toExample {settings : Settings} {s : Snippet} {block : Nat} {e : Example}
    (given : s.toExample settings block = .ok e) :
    Adds (fun sign f => Said sign f (s.source.reverse ++ s.want.reverse)) {} e.overrides := by
  obtain ⟨o, source, given⟩ := bind_eq_ok.mp given
  obtain ⟨⟨o', kept⟩, output, given⟩ := bind_eq_ok.mp given
  cases given
  refine ((adds_sourceOverrides source).trans (adds_outputOverrides output)).congr fun sign f => ?_
  rw [said_append]

/-! ### Directives on whole lines -/

/-- No quotes and no comment start here. -/
def isPlain (c : Char) : Bool := c != '\'' && c != '"' && c != '#'

theorem splitComment?_append {front : List Char} (plain : front.all isPlain = true)
    (text : List Char) : splitComment? .outside (front ++ text) =
      (splitComment? .outside text).map fun (before, comment) => (front ++ before, comment) := by
  induction front with
  | nil =>
    rw [List.nil_append]
    cases splitComment? .outside text <;> rfl
  | cons c rest ih =>
    rw [List.all_cons, Bool.and_eq_true] at plain
    obtain ⟨here, later⟩ := plain
    have outside : c ≠ '\'' ∧ c ≠ '"' ∧ c ≠ '#' := by simpa [isPlain, and_assoc] using here
    have stays : QuoteState.next c .outside = .outside := by
      simp [QuoteState.next, outside.1, outside.2.1]
    rw [List.cons_append, splitComment?, if_neg (by simp [outside.2.2]), stays, ih later,
      Option.map_map]
    rfl

theorem findDirective?_append {front : List Char} (plain : front.all isPlain = true)
    (text : List Char) : findDirective? (front ++ text) =
      (findDirective? text).map fun (before, body) => (front ++ before, body) := by
  rw [findDirective?, findDirective?, splitComment?_append plain]
  cases splitComment? .outside text with
  | none => rfl
  | some parts =>
    obtain ⟨before, comment⟩ := parts
    cases named : Text.stripStart? "doctest:".toList (Text.trimStart comment) with
    | none => simp only [named, Option.map_some, Option.bind_eq_bind, Option.bind, Option.map_none]
    | some body => simp only [named, Option.map_some, Option.bind_eq_bind, Option.bind, Option.pure_def]

theorem wordsOn_append {front : List Char} (plain : front.all isPlain = true)
    (text : List Char) : wordsOn (front ++ text) = wordsOn text := by
  rw [wordsOn, wordsOn, findDirective?_append plain]
  cases findDirective? text <;> rfl

theorem isPlain_of_isIndent {c : Char} (indent : isIndent c = true) : isPlain c = true := by
  have cases : c = ' ' ∨ c = '\t' := by simpa [isIndent] using indent
  rcases cases with rfl | rfl <;> rfl

theorem wordsOn_drop {line : List Char} {indent : Nat} (column : indent ≤ indentation line) :
    wordsOn (line.drop indent) = wordsOn line := by
  have margin : (line.take indent).all isPlain = true := by
    refine List.all_eq_true.mpr fun c inside => ?_
    have inIndent : c ∈ line.takeWhile isIndent := by
      have front : line.take indent = (line.takeWhile isIndent).take indent := by
        rw [← List.takeWhile_append_dropWhile (p := isIndent) (l := line),
          List.take_append_of_le_length column, List.takeWhile_append_dropWhile]
      rw [front] at inside
      exact List.mem_of_mem_take inside
    exact isPlain_of_isIndent (List.all_eq_true.mp List.all_takeWhile c inIndent)
  rw [← wordsOn_append margin, List.take_append_drop]

theorem wordsOn_dropSpace (text : List Char) : wordsOn (dropSpace text) = wordsOn text := by
  unfold dropSpace
  split
  · next rest => exact (@wordsOn_append [' '] (by decide) rest).symm
  · rfl

/-- A prompt at the start of a line hides no directive behind it. -/
theorem wordsOn_of_stripStart? {start line after : List Char}
    (plain : start.all isPlain = true)
    (found : Text.stripStart? start (line.drop (indentation line)) = some after) :
    wordsOn (dropSpace after) = wordsOn line := by
  rw [wordsOn_dropSpace, ← wordsOn_drop (Nat.le_refl (indentation line)),
    Text.stripStart?_eq_some.mp found, wordsOn_append plain]

theorem wordsOn_of_source {line text : List Char} {indent : Nat}
    (starts : LineKind.of line = .source indent text) : wordsOn text = wordsOn line := by
  rw [LineKind.of] at starts
  split at starts
  · split at starts <;> cases starts
  · next after found =>
    split at starts
    · cases starts
    · split at starts
      · cases starts
      · cases starts
        exact wordsOn_of_stripStart? (by decide) found

theorem wordsOn_of_continuation? {line text : List Char}
    (continues : continuation? line = some text) : wordsOn text = wordsOn line := by
  rw [continuation?] at continues
  split at continues
  · cases continues
  · next after found =>
    split at continues
    · cases continues
      exact wordsOn_of_stripStart? (by decide) found
    · cases continues

theorem Window.said_iff {indent : Nat} {window source output : List (List Char)}
    (written : Window indent window source output) (sign : Char) (f : Flag) :
    Said sign f window ↔ Said sign f (source ++ output) := by
  induction written with
  | prompt starts => simp [wordsOn_of_source starts]
  | more _ continues _ ih => simp [ih, wordsOn_of_continuation? continues]
  | output _ _ column ih =>
    simp only [said_append, said_cons, said_nil, wordsOn_drop column, ih, or_assoc]

end Transcript

end DocExamples
