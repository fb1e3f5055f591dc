import Mathlib
import DocExamples.Literal.Agreement
import DocExamples.Proofs.Literal.NamedTuples
/-!
The arrays in what is read as a literal, in a logic of what readers give. The shape of an array
counts its leaves, though the two are found apart from one another, so that arrays of one shape are
compared leaf by leaf.
-/
namespace DocExamples

/-- A bare value, as arrays hold them. -/
def Leaf.IsBare (l : Leaf) : Prop :=
  (∃ n, l = .number n) ∨ (∃ b, l = .bool b) ∨ (∃ s, l = .str s) ∨ l = .masked ∨ l = .none

theorem Leaf.isBare (l : Leaf) : l.IsBare := by
  cases l <;> simp [IsBare]

/-- The shape of an array, which it has unless it is abbreviated, counts its leaves, and these are
bare values. -/
structure ArrayLiteral.IsWhole (a : ArrayLiteral) : Prop where
  shaped : a.abbreviated = false → ∃ shape, a.shape = some shape ∧ shape.prod = a.leaves.length
  short : a.abbreviated = true → a.shape = none
  bare : ∀ l ∈ a.leaves, l.IsBare

namespace Literal

/-- The array is the literal or stands somewhere in it. -/
inductive OccursIn (a : ArrayLiteral) : Literal → Prop where
  | here : OccursIn a (.array a)
  | list {items : List Literal} {item : Literal} (member : item ∈ items)
    (inside : OccursIn a item) : OccursIn a (.list items)
  | tuple {items : List Literal} {item : Literal} (member : item ∈ items)
    (inside : OccursIn a item) : OccursIn a (.tuple items)
  | key {entries : List (Literal × Literal)} {entry : Literal × Literal}
    (member : entry ∈ entries) (inside : OccursIn a entry.1) : OccursIn a (.dict entries)
  | value {entries : List (Literal × Literal)} {entry : Literal × Literal}
    (member : entry ∈ entries) (inside : OccursIn a entry.2) : OccursIn a (.dict entries)

/-- A property of all arrays of a literal. -/
def EachArray (P : ArrayLiteral → Prop) (l : Literal) : Prop := ∀ a, OccursIn a l → P a

section EachArray

variable {P : ArrayLiteral → Prop} {items : List Literal} {entries : List (Literal × Literal)}

theorem eachArray_leaf (l : Leaf) : EachArray P (.leaf l) := by
  rintro a ⟨⟩

theorem eachArray_ellipsis : EachArray P .ellipsis := by
  rintro a ⟨⟩

theorem eachArray_array {a : ArrayLiteral} (holds : P a) : EachArray P (.array a) := by
  rintro _ ⟨⟩
  exact holds

theorem eachArray_list (each : ∀ item ∈ items, EachArray P item) : EachArray P (.list items) := by
  rintro a (_ | ⟨member, inside⟩)
  exact each _ member a inside

theorem eachArray_tuple (each : ∀ item ∈ items, EachArray P item) :
    EachArray P (.tuple items) := by
  rintro a (_ | _ | ⟨member, inside⟩)
  exact each _ member a inside

theorem eachArray_dict (each : ∀ entry ∈ entries, EachArray P entry.1 ∧ EachArray P entry.2) :
    EachArray P (.dict entries) := by
  rintro a (_ | _ | _ | ⟨member, inside⟩ | ⟨member, inside⟩)
  · exact (each _ member).1 a inside
  · exact (each _ member).2 a inside

end EachArray

/-! ### What readers give -/

/-- Whatever the reader gives has the property. -/
def Reader.Gives {α : Type} (R : α → Prop) (p : Reader α) : Prop :=
  ∀ tokens a rest, p tokens = some (a, rest) → R a

namespace Reader.Gives

variable {α β : Type} {R : β → Prop} {p : Reader α}

theorem fail : Gives R (Reader.fail : Reader β) := by
  rintro tokens b rest ⟨⟩

theorem pure {b : β} (holds : R b) : Gives R (pure b) := by
  rintro tokens _ rest ⟨⟩
  exact holds

theorem bind {Q : α → Prop} {f : α → Reader β} (first : Gives Q p)
    (second : ∀ a, Q a → Gives R (f a)) : Gives R (p >>= f) := by
  intro tokens b rest given
  obtain ⟨⟨a, mid⟩, read, later⟩ := Option.bind_eq_some_iff.mp given
  exact second a (first tokens a mid read) mid b rest later

/-- What follows a reader may decide alone. -/
theorem after {f : α → Reader β} (second : ∀ a, Gives R (f a)) : Gives R (p >>= f) :=
  bind (fun _ _ _ _ => trivial) fun a _ => second a

theorem map {Q : α → Prop} {f : α → β} (first : Gives Q p) (implies : ∀ a, Q a → R (f a)) :
    Gives R (do return f (← p)) := bind first fun a holds => pure (implies a holds)

/-- A computation without tokens. -/
theorem lift {found : Option β} (holds : ∀ b, found = some b → R b) :
    Gives R (liftM found : Reader β) := by
  intro tokens b rest given
  cases found with
  | none => cases given
  | some b' =>
    cases given
    exact holds b rfl

end Reader.Gives

section Readers

variable {P : ArrayLiteral → Prop} {value row : Reader Literal} {namedTuples : Bool}

theorem eachArray_of_constant {negative : Bool} {name : List Char} {l : Literal}
    (found : constant negative name = some l) : EachArray P l := by
  have unsigned {v : Leaf} (found : (if negative then none else some (.leaf v)) = some l) :
      EachArray P l := by
    split at found
    · cases found
    · cases found
      exact eachArray_leaf v
  unfold constant at found
  split at found
  · cases found
    exact eachArray_leaf _
  · cases found
    exact eachArray_leaf _
  · cases found
    exact eachArray_leaf _
  · cases found
    exact eachArray_leaf _
  · exact unsigned found
  · exact unsigned found
  · exact unsigned found
  · cases found

theorem gives_unsigned (negative : Bool) : (unsigned negative).Gives (EachArray P) := by
  refine .after fun tokens => ?_
  split
  · exact .after fun _ => .pure (eachArray_leaf _)
  · exact .after fun _ => .after fun _ => .pure (eachArray_leaf _)
  · exact .after fun _ => .lift fun l => eachArray_of_constant
  · exact .fail

theorem gives_scalar : scalar.Gives (EachArray P) := by
  rw [scalar_eq]
  refine .after fun minus => ?_
  split
  · exact gives_unsigned true
  · exact .after fun _ => gives_unsigned false

theorem gives_sequenceLoop (inner : value.Gives (EachArray P)) (close : Token) (fuel : Nat) :
    (sequenceLoop value close fuel).Gives fun items => ∀ item ∈ items, EachArray P item := by
  induction fuel with
  | zero => exact .fail
  | succ fuel ih =>
    rw [sequenceLoop]
    refine .after fun closed => ?_
    split
    · exact .pure (by simp)
    · refine .bind inner fun item holds => .after fun more => ?_
      split
      · exact .map ih fun items each => List.forall_mem_cons.mpr ⟨holds, each⟩
      · exact .after fun _ => .pure (by simpa using holds)

theorem gives_sequence (inner : value.Gives (EachArray P)) (close : Token) :
    (sequence value close).Gives fun items => ∀ item ∈ items, EachArray P item :=
  .after fun _ => gives_sequenceLoop inner close _

theorem gives_parenthesized (inner : value.Gives (EachArray P)) :
    (parenthesized value).Gives (EachArray P) := by
  unfold parenthesized
  refine .after fun closed => ?_
  split
  · exact .pure (eachArray_tuple (by simp))
  · refine .bind inner fun first holds => .after fun alone => ?_
    split
    · exact .pure holds
    · refine .after fun _ => .map (gives_sequence inner .rightParen) fun items each => ?_
      exact eachArray_tuple (List.forall_mem_cons.mpr ⟨holds, each⟩)

theorem gives_dictLoop (inner : value.Gives (EachArray P)) (fuel : Nat) :
    (dictLoop value fuel).Gives fun entries =>
      ∀ entry ∈ entries, EachArray P entry.1 ∧ EachArray P entry.2 := by
  induction fuel with
  | zero => exact .fail
  | succ fuel ih =>
    rw [dictLoop]
    refine .after fun closed => ?_
    split
    · exact .pure (by simp)
    · refine .bind inner fun key holds => .after fun _ => .bind inner fun item holds' => ?_
      refine .after fun more => ?_
      split
      · exact .map ih fun entries each => List.forall_mem_cons.mpr ⟨⟨holds, holds'⟩, each⟩
      · exact .after fun _ => .pure (by simpa using ⟨holds, holds'⟩)

theorem gives_keywordValue (inner : value.Gives (EachArray P)) :
    (keywordValue value).Gives (EachArray P) := by
  refine .after fun tokens => ?_
  split
  · split
    · exact .after fun _ => .pure (eachArray_leaf _)
    · exact inner
  · exact inner

theorem gives_argumentsLoop (inner : value.Gives (EachArray P)) {acc : Arguments}
    (each : ∀ entry ∈ acc.keyword, EachArray P entry.2) (fuel : Nat) :
    (argumentsLoop value acc fuel).Gives fun args =>
      ∀ entry ∈ args.keyword, EachArray P entry.2 := by
  induction fuel generalizing acc with
  | zero => exact .fail
  | succ fuel ih =>
    have onward (acc : Arguments) (each : ∀ entry ∈ acc.keyword, EachArray P entry.2) :
        Reader.Gives (fun args => ∀ entry ∈ args.keyword, EachArray P entry.2) (do
          if ← Reader.eat .comma then argumentsLoop value acc fuel
          else
            Reader.consume .rightParen
            return acc) := by
      refine .after fun more => ?_
      split
      · exact ih each
      · exact .after fun _ => .pure each
    rw [argumentsLoop]
    refine .after fun closed => ?_
    split
    · exact .pure each
    · refine .after fun tokens => ?_
      dsimp only
      split
      · next key rest =>
        refine .after fun _ => .bind (gives_keywordValue inner) fun item holds => onward _ ?_
        exact List.forall_mem_append.mpr ⟨each, by simpa using holds⟩
      · split
        · exact .after fun _ => .after fun item => onward _ each
        · exact .after fun item => onward _ each

theorem gives_documentLoop (inner : value.Gives (EachArray P)) (fuel : Nat) :
    (documentLoop value fuel).Gives fun items => ∀ item ∈ items, EachArray P item := by
  induction fuel with
  | zero => exact .fail
  | succ fuel ih =>
    rw [documentLoop]
    refine .after fun more => ?_
    split
    · refine .after fun tokens => ?_
      split
      · exact .pure (by simp)
      · refine .bind inner fun item holds => .map ih fun items each => ?_
        exact List.forall_mem_cons.mpr ⟨holds, each⟩
    · exact .pure (by simp)

/-! ### Whole literals -/

variable (made : ∀ data args style a, arrayLiteral data args style = some (.array a) → P a)
include made

theorem eachArray_of_arrayLiteral {data l : Literal} {args : Arguments} {style : ArrayStyle}
    (given : arrayLiteral data args style = some l) : EachArray P l := by
  obtain ⟨a, rfl, -⟩ := style_of_arrayLiteral given
  exact eachArray_array (made data args style a given)

theorem eachArray_of_callValue {name : List Char} {args : Arguments} {l : Literal}
    (each : ∀ entry ∈ args.keyword, EachArray P entry.2)
    (given : callValue namedTuples name args = some l) : EachArray P l := by
  unfold callValue at given
  split at given
  · obtain ⟨data, -, given⟩ := Option.bind_eq_some_iff.mp given
    exact eachArray_of_arrayLiteral made given
  · obtain ⟨data, -, given⟩ := Option.bind_eq_some_iff.mp given
    exact eachArray_of_arrayLiteral made given
  · split at given
    · split at given
      · cases given
        refine eachArray_tuple fun item member => ?_
        obtain ⟨entry, listed, rfl⟩ := List.mem_map.mp member
        exact each entry listed
      · cases given
    · cases given
      exact eachArray_leaf _
    · cases given

theorem gives_item (inner : value.Gives (EachArray P)) :
    (item namedTuples value).Gives (EachArray P) := by
  refine .after fun tokens => ?_
  split
  · exact .after fun _ => .map (gives_sequence inner _) fun items => eachArray_list
  · exact .after fun _ => gives_parenthesized inner
  · exact .after fun _ => .map (gives_dictLoop inner _) fun entries => eachArray_dict
  · exact .after fun _ => .pure eachArray_ellipsis
  · exact .after fun _ => .pure (eachArray_leaf _)
  · exact .after fun _ => .pure (eachArray_leaf _)
  · next name rest =>
    refine .after fun _ => .bind (gives_argumentsLoop inner (by simp [Arguments.none]) _) ?_
    intro args each
    split
    · next given => exact .pure (eachArray_of_callValue made each given)
    · exact .fail
  · exact gives_scalar

theorem gives_value (depth : Nat) : (Literal.value namedTuples depth).Gives (EachArray P) := by
  induction depth with
  | zero => exact .fail
  | succ depth ih => exact gives_item made ih

theorem gives_document : (document namedTuples).Gives (EachArray P) := by
  refine .bind (gives_value made maxDepth) fun first holds => .after fun tokens => ?_
  split
  · exact .pure holds
  · refine .after fun _ => .map (gives_documentLoop (gives_value made maxDepth) _) ?_
    intro items each
    exact eachArray_tuple (List.forall_mem_cons.mpr ⟨holds, each⟩)

theorem gives_printedArray : (printedArray namedTuples).Gives (EachArray P) := by
  refine .after fun nested => ?_
  split
  · next given => exact .pure (eachArray_of_arrayLiteral made given)
  · exact .fail

/-- What holds of every array that is made holds of every array in what is read. -/
theorem eachArray_of_parse? {text : String} {l : Literal}
    (read : parse? text namedTuples = some l) : EachArray P l := by
  have all {reader : Reader Literal} (gives : reader.Gives (EachArray P)) {tokens : List Token}
      {l : Literal} (read : readAll? reader tokens = some l) : EachArray P l :=
    gives tokens l [] (readAll?_eq_some.mp read)
  unfold parse? at read
  dsimp only at read
  split at read
  · cases read
  · obtain ⟨tokens, -, read⟩ := Option.bind_eq_some_iff.mp read
    split at read
    · next strict =>
      cases read
      exact all (gives_document made) strict
    · split at read
      · exact all (gives_printedArray made) read
      · cases read

end Readers

/-! ### Shapes and leaves -/

theorem flattenAll_cons {item : Literal} {rest : List Literal} {leaves : List Leaf}
    (flat : flattenAll (item :: rest) = some (leaves, false)) :
    ∃ first more, flatten item = some (first, false) ∧ flattenAll rest = some (more, false) ∧
      leaves = first ++ more := by
  rw [flattenAll] at flat
  obtain ⟨⟨first, short⟩, here, flat⟩ := Option.bind_eq_some_iff.mp flat
  obtain ⟨⟨more, short'⟩, later, flat⟩ := Option.bind_eq_some_iff.mp flat
  simp only [pure, Option.some.injEq, Prod.mk.injEq, Bool.or_eq_false_iff] at flat
  obtain ⟨rfl, rfl, rfl⟩ := flat
  exact ⟨first, more, here, later, rfl⟩

theorem commonShape_cons {item : Literal} {rest : List Literal} {inner : Option (List Nat)}
    (common : commonShape (item :: rest) = some inner) :
    ∃ shape, inferShape item = some shape ∧ inner = some shape ∧
      (commonShape rest = some none ∨ commonShape rest = some (some shape)) := by
  rw [commonShape] at common
  obtain ⟨shape, here, common⟩ := Option.bind_eq_some_iff.mp common
  obtain ⟨others, later, common⟩ := Option.bind_eq_some_iff.mp common
  cases others with
  | none =>
    cases common
    exact ⟨shape, here, rfl, .inl later⟩
  | some other =>
    dsimp only at common
    split at common
    · next same =>
      cases common
      exact ⟨shape, here, rfl, .inr (same ▸ later)⟩
    · cases common

theorem eq_nil_of_commonShape {items : List Literal} (none : commonShape items = some none) :
    items = [] := by
  cases items with
  | nil => rfl
  | cons item rest =>
    obtain ⟨shape, -, some, -⟩ := commonShape_cons none
    cases some

mutual

-- on the nested lists, through which both functions go
/-- The shape of nested lists counts their leaves. -/
theorem prod_inferShape : ∀ {data : Literal} {leaves : List Leaf} {shape : List Nat},
    flatten data = some (leaves, false) → inferShape data = some shape →
    shape.prod = leaves.length
  | .list items, leaves, shape, flat, inferred => by
    rw [flatten] at flat
    rw [inferShape] at inferred
    obtain ⟨inner, common, rfl⟩ := Option.map_eq_some_iff.mp inferred
    exact prod_commonShape flat common
  | .leaf l, leaves, shape, flat, inferred => by
    cases flat
    cases inferred
    rfl
  | .ellipsis, leaves, shape, flat, inferred => by cases flat
  | .tuple items, leaves, shape, flat, inferred => by cases flat
  | .dict entries, leaves, shape, flat, inferred => by cases flat
  | .array a, leaves, shape, flat, inferred => by cases flat

theorem prod_commonShape : ∀ {items : List Literal} {leaves : List Leaf}
    {inner : Option (List Nat)}, flattenAll items = some (leaves, false) →
    commonShape items = some inner → (items.length :: inner.getD []).prod = leaves.length
  | [], leaves, inner, flat, common => by
    cases flat
    rw [List.prod_cons, List.length_nil, Nat.zero_mul, List.length_nil]
  | item :: rest, leaves, inner, flat, common => by
    obtain ⟨first, more, here, later, rfl⟩ := flattenAll_cons flat
    obtain ⟨shape, inferred, rfl, others⟩ := commonShape_cons common
    have one : shape.prod = first.length := prod_inferShape here inferred
    have all : rest.length * shape.prod = more.length := by
      rcases others with none | some
      · obtain rfl := eq_nil_of_commonShape none
        cases later
        exact Nat.zero_mul _
      · have counted := prod_commonShape later some
        rwa [List.prod_cons] at counted
    rw [List.prod_cons, Option.getD_some, List.length_cons, Nat.succ_mul, all, one,
      List.length_append, Nat.add_comm]

end

theorem isWhole_of_arrayLiteral (data : Literal) (args : Arguments) (style : ArrayStyle)
    (a : ArrayLiteral) (made : arrayLiteral data args style = some (.array a)) : a.IsWhole := by
  obtain ⟨⟨leaves, abbreviated⟩, flat, made⟩ := Option.bind_eq_some_iff.mp made
  cases abbreviated with
  | true =>
    obtain ⟨declared, -, made⟩ := Option.bind_eq_some_iff.mp made
    obtain ⟨dtype, -, made⟩ := Option.bind_eq_some_iff.mp made
    cases made
    refine ⟨fun whole => ?_, fun _ => rfl, fun l _ => l.isBare⟩
    cases whole
  | false =>
    obtain ⟨_, shows, made⟩ := Option.bind_eq_some_iff.mp made
    obtain ⟨shape, inferred, rfl⟩ := Option.map_eq_some_iff.mp shows
    obtain ⟨declared, -, made⟩ := Option.bind_eq_some_iff.mp made
    obtain ⟨dtype, -, made⟩ := Option.bind_eq_some_iff.mp made
    cases made
    refine ⟨fun _ => ⟨shape, rfl, prod_inferShape flat inferred⟩, fun short => ?_,
      fun l _ => l.isBare⟩
    cases short

/-! ### Comparing arrays -/

theorem agreeAll_leaves_iff {settings : Settings} {want got : List Leaf} :
    Leaf.agreeAll settings want got = true ↔
      List.Forall₂ (fun w g => w.agrees settings g = true) want got := by
  induction want generalizing got with
  | nil => cases got <;> simp [Leaf.agreeAll]
  | cons w want ih => cases got <;> simp [Leaf.agreeAll, ih]

/-- What arrays show besides their shapes and their leaves is the same, as far as it is compared. -/
structure AlikeAround (settings : Settings) (want got : ArrayLiteral) : Prop where
  style : want.style = got.style
  dtype : settings.strictTypes = true → want.dtype = got.dtype
  declared : ∀ s t, want.declaredShape = some s → got.declaredShape = some t → s = t

theorem compatible_iff {α : Type} [BEq α] [LawfulBEq α] {a b : Option α} :
    compatible a b = true ↔ ∀ x y, a = some x → b = some y → x = y := by
  cases a <;> cases b <;> simp [compatible]

/-- Arrays of one shape agree if they are alike around their leaves and these agree in pairs. -/
theorem agrees_of_shape_eq {settings : Settings} {want got : ArrayLiteral}
    (same : want.shape = got.shape) :
    want.agrees settings got = true ↔ AlikeAround settings want got ∧
      List.Forall₂ (fun w g => w.agrees settings g = true) want.leaves got.leaves := by
  have shapes : compatible want.shape got.shape = true := by
    refine compatible_iff.mpr fun x y first second => ?_
    rw [same, second] at first
    exact (Option.some.inj first).symm
  have types : (!(settings.strictTypes && want.dtype != got.dtype)) = true ↔
      (settings.strictTypes = true → want.dtype = got.dtype) := by
    cases settings.strictTypes <;> simp
  rw [ArrayLiteral.agrees, shapes, Bool.and_true]
  simp only [Bool.and_eq_true, beq_iff_eq, types, compatible_iff, agreeAll_leaves_iff]
  constructor
  · rintro ⟨⟨⟨style, dtype⟩, declared⟩, leaves⟩
    exact ⟨⟨style, dtype, declared⟩, leaves⟩
  · rintro ⟨⟨style, dtype, declared⟩, leaves⟩
    exact ⟨⟨⟨style, dtype⟩, declared⟩, leaves⟩

theorem length_leaves {a : ArrayLiteral} {shape : List Nat} (whole : a.IsWhole)
    (shows : a.shape = some shape) : a.leaves.length = shape.prod := by
  cases short : a.abbreviated with
  | true =>
    rw [whole.short short] at shows
    cases shows
  | false =>
    obtain ⟨shape', shows', counted⟩ := whole.shaped short
    rw [shows', Option.some.injEq] at shows
    rw [← counted, shows]

/-- The arrays in what is read. The shape of every one counts its leaves, which are bare values; an
abbreviated array has no shape. So two arrays of one shape have as many leaves as it says, and each
leaf of the one is compared with a leaf of the other. -/
theorem array_leaves {text : String} {namedTuples : Bool} {l : Literal}
    (read : parse? text namedTuples = some l) {want : ArrayLiteral} (occurs : OccursIn want l) :
    want.IsWhole ∧
    ∀ text' namedTuples' l' got, parse? text' namedTuples' = some l' → OccursIn got l' →
      ∀ shape, want.shape = some shape → got.shape = some shape →
        want.leaves.length = shape.prod ∧ got.leaves.length = shape.prod ∧
        ∀ settings, want.agrees settings got = true ↔ AlikeAround settings want got ∧
          List.Forall₂ (fun w g => w.agrees settings g = true) want.leaves got.leaves := by
  have whole := eachArray_of_parse? isWhole_of_arrayLiteral read want occurs
  refine ⟨whole, fun text' namedTuples' l' got read' occurs' shape shows shows' => ?_⟩
  have whole' := eachArray_of_parse? isWhole_of_arrayLiteral read' got occurs'
  exact ⟨length_leaves whole shows, length_leaves whole' shows', fun settings =>
    agrees_of_shape_eq (shows.trans shows'.symm)⟩

/-- The shape of an array. -/
def shownShape? : Literal → Option (List Nat)
  | .array a => a.shape
  | _ => none

theorem exists_of_shownShape? {found : Option Literal} {shape : List Nat}
    (shows : found.bind shownShape? = some shape) :
    ∃ a, found = some (.array a) ∧ a.shape = some shape := by
  obtain ⟨l, rfl, shows⟩ := Option.bind_eq_some_iff.mp shows
  cases l with
  | array a => exact ⟨a, rfl, shows⟩
  | leaf | ellipsis | list | tuple | dict => cases shows

/-- An array with masked entries, and a printed array of the same shape. -/
theorem array_leaves_of_two :
    ∃ want got, parse? "masked_array(data=[[1, --, 3], [--, 5, 6]])" false = some (.array want) ∧
      parse? "[[1 2 3]\n [4 5 6]]" false = some (.array got) ∧ want.IsWhole ∧
      want.leaves.length = 6 ∧ got.leaves.length = 6 ∧
      ∀ settings, want.agrees settings got = true ↔ AlikeAround settings want got ∧
        List.Forall₂ (fun w g => w.agrees settings g = true) want.leaves got.leaves := by
  obtain ⟨want, read, shows⟩ := exists_of_shownShape? (show
    (parse? "masked_array(data=[[1, --, 3], [--, 5, 6]])" false).bind shownShape? = some [2, 3] by
      decide +kernel)
  obtain ⟨got, read', shows'⟩ := exists_of_shownShape? (show
    (parse? "[[1 2 3]\n [4 5 6]]" false).bind shownShape? = some [2, 3] by decide +kernel)
  obtain ⟨whole, compared⟩ := array_leaves read .here
  exact ⟨want, got, read, read', whole, compared _ _ _ got read' .here [2, 3] shows shows'⟩

end Literal

end DocExamples
