import DocExamples.Proofs.Literal.Scalars
import DocExamples.Proofs.Rounding
/-!
Calls of `array`: their tokens, how their arguments are read, and the array that they make. The size
of a vector is an argument, which is read as a double.
-/
namespace DocExamples.Literal

open Text Token

variable {namedTuples : Bool} {depth : Nat} {tokens : List Token} {l : Literal}

/-! ### Arguments -/

/-- What is read as a value is not the start of a keyword argument. -/
theorem Reads.not_keyword (reads : Reads namedTuples depth tokens l) {rest more : List Token}
    {key : List Char} (ends : rest.head? ≠ some .equals) :
    tokens ++ rest ≠ .name key :: .equals :: more := by
  intro same
  obtain ⟨token, others, rfl, -⟩ := reads.starts
  rw [List.cons_append, List.cons.injEq] at same
  obtain ⟨rfl, same⟩ := same
  cases others with
  | nil =>
    rw [List.nil_append] at same
    exact ends (by rw [same]; rfl)
  | cons second others =>
    rw [List.cons_append, List.cons.injEq] at same
    obtain ⟨rfl, -⟩ := same
    have read := reads.value [] (by simp)
    cases depth with
    | zero => cases read
    | succ depth =>
      rw [List.append_nil, value_name key (by simp)] at read
      change (constant false key).bind (fun l => some (l, .equals :: others)) = _ at read
      obtain ⟨l', -, same⟩ := Option.bind_eq_some_iff.mp read
      cases same

theorem argumentsLoop_positional (reads : Reads namedTuples depth tokens l) {items : List Literal}
    {fuel : Nat} {rest : List Token} (noCall : rest.head? ≠ some .leftParen)
    (noKeyword : rest.head? ≠ some .equals) :
    argumentsLoop (value namedTuples depth) ⟨items, []⟩ (fuel + 1) (tokens ++ rest) =
      (do
        if ← Reader.eat .comma then
          argumentsLoop (value namedTuples depth) ⟨items ++ [l], []⟩ fuel
        else
          Reader.consume .rightParen
          return ⟨items ++ [l], []⟩) rest := by
  have notKeyword (key : List Char) (more : List Token) :
      tokens ++ rest ≠ .name key :: .equals :: more := reads.not_keyword noKeyword
  have read := reads.value rest noCall
  refine (bind_of_some (reads.eat_close (by decide) rest)).trans ?_
  rw [if_neg Bool.false_ne_true]
  refine (bind_of_some (get_eq _)).trans ?_
  simp only [List.isEmpty_nil, Bool.not_true, Bool.false_eq_true, if_false]
  exact (bind_of_some read).trans rfl

/-- The first argument is the only one. -/
theorem argumentsLoop_single (reads : Reads namedTuples depth tokens l) {fuel : Nat}
    (rest : List Token) :
    argumentsLoop (value namedTuples depth) .none (fuel + 1) (tokens ++ .rightParen :: rest) =
      some (⟨[l], []⟩, rest) := by
  refine (argumentsLoop_positional reads (by simp) (by simp)).trans ?_
  refine (bind_of_some (eat_other (by decide) rest)).trans ?_
  exact (bind_of_some (consume_same .rightParen rest)).trans rfl

/-- A last keyword argument, whose value is not a name. -/
theorem argumentsLoop_keyword {acc : Arguments} (reads : Reads namedTuples depth tokens l)
    (starts : ∀ name, tokens.head? ≠ some (.name name)) (key : List Char) {fuel : Nat}
    (positive : 0 < fuel) (rest : List Token) :
    argumentsLoop (value namedTuples depth) acc fuel
        (.name key :: .equals :: (tokens ++ .rightParen :: rest)) =
      some (⟨acc.positional, acc.keyword ++ [(key, l)]⟩, rest) := by
  obtain ⟨fuel, rfl⟩ := Nat.exists_eq_succ_of_ne_zero positive.ne'
  have plain : keywordValue (value namedTuples depth) (tokens ++ .rightParen :: rest) =
      some (l, .rightParen :: rest) := by
    refine Eq.trans ?_ (reads.value (.rightParen :: rest) (by simp))
    obtain ⟨token, others, rfl, -⟩ := reads.starts
    cases token with
    | name name => exact absurd rfl (starts name)
    | _ => rfl
  refine (bind_of_some (eat_other (by simp) _)).trans ?_
  rw [if_neg Bool.false_ne_true]
  refine (bind_of_some (get_eq _)).trans ?_
  refine (bind_of_some (set_eq _ _)).trans ?_
  refine (bind_of_some plain).trans ?_
  refine (bind_of_some (pure_eq _ _)).trans ?_
  refine (bind_of_some (eat_other (by decide) rest)).trans ?_
  exact (bind_of_some (consume_same .rightParen rest)).trans rfl

/-! ### Calls -/

theorem scans_call {c : Char} {name args : List Char} (letter : c.isAlpha = true)
    (all : name.all isNameChar = true) (scans : Scans args tokens) :
    Scans (c :: (name ++ '(' :: (args ++ [')'])))
      (.name (c :: name) :: .leftParen :: (tokens ++ [.rightParen])) := by
  intro rest more delimited later
  have closed := scans.after (c := ')') (by decide) (by decide) rfl
  have opened := closed.before (c := '(') (by decide) rfl
  rw [List.cons_append, List.append_assoc]
  refine .name letter all (fun d found => ?_) (opened rest more delimited later)
  cases found
  decide

theorem value_call {name : List Char} {args : Arguments} {inside rest : List Token}
    (arguments : argumentsLoop (value namedTuples depth) .none (inside.length + 1) inside =
      some (args, rest)) (made : callValue namedTuples name args = some l) :
    value namedTuples (depth + 1) (.name name :: .leftParen :: inside) = some (l, rest) := by
  rw [value, item]
  refine (bind_of_some (get_eq _)).trans ?_
  refine (bind_of_some (set_eq _ _)).trans ?_
  refine (bind_of_some arguments).trans ?_
  rw [made]
  rfl

theorem callValue_array (args : Arguments) :
    callValue namedTuples "array".toList args =
      (do arrayLiteral (← args.positional.head? <|> args.keyword? "data") args .repr) := rfl

/-- Lists that show a shape make an array of it. -/
theorem arrayLiteral_whole {args : Arguments} {style : ArrayStyle} {leaves : List Leaf}
    {shape : List Nat} (plain : args.keyword = []) (flat : flatten l = some (leaves, false))
    (shows : inferShape l = some shape) :
    arrayLiteral l args style = some (.array ⟨style, leaves, some shape, none, none, false⟩) := by
  rw [arrayLiteral, flat, Arguments.keyword?, Arguments.keyword?, plain]
  change (do
    let shape ← (inferShape l).map some
    return Literal.array ⟨style, leaves, shape, none, none, false⟩) = _
  rw [shows]
  rfl

/-- Lists with a mark of abbreviation show no shape. -/
theorem arrayLiteral_short {args : Arguments} {style : ArrayStyle} {leaves : List Leaf}
    {declared : Option (List Nat)} (size : declaredShape? (args.keyword? "shape") = some declared)
    (plain : args.keyword? "dtype" = none) (flat : flatten l = some (leaves, true)) :
    arrayLiteral l args style = some (.array ⟨style, leaves, none, declared, none, true⟩) := by
  rw [arrayLiteral, flat, plain]
  change (do
    let declared ← declaredShape? (args.keyword? "shape")
    return Literal.array ⟨style, leaves, none, declared, none, true⟩) = _
  rw [size]
  rfl

/-- An array without a declared shape. -/
theorem reads_array (reads : Reads namedTuples depth tokens l) {leaves : List Leaf}
    {shape : List Nat} (flat : flatten l = some (leaves, false)) (shows : inferShape l = some shape) :
    Reads namedTuples (depth + 1) (.name "array".toList :: .leftParen :: (tokens ++ [.rightParen]))
      (.array ⟨.repr, leaves, some shape, none, none, false⟩) where
  value rest _ := by
    have made : callValue namedTuples "array".toList ⟨[l], []⟩ = _ :=
      (callValue_array _).trans (arrayLiteral_whole rfl flat shows)
    rw [List.cons_append, List.cons_append, List.append_assoc]
    exact value_call (argumentsLoop_single reads rest) made
  starts := ⟨_, _, rfl, by simp⟩

/-- The size of a vector, as a literal. -/
def sizeLiteral (n : Nat) : Literal := signed false (wholeNumber (Decimal.digitChars n))

/-- The text of a size as a shape of one dimension. -/
def sizeText (n : Nat) : List Char := '(' :: (Decimal.digitChars n ++ [',', ')'])

def sizeTokens (n : Nat) : List Token :=
  [.leftParen, .int (Decimal.digitChars n), .comma, .rightParen]

theorem isItem_size (n : Nat) :
    IsItem namedTuples (depth + 2) (sizeText n) (sizeTokens n) (.tuple [sizeLiteral n]) := by
  have digits := scans_digits (Decimal.allDigits_digitChars n) (Decimal.digitChars_ne_nil n)
  have comma := digits.after (c := ',') (by decide) (by decide) rfl
  have closed := (comma.after (c := ')') (by decide) (by decide) rfl).before (c := '(') (by decide) rfl
  rw [List.append_assoc] at closed
  exact ⟨closed, reads_singleton (reads_int _)⟩

/-- The name of the argument that a vector's size is given by, after the data. -/
theorem scans_withSize {text : List Char} (scans : Scans text tokens) (n : Nat) :
    Scans (text ++ ", shape=".toList ++ sizeText n)
      (tokens ++ .comma :: .name "shape".toList :: .equals :: sizeTokens n) := by
  intro rest more delimited later
  have size := (@isItem_size false 0 n).1 rest more delimited later
  have equals := Scanned.symbol (c := '=') (by decide) rfl size
  have name := @Scanned.name _ _ 's' ['h', 'a', 'p', 'e'] (by decide) (by decide)
    (fun d found => by cases found; decide) equals
  have comma := Scanned.symbol (c := ',') (by decide) rfl (.skip (c := ' ') rfl name)
  simp only [List.append_assoc]
  exact scans _ _ (delimited_cons (by decide)) comma

/-- A vector that is abbreviated, with its size. -/
theorem reads_vector (reads : Reads namedTuples (depth + 2) tokens l) {leaves : List Leaf}
    (flat : flatten l = some (leaves, true)) {n m : Nat} (size : dimension? (sizeLiteral n) = some m) :
    Reads namedTuples (depth + 3)
      (.name "array".toList :: .leftParen ::
        (tokens ++ .comma :: .name "shape".toList :: .equals :: sizeTokens n ++ [.rightParen]))
      (.array ⟨.repr, leaves, none, some [m], none, true⟩) where
  value rest _ := by
    have declared : declaredShape? (some (.tuple [sizeLiteral n])) = some (some [m]) := by
      rw [declaredShape?, List.mapM_cons, size]
      rfl
    have made : callValue namedTuples "array".toList
        ⟨[l], [("shape".toList, .tuple [sizeLiteral n])]⟩ = some
          (.array ⟨.repr, leaves, none, some [m], none, true⟩) := by
      exact (callValue_array _).trans (arrayLiteral_short declared rfl flat)
    have plain (name : List Char) : (sizeTokens n).head? ≠ some (.name name) := by
      simp [sizeTokens]
    rw [List.cons_append, List.cons_append, List.append_assoc, List.append_assoc]
    refine value_call ?_ made
    refine (argumentsLoop_positional reads (by simp) (by simp)).trans ?_
    refine (bind_of_some (eat_same .comma _)).trans ?_
    refine argumentsLoop_keyword (@isItem_size namedTuples depth n).2 plain "shape".toList ?_ rest
    rw [List.length_append]
    exact Nat.add_pos_right _ (Nat.succ_pos _)
  starts := ⟨_, _, rfl, by simp⟩

/-- The size is the double nearest to the number, which is the number itself up to fifty-three
binary digits. -/
theorem dimension?_sizeLiteral {n : Nat} (some : n ≠ 0) (small : n < 2 ^ 64) :
    ∃ m, dimension? (sizeLiteral n) = .some m ∧ (n < 2 ^ 53 → m = n) := by
  rw [sizeLiteral, signed_wholeNumber false small, dimension?]
  by_cases within : n < 2 ^ 53
  · have digits : n.log2 < 53 := (Nat.log2_lt some).mpr within
    have up : ((n.log2 : Int) - 52).toNat = 0 := by omega
    have down : (-((n.log2 : Int) - 52)).toNat = 52 - n.log2 := by omega
    rw [Binary64.parts_ofRatio_whole some within]
    refine ⟨n, ?_, fun _ => rfl⟩
    dsimp only
    rw [up, down, Nat.shiftLeft_zero, Nat.shiftLeft_shiftRight]
    rw [Bool.false_and, if_neg Bool.false_ne_true, maxSize]
    rw [Nat.min_eq_left]
    have greatest : UInt64.size - 1 = 2 ^ 64 - 1 := rfl
    omega
  · obtain ⟨mantissa, exponent, parts⟩ := Binary64.exists_parts_ofRatio small
    rw [parts]
    exact ⟨_, rfl, fun exact_ => absurd exact_ within⟩

end DocExamples.Literal
