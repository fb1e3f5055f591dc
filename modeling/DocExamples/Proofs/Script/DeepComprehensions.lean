import DocExamples.Proofs.Script.ProgramNesting
import DocExamples.Proofs.Script.RoundTrip
/-!
Comprehensions whose sources are comprehensions are read however deep they nest: the bracket of one
counts no more from its `for` on.
-/
namespace DocExamples.Script

/-- Comprehensions inside comprehensions, `n` of them, around a name. -/
def deepText : Nat → List Char
  | 0 => ['y']
  | n + 1 => "[x for x in ".toList ++ deepText n ++ [']']

theorem deepText_succ (n : Nat) : deepText (n + 1) = "[x for x in ".toList ++ deepText n ++ [']'] := rfl

/-- What stands in front of the source of a comprehension. -/
def comprehensionHead : List Token :=
  [.symbol .leftBracket, .name "x", .keyword .forKw, .name "x", .keyword .inKw]

def deepTokens : Nat → List Token
  | 0 => [.name "y"]
  | n + 1 => comprehensionHead ++ deepTokens n ++ [.symbol .rightBracket]

def deepTree : Nat → Expr
  | 0 => .name "y"
  | n + 1 => .listComp (.name "x") (.name "x") (deepTree n) none

/-! ### Tokens -/

theorem tokensFrom_head (acc : List Token) (opened fuel : Nat) (rest : List Char) :
    tokensFrom acc opened (fuel + 9) ("[x for x in ".toList ++ rest) =
      tokensFrom (comprehensionHead.reverse ++ acc) (opened + 1) fuel rest := by
  rfl

/-- The text is at its end, or a bracket closes. -/
def Closes (rest : List Char) : Prop := rest = [] ∨ ∃ more, rest = ']' :: more

theorem tokensFrom_name {rest : List Char} (closes : Closes rest) (acc : List Token)
    (opened fuel : Nat) :
    tokensFrom acc opened (fuel + 1) ('y' :: rest) = tokensFrom (.name "y" :: acc) opened fuel rest := by
  rcases closes with rfl | ⟨more, rfl⟩
  · rfl
  · rfl

theorem tokensFrom_close (acc : List Token) (opened fuel : Nat) (rest : List Char) :
    tokensFrom acc (opened + 1) (fuel + 1) (']' :: rest) =
      tokensFrom (.symbol .rightBracket :: acc) opened fuel rest := by
  rfl

theorem tokensFrom_deepText (n : Nat) {rest : List Char} (closes : Closes rest) (acc : List Token)
    (opened fuel : Nat) :
    tokensFrom acc opened (fuel + (10 * n + 1)) (deepText n ++ rest) =
      tokensFrom ((deepTokens n).reverse ++ acc) opened fuel rest := by
  induction n generalizing rest acc opened fuel with
  | zero => exact tokensFrom_name closes acc opened fuel
  | succ n ih =>
    have steps : fuel + (10 * (n + 1) + 1) = fuel + 1 + (10 * n + 1) + 9 := by omega
    have inner := @ih (']' :: rest) (.inr ⟨rest, rfl⟩) (comprehensionHead.reverse ++ acc) (opened + 1)
      (fuel + 1)
    rw [steps, deepText_succ, List.append_assoc, List.append_assoc, tokensFrom_head,
      List.singleton_append, inner, tokensFrom_close, deepTokens]
    simp

theorem length_deepText (n : Nat) : (deepText n).length = 13 * n + 1 := by
  induction n with
  | zero => rfl
  | succ n ih =>
    have head : "[x for x in ".toList.length = 12 := rfl
    rw [deepText_succ, List.length_append, List.length_append, ih, head, List.length_singleton]
    omega

theorem tokens_deepText (n : Nat) : tokens (String.ofList (deepText n)) = .ok (deepTokens n) := by
  have enough : (deepText n).length = 3 * n + (10 * n + 1) := by
    rw [length_deepText]
    omega
  have whole := tokensFrom_deepText n (.inl rfl) [] 0 (3 * n)
  rw [List.append_nil, List.append_nil] at whole
  rw [tokens, String.toList_ofList, enough, whole]
  cases n <;> simp [tokensFrom]

/-! ### Brackets -/

/-- The tokens in front of the name, which open a bracket `n` times. -/
def deepFront : Nat → List Token
  | 0 => []
  | n + 1 => comprehensionHead ++ deepFront n

theorem deepFront_prefix (n : Nat) : deepFront n <+: deepTokens n := by
  induction n with
  | zero => exact List.nil_prefix
  | succ n ih =>
    obtain ⟨others, same⟩ := ih
    refine ⟨others ++ [.symbol .rightBracket], ?_⟩
    rw [deepFront, deepTokens, ← same]
    simp

theorem after_deepFront (n : Nat) (opened : List Opening) :
    (Brackets.after ⟨opened, .none⟩ (deepFront n)).depth = opened.length + n := by
  induction n generalizing opened with
  | zero => rfl
  | succ n ih =>
    have inner := ih (.loose :: opened)
    change (Brackets.after ⟨.loose :: opened, .none⟩ (deepFront n)).depth = _
    rw [inner, List.length_cons]
    omega

/-! ### Reading an atom -/

namespace Grammar

open ReadsFrom (bind_run)

/-- No operator follows: the tokens are at their end, or a bracket closes, or `for` comes next. -/
def Ends (tokens : List Token) : Prop :=
  tokens = [] ∨ (∃ rest, tokens = .symbol .rightBracket :: rest) ∨ ∃ rest, tokens = .keyword .forKw :: rest

/-- A name or an opening bracket comes first. -/
def Begins (tokens : List Token) : Prop :=
  (∃ n rest, tokens = .name n :: rest) ∨ ∃ rest, tokens = .symbol .leftBracket :: rest

section

variable {below : Below} {budget indent : Nat} {e : Expr} {tokens rest : List Token}

theorem trailers_ends (ends : Ends rest) :
    trailers below budget e ⟨rest, indent⟩ = .ok (e, ⟨rest, indent⟩) := by
  rcases ends with rfl | ⟨_, rfl⟩ | ⟨_, rfl⟩
  · cases budget <;> rfl
  · cases budget <;> rfl
  · cases budget <;> rfl

theorem leftChain_ends {join? : Token → Option (Expr → Expr → Expr)} {operand : Nat → Parse Expr}
    (none : rest.head?.bind join? = none) :
    leftChain join? operand budget e ⟨rest, indent⟩ = .ok (e, ⟨rest, indent⟩) := by
  cases budget with
  | zero =>
    refine (bind_run rfl).trans ?_
    dsimp only
    rw [none]
    rfl
  | succ budget =>
    refine (bind_run rfl).trans ?_
    dsimp only
    rw [none]
    rfl

theorem chain_ends {join? : Token → Option (Expr → Expr → Expr)} {operand : Nat → Parse Expr}
    (none : rest.head?.bind join? = none)
    (run : operand budget ⟨tokens, indent⟩ = .ok (e, ⟨rest, indent⟩)) :
    chain join? operand budget ⟨tokens, indent⟩ = .ok (e, ⟨rest, indent⟩) :=
  (bind_run run).trans (leftChain_ends none)

/-- The operators that chains are made of. -/
theorem noOperator (ends : Ends rest) :
    rest.head?.bind termOp? = none ∧ rest.head?.bind sumOp? = none ∧
      rest.head?.bind andOp? = none ∧ rest.head?.bind orOp? = none := by
  rcases ends with rfl | ⟨_, rfl⟩ | ⟨_, rfl⟩
  · exact ⟨rfl, rfl, rfl, rfl⟩
  · exact ⟨rfl, rfl, rfl, rfl⟩
  · exact ⟨rfl, rfl, rfl, rfl⟩

theorem comparisons_ends {operand : Nat → Parse Expr} (ends : Ends rest) :
    comparisons operand budget none e ⟨rest, indent⟩ = .ok (e, ⟨rest, indent⟩) := by
  rcases ends with rfl | ⟨_, rfl⟩ | ⟨_, rfl⟩
  · cases budget <;> rfl
  · cases budget <;> rfl
  · cases budget <;> rfl

theorem factor_of_atom (begins : Begins tokens) (ends : Ends rest)
    (run : atom below budget ⟨tokens, indent⟩ = .ok (e, ⟨rest, indent⟩)) :
    factor below budget ⟨tokens, indent⟩ = .ok (e, ⟨rest, indent⟩) := by
  have postfixedRun : postfixed below budget ⟨tokens, indent⟩ = .ok (e, ⟨rest, indent⟩) :=
    (bind_run run).trans (trailers_ends ends)
  have powerRun : power below budget ⟨tokens, indent⟩ = .ok (e, ⟨rest, indent⟩) := by
    refine (bind_run postfixedRun).trans ?_
    rcases ends with rfl | ⟨_, rfl⟩ | ⟨_, rfl⟩
    · rfl
    · rfl
    · rfl
  rcases begins with ⟨n, _, rfl⟩ | ⟨_, rfl⟩
  · exact powerRun
  · exact powerRun

/-- An atom that no operator follows is read at every level. -/
theorem disjunction_of_atom (begins : Begins tokens) (ends : Ends rest)
    (run : atom below budget ⟨tokens, indent⟩ = .ok (e, ⟨rest, indent⟩)) :
    disjunction below budget ⟨tokens, indent⟩ = .ok (e, ⟨rest, indent⟩) := by
  obtain ⟨noTerm, noSum, noAnd, noOr⟩ := noOperator ends
  have sumRun : sum below budget ⟨tokens, indent⟩ = .ok (e, ⟨rest, indent⟩) :=
    chain_ends noSum (chain_ends noTerm (factor_of_atom begins ends run))
  have comparisonRun : comparison below budget ⟨tokens, indent⟩ = .ok (e, ⟨rest, indent⟩) :=
    (bind_run sumRun).trans (comparisons_ends ends)
  have negationRun : negation below budget ⟨tokens, indent⟩ = .ok (e, ⟨rest, indent⟩) := by
    rcases begins with ⟨n, _, rfl⟩ | ⟨_, rfl⟩
    · exact comparisonRun
    · exact comparisonRun
  exact chain_ends noOr (chain_ends noAnd negationRun)

theorem conditional_of_atom (begins : Begins tokens) (ends : Ends rest)
    (run : atom below budget ⟨tokens, indent⟩ = .ok (e, ⟨rest, indent⟩)) :
    conditional below budget ⟨tokens, indent⟩ = .ok (e, ⟨rest, indent⟩) := by
  refine (bind_run (disjunction_of_atom begins ends run)).trans ?_
  rcases ends with rfl | ⟨_, rfl⟩ | ⟨_, rfl⟩
  · rfl
  · rfl
  · rfl

end

/-! ### Reading comprehensions -/

theorem begins_deepTokens (n : Nat) (rest : List Token) : Begins (deepTokens n ++ rest) := by
  cases n with
  | zero => exact .inl ⟨_, _, rfl⟩
  | succ n => exact .inr ⟨_, rfl⟩

/-- The element of the comprehensions. -/
theorem expression_name (fuel budget indent : Nat) (rest : List Token) :
    expressionWith (fuel + 1) .expression (budget + 1) ⟨.name "x" :: .keyword .forKw :: rest, indent⟩ =
      .ok (.name "x", ⟨.keyword .forKw :: rest, indent⟩) :=
  conditional_of_atom (.inl ⟨_, _, rfl⟩) (.inr (.inr ⟨_, rfl⟩)) rfl

theorem atom_deepTokens {n fuel : Nat} (enough : n < fuel) (budget indent : Nat) (rest : List Token) :
    atom (expressionWith fuel) (budget + 1) ⟨deepTokens n ++ rest, indent⟩ =
      .ok (deepTree n, ⟨rest, indent⟩) := by
  induction n generalizing fuel rest with
  | zero => rfl
  | succ n ih =>
    match fuel with
    | fuel + 2 =>
      have source : expressionWith (fuel + 2) .disjunction (budget + 1)
          ⟨deepTokens n ++ .symbol .rightBracket :: rest, indent⟩ =
            .ok (deepTree n, ⟨.symbol .rightBracket :: rest, indent⟩) :=
        disjunction_of_atom (begins_deepTokens n _) (.inr (.inl ⟨_, rfl⟩)) (ih (by omega) _)
      have tail : comprehensionTail (expressionWith (fuel + 2)) (budget + 1) (.name "x")
          ⟨.name "x" :: .keyword .inKw :: (deepTokens n ++ .symbol .rightBracket :: rest), indent⟩ =
            .ok (deepTree (n + 1), ⟨rest, indent⟩) := by
        refine (bind_run rfl).trans ?_
        refine (bind_run rfl).trans ?_
        exact (bind_run source).trans rfl
      have shape : deepTokens (n + 1) ++ rest = .symbol .leftBracket :: .name "x" :: .keyword .forKw ::
          .name "x" :: .keyword .inKw :: (deepTokens n ++ .symbol .rightBracket :: rest) := by
        simp [deepTokens, comprehensionHead]
      rw [shape]
      have element := expression_name (fuel + 1) budget indent
        (.name "x" :: .keyword .inKw :: (deepTokens n ++ .symbol .rightBracket :: rest))
      refine (bind_run rfl).trans ?_
      refine (bind_run rfl).trans ?_
      refine (bind_run rfl).trans ?_
      refine (bind_run element).trans ?_
      refine (bind_run rfl).trans ?_
      exact tail

theorem length_deepTokens (n : Nat) : (deepTokens n).length = 6 * n + 1 := by
  induction n with
  | zero => rfl
  | succ n ih =>
    have head : comprehensionHead.length = 5 := rfl
    rw [deepTokens, List.length_append, List.length_append, ih, head, List.length_singleton]
    omega

theorem expression_deepTokens (n budget indent : Nat) :
    expression (budget + 2) ⟨deepTokens n, indent⟩ = .ok (deepTree n, ⟨[], indent⟩) := by
  have enough : n < (deepTokens n).length := by
    rw [length_deepTokens]
    omega
  have begins := begins_deepTokens n []
  have run := atom_deepTokens enough budget indent []
  rw [List.append_nil] at begins run
  refine (bind_run rfl).trans ?_
  refine (bind_run rfl).trans ?_
  exact conditional_of_atom begins (.inl rfl) run

end Grammar

theorem height_deepTree (n : Nat) : n < (deepTree n).height := by
  induction n with
  | zero => exact Nat.zero_lt_one
  | succ n ih =>
    rw [deepTree, Expr.height_listComp]
    omega

/-- Programs are accepted in which any number of brackets is open at once, with trees as high. -/
theorem exists_nested (n : Nat) :
    ∃ source e found front, parse source = .ok [.expr e] ∧ n < e.height ∧
      tokens source = .ok found ∧ front <+: found ∧ (Brackets.none.after front).depth = n := by
  have starts : Grammar.startsExpression (deepTokens n).head? = true := by cases n <;> rfl
  have takes : Takes True (Grammar.expression maxNesting) (deepTokens n) (deepTree n) [] :=
    .of_run (Grammar.expression_deepTokens n 198)
  have program := (Grammar.program_of_takes starts takes).resolve_right fun ⟨small, _⟩ => small trivial
  refine ⟨String.ofList (deepText n), deepTree n, deepTokens n, deepFront n, ?_, height_deepTree n,
    tokens_deepText n, deepFront_prefix n, ?_⟩
  · apply bind_eq_ok.mpr ⟨deepTokens n, tokens_deepText n, ?_⟩
    exact bind_eq_ok.mpr ⟨_, program, rfl⟩
  · have depth := after_deepFront n []
    rwa [List.length_nil, Nat.zero_add] at depth

theorem nesting_exceeded :
    ∃ source e found front, parse source = .ok [.expr e] ∧ tokens source = .ok found ∧
      front <+: found ∧ maxNesting < (Brackets.none.after front).depth := by
  obtain ⟨source, e, found, front, accepted, -, split, isFront, depth⟩ := exists_nested 201
  exact ⟨source, e, found, front, accepted, split, isFront, by rw [depth]; decide⟩

end DocExamples.Script
