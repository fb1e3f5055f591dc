import DocExamples.Script.Program
/-!
Brackets in the tokens of a program, and a logic of readers over them: a reader takes tokens between
which brackets open and close, and reads what another reader reads.
-/
namespace DocExamples.Script

/-- How an open bracket counts. -/
inductive Opening where
  /-- It is one level of nesting. -/
  | counted
  /-- It is none: the parenthesis around parameters, and the bracket of a comprehension from its
  `for` on. -/
  | loose
  deriving DecidableEq, Repr

/-- What of `def` and a name the last tokens are. -/
inductive Header where
  | none
  | word
  | named
  deriving DecidableEq, Repr

/-- The brackets that are open, the innermost first. -/
structure Brackets where
  openings : List Opening
  header : Header
  deriving DecidableEq, Repr

namespace Brackets

def none : Brackets := ⟨[], .none⟩

/-- The brackets that are open after a token. -/
def take : Brackets → Token → Brackets
  | ⟨opened, header⟩, .symbol .leftParen =>
    ⟨(if header = .named then .loose else .counted) :: opened, .none⟩
  | ⟨opened, _⟩, .symbol .leftBracket | ⟨opened, _⟩, .symbol .leftBrace => ⟨.counted :: opened, .none⟩
  | ⟨opened, _⟩, .symbol .rightParen | ⟨opened, _⟩, .symbol .rightBracket
  | ⟨opened, _⟩, .symbol .rightBrace => ⟨opened.tail, .none⟩
  | ⟨_ :: outer, _⟩, .keyword .forKw => ⟨.loose :: outer, .none⟩
  | ⟨opened, _⟩, .keyword .defKw => ⟨opened, .word⟩
  | ⟨opened, .word⟩, .name _ => ⟨opened, .named⟩
  | ⟨opened, _⟩, _ => ⟨opened, .none⟩

/-- The brackets that are open after tokens. -/
def after (b : Brackets) (tokens : List Token) : Brackets := tokens.foldl take b

def depth (b : Brackets) : Nat := b.openings.length

def counted (b : Brackets) : Nat := b.openings.count .counted

def loose (b : Brackets) : Nat := b.openings.count .loose

theorem depth_eq (b : Brackets) : b.depth = b.counted + b.loose := by
  obtain ⟨opened, header⟩ := b
  change opened.length = opened.count .counted + opened.count .loose
  induction opened with
  | nil => rfl
  | cons opening rest ih => cases opening <;> simp [ih] <;> omega

/-- A token opens a bracket, closes the innermost one, makes that one loose, or does nothing. -/
theorem take_cases (b : Brackets) (token : Token) :
    (∃ opening, (b.take token).openings = opening :: b.openings) ∨
      (b.take token).openings = b.openings.tail ∨
      (∃ opening outer, b.openings = opening :: outer ∧
        (b.take token).openings = .loose :: outer) ∨
      (b.take token).openings = b.openings := by
  unfold take
  split <;> simp

theorem depth_take_le (b : Brackets) (token : Token) : (b.take token).depth ≤ b.depth + 1 := by
  unfold depth
  rcases b.take_cases token with ⟨_, opens⟩ | closes | ⟨_, _, before, loosens⟩ | same
  · rw [opens]
    exact Nat.le_refl _
  · rw [closes, List.length_tail]
    omega
  · rw [before, loosens, List.length_cons, List.length_cons]
    omega
  · rw [same]
    omega

theorem counted_take_le (b : Brackets) (token : Token) : (b.take token).counted ≤ b.counted + 1 := by
  unfold counted
  rcases b.take_cases token with ⟨opening, opens⟩ | closes | ⟨_, _, before, loosens⟩ | same
  · rw [opens, List.count_cons]
    split
    · exact Nat.le_refl _
    · exact Nat.le_succ _
  · rw [closes]
    exact Nat.le_succ_of_le ((List.tail_sublist _).count_le _)
  · rw [before, loosens, List.count_cons_of_ne (by decide)]
    exact Nat.le_succ_of_le List.count_le_count_cons
  · rw [same]
    exact Nat.le_succ _

theorem depth_after_le (b : Brackets) (tokens : List Token) :
    (b.after tokens).depth ≤ b.depth + tokens.length := by
  induction tokens generalizing b with
  | nil => exact Nat.le_refl _
  | cons token rest ih =>
    have later := ih (b.take token)
    have first := b.depth_take_le token
    change ((b.take token).after rest).depth ≤ _
    rw [List.length_cons]
    omega

/-- Tokens lead from open brackets to others, and never are more brackets counted than the limit. -/
inductive Passes : Brackets → List Token → Brackets → Prop where
  | nil {b : Brackets} : Passes b [] b
  | cons {b last : Brackets} {token : Token} {rest : List Token}
    (within : (b.take token).counted ≤ maxNesting) (later : Passes (b.take token) rest last) :
    Passes b (token :: rest) last

theorem Passes.append {b mid last : Brackets} {first second : List Token}
    (before : Passes b first mid) (later : Passes mid second last) :
    Passes b (first ++ second) last := by
  induction before with
  | nil => exact later
  | cons within _ ih => exact .cons within (ih later)

theorem Passes.after_eq {b last : Brackets} {tokens : List Token} (passes : Passes b tokens last) :
    b.after tokens = last := by
  induction passes with
  | nil => rfl
  | cons _ _ ih => exact ih

theorem Passes.counted_le {b last : Brackets} {tokens front : List Token}
    (passes : Passes b tokens last) (start : b.counted ≤ maxNesting) (isFront : front <+: tokens) :
    (b.after front).counted ≤ maxNesting := by
  induction passes generalizing front with
  | nil =>
    obtain rfl := List.prefix_nil.mp isFront
    exact start
  | cons within _ ih =>
    cases front with
    | nil => exact start
    | cons token front =>
      obtain ⟨rfl, isRest⟩ := List.cons_prefix_cons.mp isFront
      exact ih within isRest

/-- Nowhere in the tokens are more than `k` loose brackets open. -/
def LooseWithin (k : Nat) (b : Brackets) (tokens : List Token) : Prop :=
  ∀ front, front <+: tokens → (b.after front).loose ≤ k

theorem looseWithin_length (tokens : List Token) : none.LooseWithin tokens.length tokens := by
  intro front isFront
  have depth := none.depth_after_le front
  rw [depth_eq (none.after front)] at depth
  have start : none.depth = 0 := rfl
  have shorter := isFront.length_le
  omega

theorem LooseWithin.of_append {k : Nat} {b : Brackets} {first second : List Token}
    (within : LooseWithin k b (first ++ second)) : LooseWithin k (b.after first) second := by
  intro front isFront
  have bound := within (first ++ front) ((List.prefix_append_right_inj first).mpr isFront)
  rwa [after, List.foldl_append] at bound

theorem LooseWithin.loose_le {k : Nat} {b : Brackets} {tokens : List Token}
    (within : LooseWithin k b tokens) : b.loose ≤ k := within [] List.nil_prefix

end Brackets

open Brackets

/-- From the cursor on, where never more than `k` loose brackets are open, the second reader reads
what the first one reads, the tokens that are taken keep brackets within the limit, and the result
and the brackets then open meet the condition. -/
def ReadsFrom {α : Type} (k : Nat) (b : Brackets) (c : Cursor) (p q : Parse α)
    (post : α → Brackets → Prop) : Prop :=
  b.LooseWithin k c.tokens → ∀ a c', p c = .ok (a, c') →
    q c = .ok (a, c') ∧ ∃ taken last, c.tokens = taken ++ c'.tokens ∧ b.Passes taken last ∧ post a last

namespace ReadsFrom

variable {α β : Type} {k : Nat} {b : Brackets} {c : Cursor} {p q : Parse α}
  {post : α → Brackets → Prop}

theorem parse_bind_eq_ok {f : α → Parse β} {result : β × Cursor} :
    (p >>= f) c = .ok result ↔ ∃ a c', p c = .ok (a, c') ∧ f a c' = .ok result := by
  constructor
  · intro given
    change (p c).bind (fun found => f found.1 found.2) = .ok result at given
    cases run : p c with
    | ok found =>
      rw [run] at given
      exact ⟨found.1, found.2, rfl, given⟩
    | error e =>
      rw [run] at given
      cases given
  · rintro ⟨a, c', run, later⟩
    change (p c).bind (fun found => f found.1 found.2) = .ok result
    rw [run]
    exact later

theorem bind_run {f : α → Parse β} {a : α} {c' : Cursor} (run : p c = .ok (a, c')) :
    (p >>= f) c = f a c' := by
  change (p c).bind (fun found => f found.1 found.2) = _
  rw [run]
  rfl

theorem pure {a : α} (met : post a b) : ReadsFrom k b c (pure a) (pure a) post := by
  intro _ _ _ given
  cases given
  exact ⟨rfl, [], b, rfl, .nil, met⟩

theorem fail {e : SyntaxFault} : ReadsFrom k b c (Parse.fail e) q post :=
  fun _ _ _ given => nomatch given

theorem unexpected {what : String} : ReadsFrom k b c (Parse.unexpected what) q post :=
  fun _ _ _ given => nomatch given

/-- What is read first is known where the rest is read. -/
theorem bind_of_run {f g : α → Parse β} {mid : α → Brackets → Prop} {post : β → Brackets → Prop}
    (first : ReadsFrom k b c p q mid)
    (next : ∀ a c' last, p c = .ok (a, c') → mid a last → ReadsFrom k last c' (f a) (g a) post) :
    ReadsFrom k b c (p >>= f) (q >>= g) post := by
  intro within result c'' given
  obtain ⟨a, c', read, later⟩ := parse_bind_eq_ok.mp given
  obtain ⟨same, taken, last, tokens, passes, met⟩ := first within a c' read
  rw [tokens] at within
  have within := within.of_append
  rw [passes.after_eq] at within
  obtain ⟨sameLater, more, final, tokensLater, passesLater, metLater⟩ :=
    next a c' last read met within result c'' later
  refine ⟨parse_bind_eq_ok.mpr ⟨a, c', same, sameLater⟩, taken ++ more, final, ?_,
    passes.append passesLater, metLater⟩
  rw [tokens, tokensLater, List.append_assoc]

theorem bind {f g : α → Parse β} {mid : α → Brackets → Prop} {post : β → Brackets → Prop}
    (first : ReadsFrom k b c p q mid)
    (next : ∀ a c' last, mid a last → ReadsFrom k last c' (f a) (g a) post) :
    ReadsFrom k b c (p >>= f) (q >>= g) post :=
  first.bind_of_run fun a c' last _ met => next a c' last met

theorem weaken {mid : α → Brackets → Prop} (reads : ReadsFrom k b c p q mid)
    (implies : ∀ a last, mid a last → post a last) : ReadsFrom k b c p q post := by
  intro within a c' given
  obtain ⟨same, taken, last, tokens, passes, met⟩ := reads within a c' given
  exact ⟨same, taken, last, tokens, passes, implies a last met⟩

theorem of_loose_le (reads : b.loose ≤ k → ReadsFrom k b c p q post) : ReadsFrom k b c p q post :=
  fun within => reads within.loose_le within

/-! ### Steps -/

section

variable {f g : α → Parse β} {post : β → Brackets → Prop} {a : α}

/-- A reader that takes a token. -/
theorem of_take {token : Token} {rest : List Token} (shape : c.tokens = token :: rest)
    (run : p c = .ok (a, { c with tokens := rest }))
    (within : (b.take token).counted ≤ maxNesting)
    (next : ReadsFrom k (b.take token) { c with tokens := rest } (f a) (g a) post) :
    ReadsFrom k b c (p >>= f) (p >>= g) post := by
  have first : ReadsFrom k b c p p fun _ last => last = b.take token := by
    intro _ found c' given
    refine ⟨given, [token], _, ?_, .cons within .nil, rfl⟩
    rw [run] at given
    cases given
    exact shape
  apply first.bind_of_run
  intro found c' last read same
  rw [run] at read
  cases read
  rwa [same]

/-- A reader that takes no token. -/
theorem of_stay (run : p c = .ok (a, c)) (next : ReadsFrom k b c (f a) (g a) post) :
    ReadsFrom k b c (p >>= f) (p >>= g) post := by
  have first : ReadsFrom k b c p p fun _ last => last = b := by
    intro _ found c' given
    refine ⟨given, [], _, ?_, .nil, rfl⟩
    rw [run] at given
    cases given
    rfl
  apply first.bind_of_run
  intro found c' last read same
  rw [run] at read
  cases read
  rwa [same]

theorem of_error {e : SyntaxFault} {r : Parse β} (run : p c = .error e) :
    ReadsFrom k b c (p >>= f) r post := by
  intro _ _ _ given
  obtain ⟨_, _, read, -⟩ := parse_bind_eq_ok.mp given
  rw [run] at read
  cases read

theorem peek? {f g : Option Token → Parse β}
    (next : ReadsFrom k b c (f c.tokens.head?) (g c.tokens.head?) post) :
    ReadsFrom k b c (Parse.peek? >>= f) (Parse.peek? >>= g) post := of_stay rfl next

theorem skip {f g : Unit → Parse β} {token : Token} (found : c.tokens.head? = some token)
    (within : (b.take token).counted ≤ maxNesting)
    (next : ∀ c', ReadsFrom k (b.take token) c' (f ()) (g ()) post) :
    ReadsFrom k b c (Parse.skip >>= f) (Parse.skip >>= g) post := by
  obtain ⟨rest, shape⟩ := List.head?_eq_some_iff.mp found
  refine of_take shape ?_ within (next _)
  rw [Parse.skip, shape]
  rfl

/-- The token that is skipped is no bracket. -/
theorem skipPlain {f g : Unit → Parse β} {token : Token} (found : c.tokens.head? = some token)
    (plain : b.take token = b) (within : b.counted ≤ maxNesting)
    (next : ∀ c', ReadsFrom k b c' (f ()) (g ()) post) :
    ReadsFrom k b c (Parse.skip >>= f) (Parse.skip >>= g) post := by
  refine skip found ?_ fun c' => ?_
  · rwa [plain]
  · rw [plain]
    exact next c'

theorem left {f g : Nat → Parse β}
    (next : ReadsFrom k b c (f c.tokens.length) (g c.tokens.length) post) :
    ReadsFrom k b c (Parse.left >>= f) (Parse.left >>= g) post := of_stay rfl next

theorem eat_cases (s : Symbol) (c : Cursor) :
    (∃ rest, c.tokens = .symbol s :: rest ∧ Parse.eat s c = .ok (true, { c with tokens := rest })) ∨
      Parse.eat s c = .ok (false, c) := by
  unfold Parse.eat
  split
  · next t rest shape =>
    split
    · next same => exact .inl ⟨rest, same ▸ shape, rfl⟩
    · exact .inr rfl
  · exact .inr rfl

theorem eat {f g : Bool → Parse β} {s : Symbol}
    (within : (b.take (.symbol s)).counted ≤ maxNesting)
    (taken : ∀ c', ReadsFrom k (b.take (.symbol s)) c' (f true) (g true) post)
    (stay : ReadsFrom k b c (f false) (g false) post) :
    ReadsFrom k b c (Parse.eat s >>= f) (Parse.eat s >>= g) post := by
  rcases eat_cases s c with ⟨rest, shape, run⟩ | run
  · exact of_take shape run within (taken _)
  · exact of_stay run stay

/-- The reader goes on only where the symbol is not taken. -/
theorem eatNone {f g : Bool → Parse β} {s : Symbol}
    (refuses : ∀ c, ∃ e, f true c = .error e)
    (stay : ReadsFrom k b c (f false) (g false) post) :
    ReadsFrom k b c (Parse.eat s >>= f) (Parse.eat s >>= g) post := by
  rcases eat_cases s c with ⟨rest, shape, run⟩ | run
  · intro _ result c' given
    obtain ⟨found, c'', read, later⟩ := parse_bind_eq_ok.mp given
    rw [run] at read
    cases read
    obtain ⟨e, refused⟩ := refuses { c with tokens := rest }
    rw [refused] at later
    cases later
  · exact of_stay run stay

theorem eatWord_cases (w : Keyword) (c : Cursor) :
    (∃ rest, c.tokens = .keyword w :: rest ∧
      Parse.eatWord w c = .ok (true, { c with tokens := rest })) ∨
      Parse.eatWord w c = .ok (false, c) := by
  unfold Parse.eatWord
  split
  · next t rest shape =>
    split
    · next same => exact .inl ⟨rest, same ▸ shape, rfl⟩
    · exact .inr rfl
  · exact .inr rfl

theorem eatWord {f g : Bool → Parse β} {w : Keyword}
    (within : (b.take (.keyword w)).counted ≤ maxNesting)
    (taken : ∀ c', ReadsFrom k (b.take (.keyword w)) c' (f true) (g true) post)
    (stay : ReadsFrom k b c (f false) (g false) post) :
    ReadsFrom k b c (Parse.eatWord w >>= f) (Parse.eatWord w >>= g) post := by
  rcases eatWord_cases w c with ⟨rest, shape, run⟩ | run
  · exact of_take shape run within (taken _)
  · exact of_stay run stay

theorem consume {f g : Unit → Parse β} {s : Symbol} {what : String}
    (within : (b.take (.symbol s)).counted ≤ maxNesting)
    (next : ∀ c', ReadsFrom k (b.take (.symbol s)) c' (f ()) (g ()) post) :
    ReadsFrom k b c (Parse.consume s what >>= f) (Parse.consume s what >>= g) post := by
  rcases eat_cases s c with ⟨rest, shape, run⟩ | run
  · exact of_take shape (parse_bind_eq_ok.mpr ⟨true, _, run, rfl⟩) within (next _)
  · apply of_error (e := .expected what c.tokens.head?)
    change (Parse.eat s c).bind _ = _
    rw [run]
    rfl

theorem consumeWord {f g : Unit → Parse β} {w : Keyword} {what : String}
    (within : (b.take (.keyword w)).counted ≤ maxNesting)
    (next : ∀ c', ReadsFrom k (b.take (.keyword w)) c' (f ()) (g ()) post) :
    ReadsFrom k b c (Parse.consumeWord w what >>= f) (Parse.consumeWord w what >>= g) post := by
  rcases eatWord_cases w c with ⟨rest, shape, run⟩ | run
  · exact of_take shape (parse_bind_eq_ok.mpr ⟨true, _, run, rfl⟩) within (next _)
  · apply of_error (e := .expected what c.tokens.head?)
    change (Parse.eatWord w c).bind _ = _
    rw [run]
    rfl

theorem name {f g : String → Parse β} {what : String}
    (within : ∀ n, (b.take (.name n)).counted ≤ maxNesting)
    (next : ∀ n c', ReadsFrom k (b.take (.name n)) c' (f n) (g n) post) :
    ReadsFrom k b c (Parse.name what >>= f) (Parse.name what >>= g) post := by
  obtain ⟨tokens, indent⟩ := c
  match tokens with
  | .name n :: rest => exact of_take rfl rfl (within n) (next n _)
  | [] | .newline _ :: _ | .keyword _ :: _ | .symbol _ :: _ | .int _ :: _ | .float _ :: _
  | .str _ :: _ => exact of_error rfl

theorem isNext_cases (s : Symbol) (c : Cursor) : ∃ found, Parse.isNext s c = .ok (found, c) := by
  unfold Parse.isNext
  split
  · exact ⟨_, rfl⟩
  · exact ⟨_, rfl⟩

theorem isNext {f g : Bool → Parse β} {s : Symbol}
    (next : ∀ found, ReadsFrom k b c (f found) (g found) post) :
    ReadsFrom k b c (Parse.isNext s >>= f) (Parse.isNext s >>= g) post := by
  obtain ⟨found, run⟩ := isNext_cases s c
  exact of_stay run (next found)

theorem get {f g : Cursor → Parse β} (next : ReadsFrom k b c (f c) (g c) post) :
    ReadsFrom k b c (MonadState.get >>= f) (MonadState.get >>= g) post := of_stay rfl next

theorem atLineEnd {f g : Bool → Parse β} (next : ∀ found, ReadsFrom k b c (f found) (g found) post) :
    ReadsFrom k b c (Parse.atLineEnd >>= f) (Parse.atLineEnd >>= g) post := by
  have run : ∃ found, Parse.atLineEnd c = .ok (found, c) := by
    unfold Parse.atLineEnd
    split
    · exact ⟨_, rfl⟩
    · exact ⟨_, rfl⟩
    · exact ⟨_, rfl⟩
  obtain ⟨found, run⟩ := run
  exact of_stay run (next found)

end

end ReadsFrom

end DocExamples.Script
