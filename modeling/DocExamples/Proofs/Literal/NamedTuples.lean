import DocExamples.Proofs.Literal.DepthLimit
/-!
Reading named tuples adds readings and changes none. A named tuple is a call with keywords that is
no array. A text that is a printed array only if named tuples are not read has no such call; so
the strict reading, which refuses the text then, refuses it also with named tuples. The proof runs
the two readers side by side: what both read has keywords in the calls of arrays only, and what only
one of them reads begins with tokens that have a keyword elsewhere.
-/
namespace DocExamples.Literal

/-! ### Keywords in brackets -/

/-- The names of the calls that are arrays. -/
def isArrayName (name : List Char) : Bool :=
  ["array", "masked_array"].contains (String.ofList (lastSegment name))

/-- Whether the last token is the name of an array, and the open brackets, innermost first, each
with whether it belongs to the call of an array. -/
abbrev Brackets := Bool × List Bool

/-- The brackets after one more token. There are none after a keyword outside of an array's call. -/
def keywordStep : Brackets → Token → Option Brackets
  | (callee, opened), .leftParen => some (false, callee :: opened)
  | (_, opened), .leftBracket | (_, opened), .leftBrace => some (false, false :: opened)
  | (_, opened), .rightParen | (_, opened), .rightBracket | (_, opened), .rightBrace =>
    some (false, opened.tail)
  | (_, opened), .name chars => some (isArrayName chars, opened)
  | (_, opened), .equals => if opened.head? = some true then some (false, opened) else none
  | (_, opened), _ => some (false, opened)

def keywords (brackets : Brackets) (tokens : List Token) : Option Brackets :=
  tokens.foldlM keywordStep brackets

/-- Wherever the tokens stand, all of their keywords are in calls of arrays, and they change the
open brackets in this way. -/
def Keeps (effect : List Bool → List Bool) (tokens : List Token) : Prop :=
  ∀ callee opened, ∃ after, keywords (callee, opened) tokens = some (after, effect opened)

/-- Wherever the tokens stand, one of their keywords is not in the call of an array. -/
def Strays (tokens : List Token) : Prop := ∀ brackets, keywords brackets tokens = none

theorem keywords_append (brackets : Brackets) (first second : List Token) :
    keywords brackets (first ++ second) =
      (keywords brackets first).bind fun after => keywords after second := List.foldlM_append

theorem keywords_cons (brackets : Brackets) (token : Token) (tokens : List Token) :
    keywords brackets (token :: tokens) =
      (keywordStep brackets token).bind fun after => keywords after tokens := List.foldlM_cons

section

variable {effect : List Bool → List Bool} {first second tokens : List Token} {token : Token}

theorem Keeps.nil : Keeps id [] := fun callee _ => ⟨callee, rfl⟩

theorem Keeps.append (balanced : Keeps id first) (keeps : Keeps effect second) :
    Keeps effect (first ++ second) := by
  intro callee opened
  obtain ⟨after, run⟩ := balanced callee opened
  obtain ⟨later, runLater⟩ := keeps after opened
  refine ⟨later, ?_⟩
  rw [keywords_append, run]
  exact runLater

theorem Keeps.single
    (step : ∀ callee opened, ∃ after, keywordStep (callee, opened) token = some (after, effect opened)) :
    Keeps effect [token] := by
  intro callee opened
  obtain ⟨after, run⟩ := step callee opened
  refine ⟨after, ?_⟩
  rw [keywords_cons, run]
  rfl

/-- Tokens that close a bracket, behind the one that opens it. -/
theorem Keeps.wrap {bracket : Token} (isOpening : bracket.bracket? = some .opening)
    (closes : Keeps List.tail tokens) : Keeps id (bracket :: tokens) := by
  intro callee opened
  have opens : ∃ own, keywordStep (callee, opened) bracket = some (false, own :: opened) := by
    cases bracket <;> first | exact ⟨_, rfl⟩ | cases isOpening
  obtain ⟨own, opens⟩ := opens
  obtain ⟨after, run⟩ := closes false (own :: opened)
  refine ⟨after, ?_⟩
  rw [keywords_cons, opens]
  exact run

theorem Keeps.close {bracket : Token} (isClosing : bracket.bracket? = some .closing) :
    Keeps List.tail [bracket] := by
  refine .single fun callee opened => ?_
  cases bracket <;> first | exact ⟨_, rfl⟩ | cases isClosing

theorem Strays.prepend (strays : Strays second) (first : List Token) : Strays (first ++ second) := by
  intro brackets
  rw [keywords_append]
  cases keywords brackets first with
  | none => rfl
  | some after => exact strays after

theorem Strays.append (strays : Strays first) (second : List Token) : Strays (first ++ second) := by
  intro brackets
  rw [keywords_append, strays brackets]
  rfl

theorem Keeps.not_strays (keeps : Keeps effect tokens) : ¬Strays tokens := by
  intro strays
  obtain ⟨after, run⟩ := keeps false []
  rw [strays] at run
  cases run

end

/-! ### Two readers side by side -/

/-- The second reader reads what the first does. What both read is as `kept` says, together with
the tokens `before` that were taken already; where the second reads alone, a keyword strays. -/
structure ExtendsFrom {α : Type} (kept : α → List Token → Prop) (before tokens : List Token)
    (p q : Reader α) : Prop where
  more : ∀ r, p tokens = some r → q tokens = some r
  same : ∀ a rest, q tokens = some (a, rest) →
    (∃ taken, tokens = taken ++ rest ∧ p tokens = some (a, rest) ∧ kept a (before ++ taken)) ∨
      p tokens = none ∧ ∃ front, front <+: tokens ∧ Strays (before ++ front)

/-- The second reader extends the first on all tokens. -/
abbrev Extends {α : Type} (kept : α → List Token → Prop) (p q : Reader α) : Prop :=
  ∀ tokens, ExtendsFrom kept [] tokens p q

namespace ExtendsFrom

variable {α β : Type} {kept : β → List Token → Prop} {before tokens : List Token}

theorem pure {b : β} (met : kept b before) :
    ExtendsFrom kept before tokens (pure b) (pure b) where
  more _ given := given
  same a rest given := by
    cases given
    exact .inl ⟨[], rfl, rfl, by rwa [List.append_nil]⟩

/-- Both readers refuse the tokens. -/
theorem refuse {p q : Reader β} (first : p tokens = none) (second : q tokens = none) :
    ExtendsFrom kept before tokens p q where
  more _ given := by
    rw [first] at given
    cases given
  same _ _ given := by
    rw [second] at given
    cases given

theorem fail : ExtendsFrom kept before tokens (Reader.fail : Reader β) Reader.fail := refuse rfl rfl

/-- Behind a stray keyword the second reader may read what it likes. -/
theorem alone {q : Reader β} (strays : Strays before) :
    ExtendsFrom kept before tokens Reader.fail q where
  more _ given := by cases given
  same _ _ _ := .inr ⟨rfl, [], List.nil_prefix, by rwa [List.append_nil]⟩

theorem bind {first : α → List Token → Prop} {p q : Reader α} {f g : α → Reader β}
    (here : ExtendsFrom first [] tokens p q)
    (next : ∀ a taken, first a taken → ∀ rest,
      ExtendsFrom kept (before ++ taken) rest (f a) (g a)) :
    ExtendsFrom kept before tokens (p >>= f) (q >>= g) where
  more r given := by
    obtain ⟨⟨a, mid⟩, read, later⟩ := Option.bind_eq_some_iff.mp given
    have read' := here.more _ read
    rcases here.same a mid read' with ⟨taken, -, -, met⟩ | ⟨none, -⟩
    · exact Option.bind_eq_some_iff.mpr ⟨_, read', (next a taken met mid).more r later⟩
    · rw [none] at read
      cases read
  same b rest given := by
    obtain ⟨⟨a, mid⟩, read, later⟩ := Option.bind_eq_some_iff.mp given
    rcases here.same a mid read with ⟨taken, rfl, read', met⟩ | ⟨none, front, isFront, strays⟩
    · have run : (p >>= f) (taken ++ mid) = f a mid := congrArg (Option.bind · _) read'
      rw [run]
      rcases (next a taken met mid).same b rest later with
        ⟨more, rfl, later', metLater⟩ | ⟨none, front, isFront, strays⟩
      · refine .inl ⟨taken ++ more, (List.append_assoc ..).symm, later', ?_⟩
        rwa [List.append_assoc] at metLater
      · refine .inr ⟨none, taken ++ front, (List.prefix_append_right_inj taken).mpr isFront, ?_⟩
        rwa [List.append_assoc] at strays
    · refine .inr ⟨congrArg (Option.bind · _) none, front, isFront, ?_⟩
      exact strays.prepend before

theorem lift {first : β → List Token → Prop} {p q : Reader β}
    (here : ExtendsFrom first [] tokens p q)
    (implies : ∀ b taken, first b taken → kept b (before ++ taken)) :
    ExtendsFrom kept before tokens p q where
  more := here.more
  same b rest given := by
    rcases here.same b rest given with ⟨taken, whole, read, met⟩ | ⟨none, front, isFront, strays⟩
    · exact .inl ⟨taken, whole, read, implies b taken met⟩
    · exact .inr ⟨none, front, isFront, strays.prepend before⟩

theorem map {first : α → List Token → Prop} {p q : Reader α} {f : α → β}
    (here : ExtendsFrom first [] tokens p q)
    (implies : ∀ a taken, first a taken → kept (f a) (before ++ taken)) :
    ExtendsFrom kept before tokens (do return f (← p)) (do return f (← q)) :=
  .bind here fun a taken met _ => .pure (implies a taken met)

/-- A step that leaves the tokens as they are. -/
theorem stay {p : Reader α} {f g : α → Reader β} {a : α} (run : p tokens = some (a, tokens))
    (next : ExtendsFrom kept before tokens (f a) (g a)) :
    ExtendsFrom kept before tokens (p >>= f) (p >>= g) := by
  have read (h : α → Reader β) : (p >>= h) tokens = h a tokens := congrArg (Option.bind · _) run
  constructor
  · rw [read, read]
    exact next.more
  · rw [read, read]
    exact next.same

theorem get {f g : List Token → Reader β}
    (next : ExtendsFrom kept before tokens (f tokens) (g tokens)) :
    ExtendsFrom kept before tokens (MonadState.get >>= f) (MonadState.get >>= g) := stay rfl next

theorem left {f g : Nat → Reader β}
    (next : ExtendsFrom kept before tokens (f tokens.length) (g tokens.length)) :
    ExtendsFrom kept before tokens (Reader.left >>= f) (Reader.left >>= g) := stay rfl next

/-- Tokens that are taken, whatever takes them. -/
theorem take (taken : List Token) {rest : List Token} {p q p' q' : Reader β}
    (first : p (taken ++ rest) = p' rest) (second : q (taken ++ rest) = q' rest)
    (next : ExtendsFrom kept (before ++ taken) rest p' q') :
    ExtendsFrom kept before (taken ++ rest) p q := by
  constructor
  · rw [first, second]
    exact next.more
  · rw [first, second]
    intro b after given
    rcases next.same b after given with ⟨more, rfl, read, met⟩ | ⟨none, front, isFront, strays⟩
    · refine .inl ⟨taken ++ more, (List.append_assoc ..).symm, read, ?_⟩
      rwa [List.append_assoc] at met
    · refine .inr ⟨none, taken ++ front, (List.prefix_append_right_inj taken).mpr isFront, ?_⟩
      rwa [List.append_assoc] at strays

theorem setOne {token : Token} {rest : List Token} {f g : PUnit → Reader β}
    (next : ExtendsFrom kept (before ++ [token]) rest (f .unit) (g .unit)) :
    ExtendsFrom kept before (token :: rest) (MonadStateOf.set rest >>= f)
      (MonadStateOf.set rest >>= g) := take [token] rfl rfl next

theorem setTwo {first second : Token} {rest : List Token} {f g : PUnit → Reader β}
    (next : ExtendsFrom kept (before ++ [first, second]) rest (f .unit) (g .unit)) :
    ExtendsFrom kept before (first :: second :: rest) (MonadStateOf.set rest >>= f)
      (MonadStateOf.set rest >>= g) := take [first, second] rfl rfl next

theorem eat {token : Token} {f g : Bool → Reader β}
    (taken : ∀ rest, ExtendsFrom kept (before ++ [token]) rest (f true) (g true))
    (other : ExtendsFrom kept before tokens (f false) (g false)) :
    ExtendsFrom kept before tokens (Reader.eat token >>= f) (Reader.eat token >>= g) := by
  cases tokens with
  | nil => exact stay rfl other
  | cons first rest =>
    by_cases same : first = token
    · subst same
      have run : Reader.eat first (first :: rest) = some (true, rest) := if_pos rfl
      have read (h : Bool → Reader β) : (Reader.eat first >>= h) ([first] ++ rest) = h true rest :=
        congrArg (Option.bind · _) run
      exact take [first] (read f) (read g) (taken rest)
    · exact stay (if_neg same) other

theorem consume {token : Token} {f g : Unit → Reader β}
    (next : ∀ rest, ExtendsFrom kept (before ++ [token]) rest (f ()) (g ())) :
    ExtendsFrom kept before tokens (Reader.consume token >>= f) (Reader.consume token >>= g) := by
  rw [Reader.consume, bind_assoc, bind_assoc]
  refine eat (fun rest => stay (a := ()) rfl (next rest)) ?_
  exact refuse rfl rfl

/-- A computation without tokens. -/
theorem liftOption {found : Option α} {f g : α → Reader β}
    (next : ∀ a, ExtendsFrom kept before tokens (f a) (g a)) :
    ExtendsFrom kept before tokens ((liftM found : Reader α) >>= f)
      ((liftM found : Reader α) >>= g) := by
  cases found with
  | none => exact refuse rfl rfl
  | some a => exact stay rfl (next a)

end ExtendsFrom

/-- Reads tokens with balanced brackets and keywords in the calls of arrays. -/
abbrev ExtendsItem {α : Type} (p q : Reader α) : Prop := Extends (fun _ => Keeps id) p q

/-- Reads so up to a bracket that closes one from before. -/
abbrev ExtendsClosing {α : Type} (p q : Reader α) : Prop := Extends (fun _ => Keeps List.tail) p q

variable {value value' row row' : Reader Literal}

/-- A token that is neither bracket nor keyword. -/
theorem keeps_plain {token : Token} (plain : token.bracket? = none) (other : token ≠ .equals) :
    Keeps id [token] := by
  refine .single fun callee opened => ?_
  cases token <;> first | exact ⟨_, rfl⟩ | exact absurd rfl other | cases plain

theorem extends_unsigned (negative : Bool) :
    ExtendsItem (unsigned negative) (unsigned negative) := by
  intro tokens
  refine .get ?_
  split
  · exact .setOne (.pure (keeps_plain rfl (by simp)))
  · exact .setOne (.liftOption fun _ => .pure (keeps_plain rfl (by simp)))
  · next chars rest =>
    refine .setOne ?_
    rw [← bind_pure (liftM (constant negative chars) : Reader Literal)]
    exact .liftOption fun _ => .pure (keeps_plain rfl (by simp))
  · exact .fail

theorem extends_scalar : ExtendsItem scalar scalar := by
  intro tokens
  rw [scalar_eq]
  refine .eat (fun rest => ?_) ?_
  · exact .lift (extends_unsigned true rest) fun _ _ keeps =>
      (keeps_plain rfl (by simp)).append keeps
  · refine .eat (fun rest => ?_) ?_
    · exact .lift (extends_unsigned false rest) fun _ _ keeps =>
        (keeps_plain rfl (by simp)).append keeps
    · exact extends_unsigned false tokens

theorem extends_sequenceLoop (inner : ExtendsItem value value') {close : Token}
    (closes : close.bracket? = some .closing) (fuel : Nat) :
    ExtendsClosing (sequenceLoop value close fuel) (sequenceLoop value' close fuel) := by
  induction fuel with
  | zero => exact fun _ => .fail
  | succ fuel ih =>
    intro tokens
    rw [sequenceLoop, sequenceLoop]
    refine .eat (fun rest => ?_) ?_
    · rw [if_pos rfl, if_pos rfl]
      exact .pure (.close closes)
    · rw [if_neg Bool.false_ne_true, if_neg Bool.false_ne_true]
      refine .bind (inner tokens) fun item taken keeps rest => ?_
      refine .eat (fun rest => ?_) ?_
      · rw [if_pos rfl, if_pos rfl]
        refine .map (ih rest) fun items more later => ?_
        rw [List.append_assoc]
        exact keeps.append ((keeps_plain rfl (by simp)).append later)
      · rw [if_neg Bool.false_ne_true, if_neg Bool.false_ne_true]
        exact .consume fun _ => .pure (keeps.append (.close closes))

theorem extends_sequence (inner : ExtendsItem value value') {close : Token}
    (closes : close.bracket? = some .closing) :
    ExtendsClosing (sequence value close) (sequence value' close) :=
  fun tokens => .left (extends_sequenceLoop inner closes _ tokens)

theorem extends_parenthesized (inner : ExtendsItem value value') :
    ExtendsClosing (parenthesized value) (parenthesized value') := by
  intro tokens
  unfold parenthesized
  refine .eat (fun rest => ?_) ?_
  · rw [if_pos rfl, if_pos rfl]
    exact .pure (.close rfl)
  · rw [if_neg Bool.false_ne_true, if_neg Bool.false_ne_true]
    refine .bind (inner tokens) fun first taken keeps rest => ?_
    refine .eat (fun rest => ?_) ?_
    · rw [if_pos rfl, if_pos rfl]
      exact .pure (keeps.append (.close rfl))
    · rw [if_neg Bool.false_ne_true, if_neg Bool.false_ne_true]
      refine .consume fun rest => .map (extends_sequence inner rfl rest) fun items more later => ?_
      rw [List.append_assoc]
      exact keeps.append ((keeps_plain rfl (by simp)).append later)

theorem extends_dictLoop (inner : ExtendsItem value value') (fuel : Nat) :
    ExtendsClosing (dictLoop value fuel) (dictLoop value' fuel) := by
  induction fuel with
  | zero => exact fun _ => .fail
  | succ fuel ih =>
    intro tokens
    rw [dictLoop, dictLoop]
    refine .eat (fun rest => ?_) ?_
    · rw [if_pos rfl, if_pos rfl]
      exact .pure (.close rfl)
    · rw [if_neg Bool.false_ne_true, if_neg Bool.false_ne_true]
      refine .bind (inner tokens) fun key taken keeps rest => .consume fun rest => ?_
      refine .bind (inner rest) fun item more keepsMore rest => ?_
      have both : Keeps id ([] ++ taken ++ [.colon] ++ more) :=
        (keeps.append (keeps_plain rfl (by simp))).append keepsMore
      refine .eat (fun rest => ?_) ?_
      · rw [if_pos rfl, if_pos rfl]
        refine .map (ih rest) fun entries last later => ?_
        rw [List.append_assoc]
        exact both.append ((keeps_plain rfl (by simp)).append later)
      · rw [if_neg Bool.false_ne_true, if_neg Bool.false_ne_true]
        exact .consume fun _ => .pure (both.append (.close rfl))

theorem extends_keywordValue (inner : ExtendsItem value value') :
    ExtendsItem (keywordValue value) (keywordValue value') := by
  intro tokens
  refine .get ?_
  split
  · next chars rest =>
    split
    · exact .setOne (.pure (keeps_plain rfl (by simp)))
    · exact inner _
  · exact inner _

/-- The tokens of arguments, up to the closing bracket, that add to the keyword arguments read so
far. Keywords stray in them unless the call is that of an array. -/
structure KeepsArguments (acc args : List (List Char × Literal)) (taken : List Token) : Prop where
  grows : acc ≠ [] → args ≠ []
  keeps : ∀ callee own opened, own = true ∨ args = [] →
    ∃ after, keywords (callee, own :: opened) taken = some (after, opened)
  strays : acc = [] → args ≠ [] → ∀ callee opened, keywords (callee, false :: opened) taken = none

namespace KeepsArguments

variable {acc args : List (List Char × Literal)} {taken more : List Token}

theorem close (args : List (List Char × Literal)) : KeepsArguments args args [.rightParen] where
  grows some := some
  keeps _ _ _ _ := ⟨false, rfl⟩
  strays none some := absurd none some

/-- A positional argument or a comma before the others. -/
theorem prepend (balanced : Keeps id taken) (later : KeepsArguments acc args more) :
    KeepsArguments acc args (taken ++ more) where
  grows := later.grows
  keeps callee own opened allowed := by
    obtain ⟨between, run⟩ := balanced callee (own :: opened)
    obtain ⟨after, runLater⟩ := later.keeps between own opened allowed
    refine ⟨after, ?_⟩
    rw [keywords_append, run]
    exact runLater
  strays none some callee opened := by
    obtain ⟨between, run⟩ := balanced callee (false :: opened)
    rw [keywords_append, run]
    exact later.strays none some between opened

theorem keyword {key : List Char} {item : Literal} (balanced : Keeps id taken)
    (later : KeepsArguments (acc ++ [(key, item)]) args more) :
    KeepsArguments acc args (.name key :: .equals :: (taken ++ more)) where
  grows _ := later.grows (by simp)
  keeps callee own opened allowed := by
    have isArray : own = true := allowed.resolve_right (later.grows (by simp))
    subst isArray
    obtain ⟨between, run⟩ := balanced false (true :: opened)
    obtain ⟨after, runLater⟩ := later.keeps between true opened (.inl rfl)
    refine ⟨after, ?_⟩
    have named : keywordStep (callee, true :: opened) (.name key) =
        some (isArrayName key, true :: opened) := rfl
    have equals : keywordStep (isArrayName key, true :: opened) .equals =
        some (false, true :: opened) := rfl
    rw [keywords_cons, named, Option.bind_some, keywords_cons, equals, Option.bind_some,
      keywords_append, run]
    exact runLater
  strays _ _ _ _ := rfl

end KeepsArguments

theorem extends_argumentsLoop (inner : ExtendsItem value value') (acc : Arguments) (fuel : Nat) :
    Extends (fun args => KeepsArguments acc.keyword args.keyword) (argumentsLoop value acc fuel)
      (argumentsLoop value' acc fuel) := by
  induction fuel generalizing acc with
  | zero => exact fun _ => .fail
  | succ fuel ih =>
    have onward (grown : Arguments) {taken : List Token}
        (first : ∀ args more, KeepsArguments grown.keyword args more →
          KeepsArguments acc.keyword args (taken ++ more)) :
        ∀ tokens, ExtendsFrom (fun args => KeepsArguments acc.keyword args.keyword) taken tokens
          (do
            if ← Reader.eat .comma then argumentsLoop value grown fuel
            else
              Reader.consume .rightParen
              return grown)
          (do
            if ← Reader.eat .comma then argumentsLoop value' grown fuel
            else
              Reader.consume .rightParen
              return grown) := by
      intro tokens
      refine .eat (fun rest => ?_) ?_
      · rw [if_pos rfl, if_pos rfl]
        refine .lift (ih grown rest) fun args more later => ?_
        rw [List.append_assoc]
        exact first _ _ (.prepend (keeps_plain rfl (by simp)) later)
      · rw [if_neg Bool.false_ne_true, if_neg Bool.false_ne_true]
        exact .consume fun _ => .pure (first _ _ (.close grown.keyword))
    intro tokens
    rw [argumentsLoop, argumentsLoop]
    refine .eat (fun rest => ?_) ?_
    · rw [if_pos rfl, if_pos rfl]
      exact .pure (.close acc.keyword)
    · rw [if_neg Bool.false_ne_true, if_neg Bool.false_ne_true]
      refine .get ?_
      dsimp only
      split
      · next key rest =>
        refine .setTwo (.bind (extends_keywordValue inner rest) fun item taken balanced => ?_)
        exact onward _ fun args more later => .keyword balanced later
      · split
        · exact .refuse rfl rfl
        · refine .bind (inner _) fun item taken balanced => ?_
          exact onward _ fun args more later => .prepend balanced later

/-! ### Calls -/

theorem KeepsArguments.call {args : List (List Char × Literal)} {taken : List Token}
    (inside : KeepsArguments [] args taken) {name : List Char}
    (allowed : isArrayName name = true ∨ args = []) :
    Keeps id (.name name :: .leftParen :: taken) :=
  fun _ opened => inside.keeps false (isArrayName name) opened allowed

theorem KeepsArguments.call_strays {args : List (List Char × Literal)} {taken : List Token}
    (inside : KeepsArguments [] args taken) {name : List Char} (other : isArrayName name = false)
    (some : args ≠ []) : Strays (.name name :: .leftParen :: taken) := by
  intro ⟨callee, opened⟩
  have opens : keywords (callee, opened) (.name name :: .leftParen :: taken) =
      keywords (false, isArrayName name :: opened) taken := rfl
  rw [opens, other]
  exact inside.strays rfl some false opened

/-- Only calls with keywords that are no arrays differ, and without named tuples they are refused. -/
theorem callValue_cases (name : List Char) (args : Arguments) :
    callValue true name args = callValue false name args ∧
        (isArrayName name = true ∨ args.keyword = []) ∨
      callValue false name args = none ∧ isArrayName name = false ∧ args.keyword ≠ [] := by
  unfold callValue isArrayName
  split
  · next isArray => exact .inl ⟨rfl, .inl (by rw [isArray]; rfl)⟩
  · next isArray => exact .inl ⟨rfl, .inl (by rw [isArray]; rfl)⟩
  · next notArray notMasked =>
    have other : ["array", "masked_array"].contains (String.ofList (lastSegment name)) = false := by
      simpa using ⟨notArray, notMasked⟩
    cases args.keyword with
    | nil =>
      refine .inl ⟨?_, .inr rfl⟩
      split
      · next some => cases some
      · rfl
      · rfl
    | cons first rest =>
      refine .inr ⟨?_, other, List.cons_ne_nil first rest⟩
      split
      · rfl
      · next alone => cases alone
      · rfl

theorem extends_item (inner : ExtendsItem value value') :
    ExtendsItem (item false value) (item true value') := by
  intro tokens
  unfold item
  refine .get ?_
  split
  · next rest =>
    exact .setOne (.map (extends_sequence inner rfl rest) fun items taken closes => .wrap rfl closes)
  · next rest =>
    exact .setOne (.lift (extends_parenthesized inner rest) fun items taken closes =>
      .wrap rfl closes)
  · next rest =>
    exact .setOne (.map (extends_dictLoop inner _ rest) fun items taken closes => .wrap rfl closes)
  · exact .setOne (.pure (keeps_plain rfl (by simp)))
  · exact .setOne (.pure (keeps_plain rfl (by simp)))
  · exact .setOne (.pure (keeps_plain rfl (by simp)))
  · next name rest =>
    refine .setTwo (.bind (extends_argumentsLoop inner .none _ rest) ?_)
    intro args taken inside rest
    rcases callValue_cases name args with ⟨same, allowed⟩ | ⟨refused, other, some⟩
    · rw [same]
      cases callValue false name args with
      | none => exact .fail
      | some l => exact .pure (inside.call allowed)
    · rw [refused]
      exact .alone (inside.call_strays other some)
  · exact extends_scalar _

theorem extends_value (depth : Nat) :
    ExtendsItem (Literal.value false depth) (Literal.value true depth) := by
  induction depth with
  | zero => exact fun _ => .fail
  | succ depth ih => exact extends_item ih

/-! ### Documents and printed arrays -/

theorem extends_documentLoop (inner : ExtendsItem value value') (fuel : Nat) :
    ExtendsItem (documentLoop value fuel) (documentLoop value' fuel) := by
  induction fuel with
  | zero => exact fun _ => .fail
  | succ fuel ih =>
    intro tokens
    rw [documentLoop, documentLoop]
    have comma : Keeps id ([] ++ [.comma]) := keeps_plain rfl (by simp)
    refine .eat (fun rest => ?_) ?_
    · rw [if_pos rfl, if_pos rfl]
      refine .get ?_
      split
      · exact .pure comma
      · refine .bind (inner rest) fun item taken balanced rest => ?_
        exact .map (ih rest) fun items more later => (comma.append balanced).append later
    · rw [if_neg Bool.false_ne_true, if_neg Bool.false_ne_true]
      exact .pure .nil

theorem extends_document : ExtendsItem (document false) (document true) := by
  intro tokens
  refine .bind (extends_value maxDepth tokens) fun first taken balanced rest => .get ?_
  split
  · exact .pure balanced
  · exact .left (.map (extends_documentLoop (extends_value maxDepth) _ rest) fun items more later =>
      balanced.append later)

theorem extends_printedLoop (inner : ExtendsItem value value') (rows : ExtendsItem row row')
    (fuel : Nat) : ExtendsClosing (printedLoop value row fuel) (printedLoop value' row' fuel) := by
  induction fuel with
  | zero => exact fun _ => .fail
  | succ fuel ih =>
    have onward (item : Literal) {taken : List Token} (balanced : Keeps id taken) (tokens) :
        ExtendsFrom (fun _ => Keeps List.tail) taken tokens
          (do return item :: (← printedLoop value row fuel))
          (do return item :: (← printedLoop value' row' fuel)) :=
      .map (ih tokens) fun items more later => balanced.append later
    intro tokens
    rw [printedLoop, printedLoop]
    refine .get ?_
    split
    · exact .setOne (.pure (.close rfl))
    · exact .setOne (.lift (ih _) fun items more later =>
        (keeps_plain rfl (by simp)).append later)
    · exact .bind (rows _) fun item taken balanced => onward item balanced
    · exact .bind (inner _) fun item taken balanced => onward item balanced

theorem extends_printedSequence (depth : Nat) :
    ExtendsItem (printedSequence false depth) (printedSequence true depth) := by
  induction depth with
  | zero =>
    intro tokens
    have none : ExtendsItem (Reader.fail : Reader Literal) Reader.fail := fun _ => .fail
    refine .consume fun rest => .left ?_
    exact .map (extends_printedLoop none none _ rest) fun items taken closes => .wrap rfl closes
  | succ depth ih =>
    intro tokens
    refine .consume fun rest => .left ?_
    exact .map (extends_printedLoop (extends_value (depth + 1)) ih _ rest) fun items taken closes =>
      .wrap rfl closes

theorem extends_printedArray : ExtendsItem (printedArray false) (printedArray true) := by
  intro tokens
  refine .bind (extends_printedSequence maxDepth tokens) fun rows taken balanced rest => ?_
  split
  · exact .pure balanced
  · exact .fail

/-! ### Texts -/

theorem readAll?_eq_some {reader : Reader Literal} {tokens : List Token} {l : Literal} :
    readAll? reader tokens = some l ↔ reader tokens = some (l, []) := by
  unfold readAll?
  constructor
  · intro read
    split at read
    · next run => cases read; exact run
    · cases read
  · intro run
    rw [run]

theorem Extends.readAll? {kept : Literal → List Token → Prop} {p q : Reader Literal}
    (extension : Extends kept p q) {tokens : List Token} {l : Literal}
    (read : Literal.readAll? p tokens = some l) : Literal.readAll? q tokens = some l :=
  readAll?_eq_some.mpr ((extension tokens).more _ (readAll?_eq_some.mp read))

/-- A printed array that is no literal in the strict reading is none with named tuples either. -/
theorem document_refused {tokens : List Token} {l : Literal}
    (strict : readAll? (document false) tokens = none)
    (printed : readAll? (printedArray false) tokens = some l) :
    readAll? (document true) tokens = none := by
  have balanced : Keeps id tokens := by
    have run := readAll?_eq_some.mp printed
    have same := extends_printedArray tokens
    rcases same.same l [] (same.more _ run) with ⟨taken, whole, -, keeps⟩ | ⟨none, -⟩
    · rwa [whole, List.append_nil]
    · rw [none] at run
      cases run
  cases read : readAll? (document true) tokens with
  | none => rfl
  | some other =>
    have run := readAll?_eq_some.mp read
    rcases (extends_document tokens).same other [] run with
      ⟨-, -, run', -⟩ | ⟨-, front, ⟨rest, rfl⟩, strays⟩
    · rw [readAll?_eq_some.mpr run'] at strict
      cases strict
    · exact absurd (strays.append rest) balanced.not_strays

/-- What is read without named tuples is read with them as the same literal. -/
theorem parse?_extends {text : String} {l : Literal} (read : parse? text false = some l) :
    parse? text true = some l := by
  unfold parse? at *
  dsimp only at *
  split at read
  · cases read
  · next some =>
    rw [if_neg some]
    obtain ⟨tokens, scanned, given⟩ := Option.bind_eq_some_iff.mp read
    refine Option.bind_eq_some_iff.mpr ⟨tokens, scanned, ?_⟩
    split at given
    · next found strict =>
      rw [extends_document.readAll? strict]
      exact given
    · next refused =>
      split at given
      · next bracketed =>
        rw [document_refused refused given, if_pos bracketed]
        exact extends_printedArray.readAll? given
      · cases given

end DocExamples.Literal
