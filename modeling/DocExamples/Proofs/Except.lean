/-!
Computations that may fail: what a sequence gives, and sequences that run side by side.
-/
namespace DocExamples

theorem bind_eq_ok {ε α β : Type} {x : Except ε α} {f : α → Except ε β} {b : β} :
    x >>= f = .ok b ↔ ∃ a, x = .ok a ∧ f a = .ok b := by
  cases x with
  | ok a => simp [bind, Except.bind]
  | error e => simp [bind, Except.bind]

theorem bind_eq_error {ε α β : Type} {x : Except ε α} {f : α → Except ε β} {e : ε} :
    x >>= f = .error e ↔ x = .error e ∨ ∃ a, x = .ok a ∧ f a = .error e := by
  cases x with
  | ok a => simp [bind, Except.bind]
  | error e => simp [bind, Except.bind]

theorem map_eq_ok {ε α β : Type} {x : Except ε α} {f : α → β} {b : β} :
    x.map f = .ok b ↔ ∃ a, x = .ok a ∧ f a = b := by
  cases x with
  | ok a => simp [Except.map]
  | error e => simp [Except.map]

theorem mapError_eq_ok {ε ε' α : Type} {x : Except ε α} {f : ε → ε'} {a : α} :
    x.mapError f = .ok a ↔ x = .ok a := by
  constructor
  · intro mapped
    cases x with
    | ok b =>
      cases mapped
      rfl
    | error e => cases mapped
  · rintro rfl
    rfl

theorem mapError_eq_error {ε ε' α : Type} {x : Except ε α} {f : ε → ε'} {e' : ε'} :
    x.mapError f = .error e' ↔ ∃ e, x = .error e ∧ f e = e' := by
  constructor
  · intro mapped
    cases x with
    | ok a => cases mapped
    | error e =>
      cases mapped
      exact ⟨e, rfl, rfl⟩
  · rintro ⟨e, rfl, rfl⟩
    rfl

theorem toOption_eq_some {ε α : Type} {x : Except ε α} {a : α} :
    x.toOption = some a ↔ x = .ok a := by
  cases x with
  | ok a => simp [Except.toOption]
  | error e => simp [Except.toOption]

/-- Two computations one after the other, by a value read off the second. -/
theorem exists_of_toOption_bind {ε ε' α β γ : Type} {x : Except ε α} {f : α → Except ε' β}
    {g : β → γ} {c : γ} (given : (x.toOption.bind fun a => (f a).toOption.map g) = some c) :
    ∃ a b, x = .ok a ∧ f a = .ok b ∧ g b = c := by
  obtain ⟨a, first, given⟩ := Option.bind_eq_some_iff.mp given
  obtain ⟨b, second, value⟩ := Option.map_eq_some_iff.mp given
  exact ⟨a, b, toOption_eq_some.mp first, toOption_eq_some.mp second, value⟩

theorem exists_of_mapM_eq_ok {ε α β : Type} {f : α → Except ε β} {items : List α} {results : List β}
    (given : items.mapM f = .ok results) : ∀ b ∈ results, ∃ a ∈ items, f a = .ok b := by
  induction items generalizing results with
  | nil =>
    rw [List.mapM_nil] at given
    cases given
    intro b none
    cases none
  | cons a rest ih =>
    rw [List.mapM_cons] at given
    obtain ⟨first, here, given⟩ := bind_eq_ok.mp given
    obtain ⟨others, later, same⟩ := bind_eq_ok.mp given
    cases same
    intro b member
    rcases List.mem_cons.mp member with rfl | member
    · exact ⟨a, List.mem_cons_self, here⟩
    · obtain ⟨a', inside, found⟩ := ih later b member
      exact ⟨a', List.mem_cons_of_mem _ inside, found⟩

/-- What every step keeps holds at the end. -/
theorem foldlM_invariant {ε α ι : Type} {P : α → Prop} {f : α → ι → Except ε α} {items : List ι}
    {a b : α} (step : ∀ a i b, P a → f a i = .ok b → P b) (start : P a)
    (given : items.foldlM f a = .ok b) : P b := by
  induction items generalizing a with
  | nil =>
    cases given
    exact start
  | cons i rest ih =>
    obtain ⟨next, here, later⟩ := bind_eq_ok.mp given
    exact ih (step a i next start here) later

/-- What the computation gives, if it gives anything, has the property. -/
def Ensures {ε α : Type} (R : α → Prop) (x : Except ε α) : Prop := ∀ a, x = .ok a → R a

namespace Ensures

variable {ε α β : Type} {R S : α → Prop} {x : Except ε α}

theorem ok {a : α} (holds : R a) : Ensures R (.ok a : Except ε α) := by
  rintro _ ⟨⟩
  exact holds

theorem pure {a : α} (holds : R a) : Ensures R (Pure.pure a : Except ε α) := ok holds

theorem error {e : ε} : Ensures R (.error e : Except ε α) := fun _ given => nomatch given

theorem any : Ensures (fun _ => True) x := fun _ _ => trivial

theorem mono (ensures : Ensures R x) (le : ∀ a, R a → S a) : Ensures S x :=
  fun a given => le a (ensures a given)

theorem bind {Q : β → Prop} {f : α → Except ε β} (first : Ensures R x)
    (second : ∀ a, R a → Ensures Q (f a)) : Ensures Q (x >>= f) := by
  intro b given
  obtain ⟨a, first', given⟩ := bind_eq_ok.mp given
  exact second a (first a first') b given

/-- The second computation may rely on what the first one gives. -/
theorem andThen {Q : β → Prop} {f : α → Except ε β} (second : ∀ a, x = .ok a → Ensures Q (f a)) :
    Ensures Q (x >>= f) :=
  bind (R := fun a => x = .ok a) (fun _ given => given) second

theorem map {Q : β → Prop} {f : α → β} (first : Ensures R x) (onward : ∀ a, R a → Q (f a)) :
    Ensures Q (x.map f) := by
  intro b given
  obtain ⟨a, first', rfl⟩ := map_eq_ok.mp given
  exact onward a (first a first')

theorem mapM {Q : β → Prop} {f : α → Except ε β} {items : List α}
    (each : ∀ a ∈ items, Ensures Q (f a)) : Ensures (fun bs => ∀ b ∈ bs, Q b) (items.mapM f) := by
  intro bs given b member
  obtain ⟨a, inside, here⟩ := exists_of_mapM_eq_ok given b member
  exact each a inside b here

theorem foldlM {ι : Type} {f : α → ι → Except ε α} {items : List ι} {a : α} (start : R a)
    (step : ∀ a, R a → ∀ i ∈ items, Ensures R (f a i)) : Ensures R (items.foldlM f a) := by
  induction items generalizing a with
  | nil => exact pure start
  | cons i rest ih =>
    rw [List.foldlM_cons]
    refine bind (step a start i List.mem_cons_self) fun b holds => ih holds ?_
    exact fun b holds j member => step b holds j (List.mem_cons_of_mem _ member)

end Ensures

/-- Both computations have values, which `values` relates, or both fail with errors that `errors`
relates. -/
inductive Corresponds {ε ε' α β : Type} (errors : ε → ε' → Prop) (values : α → β → Prop) :
    Except ε α → Except ε' β → Prop where
  | ok {a : α} {b : β} (related : values a b) : Corresponds errors values (.ok a) (.ok b)
  | error {e : ε} {e' : ε'} (related : errors e e') :
    Corresponds errors values (.error e) (.error e')

namespace Corresponds

variable {ε ε' α β γ δ : Type} {errors : ε → ε' → Prop} {values : α → β → Prop}

theorem bind {next : γ → δ → Prop} {x : Except ε α} {y : Except ε' β} {f : α → Except ε γ}
    {g : β → Except ε' δ} (first : Corresponds errors values x y)
    (second : ∀ a b, values a b → Corresponds errors next (f a) (g b)) :
    Corresponds errors next (x >>= f) (y >>= g) := by
  cases first with
  | ok related => exact second _ _ related
  | error related => exact .error related

theorem map {next : γ → δ → Prop} {x : Except ε α} {y : Except ε' β} {f : α → γ} {g : β → δ}
    (first : Corresponds errors values x y) (onward : ∀ a b, values a b → next (f a) (g b)) :
    Corresponds errors next (x.map f) (y.map g) := by
  cases first with
  | ok related => exact .ok (onward _ _ related)
  | error related => exact .error related

theorem foldlM {ι : Type} {f : α → ι → Except ε α} {g : β → ι → Except ε' β} {a : α} {b : β}
    (items : List ι) (start : values a b)
    (step : ∀ a b i, values a b → Corresponds errors values (f a i) (g b i)) :
    Corresponds errors values (items.foldlM f a) (items.foldlM g b) := by
  induction items generalizing a b with
  | nil => exact .ok start
  | cons i rest ih => exact (step a b i start).bind fun a b related => ih related

end Corresponds

end DocExamples
