import Mathlib.Data.List.Pairwise
import DocExamples.Proofs.Script.BoundTraits
/-!
The keys of dictionaries. No two keys of a dictionary that a session binds are equal, wherever the
dictionary stands in a bound value; so what is stored under a key is found there, and the number of
entries is that of different keys.
-/
namespace DocExamples.Script

/-- No key equals one after it. -/
def DistinctKeys (entries : List (Value × Value)) : Prop :=
  entries.Pairwise fun a b => a.1.equals b.1 = false

/-- Every dictionary in the value has distinct keys. -/
def Value.KeysDistinct (v : Value) : Prop :=
  ∀ entries, (Value.dict entries).Inside v → DistinctKeys entries

section Entries

variable {entries : List (Value × Value)} {key v : Value}

theorem DistinctKeys.putEntry (distinct : DistinctKeys entries) :
    DistinctKeys (putEntry key v entries) := by
  induction entries with
  | nil => exact List.pairwise_singleton _ _
  | cons first rest ih =>
    obtain ⟨k, w⟩ := first
    obtain ⟨apart, others⟩ := List.pairwise_cons.mp distinct
    rw [Script.putEntry]
    split
    · exact List.pairwise_cons.mpr ⟨apart, others⟩
    · next unequal =>
      refine List.pairwise_cons.mpr ⟨fun entry member => ?_, ih others⟩
      rcases mem_putEntry member with kept | ⟨-, ⟨u, kept⟩ | ⟨new, -⟩⟩
      · exact apart entry kept
      · exact apart (entry.1, u) kept
      · exact new ▸ eq_false_of_ne_true unequal

/-- What was put under a key is found there. -/
theorem underKey_putEntry (reflexive : key.equals key = true) :
    underKey? (putEntry key v entries) key = some v := by
  induction entries with
  | nil => simp [putEntry, underKey?, reflexive]
  | cons first rest ih =>
    obtain ⟨k, w⟩ := first
    rw [putEntry]
    split
    · next equal => simp [underKey?, equal]
    · next unequal => simpa [underKey?, unequal] using ih

end Entries

/-- The condition on dictionaries alone. -/
def Trait.distinctKeys : Trait := ⟨DistinctKeys, fun _ => True⟩

theorem Trait.lawful_distinctKeys : Trait.distinctKeys.Lawful where
  toTensorLaws := .any
  noEntries := List.Pairwise.nil
  putEntry distinct := distinct.putEntry
  removeEntry distinct := distinct.sublist List.eraseP_sublist

theorem has_distinctKeys_iff {v : Value} : v.Has .distinctKeys ↔ v.KeysDistinct := by
  constructor
  · exact fun has entries inside => has _ inside
  · intro distinct w inside
    cases w <;> first | trivial | exact distinct _ inside

/-! ### Stores and lengths -/

theorem getItem_after_put {entries : List (Value × Value)} {s : Subscript} {key v : Value}
    (isKey : s.toKey = .ok key) (reflexive : key.equals key = true) :
    getItem (.dict (putEntry key v entries)) s = .ok v := by
  refine bind_eq_ok.mpr ⟨key, isKey, ?_⟩
  rw [underKey_putEntry reflexive]
  rfl

/-- A value stored under a key of a dictionary is what looking the key up gives. -/
theorem run_store_then_lookup {name : String} {s : Subscript} {key v : Value}
    {entries : List (Value × Value)} {m : Machine}
    (bound : m.scopes.lookup name = some (.dict entries)) (isKey : s.toKey = .ok key)
    (reflexive : key.equals key = true) (within : v.Within (maxValueNesting - 1)) :
    ((do storeAt name s (.set v); getItem (← lookupName name) s : Eval Value).run m).1 = .ok v := by
  let put : Edit := .dict (.put key v)
  let m' : Machine := { m with scopes := m.scopes.change name put.apply }
  have looked : (Machine.lookup name).run m = (.ok (some (.dict entries)), m) :=
    congrArg (fun found => (Except.ok found, m)) bound
  have made : ((ItemChange.set v).edit (.dict entries) s).run m = (.ok put, m) := by
    have passes : withinNesting (maxValueNesting - 1) v = pure () := by
      rw [withinNesting, show v.nestsDeeperThan (maxValueNesting - 1) = false from within]
      rfl
    have stored : storeEdit (.dict entries) s v = .ok put := by
      rw [storeEdit, isKey]
      rfl
    rw [ItemChange.edit, passes, stored]
    rfl
  have storing : (storeAt name s (.set v)).run m = (.ok (), m') :=
    (run_bind_of_ok looked).trans ((run_bind_of_ok made).trans rfl)
  have found : (lookupName name).run m' = (.ok (.dict (putEntry key v entries)), m') := by
    refine (run_bind_of_ok (x := Machine.lookup name)
      (a := some (.dict (putEntry key v entries))) ?_).trans rfl
    exact congrArg (fun found => (Except.ok found, m')) (Scopes.lookup_change put.apply bound)
  rw [run_bind_of_ok storing, run_bind_of_ok found, getItem_after_put isKey reflexive]
  rfl

/-- How many keys are left when those are dropped that equal another one. -/
def differentKeys (entries : List (Value × Value)) : Nat :=
  ((entries.map Prod.fst).pwFilter fun a b => a.equals b = false).length

theorem DistinctKeys.length_eq {entries : List (Value × Value)} (distinct : DistinctKeys entries) :
    entries.length = differentKeys entries := by
  have apart : (entries.map Prod.fst).Pairwise fun a b => a.equals b = false :=
    List.pairwise_map.mpr distinct
  rw [differentKeys, List.pwFilter_eq_self.mpr apart, List.length_map]

/-- Throughout a session the keys of every dictionary in a bound value are distinct. What is stored
under a key that equals itself is found there, and the length of a dictionary counts its different
keys. -/
theorem distinct_keys (limits : Limits) (globals : List (String × String)) (directory : Directory)
    (sources : List String) :
    (∀ ns, Namespace.create limits globals directory = .ok ns →
      (ns.executeAll limits sources).machine.scopes.All Value.KeysDistinct) ∧
    (∀ front, front <+: sessionSteps limits globals directory sources →
      (replay front .empty).All Value.KeysDistinct) ∧
    (∀ name s key v entries m, m.scopes.lookup name = some (.dict entries) → s.toKey = .ok key →
      key.equals key = true → v.Within (maxValueNesting - 1) →
      ((do storeAt name s (.set v); getItem (← lookupName name) s : Eval Value).run m).1 = .ok v) ∧
    ∀ entries, (Value.dict entries).KeysDistinct →
      lengthOf (.dict entries) = .ok (.ofNat (differentKeys entries)) := by
  have throughout (front : List Step)
      (point : front <+: sessionSteps limits globals directory sources) :
      (replay front .empty).All Value.KeysDistinct :=
    (Trait.lawful_distinctKeys.throughout point).imp fun _ => has_distinctKeys_iff.mp
  refine ⟨fun ns created => ?_, throughout, ?_, fun entries distinct => ?_⟩
  · rw [scopes_session created]
    exact throughout _ List.prefix_rfl
  · intro name s key v entries m bound isKey reflexive within
    exact run_store_then_lookup bound isKey reflexive within
  · rw [lengthOf, ← DistinctKeys.length_eq (distinct entries (.here _))]

/-- A key that equals one of another type replaces its value, here in the frame of a call. -/
theorem distinct_keys_mixed :
    let m : Machine := { Machine.start .empty with
      scopes := ⟨[("d", .none)], [[("d", .dict [(.str "a", .none), (.int 1, .str "one")])]]⟩ }
    m.scopes.lookup "d" = some (.dict [(.str "a", .none), (.int 1, .str "one")]) ∧
      (Value.bool true).equals (.bool true) = true ∧
      ((do storeAt "d" (.item (.bool true)) (.set (.str "yes"))
           getItem (← lookupName "d") (.item (.bool true)) : Eval Value).run m).1 =
        .ok (.str "yes") := by
  have reflexive : (Value.bool true).equals (.bool true) = true := by decide +kernel
  refine ⟨rfl, reflexive, ?_⟩
  exact (distinct_keys .defaults [] .empty []).2.2.1 _ _ _ _ _ _ rfl rfl reflexive (by decide)

end DocExamples.Script
