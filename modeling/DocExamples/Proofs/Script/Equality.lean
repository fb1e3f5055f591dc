import DocExamples.Proofs.EqualDoubles
import DocExamples.Proofs.Script.DictKeys
/-!
Equality of values as a relation on data. An integer is equal to a double if it rounds to it, so
that different integers may be equal to one double. Where this does not happen, equality is an
equivalence relation.
-/
namespace DocExamples.Script

open Binary64 (ofInt ofBool)

namespace Value

/-- Data, without anything that is not a number. -/
inductive NaNFree : Value → Prop where
  | none : NaNFree none
  | bool (b : Bool) : NaNFree (bool b)
  | int (i : Int64) : NaNFree (int i)
  | float {x : Float} (number : x.isNaN = false) : NaNFree (float x)
  | str (s : String) : NaNFree (str s)
  | list {items : Array Value} (all : ∀ v ∈ items.toList, NaNFree v) : NaNFree (list items)
  | tuple {items : List Value} (all : ∀ v ∈ items, NaNFree v) : NaNFree (tuple items)
  | dict {entries : List (Value × Value)} (keys : ∀ entry ∈ entries, NaNFree entry.1)
      (values : ∀ entry ∈ entries, NaNFree entry.2) (distinct : DistinctKeys entries) :
      NaNFree (dict entries)
  | tensor {t : Tensor} (numbers : ∀ x ∈ t.data.toList, x.isNaN = false) : NaNFree (tensor t)

/-! ### What a value is equal to -/

section

variable {v w : Value} {x : Float}

theorem allEqual_iff {as bs : List Value} :
    allEqual as bs = true ↔ List.Forall₂ (fun a b => a.equals b = true) as bs := by
  induction as generalizing bs with
  | nil => cases bs <;> simp [allEqual]
  | cons a as ih => cases bs <;> simp [allEqual, ih]

theorem entryEquals_iff {key v : Value} {entries : List (Value × Value)} :
    entryEquals key v entries = true ↔ ∃ w, underKey? entries key = some w ∧ w.equals v = true := by
  induction entries with
  | nil => simp [entryEquals, underKey?]
  | cons entry rest ih =>
    obtain ⟨k, u⟩ := entry
    rw [entryEquals]
    split
    · next found => simp [underKey?, found]
    · next other =>
      rw [ih]
      simp [underKey?, other]

theorem entriesEqual_iff {as bs : List (Value × Value)} :
    entriesEqual as bs = true ↔
      ∀ entry ∈ as, ∃ w, underKey? bs entry.1 = some w ∧ w.equals entry.2 = true := by
  induction as with
  | nil => simp [entriesEqual]
  | cons entry rest ih =>
    rw [entriesEqual, Bool.and_eq_true, entryEquals_iff, ih]
    simp only [List.mem_cons, forall_eq_or_imp]

theorem equals_none_iff : none.equals v = true ↔ v = none := by
  cases v <;> simp [equals, equalScalars, asNumber?]

theorem equals_str_iff {s : String} : (str s).equals v = true ↔ v = str s := by
  cases v with
  | str t =>
    simp only [equals, equalScalars, beq_iff_eq, str.injEq]
    exact eq_comm
  | _ => simp [equals, equalScalars, asNumber?]

theorem beq_iff_forall₂ {xs ys : List Float} :
    (xs == ys) = true ↔ List.Forall₂ (fun x y => (x == y) = true) xs ys := by
  induction xs generalizing ys with
  | nil => cases ys <;> simp
  | cons x xs ih => cases ys <;> simp [ih]

theorem equals_tensor_iff {t : Tensor} : (tensor t).equals v = true ↔
    ∃ u, v = tensor u ∧ t.shape = u.shape ∧
      List.Forall₂ (fun x y => (x == y) = true) t.data.toList u.data.toList := by
  cases v with
  | tensor u => simp [equals, equalScalars, ← beq_iff_forall₂]
  | _ => simp [equals, equalScalars, asNumber?]

theorem equals_list_iff {as : Array Value} : (list as).equals v = true ↔
    ∃ bs, v = list bs ∧ List.Forall₂ (fun a b => a.equals b = true) as.toList bs.toList := by
  obtain ⟨as⟩ := as
  cases v with
  | list bs =>
    obtain ⟨bs⟩ := bs
    simp [equals, allEqual_iff]
  | _ => simp [equals, equalScalars, asNumber?]

theorem equals_tuple_iff {as : List Value} : (tuple as).equals v = true ↔
    ∃ bs, v = tuple bs ∧ List.Forall₂ (fun a b => a.equals b = true) as bs := by
  cases v <;> simp [equals, equalScalars, asNumber?, allEqual_iff]

theorem equals_dict_iff {as : List (Value × Value)} : (dict as).equals v = true ↔
    ∃ bs, v = dict bs ∧ as.length = bs.length ∧
      ∀ entry ∈ as, ∃ w, underKey? bs entry.1 = some w ∧ w.equals entry.2 = true := by
  cases v <;> simp [equals, equalScalars, asNumber?, entriesEqual_iff]

/-- Numbers are equal if their doubles are; two integers must be the same. -/
theorem equals_number_iff (number : v.asNumber? = some x) : v.equals w = true ↔
    ∃ y, w.asNumber? = some y ∧ (x == y) = true ∧ ∀ i j, v = int i → w = int j → i = j := by
  have itself (i : Int64) : (ofInt i.toInt == ofInt i.toInt) = true :=
    Binary64.beq_self_of_isFinite (Binary64.isWhole_iff.mp (Binary64.isWhole_ofInt i)).1
  cases v with
  | int i =>
    cases w with
    | int j =>
      cases number
      simp only [equals, equalScalars, asNumber?, beq_iff_eq, int.injEq]
      constructor
      · rintro rfl
        exact ⟨_, rfl, itself i, fun _ _ first second => first.symm.trans second⟩
      · rintro ⟨_, -, -, same⟩
        exact same i j rfl rfl
    | _ => simp_all [equals, equalScalars, asNumber?]
  | bool b => cases w <;> simp_all [equals, equalScalars, asNumber?]
  | float y => cases w <;> simp_all [equals, equalScalars, asNumber?]
  | _ => cases number

end

/-! ### Reflexivity -/

theorem underKey_of_mem {entries : List (Value × Value)} {key v : Value}
    (distinct : DistinctKeys entries) (member : (key, v) ∈ entries)
    (reflexive : key.equals key = true) : underKey? entries key = some v := by
  induction entries with
  | nil => cases member
  | cons first rest ih =>
    obtain ⟨apart, others⟩ := List.pairwise_cons.mp distinct
    rcases List.mem_cons.mp member with rfl | later
    · simp [underKey?, reflexive]
    · have skipped := ih others later
      rw [underKey?] at skipped ⊢
      rw [List.find?_cons_of_neg (by simp [apart _ later]), skipped]

theorem NaNFree.equals_self {v : Value} (free : v.NaNFree) : v.equals v = true := by
  induction free with
  | none => exact equals_none_iff.mpr rfl
  | bool b => cases b <;> decide +kernel
  | int i => simp [equals, equalScalars]
  | float number => simpa [equals, equalScalars, asNumber?] using Binary64.beq_self_of_number number
  | str s => exact equals_str_iff.mpr rfl
  | list _ ih => exact equals_list_iff.mpr ⟨_, rfl, List.forall₂_same.mpr ih⟩
  | tuple _ ih => exact equals_tuple_iff.mpr ⟨_, rfl, List.forall₂_same.mpr ih⟩
  | dict _ _ distinct keys values =>
    refine equals_dict_iff.mpr ⟨_, rfl, rfl, fun entry member => ?_⟩
    exact ⟨entry.2, underKey_of_mem distinct member (keys entry member), values entry member⟩
  | tensor numbers =>
    refine equals_tensor_iff.mpr ⟨_, rfl, rfl, List.forall₂_same.mpr fun x member => ?_⟩
    exact Binary64.beq_self_of_number (numbers x member)

/-! ### Dictionaries -/

/-- Among the values with the property, equality is symmetric and transitive. -/
structure EquivalenceOn (S : Value → Prop) : Prop where
  symm : ∀ a b, S a → S b → a.equals b = true → b.equals a = true
  trans : ∀ a b c, S a → S b → S c → a.equals b = true → b.equals c = true → a.equals c = true

/-- Lists of one length: where every item of the first has a partner in the second and no two share
one, every item of the second has a partner. -/
theorem exists_partner {α β : Type} {R : β → α → Prop} {as : List α} {bs : List β}
    (length : as.length = bs.length) (each : ∀ a ∈ as, ∃ b ∈ bs, R b a)
    (apart : as.Pairwise fun a a' => ∀ b ∈ bs, R b a → ¬ R b a') : ∀ b ∈ bs, ∃ a ∈ as, R b a := by
  induction as generalizing bs with
  | nil =>
    obtain rfl := List.length_eq_zero_iff.mp length.symm
    exact fun _ none => nomatch none
  | cons a rest ih =>
    obtain ⟨unshared, others⟩ := List.pairwise_cons.mp apart
    obtain ⟨partner, member, related⟩ := each a List.mem_cons_self
    obtain ⟨front, back, rfl⟩ := List.append_of_mem member
    have shorter : rest.length = (front ++ back).length := by
      simp only [List.length_cons, List.length_append] at length ⊢
      omega
    have within : ∀ b ∈ front ++ back, b ∈ front ++ partner :: back := fun b inside => by
      simp only [List.mem_append, List.mem_cons] at inside ⊢
      tauto
    have remaining : ∀ a' ∈ rest, ∃ b ∈ front ++ back, R b a' := by
      intro a' later
      obtain ⟨b, inside, found⟩ := each a' (List.mem_cons_of_mem _ later)
      refine ⟨b, ?_, found⟩
      rcases List.mem_append.mp inside with first | second
      · exact List.mem_append_left _ first
      · rcases List.mem_cons.mp second with rfl | second
        · exact absurd found (unshared a' later _ member related)
        · exact List.mem_append_right _ second
    intro b inside
    by_cases same : b = partner
    · exact ⟨a, List.mem_cons_self, same ▸ related⟩
    · have left : b ∈ front ++ back := by
        simp only [List.mem_append, List.mem_cons] at inside ⊢
        tauto
      have narrowed := others.imp fun {a a'} unshared b inside => unshared b (within b inside)
      obtain ⟨a', later, found⟩ := ih shorter remaining narrowed b left
      exact ⟨a', List.mem_cons_of_mem _ later, found⟩

section Dictionaries

variable {K : Value → Prop} {as bs cs : List (Value × Value)} {key v : Value}

theorem mem_of_underKey (found : underKey? as key = some v) :
    ∃ entry ∈ as, entry.1.equals key = true ∧ entry.2 = v := by
  obtain ⟨entry, found, same⟩ := Option.map_eq_some_iff.mp found
  have isKey := List.find?_some found
  exact ⟨entry, List.mem_of_find?_eq_some found, isKey, same⟩

/-- Two entries with equal keys are one. -/
theorem eq_of_keys_equal (keys : EquivalenceOn K) (within : ∀ entry ∈ as, K entry.1)
    (distinct : DistinctKeys as) {p q : Value × Value} (first : p ∈ as) (second : q ∈ as)
    (equal : p.1.equals q.1 = true) : p = q := by
  have unequal : as.Pairwise fun p q => p.1.equals q.1 = false ∧ q.1.equals p.1 = false := by
    refine List.Pairwise.imp_of_mem (fun {p q} first second apart => ⟨apart, ?_⟩) distinct
    refine Bool.eq_false_iff.mpr fun back => ?_
    rw [keys.symm _ _ (within q second) (within p first) back] at apart
    cases apart
  have symmetric : Std.Symm fun p q : Value × Value =>
      p.1.equals q.1 = false ∧ q.1.equals p.1 = false := ⟨fun _ _ both => both.symm⟩
  by_contra different
  have apart := (unequal.forall first second different).1
  rw [equal] at apart
  cases apart

/-- The entry with a key that is equal to the one looked up is found. -/
theorem underKey_of_equal (keys : EquivalenceOn K) (within : ∀ entry ∈ as, K entry.1)
    (distinct : DistinctKeys as) {p : Value × Value} (member : p ∈ as) (isKey : K key)
    (equal : p.1.equals key = true) : underKey? as key = some p.2 := by
  cases found : underKey? as key with
  | none =>
    have none := List.find?_eq_none.mp (Option.map_eq_none_iff.mp found) p member
    exact absurd equal none
  | some v =>
    obtain ⟨entry, inside, same, rfl⟩ := mem_of_underKey found
    have back := keys.symm _ _ (within p member) isKey equal
    have whole := keys.trans _ _ _ (within entry inside) isKey (within p member) same back
    rw [eq_of_keys_equal keys within distinct inside member whole]

theorem dict_symm (keys : EquivalenceOn K) (left : ∀ entry ∈ as, K entry.1)
    (right : ∀ entry ∈ bs, K entry.1) (distinct : DistinctKeys as)
    (values : ∀ p ∈ as, ∀ q ∈ bs, q.2.equals p.2 = true → p.2.equals q.2 = true)
    (equal : (dict as).equals (dict bs) = true) : (dict bs).equals (dict as) = true := by
  obtain ⟨_, ⟨⟩, length, each⟩ := equals_dict_iff.mp equal
  have partner : ∀ p ∈ as, ∃ q ∈ bs, q.1.equals p.1 = true ∧ q.2.equals p.2 = true := by
    intro p member
    obtain ⟨w, found, same⟩ := each p member
    obtain ⟨q, inside, key, rfl⟩ := mem_of_underKey found
    exact ⟨q, inside, key, same⟩
  have unshared : as.Pairwise fun p p' => ∀ q ∈ bs,
      (q.1.equals p.1 = true ∧ q.2.equals p.2 = true) →
        ¬(q.1.equals p'.1 = true ∧ q.2.equals p'.2 = true) := by
    refine List.Pairwise.imp_of_mem (fun {p p'} first second apart q inside one two => ?_) distinct
    have back := keys.symm _ _ (right q inside) (left p first) one.1
    rw [keys.trans _ _ _ (left p first) (right q inside) (left p' second) back two.1] at apart
    cases apart
  refine equals_dict_iff.mpr ⟨as, rfl, length.symm, fun q inside => ?_⟩
  obtain ⟨p, member, key, value⟩ := exists_partner length partner unshared q inside
  have back := keys.symm _ _ (right q inside) (left p member) key
  exact ⟨p.2, underKey_of_equal keys left distinct member (right q inside) back,
    values p member q inside value⟩

theorem dict_trans (keys : EquivalenceOn K) (first : ∀ entry ∈ as, K entry.1)
    (second : ∀ entry ∈ bs, K entry.1) (third : ∀ entry ∈ cs, K entry.1)
    (distinct : DistinctKeys cs)
    (values : ∀ p ∈ as, ∀ q ∈ bs, ∀ r ∈ cs, r.2.equals q.2 = true → q.2.equals p.2 = true →
      r.2.equals p.2 = true)
    (equal : (dict as).equals (dict bs) = true) (equal' : (dict bs).equals (dict cs) = true) :
    (dict as).equals (dict cs) = true := by
  obtain ⟨_, ⟨⟩, length, each⟩ := equals_dict_iff.mp equal
  obtain ⟨_, ⟨⟩, length', each'⟩ := equals_dict_iff.mp equal'
  refine equals_dict_iff.mpr ⟨cs, rfl, length.trans length', fun p member => ?_⟩
  obtain ⟨_, found, same⟩ := each p member
  obtain ⟨q, inside, key, rfl⟩ := mem_of_underKey found
  obtain ⟨_, found, same'⟩ := each' q inside
  obtain ⟨r, inside', key', rfl⟩ := mem_of_underKey found
  have whole := keys.trans _ _ _ (third r inside') (second q inside) (first p member) key' key
  exact ⟨r.2, underKey_of_equal keys third distinct inside' (first p member) whole,
    values p member q inside r inside' same' same⟩

end Dictionaries

/-! ### Numbers -/

/-- No double with the property is equal to two different integers with it. -/
def Separates (S : Value → Prop) : Prop :=
  ∀ (i j : Int64) (x : Float), S (int i) → S (int j) → S (float x) →
    (ofInt i.toInt == x) = true → (ofInt j.toInt == x) = true → i = j

/-- Integers of fewer than fifty-four binary digits do not meet in a double. -/
theorem separates_of_small {S : Value → Prop}
    (small : ∀ i : Int64, S (int i) → i.toInt.natAbs < 2 ^ 53) : Separates S := by
  intro i j x first second _ left right
  have same := Binary64.beq_trans left ((Binary64.beq_comm _ _).trans right)
  have exactly := Binary64.represents_ofInt (small i first)
  have exactly' := Binary64.represents_ofInt (small j second)
  exact Int64.toInt_inj.mp ((Binary64.beq_iff_of_represents exactly exactly').mp same)

section Numbers

variable {S : Value → Prop} {u v w : Value} {x : Float}

theorem number_symm (number : v.asNumber? = some x) (equal : v.equals w = true) :
    w.equals v = true := by
  obtain ⟨y, other, same, integers⟩ := (equals_number_iff number).mp equal
  refine (equals_number_iff other).mpr ⟨x, number, (Binary64.beq_comm y x).trans same, ?_⟩
  exact fun j i first second => (integers i j second first).symm

theorem number_trans (separates : Separates S) (first : S u) (second : S v) (third : S w)
    (number : u.asNumber? = some x) (equal : u.equals v = true) (equal' : v.equals w = true) :
    u.equals w = true := by
  obtain ⟨y, middle, same, integers⟩ := (equals_number_iff number).mp equal
  obtain ⟨z, last, same', integers'⟩ := (equals_number_iff middle).mp equal'
  refine (equals_number_iff number).mpr ⟨z, last, Binary64.beq_trans same same', ?_⟩
  rintro i j rfl rfl
  cases number
  cases last
  have back := (Binary64.beq_comm _ _).trans same'
  cases v with
  | int k => exact (integers i k rfl rfl).trans (integers' k j rfl rfl)
  | bool b =>
    cases middle
    exact Int64.toInt_inj.mp ((Binary64.eq_of_ofInt_beq_ofBool same).trans
      (Binary64.eq_of_ofInt_beq_ofBool back).symm)
  | float =>
    cases middle
    exact separates i j y first third second same back
  | _ => cases middle

end Numbers

/-! ### Values -/

theorem forall₂_symm {α : Type} {R : α → α → Prop} {as bs : List α}
    (each : ∀ a ∈ as, ∀ b ∈ bs, R a b → R b a) (all : List.Forall₂ R as bs) :
    List.Forall₂ R bs as := by
  induction all with
  | nil => exact .nil
  | cons related _ ih =>
    refine .cons (each _ List.mem_cons_self _ List.mem_cons_self related) (ih ?_)
    intro a first b second
    exact each a (List.mem_cons_of_mem _ first) b (List.mem_cons_of_mem _ second)

theorem forall₂_trans {α : Type} {R : α → α → Prop} {as bs cs : List α}
    (each : ∀ a ∈ as, ∀ b ∈ bs, ∀ c ∈ cs, R a b → R b c → R a c) (all : List.Forall₂ R as bs)
    (all' : List.Forall₂ R bs cs) : List.Forall₂ R as cs := by
  induction all generalizing cs with
  | nil => exact all'
  | cons related _ ih =>
    cases all' with
    | cons related' others =>
      refine .cons (each _ List.mem_cons_self _ List.mem_cons_self _ List.mem_cons_self related
        related') (ih (fun a first b second c third => ?_) others)
      exact each a (List.mem_cons_of_mem _ first) b (List.mem_cons_of_mem _ second) c
        (List.mem_cons_of_mem _ third)

theorem NaNFree.sizeOf_lt {part v : Value} (free : v.NaNFree) (member : part ∈ v.parts) :
    sizeOf part < sizeOf v := by
  cases free with
  | @list items =>
    have smaller := Array.sizeOf_lt_of_mem (Array.mem_toList_iff.mp member)
    rw [list.sizeOf_spec]
    omega
  | @tuple items =>
    have smaller := List.sizeOf_lt_of_mem (show part ∈ items from member)
    rw [tuple.sizeOf_spec]
    omega
  | @dict entries =>
    obtain ⟨⟨key, w⟩, inside, either⟩ := List.mem_flatMap.mp member
    have smaller := List.sizeOf_lt_of_mem inside
    rw [Prod.mk.sizeOf_spec] at smaller
    rw [dict.sizeOf_spec]
    simp only [List.mem_cons, List.not_mem_nil, or_false] at either
    rcases either with rfl | rfl <;> omega
  | none | bool | int | float | str | tensor => cases member

/-- The keys that a value holds directly. -/
def keys : Value → List Value
  | dict entries => entries.map (·.1)
  | _ => []

section Steps

variable {S K : Value → Prop} {a b c : Value} {entries : List (Value × Value)}

theorem key_mem_parts {entry : Value × Value} (member : entry ∈ entries) :
    entry.1 ∈ (dict entries).parts :=
  List.mem_flatMap.mpr ⟨entry, member, List.mem_cons_self⟩

theorem value_mem_parts {entry : Value × Value} (member : entry ∈ entries) :
    entry.2 ∈ (dict entries).parts :=
  List.mem_flatMap.mpr ⟨entry, member, List.mem_cons_of_mem _ List.mem_cons_self⟩

theorem keys_subset_parts (v : Value) : v.keys ⊆ v.parts := by
  cases v with
  | dict entries =>
    intro key member
    obtain ⟨entry, inside, rfl⟩ := List.mem_map.mp member
    exact key_mem_parts inside
  | _ => exact List.nil_subset _

/-- Equality is symmetric if it is so on the parts; dictionaries also need that it is transitive on
their keys. -/
theorem symm_of_parts (free : a.NaNFree) (onKeys : EquivalenceOn K) (left : ∀ k ∈ a.keys, K k)
    (right : ∀ k ∈ b.keys, K k) (parts : ∀ p ∈ a.parts, ∀ q ∈ b.parts, p.equals q = q.equals p)
    (equal : a.equals b = true) : b.equals a = true := by
  cases free with
  | none =>
    obtain rfl := equals_none_iff.mp equal
    exact equal
  | bool | int | float => exact number_symm rfl equal
  | str s =>
    obtain rfl := equals_str_iff.mp equal
    exact equal
  | list =>
    obtain ⟨bs, rfl, all⟩ := equals_list_iff.mp equal
    refine equals_list_iff.mpr ⟨_, rfl, forall₂_symm (fun p first q second same => ?_) all⟩
    rwa [← parts p first q second]
  | tuple =>
    obtain ⟨bs, rfl, all⟩ := equals_tuple_iff.mp equal
    refine equals_tuple_iff.mpr ⟨_, rfl, forall₂_symm (fun p first q second same => ?_) all⟩
    rwa [← parts p first q second]
  | dict _ _ distinct =>
    obtain ⟨bs, rfl, -⟩ := equals_dict_iff.mp equal
    refine dict_symm onKeys (fun p first => left _ (List.mem_map_of_mem first))
      (fun q second => right _ (List.mem_map_of_mem second)) distinct
      (fun p first q second same => ?_) equal
    rwa [parts _ (value_mem_parts first) _ (value_mem_parts second)]
  | tensor =>
    obtain ⟨u, rfl, shape, all⟩ := equals_tensor_iff.mp equal
    refine equals_tensor_iff.mpr ⟨_, rfl, shape.symm, forall₂_symm (fun x _ y _ same => ?_) all⟩
    rwa [Binary64.beq_comm]

/-- Equality is transitive if it is an equivalence on the parts. -/
theorem trans_of_parts (separates : Separates S) (first : S a) (second : S b) (third : S c)
    (free : a.NaNFree) (freeLast : c.NaNFree) (onParts : EquivalenceOn K)
    (left : ∀ p ∈ a.parts, K p) (middle : ∀ p ∈ b.parts, K p) (right : ∀ p ∈ c.parts, K p)
    (equal : a.equals b = true) (equal' : b.equals c = true) : a.equals c = true := by
  cases free with
  | none =>
    obtain rfl := equals_none_iff.mp equal
    exact equal'
  | bool | int | float => exact number_trans separates first second third rfl equal equal'
  | str s =>
    obtain rfl := equals_str_iff.mp equal
    exact equal'
  | list =>
    obtain ⟨bs, rfl, all⟩ := equals_list_iff.mp equal
    obtain ⟨cs, rfl, all'⟩ := equals_list_iff.mp equal'
    refine equals_list_iff.mpr ⟨_, rfl, forall₂_trans (fun p one q two r three => ?_) all all'⟩
    exact onParts.trans p q r (left p one) (middle q two) (right r three)
  | tuple =>
    obtain ⟨bs, rfl, all⟩ := equals_tuple_iff.mp equal
    obtain ⟨cs, rfl, all'⟩ := equals_tuple_iff.mp equal'
    refine equals_tuple_iff.mpr ⟨_, rfl, forall₂_trans (fun p one q two r three => ?_) all all'⟩
    exact onParts.trans p q r (left p one) (middle q two) (right r three)
  | dict =>
    obtain ⟨bs, rfl, -⟩ := equals_dict_iff.mp equal
    obtain ⟨cs, rfl, -⟩ := equals_dict_iff.mp equal'
    cases freeLast with
    | dict _ _ distinct =>
      refine dict_trans onParts (fun p one => left _ (key_mem_parts one))
        (fun q two => middle _ (key_mem_parts two)) (fun r three => right _ (key_mem_parts three))
        distinct (fun p one q two r three => ?_) equal equal'
      exact onParts.trans _ _ _ (right _ (value_mem_parts three)) (middle _ (value_mem_parts two))
        (left _ (value_mem_parts one))
  | tensor =>
    obtain ⟨u, rfl, shape, all⟩ := equals_tensor_iff.mp equal
    obtain ⟨v, rfl, shape', all'⟩ := equals_tensor_iff.mp equal'
    refine equals_tensor_iff.mpr ⟨v, rfl, shape.trans shape', ?_⟩
    exact forall₂_trans (fun _ _ _ _ _ _ => Binary64.beq_trans) all all'

end Steps

/-- Data whose parts are among it, in which no double is equal to two different integers. -/
structure Separated (S : Value → Prop) : Prop where
  free : ∀ v, S v → v.NaNFree
  parts : ∀ v, S v → ∀ part ∈ v.parts, S part
  separates : Separates S

section Separated

variable {S : Value → Prop} {a b : Value}

/-- By induction on a bound of the sizes, both at once: that two dictionaries are equal either way
depends on both for their keys. -/
theorem Separated.equivalenceOn_below (separated : Separated S) (n : Nat) :
    EquivalenceOn fun v => S v ∧ sizeOf v < n := by
  induction n with
  | zero => exact ⟨fun a _ within => by omega, fun a _ _ within => by omega⟩
  | succ n ih =>
    have smaller {v : Value} (within : S v ∧ sizeOf v < n + 1) : ∀ part ∈ v.parts,
        S part ∧ sizeOf part < n := by
      intro part member
      have less := (separated.free v within.1).sizeOf_lt member
      exact ⟨separated.parts v within.1 part member, by omega⟩
    constructor
    · intro a b first second
      refine symm_of_parts (separated.free a first.1) ih
        (fun k member => smaller first k (keys_subset_parts a member))
        (fun k member => smaller second k (keys_subset_parts b member)) fun p left q right => ?_
      rw [Bool.eq_iff_iff]
      exact ⟨ih.symm p q (smaller first p left) (smaller second q right),
        ih.symm q p (smaller second q right) (smaller first p left)⟩
    · intro a b c first second third
      exact trans_of_parts separated.separates first.1 second.1 third.1 (separated.free a first.1)
        (separated.free c third.1) ih (smaller first) (smaller second) (smaller third)

theorem Separated.equivalenceOn (separated : Separated S) : EquivalenceOn S where
  symm a b first second :=
    (separated.equivalenceOn_below (sizeOf a + sizeOf b + 1)).symm a b ⟨first, by omega⟩
      ⟨second, by omega⟩
  trans a b c first second third :=
    (separated.equivalenceOn_below (sizeOf a + sizeOf b + sizeOf c + 1)).trans a b c
      ⟨first, by omega⟩ ⟨second, by omega⟩ ⟨third, by omega⟩

/-- Integers that are equal to one double stand in the way of transitivity. -/
theorem EquivalenceOn.separates (equivalence : EquivalenceOn S) : Separates S := by
  intro i j x first second double left right
  have one : (int i).equals (float x) = true := by
    simpa [equals, equalScalars, asNumber?] using left
  have two : (int j).equals (float x) = true := by
    simpa [equals, equalScalars, asNumber?] using right
  have back := equivalence.symm _ _ second double two
  have whole := equivalence.trans _ _ _ first double second one back
  simpa [equals, equalScalars] using whole

end Separated

/-! ### Values inside values -/

/-- `w.InKey v`: `w` stands in a key of a dictionary that stands in `v`. -/
def InKey (w v : Value) : Prop := ∃ d key : Value, d.Inside v ∧ key ∈ d.keys ∧ w.Inside key

section Inside

variable {v w part : Value}

theorem Inside.of_part (inside : w.Inside v) (member : part ∈ w.parts) : part.Inside v := by
  induction inside with
  | here => exact .part member (.here part)
  | part first _ ih => exact .part first ih

theorem Inside.trans {u : Value} (outer : v.Inside u) (inside : w.Inside v) : w.Inside u := by
  induction outer with
  | here => exact inside
  | part member _ ih => exact .part member ih

theorem InKey.inside (within : w.InKey v) : w.Inside v := by
  obtain ⟨d, key, outer, isKey, inner⟩ := within
  exact outer.trans (.part (keys_subset_parts d isKey) inner)

theorem Inside.eq_of_parts (inside : w.Inside v) (atomic : v.parts = []) : w = v := by
  cases inside with
  | here => rfl
  | part member =>
    rw [atomic] at member
    cases member

theorem NaNFree.of_part (free : v.NaNFree) (member : part ∈ v.parts) : part.NaNFree := by
  cases free with
  | list all => exact all part member
  | tuple all => exact all part member
  | dict keys values =>
    obtain ⟨entry, inside, either⟩ := List.mem_flatMap.mp member
    rcases List.mem_cons.mp either with rfl | last
    · exact keys entry inside
    · rw [List.mem_singleton.mp last]
      exact values entry inside
  | none | bool | int | float | str | tensor => cases member

theorem NaNFree.of_inside (free : v.NaNFree) (inside : w.Inside v) : w.NaNFree := by
  induction inside with
  | here => exact free
  | part member _ ih => exact ih (free.of_part member)

end Inside

/-- Only the numbers in keys matter: the parts of a dictionary are compared under keys that were
found equal before. -/
theorem equals_comm {K : Value → Prop} (separated : Separated K) {a b : Value} (free : a.NaNFree)
    (free' : b.NaNFree) (left : ∀ w : Value, w.InKey a → K w)
    (right : ∀ w : Value, w.InKey b → K w) : a.equals b = b.equals a := by
  induction size : sizeOf a using Nat.strongRecOn generalizing a b with
  | ind n ih =>
    subst size
    have parts : ∀ p ∈ a.parts, ∀ q ∈ b.parts, p.equals q = q.equals p := by
      intro p first q second
      refine ih (sizeOf p) (free.sizeOf_lt first) (free.of_part first) (free'.of_part second)
        ?_ ?_ rfl
      · rintro w ⟨d, key, inside, isKey, within⟩
        exact left w ⟨d, key, .part first inside, isKey, within⟩
      · rintro w ⟨d, key, inside, isKey, within⟩
        exact right w ⟨d, key, .part second inside, isKey, within⟩
    have keysLeft : ∀ k ∈ a.keys, K k := fun k member =>
      left k ⟨a, k, .here a, member, .here k⟩
    have keysRight : ∀ k ∈ b.keys, K k := fun k member =>
      right k ⟨b, k, .here b, member, .here k⟩
    rw [Bool.eq_iff_iff]
    exact ⟨symm_of_parts free separated.equivalenceOn keysLeft keysRight parts,
      symm_of_parts free' separated.equivalenceOn keysRight keysLeft
        fun q second p first => (parts p first q second).symm⟩

theorem separated_of_inKey {a b : Value} (free : a.NaNFree) (free' : b.NaNFree)
    (separates : Separates fun w => w.InKey a ∨ w.InKey b) :
    Separated fun w => w.InKey a ∨ w.InKey b := by
  have isFree {v w : Value} (free : v.NaNFree) (within : w.InKey v) : w.NaNFree :=
    free.of_inside within.inside
  have closed {v w part : Value} (within : w.InKey v) (member : part ∈ w.parts) : part.InKey v := by
    obtain ⟨d, key, inside, isKey, within⟩ := within
    exact ⟨d, key, inside, isKey, within.of_part member⟩
  exact ⟨fun _ within => within.elim (isFree free) (isFree free'),
    fun _ within _ member => within.imp (closed · member) (closed · member), separates⟩

theorem separated_of_inside {vs : List Value} (free : ∀ v ∈ vs, v.NaNFree)
    (separates : Separates fun w => ∃ v ∈ vs, w.Inside v) :
    Separated fun w => ∃ v ∈ vs, w.Inside v where
  free := fun _ ⟨v, member, inside⟩ => (free v member).of_inside inside
  parts := fun _ ⟨v, member, inside⟩ _ isPart => ⟨v, member, inside.of_part isPart⟩
  separates := separates

/-- Equality of data is reflexive. It is symmetric unless a double in a key of a dictionary is equal
to two different integers in such keys, and transitive unless a double anywhere in the three values
is equal to two different integers in them. On data with all its parts it is an equivalence relation
if and only if no double is equal to two different integers. None is if the integers have fewer than
fifty-four binary digits. -/
theorem equals_on_data :
    (∀ a : Value, a.NaNFree → a.equals a = true) ∧
    (∀ a b : Value, a.NaNFree → b.NaNFree → Separates (fun w => w.InKey a ∨ w.InKey b) →
      a.equals b = b.equals a) ∧
    (∀ a b c : Value, a.NaNFree → b.NaNFree → c.NaNFree →
      Separates (fun w => ∃ v ∈ [a, b, c], w.Inside v) →
        a.equals b = true → b.equals c = true → a.equals c = true) ∧
    (∀ S : Value → Prop, (∀ v, S v → v.NaNFree) → (∀ v, S v → ∀ part ∈ v.parts, S part) →
      (EquivalenceOn S ↔ Separates S)) ∧
    ∀ S : Value → Prop, (∀ i : Int64, S (int i) → i.toInt.natAbs < 2 ^ 53) → Separates S := by
  refine ⟨fun a free => free.equals_self, ?_, ?_, ?_, fun S => separates_of_small⟩
  · intro a b free free' separates
    exact equals_comm (separated_of_inKey free free' separates) free free' (fun _ => .inl)
      (fun _ => .inr)
  · intro a b c free free' free'' separates
    have allFree : ∀ v ∈ [a, b, c], v.NaNFree := by
      simp only [List.forall_mem_cons, List.not_mem_nil, false_implies, implies_true, and_true]
      exact ⟨free, free', free''⟩
    refine (separated_of_inside allFree separates).equivalenceOn.trans a b c ?_ ?_ ?_
    · exact ⟨a, by simp, .here a⟩
    · exact ⟨b, by simp, .here b⟩
    · exact ⟨c, by simp, .here c⟩
  · intro S free parts
    refine ⟨EquivalenceOn.separates, fun separates => ?_⟩
    exact Separated.equivalenceOn ⟨free, parts, separates⟩

/-- `{1: 'a'}`, `{1.0: 'a'}` and `{True: 'a'}`. -/
theorem equals_on_data_keys :
    let under (key : Value) : Value := dict [(key, str "a")]
    (under (int 1)).equals (under (float 1.0)) = (under (float 1.0)).equals (under (int 1)) ∧
      (under (int 1)).equals (under (bool true)) = true := by
  intro under
  obtain ⟨-, symmetric, transitive, -, small⟩ := equals_on_data
  have free {key : Value} (free : key.NaNFree) : (under key).NaNFree :=
    .dict (List.forall_mem_singleton.mpr free) (List.forall_mem_singleton.mpr (.str "a"))
      (List.pairwise_singleton _ _)
  have freeInt := free (.int 1)
  have freeFloat := free (.float (x := 1.0) (by decide))
  have freeBool := free (.bool true)
  have isKey {i : Int64} {key : Value} (atomic : key.parts = [])
      (inside : (int i).Inside (under key)) : int i = key := by
    cases inside with
    | part member inner =>
      rcases List.mem_cons.mp member with rfl | last
      · exact inner.eq_of_parts atomic
      · rw [List.mem_singleton.mp last] at inner
        cases inner.eq_of_parts rfl
  have one {i : Int64} {key : Value} (member : key ∈ [int 1, float 1.0, bool true])
      (inside : (int i).Inside (under key)) : i.toInt.natAbs < 2 ^ 53 := by
    simp only [List.mem_cons, List.not_mem_nil, or_false] at member
    rcases member with rfl | rfl | rfl
    · cases isKey rfl inside
      decide
    · cases isKey rfl inside
    · cases isKey rfl inside
  constructor
  · refine symmetric _ _ freeInt freeFloat (small _ fun i within => ?_)
    rcases within with inKey | inKey
    · exact one (by simp) inKey.inside
    · exact one (by simp) inKey.inside
  · refine transitive _ (under (float 1.0)) _ freeInt freeFloat freeBool
      (small _ fun i within => ?_) (by decide +kernel) (by decide +kernel)
    obtain ⟨v, member, inside⟩ := within
    simp only [List.mem_cons, List.not_mem_nil, or_false] at member
    rcases member with rfl | rfl | rfl
    · exact one (by simp) inside
    · exact one (by simp) inside
    · exact one (by simp) inside

/-- Two integers are equal to the double that both are rounded to, and not to each other. As keys
they make equality of dictionaries one-sided. -/
theorem equals_through_rounding :
    let i : Value := int 9007199254740992
    let x : Value := float 9007199254740992.0
    let j : Value := int 9007199254740993
    let integers : Value := dict [(i, none), (j, none)]
    let other : Value := dict [(x, none), (str "k", none)]
    (i.NaNFree ∧ x.NaNFree ∧ j.NaNFree ∧ integers.NaNFree ∧ other.NaNFree) ∧
      (i.equals x = true ∧ x.equals j = true ∧ i.equals j = false) ∧
      integers.equals other = true ∧ other.equals integers = false := by
  intro i x j integers other
  have number : x.NaNFree := .float (by decide)
  have free {key key' : Value} (first : key.NaNFree) (second : key'.NaNFree)
      (apart : key.equals key' = false) : (dict [(key, none), (key', none)]).NaNFree :=
    .dict (List.forall_mem_cons.mpr ⟨first, List.forall_mem_singleton.mpr second⟩)
      (List.forall_mem_cons.mpr ⟨.none, List.forall_mem_singleton.mpr .none⟩)
      (List.pairwise_pair.mpr apart)
  have apart : i.equals j = false := by decide +kernel
  have apart' : x.equals (str "k") = false := by decide +kernel
  exact ⟨⟨.int _, number, .int _, free (.int _) (.int _) apart, free number (.str "k") apart'⟩,
    ⟨by decide +kernel, by decide +kernel, apart⟩, by decide +kernel, by decide +kernel⟩

end Value

end DocExamples.Script
