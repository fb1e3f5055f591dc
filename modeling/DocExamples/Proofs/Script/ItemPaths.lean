import DocExamples.Proofs.Script.ArrayShapes
/-!
Chains of literal subscripts, as in `x[0]['a'][-1]`: what they lead to in nested lists and
dictionaries, and what a store at their end makes of the value of `x`.
-/
namespace DocExamples.Script

/-- A literal subscript: a number, one with a minus sign, or a text. -/
inductive Key where
  | int (i : Int64)
  | negated (i : Int64) (natural : 0 ≤ i.toInt)
  | text (s : String)

namespace Key

def expr : Key → Expr
  | int i => .int i
  | negated i _ => .unary .neg (.int i)
  | text s => .str s

def value : Key → Value
  | int i => .int i
  | negated i _ => .int (Int64.ofInt (-i.toInt))
  | text s => .str s

theorem equals_value (key : Key) : key.value.equals key.value = true := by
  cases key <;> simp [value, Value.equals, Value.equalScalars]

theorem run_evalSubscript (call : Caller) (key : Key) (m : Machine) :
    (evalSubscript call key.expr).run m = (.ok (.item key.value), m) := by
  cases key with
  | int i =>
    simp only [expr, evalSubscript, evalExpr]
    rfl
  | negated i natural =>
    have fits : Integer.fits (-i.toInt) = true := by
      have bounds := (Integer.fits_iff _).mp (Integer.fits_toInt i)
      simp only [Integer.least, Integer.greatest] at bounds
      rw [Integer.fits_iff, Integer.least, Integer.greatest]
      omega
    have negation : Script.unary .neg (.int i) = .ok (.int (Int64.ofInt (-i.toInt))) := by
      rw [Script.unary, exactInt, Integer.word?, if_pos fits]
      rfl
    simp only [expr, evalSubscript, evalExpr]
    change ((fun v => Subscript.item v) <$> lift (Script.unary .neg (.int i))).run m = _
    rw [negation]
    rfl
  | text s =>
    simp only [expr, evalSubscript, evalExpr]
    rfl

end Key

/-- An expression with subscripts after it. -/
def Expr.subscripted (e : Expr) (path : List Key) : Expr :=
  path.foldl (fun e key => .index e key.expr) e

namespace Value

/-- What subscripts lead to, one after another. -/
def along (v : Value) (path : List Key) : Except Fault Value :=
  path.foldlM (fun c key => getItem c (.item key.value)) v

/-- The position of the item or the entry that a subscript denotes. -/
def slot? (key : Key) : Value → Option Nat
  | list items => key.value.asInt?.bind (position? · items.size)
  | dict entries => entries.findIdx? (·.1.equals key.value)
  | _ => Option.none

/-- The item or the value of the entry at a position. -/
def part? (i : Nat) : Value → Option Value
  | list items => items[i]?
  | dict entries => entries[i]?.map (·.2)
  | _ => Option.none

/-- Lists of the same length, or dictionaries with the same keys in the same order. -/
inductive SameOutline : Value → Value → Prop where
  | list {items more : Array Value} (size : items.size = more.size) :
    SameOutline (.list items) (.list more)
  | dict {entries more : List (Value × Value)} (keys : entries.map (·.1) = more.map (·.1)) :
    SameOutline (.dict entries) (.dict more)

/-- What storing under a subscript may do to a list or a dictionary: it changes one part and no
other, or adds an entry at the end. -/
inductive Stored (c : Value) (key : Key) (w : Value) (c' : Value) : Prop where
  | put (i : Nat) (slot : c.slot? key = some i) (outline : c.SameOutline c')
    (here : c'.part? i = some w) (others : ∀ j, j ≠ i → c'.part? j = c.part? j)
  | added (entries : List (Value × Value)) (absent : c.slot? key = Option.none)
    (before : c = .dict entries) (after : c' = .dict (entries ++ [(key.value, w)]))

variable {c c' v v' w : Value} {key other : Key} {path : List Key} {i j : Nat}

theorem along_cons (v : Value) (key : Key) (path : List Key) :
    v.along (key :: path) = (getItem v (.item key.value)).bind (·.along path) :=
  List.foldlM_cons

theorem along_concat (v : Value) (path : List Key) (key : Key) :
    v.along (path ++ [key]) = (v.along path).bind fun c => getItem c (.item key.value) := by
  rw [along, List.foldlM_append]
  refine congrArg _ (funext fun c => ?_)
  rw [List.foldlM_cons]
  cases getItem c (.item key.value) <;> rfl

theorem SameOutline.slot? (same : c.SameOutline c') (key : Key) : c'.slot? key = c.slot? key := by
  cases same with
  | list size => rw [Value.slot?, Value.slot?, size]
  | dict keys =>
    have onKeys (entries : List (Value × Value)) : entries.findIdx? (·.1.equals key.value) =
        (entries.map (·.1)).findIdx? (·.equals key.value) := by
      rw [List.findIdx?_map]
      rfl
    rw [Value.slot?, Value.slot?, onKeys, onKeys, keys]

theorem getItem_list_eq_ok {items : Array Value} :
    getItem (.list items) (.item key.value) = .ok w ↔
      ((list items).slot? key).bind ((list items).part? ·) = some w := by
  rw [getItem, slot?]
  cases number : key.value.asInt? with
  | none => simp [itemAt, indexOf, number, bind, Except.bind]
  | some index =>
    rw [itemAt, indexOf, number, Option.bind_some]
    change _ ↔ (position? index items.size).bind (items[·]?) = some w
    cases found : (position? index items.size).bind (items[·]?) <;>
      simp [bind, Except.bind, found, throw, throwThe, MonadExceptOf.throw, pure, Except.pure]

theorem getItem_dict_eq_ok {entries : List (Value × Value)} :
    getItem (.dict entries) (.item key.value) = .ok w ↔
      ((dict entries).slot? key).bind ((dict entries).part? ·) = some w := by
  have value : ((dict entries).slot? key).bind ((dict entries).part? ·) =
      underKey? entries key.value := by
    unfold underKey?
    rw [List.find?_eq_bind_findIdx?_getElem?, Option.map_bind]
    rfl
  rw [value]
  cases found : underKey? entries key.value <;>
    simp [getItem, Subscript.toKey, found, bind, Except.bind, throw, throwThe, MonadExceptOf.throw,
      pure, Except.pure]

theorem SameOutline.getItem_eq_ok (same : c.SameOutline c') :
    getItem c' (.item key.value) = .ok w ↔ (c.slot? key).bind (c'.part? ·) = some w := by
  rw [← same.slot? key]
  cases same with
  | list size => exact getItem_list_eq_ok
  | dict keys => exact getItem_dict_eq_ok

theorem SameOutline.refl_of_slot (slot : c.slot? key = some i) : c.SameOutline c := by
  cases c <;> first | exact .list rfl | exact .dict rfl | cases slot

theorem exists_part (slot : c.slot? key = some i) : ∃ u, c.part? i = some u := by
  cases c with
  | list items =>
    obtain ⟨index, -, position⟩ := Option.bind_eq_some_iff.mp slot
    have within : i < items.size := position_lt position
    exact ⟨items[i], Array.getElem?_eq_getElem within⟩
  | dict entries =>
    obtain ⟨within, -⟩ := List.findIdx?_eq_some_iff_getElem.mp slot
    exact ⟨entries[i].2, by rw [part?, List.getElem?_eq_getElem within, Option.map_some]⟩
  | _ => cases slot

theorem getItem_of_slot (slot : c.slot? key = some i) (part : c.part? i = some w) :
    getItem c (.item key.value) = .ok w := by
  rw [(SameOutline.refl_of_slot slot).getItem_eq_ok, slot, Option.bind_some, part]

theorem getItem_alias (slot : c.slot? key = some i) (same : c.slot? other = some i) :
    getItem c (.item other.value) = getItem c (.item key.value) := by
  obtain ⟨u, part⟩ := exists_part slot
  rw [getItem_of_slot slot part, getItem_of_slot same part]

/-- Containers of one outline with the same parts are the same. -/
theorem SameOutline.eq (same : c.SameOutline c') (parts : ∀ i, c'.part? i = c.part? i) :
    c' = c := by
  cases same with
  | list size => exact congrArg Value.list (Array.ext_getElem? parts)
  | dict keys =>
    next entries more =>
    have values : more.map (·.2) = entries.map (·.2) := by
      apply List.ext_getElem?
      intro i
      rw [List.getElem?_map, List.getElem?_map]
      exact parts i
    exact congrArg Value.dict
      ((List.zip_of_prod keys.symm values).trans (List.zip_of_prod rfl rfl).symm)

theorem stored_list {items : Array Value}
    (found : storePosition items.size (.item key.value) = .ok i) :
    Stored (.list items) key w (.list (items.setIfInBounds i w)) := by
  have slot : (list items).slot? key = some i := by
    obtain ⟨index, number, found⟩ := bind_eq_ok.mp found
    rw [slot?]
    rw [indexOf] at number
    cases asInt : key.value.asInt? with
    | none => rw [asInt] at number; cases number
    | some n =>
      rw [asInt] at number
      cases number
      cases position : position? index items.size with
      | none => rw [position] at found; cases found
      | some p =>
        rw [position] at found
        cases found
        exact position
  have within : i < items.size := by
    obtain ⟨index, -, position⟩ := Option.bind_eq_some_iff.mp slot
    exact position_lt position
  refine .put i slot (.list Array.size_setIfInBounds.symm) ?_ fun j other => ?_
  · exact (Array.getElem?_setIfInBounds).trans (by rw [if_pos rfl, if_pos within])
  · exact (Array.getElem?_setIfInBounds).trans (if_neg (Ne.symm other))

theorem stored_dict (entries : List (Value × Value)) :
    Stored (.dict entries) key w (.dict (putEntry key.value w entries)) := by
  rcases putEntry_cases key.value w entries with ⟨i, found, within, put⟩ | ⟨absent, put⟩
  · rw [put]
    refine .put i found (.dict ?_) ?_ fun j other => ?_
    · apply List.ext_getElem?
      intro j
      by_cases here : i = j <;> simp [here, Function.comp_def]
    · simp [part?, within]
    · simp [part?, Ne.symm other]
  · exact .added entries absent rfl (congrArg dict put)

/-- A store into anything but an array. -/
theorem stored_of_storeEdit {e : Edit} (plain : ∀ t, c ≠ .tensor t)
    (made : storeEdit c (.item key.value) w = .ok e) : c.Stored key w (e.apply c) := by
  cases c with
  | list items =>
    obtain ⟨i, found, given⟩ := bind_eq_ok.mp made
    cases given
    exact stored_list found
  | dict entries =>
    cases made
    exact stored_dict entries
  | tensor t => exact absurd rfl (plain t)
  | _ => cases made

namespace Stored

theorem getItem_key (stored : c.Stored key w c') : getItem c' (.item key.value) = .ok w := by
  cases stored with
  | put i slot outline here others =>
    rw [outline.getItem_eq_ok, slot, Option.bind_some, here]
  | added entries absent before after =>
    subst before after
    refine getItem_dict_eq_ok.mpr ?_
    have slot : (dict (entries ++ [(key.value, w)])).slot? key = some entries.length := by
      have absent : entries.findIdx? (·.1.equals key.value) = Option.none := absent
      rw [Value.slot?, List.findIdx?_append, absent]
      simp [List.findIdx?_cons, key.equals_value]
    rw [slot, Option.bind_some]
    simp [part?]

/-- A subscript that denotes the same part. -/
theorem getItem_alias (stored : c.Stored key w c') (slot : c.slot? key = some i)
    (same : c.slot? other = some i) : getItem c' (.item other.value) = .ok w := by
  cases stored with
  | put j slot' outline here others =>
    obtain rfl : i = j := Option.some.inj (slot.symm.trans slot')
    rw [outline.getItem_eq_ok, same, Option.bind_some, here]
  | added entries absent before after => exact nomatch absent.symm.trans slot

/-- A subscript that denotes another part. -/
theorem getItem_other (stored : c.Stored key w c') (slot : c.slot? other = some i)
    (apart : c.slot? key ≠ some i) :
    getItem c' (.item other.value) = getItem c (.item other.value) := by
  obtain ⟨u, part⟩ := exists_part slot
  rw [getItem_of_slot slot part]
  cases stored with
  | put j slot' outline here others =>
    have distinct : i ≠ j := fun same => apart (same ▸ slot')
    rw [outline.getItem_eq_ok, slot, Option.bind_some, others i distinct, part]
  | added entries absent same after =>
    subst same after
    obtain ⟨within, -⟩ := List.findIdx?_eq_some_iff_getElem.mp slot
    have slot' : (dict (entries ++ [(key.value, w)])).slot? other = some i := by
      have slot : entries.findIdx? (·.1.equals other.value) = some i := slot
      rw [slot?, List.findIdx?_append, slot, Option.some_or]
    rw [getItem_dict_eq_ok, slot', Option.bind_some, part?, List.getElem?_append_left within]
    exact part

/-- Storing what is there changes nothing. -/
theorem eq_of_getItem (stored : c.Stored key w c') (there : getItem c (.item key.value) = .ok w) :
    c' = c := by
  cases stored with
  | put i slot outline here others =>
    rw [(SameOutline.refl_of_slot slot).getItem_eq_ok, slot, Option.bind_some] at there
    refine outline.eq fun j => ?_
    by_cases same : j = i
    · rw [same, here, there]
    · exact others j same
  | added entries absent before after =>
    subst before
    rw [getItem_dict_eq_ok, absent] at there
    cases there

end Stored

/-- What an array gives is an array or a scalar. -/
theorem eq_toValue_of_getItem {t : Tensor} {s : Subscript} (item : getItem (.tensor t) s = .ok v) :
    ∃ t' : Tensor, v = t'.toValue := by
  obtain ⟨selection, -, given⟩ := bind_eq_ok.mp item
  cases given
  exact ⟨_, rfl⟩

theorem not_stored_toValue {t : Tensor} (stored : t.toValue.Stored key w c') : False := by
  obtain ⟨data, shape, kind⟩ := t
  cases shape <;> cases kind <;> cases stored with
    | put i slot => cases slot
    | added entries absent before => cases before

/-- What storing at the end of a path may do to a value: every container that the path leads
through is stored where it came from. -/
inductive StoredAlong (key : Key) (w : Value) : Value → List Key → Value → Prop where
  | last {c c' : Value} (stored : Stored c key w c') : StoredAlong key w c [] c'
  | inner {c d d' c' : Value} {first : Key} {rest : List Key}
    (item : getItem c (.item first.value) = .ok d) (below : StoredAlong key w d rest d')
    (stored : Stored c first d' c') : StoredAlong key w c (first :: rest) c'

/-- The second path leads to another part than the first one, at some level. -/
inductive Diverges : Value → List Key → List Key → Prop where
  | here {c : Value} {key other : Key} {rest more : List Key} {i : Nat}
    (slot : c.slot? other = some i) (apart : c.slot? key ≠ some i) :
    Diverges c (key :: rest) (other :: more)
  | later {c d : Value} {key other : Key} {rest more : List Key} {i : Nat}
    (slot : c.slot? key = some i) (same : c.slot? other = some i)
    (item : getItem c (.item key.value) = .ok d) (apart : Diverges d rest more) :
    Diverges c (key :: rest) (other :: more)

namespace StoredAlong

theorem along_key (stored : StoredAlong key w v path v') : v'.along (path ++ [key]) = .ok w := by
  induction stored with
  | last stored =>
    rw [List.nil_append, along_cons, stored.getItem_key]
    rfl
  | inner item below stored ih =>
    rw [List.cons_append, along_cons, stored.getItem_key]
    exact ih

theorem along_other {q : List Key} (stored : StoredAlong key w v path v')
    (apart : Diverges v (path ++ [key]) q) : v'.along q = v.along q := by
  induction stored generalizing q with
  | last stored =>
    cases apart with
    | here slot apart => rw [along_cons, along_cons, stored.getItem_other slot apart]
    | later slot same item apart => cases apart
  | inner item below stored ih =>
    cases apart with
    | here slot apart => rw [along_cons, along_cons, stored.getItem_other slot apart]
    | later slot same item' apart =>
      cases item.symm.trans item'
      rw [along_cons, along_cons, stored.getItem_alias slot same, getItem_alias slot same, item]
      exact ih apart

/-- Containers on the way keep their outlines, but for an entry that is added to the last. -/
theorem outline {front : List Key} (stored : StoredAlong key w v path v')
    (onTheWay : front <+: path) (there : v.along front = .ok c) :
    ∃ c', v'.along front = .ok c' ∧ (c.SameOutline c' ∨ front = path ∧ c.slot? key = .none ∧
      ∃ entries, c = .dict entries ∧ c' = .dict (entries ++ [(key.value, w)])) := by
  induction stored generalizing front with
  | last stored =>
    obtain rfl := List.prefix_nil.mp onTheWay
    cases there
    refine ⟨_, rfl, ?_⟩
    cases stored with
    | put i slot outline here others => exact .inl outline
    | added entries absent before after => exact .inr ⟨rfl, absent, entries, before, after⟩
  | inner item below stored ih =>
    cases front with
    | nil =>
      cases there
      refine ⟨_, rfl, .inl ?_⟩
      cases stored with
      | put i slot outline here others => exact outline
      | added entries absent before after =>
        subst before
        rw [getItem_dict_eq_ok, absent] at item
        cases item
    | cons k front =>
      obtain ⟨rfl, further⟩ := List.cons_prefix_cons.mp onTheWay
      rw [along_cons, item] at there
      obtain ⟨c', found, outlines⟩ := ih further there
      refine ⟨c', ?_, ?_⟩
      · rw [along_cons, stored.getItem_key]
        exact found
      · rw [List.cons.injEq, eq_self, true_and]
        exact outlines

theorem concat (there : v.along path = .ok c) {k : Key} {d d' : Value}
    (item : getItem c (.item k.value) = .ok d) (stored : Stored d key w d')
    (outer : StoredAlong k d' v path v') : StoredAlong key w v (path ++ [k]) v' := by
  induction outer with
  | last stored' =>
    cases there
    exact .inner item (.last stored) stored'
  | inner item' below stored' ih =>
    rw [along_cons, item'] at there
    exact .inner item' (ih there) stored'

end StoredAlong

end Value

end DocExamples.Script
