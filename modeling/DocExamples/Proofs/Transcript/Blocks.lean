import DocExamples.Proofs.Transcript.Steps
import Mathlib.Data.List.Chain
/-!
How the reader numbers blocks. The first block has the number 0, and each example belongs to the
block of the example before it or to the next one; so the number of blocks is one more than the
last number.
-/
namespace DocExamples

/-- Each number is the one before it or one more. -/
def Rising (numbers : List Nat) : Prop := numbers.IsChain fun a b => b = a ∨ b = a + 1

theorem rising_cons_cons {a b : Nat} {rest : List Nat} :
    Rising (a :: b :: rest) ↔ (b = a ∨ b = a + 1) ∧ Rising (b :: rest) :=
  List.isChain_cons_cons

theorem rising_concat {numbers : List Nat} {b : Nat} :
    Rising (numbers ++ [b]) ↔
      Rising numbers ∧ ∀ a, numbers.getLast? = some a → b = a ∨ b = a + 1 := by
  simp [Rising, List.isChain_append]

theorem blocksFrom_ne_nil (start : Nat) (e : Example) (rest : List Example) :
    blocksFrom start (e :: rest) ≠ [] := by
  rw [blocksFrom.eq_def]
  dsimp only
  split
  · split <;> exact List.cons_ne_nil _ _
  · exact List.cons_ne_nil _ _

theorem length_blocksFrom_cons (start : Nat) (e next : Example) (rest : List Example) :
    (blocksFrom start (e :: next :: rest)).length =
      (blocksFrom (start + 1) (next :: rest)).length + if e.block = next.block then 0 else 1 := by
  rw [blocksFrom.eq_def]
  dsimp only
  cases later : blocksFrom (start + 1) (next :: rest) with
  | nil => exact absurd later (blocksFrom_ne_nil _ _ _)
  | cons b bs => by_cases same : e.block = next.block <;> simp [same]

theorem length_blocksFrom (start : Nat) {examples : List Example} {first last : Example}
    (rising : Rising (examples.map (·.block))) (head : examples.head? = some first)
    (final : examples.getLast? = some last) :
    (blocksFrom start examples).length + first.block = last.block + 1 := by
  induction examples generalizing start first with
  | nil => cases head
  | cons e rest ih =>
    cases head
    cases rest with
    | nil =>
      cases final
      exact Nat.add_comm 1 _
    | cons next rest =>
      rw [List.map_cons, List.map_cons, rising_cons_cons] at rising
      have later := ih (start + 1) rising.2 rfl final
      rw [length_blocksFrom_cons]
      by_cases same : e.block = next.block
      · rw [if_pos same]
        omega
      · rw [if_neg same]
        have next := rising.1
        omega

/-! ### Blocks as intervals -/

/-- The blocks cover the positions from `start` up to `stop` one after another, and none is empty. -/
def Tiles : Nat → List Block → Nat → Prop
  | start, [], stop => start = stop
  | start, b :: bs, stop => b.start = start ∧ b.start < b.stop ∧ Tiles b.stop bs stop

namespace Block

def Holds (b : Block) (position : Nat) : Prop := b.start ≤ position ∧ position < b.stop

end Block

theorem Tiles.start_le {start stop : Nat} {bs : List Block} (tiles : Tiles start bs stop)
    {b : Block} (member : b ∈ bs) : start ≤ b.start := by
  induction bs generalizing start with
  | nil => cases member
  | cons first bs ih =>
    obtain ⟨same, filled, later⟩ := tiles
    rcases List.mem_cons.mp member with rfl | member
    · exact Nat.le_of_eq same.symm
    · have := ih later member
      omega

/-- No position is in two blocks. -/
theorem Tiles.unique {start stop position j k : Nat} {bs : List Block} {a b : Block}
    (tiles : Tiles start bs stop) (atJ : bs[j]? = some a) (atK : bs[k]? = some b)
    (inA : a.Holds position) (inB : b.Holds position) : j = k := by
  induction bs generalizing start j k with
  | nil => simp at atJ
  | cons first bs ih =>
    obtain ⟨-, filled, later⟩ := tiles
    have apart {c : Block} (member : c ∈ bs) (inFirst : first.Holds position)
        (inC : c.Holds position) : False := by
      have := later.start_le member
      unfold Block.Holds at inFirst inC
      omega
    cases j with
    | zero =>
      cases k with
      | zero => rfl
      | succ k =>
        cases atJ
        exact (apart (List.mem_of_getElem? atK) inA inB).elim
    | succ j =>
      cases k with
      | zero =>
        cases atK
        exact (apart (List.mem_of_getElem? atJ) inB inA).elim
      | succ k => rw [ih later atJ atK]

theorem blocksFrom_cons_cons (start : Nat) (e next : Example) (rest : List Example) :
    ∃ b bs, blocksFrom (start + 1) (next :: rest) = b :: bs ∧
      blocksFrom start (e :: next :: rest) =
        if e.block = next.block then ⟨start, b.stop⟩ :: bs else ⟨start, start + 1⟩ :: b :: bs := by
  cases later : blocksFrom (start + 1) (next :: rest) with
  | nil => exact absurd later (blocksFrom_ne_nil _ _ _)
  | cons b bs =>
    refine ⟨b, bs, rfl, ?_⟩
    rw [blocksFrom.eq_def]
    simp only [later]

theorem tiles_blocksFrom (start : Nat) (es : List Example) :
    Tiles start (blocksFrom start es) (start + es.length) := by
  induction es generalizing start with
  | nil => rfl
  | cons e rest ih =>
    cases rest with
    | nil => exact ⟨rfl, Nat.lt_succ_self _, rfl⟩
    | cons next rest =>
      obtain ⟨b, bs, later, here⟩ := blocksFrom_cons_cons start e next rest
      have tiles := ih (start + 1)
      rw [later] at tiles
      obtain ⟨first, filled, onward⟩ := tiles
      have stop : start + (e :: next :: rest).length = start + 1 + (next :: rest).length := by
        simp only [List.length_cons]
        omega
      rw [here, stop]
      split
      · have longer : start < b.stop := by omega
        exact ⟨rfl, longer, onward⟩
      · exact ⟨rfl, Nat.lt_succ_self _, first, filled, onward⟩

theorem Rising.head_le {a : Nat} {rest : List Nat} (rising : Rising (a :: rest)) :
    ∀ b ∈ rest, a ≤ b := by
  induction rest generalizing a with
  | nil => intro b none; cases none
  | cons next rest ih =>
    obtain ⟨step, later⟩ := rising_cons_cons.mp rising
    intro b member
    rcases List.mem_cons.mp member with rfl | member
    · omega
    · have := ih later b member
      omega

/-- Counted from the number of the first example, the number of an example is the index of the
block that holds its position. -/
theorem holds_blocksFrom (start : Nat) {first e : Example} {rest : List Example} {i : Nat}
    (rising : Rising ((first :: rest).map (·.block))) (here : (first :: rest)[i]? = some e) :
    ∃ b, (blocksFrom start (first :: rest))[e.block - first.block]? = some b ∧
      b.Holds (start + i) := by
  induction rest generalizing start first i with
  | nil =>
    cases i with
    | zero =>
      cases here
      exact ⟨⟨start, start + 1⟩, by simp [blocksFrom], Nat.le_refl _, Nat.lt_succ_self _⟩
    | succ i => simp at here
  | cons next rest ih =>
    obtain ⟨b, bs, later, blocks⟩ := blocksFrom_cons_cons start first next rest
    obtain ⟨step, onward⟩ := rising_cons_cons.mp rising
    change next.block = first.block ∨ next.block = first.block + 1 at step
    have tiles := tiles_blocksFrom (start + 1) (next :: rest)
    rw [later] at tiles
    obtain ⟨begins, filled, -⟩ := tiles
    cases i with
    | zero =>
      cases here
      rw [blocks, Nat.sub_self]
      split
      · exact ⟨_, rfl, Nat.le_refl _, by dsimp only; omega⟩
      · exact ⟨_, rfl, Nat.le_refl _, Nat.lt_succ_self _⟩
    | succ i =>
      change (next :: rest)[i]? = some e at here
      obtain ⟨holder, found, holds⟩ := ih (start + 1) onward here
      rw [later] at found
      have position : start + 1 + i = start + (i + 1) := by omega
      rw [position] at holds
      have atLeast : next.block ≤ e.block := by
        rcases List.mem_cons.mp (List.mem_of_getElem? here) with rfl | member
        · exact Nat.le_refl _
        · exact onward.head_le _ (List.mem_map_of_mem member)
      rw [blocks]
      split
      · next same =>
        rw [same]
        cases number : e.block - next.block with
        | zero =>
          rw [number] at found
          cases found
          obtain ⟨low, high⟩ := holds
          exact ⟨_, rfl, by dsimp only; omega, high⟩
        | succ k =>
          rw [number] at found
          exact ⟨holder, found, holds⟩
      · next other =>
        have number : e.block - first.block = e.block - next.block + 1 := by omega
        rw [number]
        exact ⟨holder, found, holds⟩

theorem holds_blocksOf_iff {es : List Example} (rising : Rising (es.map (·.block)))
    (first : ∀ e, es.head? = some e → e.block = 0) {k i : Nat} {b : Block} {e : Example}
    (found : (blocksOf es)[k]? = some b) (here : es[i]? = some e) : e.block = k ↔ b.Holds i := by
  cases es with
  | nil => simp at here
  | cons head rest =>
    obtain ⟨holder, own, holds⟩ := holds_blocksFrom 0 rising here
    rw [first head rfl, Nat.sub_zero] at own
    rw [Nat.zero_add] at holds
    constructor
    · rintro rfl
      rw [blocksOf, own] at found
      cases found
      exact holds
    · intro inBlock
      exact (tiles_blocksFrom 0 (head :: rest)).unique own found holds inBlock

/-- Blocks depend on the numbers of the examples only. -/
theorem blocksOf_map {f : Example → Example} (same : ∀ e, (f e).block = e.block)
    (examples : List Example) : blocksOf (examples.map f) = blocksOf examples := by
  have sameFrom (start : Nat) : blocksFrom start (examples.map f) = blocksFrom start examples := by
    induction examples generalizing start with
    | nil => rfl
    | cons e rest ih =>
      rw [List.map_cons, blocksFrom.eq_def, blocksFrom.eq_def start (e :: rest)]
      dsimp only
      rw [ih]
      cases rest with
      | nil => rfl
      | cons next rest =>
        rw [List.map_cons, same e]
        cases blocksFrom (start + 1) (next :: rest) with
        | nil => rfl
        | cons b bs =>
          dsimp only
          rw [same next]
  exact sameFrom 0

namespace Transcript.State

variable {settings : Settings} {st st' : State}

theorem block_le_nextBlock (st : State) : st.block ≤ st.nextBlock := by
  rw [nextBlock]
  split
  · exact Nat.le_succ _
  · exact Nat.le_refl _

/-- The numbers of blocks that the examples so far have. -/
structure Numbered (st : State) : Prop where
  rising : Rising (st.examples.reverse.map (·.block))
  first : ∀ e, st.examples.getLast? = some e → e.block = 0
  last : ∀ e, st.examples.head? = some e → e.block = st.block
  atMost : ∀ e ∈ st.examples, e.block ≤ st.block
  unused : st.examples = [] → st.block = 0

theorem numbered_start : start.Numbered where
  rising := List.IsChain.nil
  first _ member := nomatch member
  last _ member := nomatch member
  atMost _ member := nomatch member
  unused _ := rfl

theorem Numbered.congr (numbered : st.Numbered) (examples : st'.examples = st.examples)
    (block : st'.block = st.block) : st'.Numbered where
  rising := examples ▸ numbered.rising
  first := examples ▸ numbered.first
  last := by
    rw [examples, block]
    exact numbered.last
  atMost := by
    rw [examples, block]
    exact numbered.atMost
  unused := by
    rw [examples, block]
    exact numbered.unused

theorem Numbered.add (numbered : st.Numbered) {e : Example} (block : e.block = st.nextBlock) :
    (st.add e).Numbered where
  rising := by
    change Rising ((e :: st.examples).reverse.map (·.block))
    rw [List.reverse_cons, List.map_append, List.map_singleton, rising_concat]
    refine ⟨numbered.rising, fun a before => ?_⟩
    rw [List.getLast?_map, List.getLast?_reverse, Option.map_eq_some_iff] at before
    obtain ⟨e', latest, rfl⟩ := before
    rw [block, nextBlock, numbered.last e' latest]
    split
    · exact .inr rfl
    · exact .inl rfl
  first e' final := by
    change (e :: st.examples).getLast? = some e' at final
    cases before : st.examples with
    | nil =>
      rw [before] at final
      have same : e = e' := by simpa using final
      have nextBlock : st.nextBlock = st.block := by simp [nextBlock, before]
      rw [← same, block, nextBlock, numbered.unused before]
    | cons next rest =>
      rw [before, List.getLast?_cons_cons, ← before] at final
      exact numbered.first e' final
  last e' latest := by
    cases latest
    exact block
  atMost e' member := by
    rcases List.mem_cons.mp member with rfl | earlier
    · exact Nat.le_of_eq block
    · exact Nat.le_trans (numbered.atMost e' earlier) st.block_le_nextBlock
  unused none := nomatch none

theorem Numbered.finish (numbered : st.Numbered) (finished : st.finish settings = .ok st') :
    st'.Numbered := by
  rcases finish_eq_ok.mp finished with ⟨-, rfl⟩ | ⟨s, e, -, made, rfl⟩
  · exact numbered
  · obtain ⟨o, rfl⟩ := toExample_eq_ok made
    exact numbered.add rfl

theorem Numbered.reads {line : List Char} (numbered : st.Numbered)
    (reads : Reads settings st line st') : st'.Numbered := by
  cases reads with
  | apart ends closes reads =>
    have closed := numbered.finish closes
    rcases between_cases reads with ⟨-, rfl⟩ | ⟨-, rfl⟩ | ⟨_, _, -, rfl⟩
    all_goals exact closed.congr rfl rfl
  | source | output => exact numbered.congr rfl rfl

theorem numbered_foldlM {lines : List (List Char)}
    (run : lines.foldlM (step settings) start = .ok st) : st.Numbered :=
  foldlM_step_invariant (P := fun _ st => st.Numbered)
    (fun _ _ _ _ numbered reads => numbered.reads reads) [] numbered_start run

theorem numbered_of_finished {lines : List (List Char)}
    (run : start.finished settings lines = .ok st) : st.Numbered := by
  obtain ⟨_, read, closes⟩ := bind_eq_ok.mp run
  exact (numbered_foldlM read).finish closes

/-- How many blocks there are so far. -/
def blocks (st : State) : Nat := if st.examples.isEmpty then 0 else st.block + 1

theorem Numbered.length_blocksOf (numbered : st.Numbered) :
    (blocksOf st.examples.reverse).length = st.blocks := by
  cases before : st.examples with
  | nil => simp [blocks, before, blocksOf, blocksFrom]
  | cons e rest =>
    have final : st.examples.reverse.getLast? = some e := by
      rw [List.getLast?_reverse, before]
      rfl
    obtain ⟨first, head⟩ := Option.isSome_iff_exists.mp
      (List.isSome_head? (l := st.examples.reverse).mpr (by simp [before]))
    have count := length_blocksFrom 0 numbered.rising head final
    rw [List.head?_reverse] at head
    rw [numbered.first first head, numbered.last e (by rw [before]; rfl), before] at count
    rw [blocks, before]
    exact count

theorem Numbered.length_blocksOf_result (numbered : st.Numbered) :
    (blocksOf st.result).length = st.blocks := by
  obtain ⟨o, same⟩ := applyBlockSkips_eq_map st.examples.reverse
  rw [result, same, blocksOf_map, numbered.length_blocksOf]
  exact fun e => rfl

theorem Numbered.block_lt (numbered : st.Numbered) {e : Example} (member : e ∈ st.examples) :
    e.block < st.blocks := by
  rw [blocks, if_neg (by simpa using List.ne_nil_of_mem member)]
  exact Nat.lt_succ_of_le (numbered.atMost e member)

end Transcript.State

end DocExamples
