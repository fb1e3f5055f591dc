/-!
Random numbers: the key stream of the ChaCha cipher with twelve rounds, under a key that a seed
gives. A generator is its key and its place in the stream.
-/
namespace DocExamples.Script

structure Generator where
  /-- Eight words. -/
  key : List UInt32
  /-- How many numbers were drawn. -/
  drawn : Nat
  deriving DecidableEq, Repr

namespace Generator

/-! ### Keys -/

def stepSeed (s : UInt64) : UInt64 := s * 6364136223846793005 + 11634580027462260723

def rotateRight (x : UInt32) (n : UInt32) : UInt32 := (x >>> n) ||| (x <<< ((32 - n) % 32))

/-- The word that a state of the seeding sequence gives. -/
def seedWord (s : UInt64) : UInt32 :=
  rotateRight (((s >>> 18) ^^^ s) >>> 27).toUInt32 (s >>> 59).toUInt32

def keyWords (s : UInt64) : Nat → List UInt32
  | 0 => []
  | n + 1 => seedWord (stepSeed s) :: keyWords (stepSeed s) n

def ofSeed (seed : UInt64) : Generator := ⟨keyWords seed 8, 0⟩

/-! ### Blocks -/

def rotateLeft (x : UInt32) (n : UInt32) : UInt32 := (x <<< n) ||| (x >>> (32 - n))

/-- Mixes the four words at the given places of a block. -/
def quarterRound (x : Array UInt32) (a b c d : Nat) : Array UInt32 :=
  let at' (x : Array UInt32) (i : Nat) : UInt32 := x.getD i 0
  let mix (x : Array UInt32) (sum other changed : Nat) (n : UInt32) : Array UInt32 :=
    let x := x.setIfInBounds sum (at' x sum + at' x other)
    x.setIfInBounds changed (rotateLeft (at' x changed ^^^ at' x sum) n)
  mix (mix (mix (mix x a b d 16) c d b 12) a b d 8) c d b 7

/-- The columns and then the diagonals. -/
def doubleRound (x : Array UInt32) : Array UInt32 :=
  [(0, 4, 8, 12), (1, 5, 9, 13), (2, 6, 10, 14), (3, 7, 11, 15),
    (0, 5, 10, 15), (1, 6, 11, 12), (2, 7, 8, 13), (3, 4, 9, 14)].foldl
      (fun x (a, b, c, d) => quarterRound x a b c d) x

def doubleRounds : Nat → Array UInt32 → Array UInt32
  | 0, x => x
  | n + 1, x => doubleRounds n (doubleRound x)

/-- The state before the rounds: constants, the key, the block's number, no nonce. -/
def blockStart (key : List UInt32) (number : Nat) : Array UInt32 :=
  ([0x61707865, 0x3320646e, 0x79622d32, 0x6b206574] ++ key ++
    [UInt32.ofNat number, UInt32.ofNat (number / UInt32.size), 0, 0]).toArray

def block (key : List UInt32) (number : Nat) : Array UInt32 :=
  let start := blockStart key number
  (start.zip (doubleRounds 6 start)).map fun (x, y) => x + y

/-! ### Numbers -/

/-- The double in `[0, 1)` that the upper fifty-three bits of two words give. -/
def unitFloat (low high : UInt32) : Float :=
  Float.ofNat ((low.toNat + high.toNat * UInt32.size) / 2048) / Float.ofNat 0x20000000000000

/-- The next number, which takes the next two words of the stream; a block has sixteen. -/
def next (g : Generator) : Float × Generator :=
  let words := block g.key (g.drawn / 8)
  let place := 2 * (g.drawn % 8)
  (unitFloat (words.getD place 0) (words.getD (place + 1) 0), { g with drawn := g.drawn + 1 })

/-- The numbers that the words of a block give. -/
def blockNumbers (key : List UInt32) (number : Nat) : List Float :=
  let words := block key number
  (List.range 8).map fun i => unitFloat (words.getD (2 * i) 0) (words.getD (2 * i + 1) 0)

/-- The next `n` numbers: those of as many blocks as it takes, from the place in the first one
on. -/
def take (n : Nat) (g : Generator) : List Float × Generator :=
  let used := g.drawn % 8
  let blocks := List.range' (g.drawn / 8) ((used + n + 7) / 8)
  (((blocks.flatMap (blockNumbers g.key)).drop used).take n, { g with drawn := g.drawn + n })

theorem length_blockNumbers (key : List UInt32) (number : Nat) :
    (blockNumbers key number).length = 8 := by
  simp [blockNumbers]

theorem length_flatMap_blockNumbers (key : List UInt32) (numbers : List Nat) :
    (numbers.flatMap (blockNumbers key)).length = 8 * numbers.length := by
  induction numbers with
  | nil => rfl
  | cons number rest ih =>
    simp only [List.flatMap_cons, List.length_append, length_blockNumbers, ih, List.length_cons]
    omega

theorem length_take (n : Nat) (g : Generator) : (take n g).1.length = n := by
  simp only [take, List.length_take, List.length_drop, length_flatMap_blockNumbers,
    List.length_range']
  omega

end Generator

end DocExamples.Script
