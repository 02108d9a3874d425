/-!
# ChaCha streams

A stream of 32-bit words from a 64-bit seed: the blocks of the ChaCha permutation
with twelve rounds, for block numbers from zero on and an all-zero stream number.
The key is eight outputs of a permuted congruential generator started at the seed.
-/

namespace ConvSweep
namespace Random

/-! ## Key -/

/-- One step of the generator that the key is drawn from. -/
def keyStep (state : UInt64) : UInt64 :=
  state * 6364136223846793005 + 11634580027462260723

/-- A word from a state of that generator: its high bits, rotated by its highest five. -/
def keyWord (state : UInt64) : UInt32 :=
  let mixed := (((state >>> 18) ^^^ state) >>> 27).toUInt32
  let turn := (state >>> 59).toUInt32
  (mixed >>> turn) ||| (mixed <<< ((32 - turn) % 32))

def keyWords (state : UInt64) : Nat → List UInt32
  | 0 => []
  | count + 1 =>
      let next := keyStep state
      keyWord next :: keyWords next count

def keyOfSeed (seed : UInt64) : List UInt32 :=
  keyWords seed 8

/-! ## Blocks -/

abbrev State : Type := Vector UInt32 16

def rotateLeft (x : UInt32) (turn : UInt32) : UInt32 :=
  (x <<< turn) ||| (x >>> (32 - turn))

/-- The quarter round on the words at four places. -/
def quarterRound (s : State) (a b c d : Fin 16) : State :=
  let s := s.set a (s[a] + s[b])
  let s := s.set d (rotateLeft (s[d] ^^^ s[a]) 16)
  let s := s.set c (s[c] + s[d])
  let s := s.set b (rotateLeft (s[b] ^^^ s[c]) 12)
  let s := s.set a (s[a] + s[b])
  let s := s.set d (rotateLeft (s[d] ^^^ s[a]) 8)
  let s := s.set c (s[c] + s[d])
  s.set b (rotateLeft (s[b] ^^^ s[c]) 7)

/-- A round on the columns of the state followed by one on its diagonals. -/
def doubleRound (s : State) : State :=
  let s := quarterRound s 0 4 8 12
  let s := quarterRound s 1 5 9 13
  let s := quarterRound s 2 6 10 14
  let s := quarterRound s 3 7 11 15
  let s := quarterRound s 0 5 10 15
  let s := quarterRound s 1 6 11 12
  let s := quarterRound s 2 7 8 13
  quarterRound s 3 4 9 14

/-- The state before the rounds: constants, key, block number and stream number. -/
def initial (key : List UInt32) (block : UInt64) : State :=
  let constants : List UInt32 := [0x61707865, 0x3320646e, 0x79622d32, 0x6b206574]
  let words := constants ++ key ++ [block.toUInt32, (block >>> 32).toUInt32, 0, 0]
  Vector.ofFn fun i => words.getD i 0

def block (key : List UInt32) (number : UInt64) : List UInt32 :=
  let start := initial key number
  let mixed := Nat.fold 6 (fun _ _ s => doubleRound s) start
  (mixed.zipWith (· + ·) start).toList

/-! ## Streams -/

/-- A position in the stream of a key: the rest of one block and the number of the next. -/
structure Stream where
  key : List UInt32
  next : UInt64
  rest : List UInt32
deriving DecidableEq

namespace Stream

def ofSeed (seed : UInt64) : Stream :=
  ⟨keyOfSeed seed, 0, []⟩

/-- The next word and the position after it. -/
def draw (s : Stream) : UInt32 × Stream :=
  match s.rest with
  | word :: rest => (word, { s with rest })
  | [] =>
      match block s.key s.next with
      | word :: rest => (word, { s with next := s.next + 1, rest })
      | [] => (0, s)

/-- The number of words after which the stream repeats, sixteen for each of `2 ^ 64` blocks. -/
def period : Nat := 0x100000000000000000

end Stream
end Random
end ConvSweep
