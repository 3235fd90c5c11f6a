/-! The stream of random words of a seed: the ChaCha block function with twelve rounds, its key drawn from
    the seed by a permuted congruential generator. -/

namespace Ketscript.WordStream

/-- One step of the congruential generator that spreads a seed over a key. -/
def advance (state : UInt64) : UInt64 := state * 6364136223846793005 + 11634580027462260723

/-- A 32-bit word turned right by less than 32 bits. -/
def rotateRight (x n : UInt32) : UInt32 := (x >>> n) ||| (x <<< ((32 - n) % 32))

/-- A 32-bit word turned left by less than 32 bits. -/
def rotateLeft (x n : UInt32) : UInt32 := (x <<< n) ||| (x >>> ((32 - n) % 32))

/-- The key word of a state: some of its middle bits, turned by its topmost five. -/
def permute (state : UInt64) : UInt32 :=
  rotateRight (((state >>> 18) ^^^ state) >>> 27).toUInt32 (state >>> 59).toUInt32

/-- The `n` key words that follow a state. -/
def keyWords : (n : Nat) → UInt64 → List UInt32
  | 0, _ => []
  | n + 1, state => permute (advance state) :: keyWords n (advance state)

abbrev Block := Vector UInt32 16

/-- The block from which the output block of a number is computed: four constants, eight key words, the
    number, and a nonce of zero. -/
def openingBlock (key : List UInt32) (number : Nat) : Block :=
  let words : List UInt32 := [0x61707865, 0x3320646e, 0x79622d32, 0x6b206574] ++ key ++
    [number.toUInt32, (number / UInt32.size).toUInt32, 0, 0]
  Vector.ofFn fun i => words.getD i 0

/-- Adds the word at `b` to that at `a`, and the sum to the word at `d`, which is turned left. -/
def mix (block : Block) (a b d : Fin 16) (turn : UInt32) : Block :=
  let sum := block[a] + block[b]
  (block.set a sum).set d (rotateLeft (block[d] ^^^ sum) turn)

/-- The quarter round on four words. -/
def quarterRound (block : Block) (a b c d : Fin 16) : Block :=
  let block := mix block a b d 16
  let block := mix block c d b 12
  let block := mix block a b d 8
  mix block c d b 7

/-- A round on the columns and a round on the diagonals. -/
def doubleRound (block : Block) : Block :=
  let block := quarterRound block 0 4 8 12
  let block := quarterRound block 1 5 9 13
  let block := quarterRound block 2 6 10 14
  let block := quarterRound block 3 7 11 15
  let block := quarterRound block 0 5 10 15
  let block := quarterRound block 1 6 11 12
  let block := quarterRound block 2 7 8 13
  quarterRound block 3 4 9 14

/-- The output block of a number. -/
def outputBlock (key : List UInt32) (number : Nat) : Block :=
  let opening := openingBlock key number
  let mixed := Nat.repeat doubleRound 6 opening
  Vector.zipWith (· + ·) mixed opening

/-- The word at a position of the stream of a key: two words of a block, the lower half first. -/
def wordOfKey (key : List UInt32) (position : Nat) : UInt64 :=
  let block := outputBlock key (position / 8)
  let low := block.toArray.getD (2 * (position % 8)) 0
  let high := block.toArray.getD (2 * (position % 8) + 1) 0
  low.toUInt64 ||| (high.toUInt64 <<< 32)

/-- The stream of random words of a seed. -/
def ofSeed (seed : UInt64) : Nat → UInt64 := wordOfKey (keyWords 8 seed)

end Ketscript.WordStream
