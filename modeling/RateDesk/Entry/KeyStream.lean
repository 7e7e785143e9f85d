import RateDesk.Entry.Id

/-!
# The key stream behind generated identifiers

Generated identifiers are cut from the key stream of the ChaCha cipher with
twelve rounds: block number `n` of a key is the sixteen-word state made of four
constants, the eight words of the key, `n` as two words and two zero words, put
through six double rounds and added to itself.  Identifier number `i` is the
`i`-th run of sixteen bytes of the stream, stamped with its version and variant.
-/

namespace RateDesk
namespace KeyStream

/-- The eight words of a key. -/
abbrev Key := Vector UInt32 8

/-- The sixteen words that the rounds work on. -/
abbrev State := Vector UInt32 16

/-- Rotate a word to the left. -/
def rotateLeft (x n : UInt32) : UInt32 :=
  (x <<< n) ||| (x >>> (32 - n))

/-- Rotate a word to the right. -/
def rotateRight (x n : UInt32) : UInt32 :=
  rotateLeft x (32 - n)

/-- Add, exclusive-or and rotate four words of the state. -/
def quarterRound (s : State) (i j k l : Fin 16) : State :=
  let a := s[i] + s[j]
  let d := rotateLeft (s[l] ^^^ a) 16
  let c := s[k] + d
  let b := rotateLeft (s[j] ^^^ c) 12
  let a := a + b
  let d := rotateLeft (d ^^^ a) 8
  let c := c + d
  let b := rotateLeft (b ^^^ c) 7
  (((s.set i a).set j b).set k c).set l d

/-- A round on the columns and a round on the diagonals. -/
def doubleRound (s : State) : State :=
  let s := quarterRound s 0 4 8 12
  let s := quarterRound s 1 5 9 13
  let s := quarterRound s 2 6 10 14
  let s := quarterRound s 3 7 11 15
  let s := quarterRound s 0 5 10 15
  let s := quarterRound s 1 6 11 12
  let s := quarterRound s 2 7 8 13
  quarterRound s 3 4 9 14

/-- The state before the rounds. -/
def initial (key : Key) (counter : Nat) : State :=
  #v[0x61707865, 0x3320646e, 0x79622d32, 0x6b206574,
    key[0], key[1], key[2], key[3], key[4], key[5], key[6], key[7],
    UInt32.ofNat counter, UInt32.ofNat (counter >>> 32), 0, 0]

/-- Apply a number of double rounds. -/
def rounds : Nat → State → State
  | 0, s => s
  | n + 1, s => rounds n (doubleRound s)

/-- The words of a block of the stream. -/
def blockWords (key : Key) (counter : Nat) : State :=
  let start := initial key counter
  Vector.zipWith (· + ·) (rounds 6 start) start

/-- The bytes of a word, the least significant one first. -/
def wordBytes (w : UInt32) : List UInt8 :=
  [w.toUInt8, (w >>> 8).toUInt8, (w >>> 16).toUInt8, (w >>> 24).toUInt8]

/-- The sixty-four bytes of a block of the stream. -/
def block (key : Key) (counter : Nat) : List UInt8 :=
  (blockWords key counter).toList.flatMap wordBytes

/-- A byte of the stream. -/
def byte (key : Key) (i : Nat) : UInt8 :=
  (block key (i / 64)).getD (i % 64) 0

/-- The `i`-th identifier of the stream. -/
def entryId (key : Key) (i : Nat) : EntryId :=
  let bytes := block key (i / 4)
  EntryId.stamp
    ⟨(List.range 16).map fun j => bytes.getD (16 * (i % 4) + j) 0, by simp⟩

/-- The words that a seed expands to: the state of a linear congruential
generator is stepped, folded to a word and rotated by its own top bits. -/
def seedWords : Nat → UInt64 → List UInt32
  | 0, _ => []
  | n + 1, state =>
      let next := state * 6364136223846793005 + 11634580027462260723
      let folded := (((next >>> 18) ^^^ next) >>> 27).toUInt32
      rotateRight folded (next >>> 59).toUInt32 :: seedWords n next

/-- The key that a seed expands to. -/
def Key.ofSeed (seed : UInt64) : Key :=
  let words := seedWords 8 seed
  Vector.ofFn fun i => words.getD i.val 0

/-- The key given by thirty-two bytes, each word with its least significant byte
first. -/
def Key.ofBytes (bytes : List UInt8) : Key :=
  Vector.ofFn fun i =>
    let part := fun j : Nat => (bytes.getD (4 * i.val + j) 0).toUInt32
    part 0 ||| (part 1 <<< 8) ||| (part 2 <<< 16) ||| (part 3 <<< 24)

end KeyStream
end RateDesk
