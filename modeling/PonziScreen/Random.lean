import PonziScreen.Scalar

/-!
# Random numbers

A generator of reproducible random numbers: the key stream of the ChaCha cipher with 12 rounds, one
word of 32 bits after another, under a key that is derived from a seed.
-/

namespace PonziScreen

/-! ## The cipher -/

/-- The 16 words of a cipher block. -/
abbrev CipherBlock := Vector UInt32 16

/-- A word with its bits turned to the left. -/
def rotateLeft (x : UInt32) (n : UInt32) : UInt32 := (x <<< n) ||| (x >>> (32 - n))

/-- The quarter round on four words of a block. -/
def quarterRound (s : CipherBlock) (a b c d : Fin 16) : CipherBlock :=
  let s := s.set a (s[a] + s[b])
  let s := s.set d (rotateLeft (s[d] ^^^ s[a]) 16)
  let s := s.set c (s[c] + s[d])
  let s := s.set b (rotateLeft (s[b] ^^^ s[c]) 12)
  let s := s.set a (s[a] + s[b])
  let s := s.set d (rotateLeft (s[d] ^^^ s[a]) 8)
  let s := s.set c (s[c] + s[d])
  s.set b (rotateLeft (s[b] ^^^ s[c]) 7)

/-- Two rounds: one along the columns and one along the diagonals. -/
def doubleRound (s : CipherBlock) : CipherBlock :=
  let s := quarterRound s 0 4 8 12
  let s := quarterRound s 1 5 9 13
  let s := quarterRound s 2 6 10 14
  let s := quarterRound s 3 7 11 15
  let s := quarterRound s 0 5 10 15
  let s := quarterRound s 1 6 11 12
  let s := quarterRound s 2 7 8 13
  quarterRound s 3 4 9 14

/-- The block before the rounds: the four constants, the key, and a counter of 64 bits. -/
def cipherInput (key : Vector UInt32 8) (counter : UInt64) : CipherBlock :=
  (#v[0x61707865, 0x3320646e, 0x79622d32, 0x6b206574] : Vector UInt32 4) ++ key ++
    (#v[counter.toUInt32, (counter >>> 32).toUInt32, 0, 0] : Vector UInt32 4)

/-- A block of the key stream. -/
def cipherBlock (key : Vector UInt32 8) (counter : UInt64) : CipherBlock :=
  let input := cipherInput key counter
  (Nat.repeat doubleRound 6 input).zipWith (· + ·) input

/-! ## The key of a seed -/

/-- The next state in the derivation of a key. -/
def nextSeed (state : UInt64) : UInt64 := state * 6364136223846793005 + 11634580027462260723

/-- The word of a key that a state gives. -/
def seedWord (state : UInt64) : UInt32 :=
  let x := (((state >>> 18) ^^^ state) >>> 27).toUInt32
  let n := (state >>> 59).toUInt32
  (x >>> n) ||| (x <<< ((32 - n) &&& 31))

/-- The key of a seed: the words of the eight states after it. -/
def seedKey (seed : UInt64) : Vector UInt32 8 :=
  Vector.ofFn fun i => seedWord (Nat.repeat nextSeed (i.val + 1) seed)

/-! ## The generator -/

/-- A generator: its key, the number of the next block, and the words that are left of the last
one. -/
structure Generator where
  key : Vector UInt32 8
  counter : UInt64
  left : List UInt32
deriving DecidableEq

namespace Generator

/-- The generator of a seed. -/
def ofSeed (seed : UInt64) : Generator := ⟨seedKey seed, 0, []⟩

/-- The next word. -/
def next (g : Generator) : UInt32 × Generator :=
  match g.left with
  | w :: left => (w, { g with left })
  | [] =>
    let block := cipherBlock g.key g.counter
    (block[0], { g with counter := g.counter + 1, left := block.toList.tail })

variable {α : Type} [Scalar α]

/-- A number drawn evenly from those of `0 ≤ x < 1` with `bits` places after the binary point. -/
def unit (bits : Nat) (g : Generator) : α × Generator :=
  let (w, g) := g.next
  (Scalar.ratio (w.toNat >>> (32 - bits)) (1 <<< bits), g)

/-- A number drawn evenly from `-bound` to `bound`, both ends included: the greatest number that
`unit` can draw is stretched to reach the upper end. -/
def symmetric (bound : α) (g : Generator) : α × Generator :=
  let (v, g) := g.unit 23
  let low := -bound
  let scale := (bound - low) / Scalar.ratio (1 <<< 23 - 1) (1 <<< 23)
  (Scalar.min bound (v * scale + low), g)

/-- Draws from `-bound` to `bound`, as many as asked for. -/
def symmetricList (bound : α) : Nat → Generator → List α × Generator
  | 0, g => ([], g)
  | n + 1, g =>
    let (x, g) := g.symmetric bound
    let (xs, g) := symmetricList bound n g
    (x :: xs, g)

theorem length_symmetricList (bound : α) (n : Nat) (g : Generator) :
    (g.symmetricList bound n).1.length = n := by
  induction n generalizing g with
  | zero => rfl
  | succ n ih => simp [symmetricList, ih]

end Generator

end PonziScreen
