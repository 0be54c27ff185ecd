/-
  SHA-256 (FIPS 180-4), as a function that can be evaluated.

  Words are numbers below `2 ^ 32`.  A block is compressed in 64 rounds; the message schedule is
  not stored but kept as the window of the sixteen words that come next, from which each round
  takes the first and to which it appends the one sixteen places later.
-/
import Mathlib.Init

namespace Sha256

/-- Go on with a number once it has been evaluated. -/
def strict {α : Type} (n : Nat) (next : Nat → α) : α :=
  match n with
  | 0 => next 0
  | m + 1 => next (m + 1)

/-- The sum of two words. -/
def add (x y : Nat) : Nat := (x + y) % 0x100000000

/-- Rotation of a word to the right. -/
def rotr (n x : Nat) : Nat := (x >>> n) ||| ((x <<< (32 - n)) % 0x100000000)

/-- The eight words of the chaining value, or of the working variables. -/
structure State where
  a : Nat
  b : Nat
  c : Nat
  d : Nat
  e : Nat
  f : Nat
  g : Nat
  h : Nat

/-- The initial hash value. -/
def initial : State where
  a := 0x6a09e667
  b := 0xbb67ae85
  c := 0x3c6ef372
  d := 0xa54ff53a
  e := 0x510e527f
  f := 0x9b05688c
  g := 0x1f83d9ab
  h := 0x5be0cd19

/-- The constants of the rounds. -/
def constants : List Nat := [
  0x428a2f98, 0x71374491, 0xb5c0fbcf, 0xe9b5dba5, 0x3956c25b, 0x59f111f1, 0x923f82a4, 0xab1c5ed5,
  0xd807aa98, 0x12835b01, 0x243185be, 0x550c7dc3, 0x72be5d74, 0x80deb1fe, 0x9bdc06a7, 0xc19bf174,
  0xe49b69c1, 0xefbe4786, 0x0fc19dc6, 0x240ca1cc, 0x2de92c6f, 0x4a7484aa, 0x5cb0a9dc, 0x76f988da,
  0x983e5152, 0xa831c66d, 0xb00327c8, 0xbf597fc7, 0xc6e00bf3, 0xd5a79147, 0x06ca6351, 0x14292967,
  0x27b70a85, 0x2e1b2138, 0x4d2c6dfc, 0x53380d13, 0x650a7354, 0x766a0abb, 0x81c2c92e, 0x92722c85,
  0xa2bfe8a1, 0xa81a664b, 0xc24b8b70, 0xc76c51a3, 0xd192e819, 0xd6990624, 0xf40e3585, 0x106aa070,
  0x19a4c116, 0x1e376c08, 0x2748774c, 0x34b0bcb5, 0x391c0cb3, 0x4ed8aa4a, 0x5b9cca4f, 0x682e6ff3,
  0x748f82ee, 0x78a5636f, 0x84c87814, 0x8cc70208, 0x90befffa, 0xa4506ceb, 0xbef9a3f7, 0xc67178f2]

/-- The function `Ch` of the standard. -/
def choose (e f g : Nat) : Nat := (e &&& f) ^^^ ((0xffffffff - e) &&& g)

/-- The function `Maj` of the standard. -/
def majority (a b c : Nat) : Nat := (a &&& b) ^^^ (a &&& c) ^^^ (b &&& c)

/-- One round, with the constant `k` and the word `w` of the schedule. -/
def round (k w : Nat) : State → State
  | ⟨a, b, c, d, e, f, g, h⟩ =>
    strict (h + (rotr 6 e ^^^ rotr 11 e ^^^ rotr 25 e) + choose e f g + k + w) fun t1 =>
    strict (add t1 ((rotr 2 a ^^^ rotr 13 a ^^^ rotr 22 a) + majority a b c)) fun a' =>
    strict (add d t1) fun e' => ⟨a', a, b, c, e', e, f, g⟩

/-- The word of the schedule that follows a window of sixteen. -/
def nextWord (window : List Nat) : Nat :=
  let w1 := window.getD 1 0
  let w14 := window.getD 14 0
  add ((rotr 17 w14 ^^^ rotr 19 w14 ^^^ (w14 >>> 10)) + window.getD 9 0)
    ((rotr 7 w1 ^^^ rotr 18 w1 ^^^ (w1 >>> 3)) + window.getD 0 0)

/-- The rounds, over a window of sixteen words that moves along the message schedule. -/
def rounds : List Nat → List Nat → State → State
  | k :: constants, w :: window, s =>
    strict (nextWord (w :: window)) fun next => rounds constants (window ++ [next]) (round k w s)
  | _, _, s => s

/-- The chaining value after a block, from the one before it and the result of the rounds. -/
def feedForward : State → State → State
  | ⟨a, b, c, d, e, f, g, h⟩, ⟨a', b', c', d', e', f', g', h'⟩ =>
    strict (add a a') fun a => strict (add b b') fun b => strict (add c c') fun c =>
    strict (add d d') fun d => strict (add e e') fun e => strict (add f f') fun f =>
    strict (add g g') fun g => strict (add h h') fun h => ⟨a, b, c, d, e, f, g, h⟩

/-- The compression of one block. -/
def compress (s : State) (block : List Nat) : State := feedForward s (rounds constants block s)

/-- The first `n` blocks of some words. -/
def compressAll : Nat → List Nat → State → State
  | 0, _, s => s
  | n + 1, words, s => compressAll n (words.drop 16) (compress s (words.take 16))

/-- The bytes of a number, most significant first. -/
def bigEndian : Nat → Nat → List UInt8
  | 0, _ => []
  | width + 1, n => bigEndian width (n / 256) ++ [UInt8.ofNat n]

/-- Bytes as words, the most significant byte first. -/
def wordsOf : List UInt8 → List Nat
  | p :: q :: r :: s :: rest =>
    (p.toNat * 0x1000000 + q.toNat * 0x10000 + r.toNat * 0x100 + s.toNat) :: wordsOf rest
  | _ => []

/-- The number of blocks of a padded message. -/
def blocks (size : Nat) : Nat := (size + 9 + 63) / 64

/-- The message with its padding: a bit, zeros, and the length in bits. -/
def pad (message : List UInt8) : List UInt8 :=
  message ++ 0x80 :: (List.replicate (64 * blocks message.length - 9 - message.length) 0 ++
    bigEndian 8 (8 * message.length))

/-- `SHA256.HashData`. -/
def hashData (bytes : ByteArray) : Vector UInt8 32 :=
  let message := bytes.data.toList
  let s := compressAll (blocks message.length) (wordsOf (pad message)) initial
  let digest := [s.a, s.b, s.c, s.d, s.e, s.f, s.g, s.h].flatMap (bigEndian 4)
  Vector.ofFn fun i => digest.getD i.val 0

end Sha256
