import Eyenet.Framing

/-!
# SHA-256

The digest function of FIPS 180-4, over words as naturals below `2 ^ 32`. Every recursion is
structural, so that the digest of a concrete message can be evaluated.
-/

namespace Eyenet

namespace Sha256

open Framing

/-- The word size. -/
def modulus : ℕ := 4294967296

/-- Addition of words. -/
def add (x y : ℕ) : ℕ := (x + y) % modulus

/-- Rotation of a word to the right. -/
def rotr (x n : ℕ) : ℕ := (x >>> n) ||| ((x <<< (32 - n)) % modulus)

/-- `Ch` -/
def choose (x y z : ℕ) : ℕ := (x &&& y) ^^^ ((modulus - 1 - x) &&& z)

/-- `Maj` -/
def majority (x y z : ℕ) : ℕ := (x &&& y) ^^^ (x &&& z) ^^^ (y &&& z)

/-- `Σ₀` -/
def bigSigma0 (x : ℕ) : ℕ := rotr x 2 ^^^ rotr x 13 ^^^ rotr x 22

/-- `Σ₁` -/
def bigSigma1 (x : ℕ) : ℕ := rotr x 6 ^^^ rotr x 11 ^^^ rotr x 25

/-- `σ₀` -/
def smallSigma0 (x : ℕ) : ℕ := rotr x 7 ^^^ rotr x 18 ^^^ (x >>> 3)

/-- `σ₁` -/
def smallSigma1 (x : ℕ) : ℕ := rotr x 17 ^^^ rotr x 19 ^^^ (x >>> 10)

/-- The round constants. -/
def roundConstants : List ℕ :=
  [0x428a2f98, 0x71374491, 0xb5c0fbcf, 0xe9b5dba5, 0x3956c25b, 0x59f111f1, 0x923f82a4, 0xab1c5ed5,
   0xd807aa98, 0x12835b01, 0x243185be, 0x550c7dc3, 0x72be5d74, 0x80deb1fe, 0x9bdc06a7, 0xc19bf174,
   0xe49b69c1, 0xefbe4786, 0x0fc19dc6, 0x240ca1cc, 0x2de92c6f, 0x4a7484aa, 0x5cb0a9dc, 0x76f988da,
   0x983e5152, 0xa831c66d, 0xb00327c8, 0xbf597fc7, 0xc6e00bf3, 0xd5a79147, 0x06ca6351, 0x14292967,
   0x27b70a85, 0x2e1b2138, 0x4d2c6dfc, 0x53380d13, 0x650a7354, 0x766a0abb, 0x81c2c92e, 0x92722c85,
   0xa2bfe8a1, 0xa81a664b, 0xc24b8b70, 0xc76c51a3, 0xd192e819, 0xd6990624, 0xf40e3585, 0x106aa070,
   0x19a4c116, 0x1e376c08, 0x2748774c, 0x34b0bcb5, 0x391c0cb3, 0x4ed8aa4a, 0x5b9cca4f, 0x682e6ff3,
   0x748f82ee, 0x78a5636f, 0x84c87814, 0x8cc70208, 0x90befffa, 0xa4506ceb, 0xbef9a3f7, 0xc67178f2]

/-- The eight working variables. -/
structure State where
  a : ℕ
  b : ℕ
  c : ℕ
  d : ℕ
  e : ℕ
  f : ℕ
  g : ℕ
  h : ℕ

/-- The initial hash value. -/
def initial : State :=
  ⟨0x6a09e667, 0xbb67ae85, 0x3c6ef372, 0xa54ff53a, 0x510e527f, 0x9b05688c, 0x1f83d9ab,
    0x5be0cd19⟩

/-- One round with round constant `k` and message word `w`. -/
def round (s : State) (k w : ℕ) : State :=
  let t₁ := add (add (add (add s.h (bigSigma1 s.e)) (choose s.e s.f s.g)) k) w
  let t₂ := add (bigSigma0 s.a) (majority s.a s.b s.c)
  ⟨add t₁ t₂, s.a, s.b, s.c, add s.d t₁, s.e, s.f, s.g⟩

/-- The word of the message schedule that follows a window of sixteen words. -/
def nextWord (window : List ℕ) : ℕ :=
  add (add (add (smallSigma1 (window.getD 14 0)) (window.getD 9 0))
    (smallSigma0 (window.getD 1 0))) (window.getD 0 0)

/-- The rounds of one block: the schedule slides its window as the constants are used up. -/
def rounds : List ℕ → List ℕ → State → State
  | [], _, s => s
  | k :: ks, window, s =>
    rounds ks (window.tail ++ [nextWord window]) (round s k (window.headD 0))

/-- Absorb one block of sixteen words. -/
def compress (s : State) (block : List ℕ) : State :=
  let t := rounds roundConstants block s
  ⟨add s.a t.a, add s.b t.b, add s.c t.c, add s.d t.d, add s.e t.e, add s.f t.f, add s.g t.g,
    add s.h t.h⟩

/-- The big-endian words of a byte string. -/
def toWords : Bytes → List ℕ
  | b₀ :: b₁ :: b₂ :: b₃ :: rest =>
    (((b₀.toNat * 256 + b₁.toNat) * 256 + b₂.toNat) * 256 + b₃.toNat) :: toWords rest
  | _ => []

/-- The message with its padding: a one bit, zeros, and the length in bits. -/
def pad (msg : Bytes) : Bytes :=
  msg ++ 0x80 :: List.replicate ((119 - msg.length % 64) % 64) 0 ++ toBytesBE 8 (8 * msg.length)

/-- Absorb the first `n` blocks of a list of words. -/
def absorb : ℕ → List ℕ → State → State
  | 0, _, s => s
  | n + 1, words, s => absorb n (words.drop 16) (compress s (words.take 16))

/-- The digest of a message, as `hashlib.sha256(msg).digest()`. -/
def digest (msg : Bytes) : Bytes :=
  let words := toWords (pad msg)
  let s := absorb (words.length / 16) words initial
  [s.a, s.b, s.c, s.d, s.e, s.f, s.g, s.h].flatMap (toBytesBE 4)

theorem length_digest (msg : Bytes) : (digest msg).length = 32 := by
  simp [digest]

example : digest [97, 98, 99] =
    toBytesBE 32 0xba7816bf8f01cfea414140de5dae2223b00361a396177a9cb410ff61f20015ad := by
  decide +kernel

end Sha256

end Eyenet
