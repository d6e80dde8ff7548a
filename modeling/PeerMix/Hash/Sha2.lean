import PeerMix.Bytes

/-!
# The SHA-2 family

SHA-256 and SHA-512 are one construction on words of 32 and of 64 bits.  The
message is padded to whole blocks of sixteen words, each block is expanded to
one word per round, and every round folds a word into eight chaining words.
-/

namespace PeerMix
namespace Sha2

/-! ## What the members of the family differ in -/

structure Chain (W : Type) where
  a : W
  b : W
  c : W
  d : W
  e : W
  f : W
  g : W
  h : W

structure Variant (W : Type) where
  /-- Octets in a word. -/
  wordSize : Nat
  ofNat : Nat → W
  toNat : W → Nat
  bigSigma0 : W → W
  bigSigma1 : W → W
  smallSigma0 : W → W
  smallSigma1 : W → W
  /-- One constant per round. -/
  constants : List W
  initial : Chain W

/-! ## The construction -/

namespace Variant

variable {W : Type}

/-- The message, one set bit, the fewest zeros that complete a block, and the
length in bits on two words. -/
def padded (v : Variant W) (message : Bytes) : Bytes :=
  let block := 16 * v.wordSize
  let tail := 2 * v.wordSize
  message
    ++ 0x80 :: Bytes.zeros ((2 * block - 1 - tail - message.length % block) % block)
    ++ Bytes.bigEndian tail (8 * message.length)

@[specialize] def schedule [Add W] (v : Variant W) (block : Bytes) : Array W :=
  let input := (block.pieces v.wordSize).map fun word => v.ofNat word.toNat
  (List.range (v.constants.length - 16)).foldl
    (fun w t =>
      let term i := w.getD i (v.ofNat 0)
      w.push (v.smallSigma1 (term (t + 14)) + term (t + 9)
        + v.smallSigma0 (term (t + 1)) + term t))
    input.toArray

@[specialize] def round [Add W] [XorOp W] [AndOp W] [Complement W]
    (v : Variant W) (s : Chain W) (constant word : W) : Chain W :=
  let choice := (s.e &&& s.f) ^^^ (~~~s.e &&& s.g)
  let majority := (s.a &&& s.b) ^^^ (s.a &&& s.c) ^^^ (s.b &&& s.c)
  let t1 := s.h + v.bigSigma1 s.e + choice + constant + word
  let t2 := v.bigSigma0 s.a + majority
  ⟨t1 + t2, s.a, s.b, s.c, s.d + t1, s.e, s.f, s.g⟩

@[specialize] def compress [Add W] [XorOp W] [AndOp W] [Complement W]
    (v : Variant W) (s : Chain W) (block : Bytes) : Chain W :=
  let r := (v.constants.zip (v.schedule block).toList).foldl
    (fun r (constant, word) => v.round r constant word) s
  ⟨s.a + r.a, s.b + r.b, s.c + r.c, s.d + r.d,
    s.e + r.e, s.f + r.f, s.g + r.g, s.h + r.h⟩

def digest (v : Variant W) (s : Chain W) : Bytes :=
  [s.a, s.b, s.c, s.d, s.e, s.f, s.g, s.h].flatMap fun word =>
    Bytes.bigEndian v.wordSize (v.toNat word)

@[specialize] def hash [Add W] [XorOp W] [AndOp W] [Complement W]
    (v : Variant W) (message : Bytes) : Bytes :=
  v.digest (((v.padded message).pieces (16 * v.wordSize)).foldl v.compress v.initial)

theorem length_digest (v : Variant W) (s : Chain W) :
    (v.digest s).length = 8 * v.wordSize := by
  simp [digest, Bytes.length_bigEndian]
  omega

end Variant

/-! ## SHA-256 and SHA-512 -/

/-- The first 64 bits of the fractional parts of the cube roots of the first
eighty primes. -/
def cubeRoots : List UInt64 :=
  [
    0x428a2f98d728ae22, 0x7137449123ef65cd, 0xb5c0fbcfec4d3b2f,
    0xe9b5dba58189dbbc, 0x3956c25bf348b538, 0x59f111f1b605d019,
    0x923f82a4af194f9b, 0xab1c5ed5da6d8118, 0xd807aa98a3030242,
    0x12835b0145706fbe, 0x243185be4ee4b28c, 0x550c7dc3d5ffb4e2,
    0x72be5d74f27b896f, 0x80deb1fe3b1696b1, 0x9bdc06a725c71235,
    0xc19bf174cf692694, 0xe49b69c19ef14ad2, 0xefbe4786384f25e3,
    0x0fc19dc68b8cd5b5, 0x240ca1cc77ac9c65, 0x2de92c6f592b0275,
    0x4a7484aa6ea6e483, 0x5cb0a9dcbd41fbd4, 0x76f988da831153b5,
    0x983e5152ee66dfab, 0xa831c66d2db43210, 0xb00327c898fb213f,
    0xbf597fc7beef0ee4, 0xc6e00bf33da88fc2, 0xd5a79147930aa725,
    0x06ca6351e003826f, 0x142929670a0e6e70, 0x27b70a8546d22ffc,
    0x2e1b21385c26c926, 0x4d2c6dfc5ac42aed, 0x53380d139d95b3df,
    0x650a73548baf63de, 0x766a0abb3c77b2a8, 0x81c2c92e47edaee6,
    0x92722c851482353b, 0xa2bfe8a14cf10364, 0xa81a664bbc423001,
    0xc24b8b70d0f89791, 0xc76c51a30654be30, 0xd192e819d6ef5218,
    0xd69906245565a910, 0xf40e35855771202a, 0x106aa07032bbd1b8,
    0x19a4c116b8d2d0c8, 0x1e376c085141ab53, 0x2748774cdf8eeb99,
    0x34b0bcb5e19b48a8, 0x391c0cb3c5c95a63, 0x4ed8aa4ae3418acb,
    0x5b9cca4f7763e373, 0x682e6ff3d6b2b8a3, 0x748f82ee5defb2fc,
    0x78a5636f43172f60, 0x84c87814a1f0ab72, 0x8cc702081a6439ec,
    0x90befffa23631e28, 0xa4506cebde82bde9, 0xbef9a3f7b2c67915,
    0xc67178f2e372532b, 0xca273eceea26619c, 0xd186b8c721c0c207,
    0xeada7dd6cde0eb1e, 0xf57d4f7fee6ed178, 0x06f067aa72176fba,
    0x0a637dc5a2c898a6, 0x113f9804bef90dae, 0x1b710b35131c471b,
    0x28db77f523047d84, 0x32caab7b40c72493, 0x3c9ebe0a15c9bebc,
    0x431d67c49c100d4c, 0x4cc5d4becb3e42b6, 0x597f299cfc657e2a,
    0x5fcb6fab3ad6faec, 0x6c44198c4a475817]

/-- The first 64 bits of the fractional parts of the square roots of the first
eight primes. -/
def squareRoots : Chain UInt64 :=
  ⟨0x6a09e667f3bcc908, 0xbb67ae8584caa73b, 0x3c6ef372fe94f82b,
    0xa54ff53a5f1d36f1, 0x510e527fade682d1, 0x9b05688c2b3e6c1f,
    0x1f83d9abfb41bd6b, 0x5be0cd19137e2179⟩

def upper (x : UInt64) : UInt32 :=
  (x >>> 32).toUInt32

def rotate32 (x k : UInt32) : UInt32 :=
  (x >>> k) ||| (x <<< (32 - k))

def rotate64 (x k : UInt64) : UInt64 :=
  (x >>> k) ||| (x <<< (64 - k))

/-- The constants are the upper halves of those on 64-bit words. -/
def on32 : Variant UInt32 where
  wordSize := 4
  ofNat := UInt32.ofNat
  toNat := UInt32.toNat
  bigSigma0 x := rotate32 x 2 ^^^ rotate32 x 13 ^^^ rotate32 x 22
  bigSigma1 x := rotate32 x 6 ^^^ rotate32 x 11 ^^^ rotate32 x 25
  smallSigma0 x := rotate32 x 7 ^^^ rotate32 x 18 ^^^ (x >>> 3)
  smallSigma1 x := rotate32 x 17 ^^^ rotate32 x 19 ^^^ (x >>> 10)
  constants := (cubeRoots.take 64).map upper
  initial :=
    let s := squareRoots
    ⟨upper s.a, upper s.b, upper s.c, upper s.d,
      upper s.e, upper s.f, upper s.g, upper s.h⟩

def on64 : Variant UInt64 where
  wordSize := 8
  ofNat := UInt64.ofNat
  toNat := UInt64.toNat
  bigSigma0 x := rotate64 x 28 ^^^ rotate64 x 34 ^^^ rotate64 x 39
  bigSigma1 x := rotate64 x 14 ^^^ rotate64 x 18 ^^^ rotate64 x 41
  smallSigma0 x := rotate64 x 1 ^^^ rotate64 x 8 ^^^ (x >>> 7)
  smallSigma1 x := rotate64 x 19 ^^^ rotate64 x 61 ^^^ (x >>> 6)
  constants := cubeRoots
  initial := squareRoots

end Sha2

def sha256 (message : Bytes) : Bytes :=
  Sha2.on32.hash message

def sha512 (message : Bytes) : Bytes :=
  Sha2.on64.hash message

theorem length_sha256 (message : Bytes) : (sha256 message).length = 32 :=
  Sha2.on32.length_digest _

end PeerMix
