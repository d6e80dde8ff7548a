import PeerMix.Lattice.Ring
import PeerMix.Hash.Keccak

/-!
# Coefficients as octets

Numbers of a fixed bit width are packed one after the other, lowest bit first.
Coefficients are rounded to few bits and back, and drawn from the output of a
hash function, uniformly or near zero.
-/

namespace PeerMix
namespace Lattice

/-! ## Packing -/

def pack (width : Nat) (xs : List Nat) : Bytes :=
  Bytes.littleEndian (xs.length * width / 8)
    (xs.foldr (fun x n => x % Nat.pow 2 width + Nat.pow 2 width * n) 0)

def digits (width : Nat) : (count n : Nat) → List Nat
  | 0, _ => []
  | count + 1, n => n % Nat.pow 2 width :: digits width count (n / Nat.pow 2 width)

def unpack (width : Nat) (bs : Bytes) : List Nat :=
  digits width (8 * bs.length / width) bs.toNatLE

/-! ## Rounding -/

def compress (width x : Nat) : Nat :=
  (2 * x * Nat.pow 2 width + modulus) / (2 * modulus) % Nat.pow 2 width

def decompress (width y : Nat) : Nat :=
  (2 * y * modulus + Nat.pow 2 width) / (2 * Nat.pow 2 width)

def Poly.toBytes (f : Poly) : Bytes :=
  pack 12 f

/-- Coefficients that are not reduced are reduced. -/
def Poly.ofBytes (bs : Bytes) : Poly :=
  (unpack 12 bs).map (· % modulus)

def Poly.compress (width : Nat) (f : Poly) : Bytes :=
  pack width (f.map (Lattice.compress width))

def Poly.decompress (width : Nat) (bs : Bytes) : Poly :=
  (unpack width bs).map (Lattice.decompress width)

/-! ## Drawing -/

/-- Reads reduced numbers of twelve bits from successive output blocks until
there are 256.  A block yields ninety of them on average.  Zeros stand for what
is missing when the blocks run out. -/
def sampleUniform : (blocks : Nat) → Keccak.State → (drawn : List Nat) → Poly
  | 0, _, drawn => (drawn ++ Poly.zero).take 256
  | blocks + 1, s, drawn =>
      if 256 ≤ drawn.length then drawn.take 256
      else
        let block := Keccak.output Keccak.shake128Rate s
        let reduced := (unpack 12 block).filter (· < modulus)
        sampleUniform blocks (Keccak.permute s) (drawn ++ reduced)

/-- The uniform polynomial that `seed` stands for.  The bound on the output is
far above what any seed uses up. -/
def uniform (seed : Bytes) : Poly :=
  sampleUniform 256 (Keccak.shake128 seed) []

/-- The difference of the number of set bits in the two halves of four bits. -/
def smallCoefficient (bits : Nat) : Nat :=
  (bits % 2 + bits / 2 % 2 + modulus - bits / 4 % 2 - bits / 8 % 2) % modulus

/-- The polynomial with coefficients near zero that a key and a counter stand
for. -/
def small (key : Bytes) (counter : Nat) : Poly :=
  (unpack 4 (Keccak.shake256 (key ++ [UInt8.ofNat counter]) 128)).map smallCoefficient

end Lattice
end PeerMix
