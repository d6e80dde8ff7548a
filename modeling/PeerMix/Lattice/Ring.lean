import PeerMix.Modular
import PeerMix.Bytes

/-!
# Polynomials over a small field

The polynomials of degree below 256 over the integers modulo 3329, and their
number theoretic transform.  The transform divides a polynomial by the two
halves of a factorisation again and again, along a binary tree whose nodes are
numbered from one, level by level; each node has a root of unity of its own.
-/

namespace PeerMix
namespace Lattice

def modulus : Nat := 3329

/-- The 256 coefficients, lowest degree first. -/
abbrev Poly := List Nat

namespace Poly

def zero : Poly :=
  List.replicate 256 0

def add (f g : Poly) : Poly :=
  List.zipWith (fun a b => (a + b) % modulus) f g

def sub (f g : Poly) : Poly :=
  List.zipWith (fun a b => (a + modulus - b) % modulus) f g

def scale (c : Nat) (f : Poly) : Poly :=
  f.map fun a => c * a % modulus

/-! ## Roots of unity -/

def reverseBits (i : Nat) : Nat :=
  (List.range 7).foldl (fun n k => 2 * n + (i.testBit k).toNat) 0

def rootPower (n : Nat) : Nat :=
  Modular.pow modulus 17 n

def rootTable : Array Nat :=
  ((List.range 128).map fun i => rootPower (reverseBits i)).toArray

def root (i : Nat) : Nat :=
  rootTable.getD i 0

def leafRoots : List Nat :=
  (List.range 128).map fun i => rootPower (2 * reverseBits i + 1)

/-! ## The transform -/

/-- Transforms the part of length `2 ^ (level + 1)` that belongs to `node`. -/
def transformFrom : (level node : Nat) → List Nat → List Nat
  | 0, _, f => f
  | level + 1, node, f =>
      let low := f.take (Nat.pow 2 (level + 1))
      let high := scale (root node) (f.drop (Nat.pow 2 (level + 1)))
      transformFrom level (2 * node) (add low high)
        ++ transformFrom level (2 * node + 1) (sub low high)

def transform (f : Poly) : Poly :=
  transformFrom 7 1 f

/-- Undoes `transformFrom` up to a power of two.  The inverse of the root of a
node is minus the root of the node opposite to it on the same level. -/
def restoreFrom : (level node : Nat) → List Nat → List Nat
  | 0, _, f => f
  | level + 1, node, f =>
      let opposite := 3 * Nat.pow 2 (6 - level) - 1 - node
      let low := restoreFrom level (2 * node) (f.take (Nat.pow 2 (level + 1)))
      let high := restoreFrom level (2 * node + 1) (f.drop (Nat.pow 2 (level + 1)))
      add low high ++ scale (root opposite) (sub high low)

/-- The inverse of `transform`; 3303 is the inverse of 128. -/
def restore (f : Poly) : Poly :=
  scale 3303 (restoreFrom 7 1 f)

/-- Multiplies remainders of degree one, each modulo its own root. -/
def multiplyLeaves : (roots : List Nat) → List Nat → List Nat → List Nat
  | r :: roots, a0 :: a1 :: f, b0 :: b1 :: g =>
      (a0 * b0 + a1 * b1 % modulus * r) % modulus
        :: (a0 * b1 + a1 * b0) % modulus
        :: multiplyLeaves roots f g
  | _, _, _ => []

def multiply (f g : Poly) : Poly :=
  multiplyLeaves leafRoots f g

end Poly

/-! ## Vectors of polynomials -/

def inner (f g : List Poly) : Poly :=
  (List.zipWith Poly.multiply f g).foldl Poly.add Poly.zero

end Lattice
end PeerMix
