import PeerMix.Curve.Base

/-!
# X25519

Key agreement on the curve in Montgomery form.  A point is known by its first
coordinate; the ladder keeps two neighbouring multiples as fractions.
-/

namespace PeerMix
namespace X25519

open Curve

/-- Two multiples of a point that differ by the point, as fractions. -/
structure Rung where
  x2 : Nat
  z2 : Nat
  x3 : Nat
  z3 : Nat

def Rung.swap (r : Rung) : Rung :=
  ⟨r.x3, r.z3, r.x2, r.z2⟩

def Rung.climb (u : Nat) (r : Rung) : Rung :=
  let a := add r.x2 r.z2
  let b := sub r.x2 r.z2
  let aa := square a
  let bb := square b
  let e := sub aa bb
  let da := mul (sub r.x3 r.z3) a
  let cb := mul (add r.x3 r.z3) b
  { x2 := mul aa bb
    z2 := mul e (add aa (mul 121665 e))
    x3 := square (add da cb)
    z3 := mul u (square (sub da cb)) }

def Rung.step (u : Nat) (r : Rung) (bit : Bool) : Rung :=
  if bit then (r.swap.climb u).swap else r.climb u

/-- The multiple of the point with coordinate `u`; zero stands for the point at
infinity too. -/
def multiply (scalar u : Nat) : Nat :=
  let r := (bits 255 scalar).foldl (Rung.step u) ⟨1, 0, u, 1⟩
  mul r.x2 (inverse r.z2)

/-- The secret shared by the holder of `secret` and the one of `public`, both
of 32 octets.  The highest bit of the public value does not count. -/
def agree (secret public' : Bytes) : Bytes :=
  encode (multiply (clamp secret.toNatLE) (public'.toNatLE % Nat.pow 2 255 % prime))

def basePoint : Bytes :=
  encode 9

def publicKey (secret : Bytes) : Bytes :=
  agree secret basePoint

end X25519
end PeerMix
