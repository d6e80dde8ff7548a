import PeerMix.Curve.Base
import PeerMix.Hash.Sha2

/-!
# Ed25519

Signatures on the curve in twisted Edwards form.  A signature holds the
encoding of a point and a scalar.  It is accepted when the point that the
scalar, the message and the public key determine has exactly that encoding.
-/

namespace PeerMix
namespace Ed25519

open Curve

/-- The order of the base point. -/
def order : Nat := Nat.pow 2 252 + 27742317777372353535851937790883648493

def curveConstant : Nat :=
  mul (sub 0 121665) (inverse 121666)

def rootOfMinusOne : Nat :=
  pow 2 ((prime - 1) / 4)

/-! ## Points -/

/-- A point as two fractions with a common denominator, and their product. -/
structure Point where
  x : Nat
  y : Nat
  z : Nat
  t : Nat

namespace Point

def neutral : Point :=
  ⟨0, 1, 1, 0⟩

def ofCoordinates (x y : Nat) : Point :=
  ⟨x, y, 1, Curve.mul x y⟩

def add (p q : Point) : Point :=
  let a := mul (sub p.y p.x) (sub q.y q.x)
  let b := mul (Curve.add p.y p.x) (Curve.add q.y q.x)
  let c := mul (mul (mul 2 curveConstant) p.t) q.t
  let d := mul (mul 2 p.z) q.z
  let e := sub b a
  let f := sub d c
  let g := Curve.add d c
  let h := Curve.add b a
  ⟨mul e f, mul g h, mul f g, mul e h⟩

def negate (p : Point) : Point :=
  ⟨sub 0 p.x, p.y, p.z, sub 0 p.t⟩

def multiply (scalar : Nat) (p : Point) : Point :=
  (bits 256 scalar).foldl
    (fun q bit => if bit then add (add q q) p else add q q) neutral

/-- The second coordinate, with the parity of the first one as highest bit. -/
def encode (p : Point) : Bytes :=
  let scale := inverse p.z
  Curve.encode (mul p.y scale + mul p.x scale % 2 * Nat.pow 2 255)

def evenRoot? (u v : Nat) : Option Nat :=
  let cube := mul (square v) v
  let seventh := mul (square cube) v
  let root := mul (mul u cube) (pow (mul u seventh) ((prime - 5) / 8))
  let check := mul v (square root)
  let even r := if r % 2 = 0 then r else prime - r
  if check = u then some (even root)
  else if check = sub 0 u then some (even (mul root rootOfMinusOne))
  else none

/-- The point with the given encoding.  The coordinate need not be reduced, and
the parity bit of a point with first coordinate zero does not count. -/
def decode? (bs : Bytes) : Option Point :=
  let n := bs.toNatLE
  let y := n % Nat.pow 2 255 % prime
  let u := sub (square y) 1
  let v := Curve.add (mul curveConstant (square y)) 1
  (evenRoot? u v).map fun x =>
    ofCoordinates (if n / Nat.pow 2 255 % 2 = 1 then sub 0 x else x) y

def base : Point :=
  (decode? (Curve.encode (mul 4 (inverse 5)))).getD neutral

end Point

/-! ## Keys and signatures -/

def scalar (seed : Bytes) : Nat :=
  clamp (Bytes.toNatLE ((sha512 seed).take 32)) % order

def publicKey (seed : Bytes) : Bytes :=
  (Point.multiply (scalar seed) Point.base).encode

def hashToScalar (parts : List Bytes) : Nat :=
  (sha512 parts.flatten).toNatLE % order

def sign (seed message : Bytes) : Bytes :=
  let nonce := hashToScalar [(sha512 seed).drop 32, message]
  let point := (Point.multiply nonce Point.base).encode
  let challenge := hashToScalar [point, publicKey seed, message]
  point ++ Curve.encode ((challenge * scalar seed + nonce) % order)

/-- Whether `signature` is one of `message` under the key `public'`.  Keys and
signatures of the wrong length, keys that encode no point and scalars that are
not reduced are refused. -/
def verify (public' message signature : Bytes) : Bool :=
  let point := signature.take 32
  let response := Bytes.toNatLE (signature.drop 32)
  if public'.length = 32 ∧ signature.length = 64 ∧ response < order then
    match Point.decode? public' with
    | none => false
    | some key =>
        let challenge := hashToScalar [point, public', message]
        let expected :=
          (Point.multiply response Point.base).add (Point.multiply challenge key.negate)
        expected.encode = point
  else false

end Ed25519
end PeerMix
