import PeerMix.Bytes
import PeerMix.Modular

/-!
# The slot reservation field

Slot reservation values are numbers modulo the Mersenne prime `2 ^ 127 - 1`.
The operations take natural numbers of any size and reduce where they say so.
-/

namespace PeerMix
namespace Field

def prime : Nat := Nat.pow 2 127 - 1

def contains (x : Nat) : Bool :=
  x < prime

def width : Nat := 16

def encode? (x : Nat) : Option Bytes :=
  if contains x then some (Bytes.bigEndian width x) else none

/-! ## Arithmetic -/

def sub (a b : Nat) : Nat :=
  (a + prime - b % prime) % prime

def pow (base exponent : Nat) : Nat :=
  Modular.pow prime base exponent

def sum (xs : List Nat) : Nat :=
  xs.foldr (· + ·) 0 % prime

/-- The multiplicative inverse, by Fermat's little theorem; zero stays zero. -/
def inverse (x : Nat) : Nat :=
  pow x (prime - 2)

/-! ## Vectors and polynomials -/

/-- The sums over all vectors at every position of the first one, or nothing
when a later vector is shorter. -/
def addVectors : List (List Nat) → Option (List Nat)
  | [] => some []
  | v :: vs =>
      if vs.all fun w => v.length ≤ w.length then
        some ((List.range v.length).map fun i =>
          sum ((v :: vs).map fun w => w.getD i 0))
      else none

/-- The coefficients above the one to be found next, from the power sums `s`:
the coefficient of degree `n - k` is the sum of the `k` next higher ones, each
times its power sum, divided by `-k`. -/
def nextCoefficient (s higher : List Nat) (k : Nat) : Nat :=
  sum (List.zipWith (· * ·) higher s) * sub 0 (inverse k) % prime

/-- The coefficients, lowest degree first, of the polynomial whose roots have
the power sums `s`, with leading coefficient `-1`. -/
def coefficients (s : List Nat) : List Nat :=
  (List.range s.length).foldl
    (fun higher i => nextCoefficient s higher (i + 1) :: higher) [prime - 1]

/-- Whether the polynomial with these coefficients, lowest degree first,
vanishes at `x`. -/
def isRoot (x : Nat) (coefficients : List Nat) : Bool :=
  (coefficients.foldl
    (fun (sum, power) c => ((sum + power * c) % prime, power * x % prime)) (0, 1)).1 = 0

end Field
end PeerMix
