import PeerMix.Modular
import PeerMix.Bytes

/-!
# The base field of the curve

Both the key agreement and the signatures work on curves over the integers
modulo `2 ^ 255 - 19`.  All operations return reduced numbers.
-/

namespace PeerMix
namespace Curve

def prime : Nat := Nat.pow 2 255 - 19

def add (a b : Nat) : Nat :=
  (a + b) % prime

def sub (a b : Nat) : Nat :=
  (a + (prime - b % prime)) % prime

def mul (a b : Nat) : Nat :=
  a * b % prime

def square (a : Nat) : Nat :=
  mul a a

def pow (a n : Nat) : Nat :=
  Modular.pow prime a n

def inverse (a : Nat) : Nat :=
  pow a (prime - 2)

def encode (n : Nat) : Bytes :=
  Bytes.littleEndian 32 n

/-- Makes a scalar a multiple of eight whose highest bit is bit 254. -/
def clamp (n : Nat) : Nat :=
  n % Nat.pow 2 254 / 8 * 8 + Nat.pow 2 254

def bits : (count n : Nat) → List Bool
  | 0, _ => []
  | count + 1, n => n.testBit count :: bits count n

end Curve
end PeerMix
