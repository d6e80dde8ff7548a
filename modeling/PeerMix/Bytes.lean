/-!
# Byte strings

Byte strings are lists of octets.  The codings of natural numbers below come in
pairs: a fixed number of octets, least or most significant first, and the
number that a list of octets spells.
-/

namespace PeerMix

abbrev Bytes := List UInt8

namespace Bytes

/-- The number that `bs` spells, most significant octet first. -/
def toNat (bs : Bytes) : Nat :=
  bs.foldl (fun n b => 256 * n + b.toNat) 0

def littleEndian : (width n : Nat) → Bytes
  | 0, _ => []
  | width + 1, n => UInt8.ofNat n :: littleEndian width (n / 256)

def bigEndian (width n : Nat) : Bytes :=
  (littleEndian width n).reverse

theorem length_littleEndian (width n : Nat) :
    (littleEndian width n).length = width := by
  induction width generalizing n with
  | zero => rfl
  | succ width ih => simp [littleEndian, ih]

theorem length_bigEndian (width n : Nat) : (bigEndian width n).length = width := by
  simp [bigEndian, length_littleEndian]

def toNatLE (bs : Bytes) : Nat :=
  toNat bs.reverse

/-- The number of octets in the shortest spelling of `n`; zero takes one. -/
def width (n : Nat) : Nat :=
  n.log2 / 8 + 1

def ofNat (n : Nat) : Bytes :=
  bigEndian (width n) n

def zeros (n : Nat) : Bytes :=
  List.replicate n 0

/-- Octet by octet exclusive or, as long as the shorter of the two. -/
def xor (a b : Bytes) : Bytes :=
  List.zipWith (· ^^^ ·) a b

/-- The octets of a text that holds characters below 256 only. -/
def ofLatin (s : String) : Bytes :=
  s.toList.map fun c => UInt8.ofNat c.toNat

/-! ## Splitting into pieces of one size -/

/-- Cuts `bs` into pieces of `n` octets, a shorter last piece included.  No
more pieces than octets can arise, so their number bounds the recursion. -/
def pieces (n : Nat) (bs : Bytes) : List Bytes :=
  cut bs.length bs []
where
  cut : Nat → Bytes → List Bytes → List Bytes
    | 0, _, done => done.reverse
    | _, [], done => done.reverse
    | bound + 1, rest, done => cut bound (rest.drop n) (rest.take n :: done)

end Bytes

end PeerMix
