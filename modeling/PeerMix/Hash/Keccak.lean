import PeerMix.Bytes

/-!
# Keccak

The permutation on twenty-five lanes of 64 bits and the sponge built on it,
with the four members used here: two hashes of fixed length and two functions
of extendable output.  Lane `x + 5 * y` stands in column `x` and row `y`.
-/

namespace PeerMix
namespace Keccak

abbrev State := Vector UInt64 25

def blank : State :=
  Vector.replicate 25 0

def rotateLeft (x : UInt64) (k : Nat) : UInt64 :=
  let k := UInt64.ofNat (k % 64)
  if k = 0 then x else (x <<< k) ||| (x >>> (64 - k))

/-! ## The permutation -/

/-- The lane that moves to place `i`, and how far its bits are rotated. -/
def moves : List (Nat × Nat) :=
  [(0, 0), (6, 44), (12, 43), (18, 21), (24, 14),
    (3, 28), (9, 20), (10, 3), (16, 45), (22, 61),
    (1, 1), (7, 6), (13, 25), (19, 8), (20, 18),
    (4, 27), (5, 36), (11, 10), (17, 15), (23, 56),
    (2, 62), (8, 55), (14, 39), (15, 41), (21, 2)]

def roundConstants : List UInt64 :=
  [0x0000000000000001, 0x0000000000008082, 0x800000000000808a, 0x8000000080008000,
    0x000000000000808b, 0x0000000080000001, 0x8000000080008081, 0x8000000000008009,
    0x000000000000008a, 0x0000000000000088, 0x0000000080008009, 0x000000008000000a,
    0x000000008000808b, 0x800000000000008b, 0x8000000000008089, 0x8000000000008003,
    0x8000000000008002, 0x8000000000000080, 0x000000000000800a, 0x800000008000000a,
    0x8000000080008081, 0x8000000000008080, 0x0000000080000001, 0x8000000080008008]

def lane (s : State) (i : Nat) : UInt64 :=
  s.getD (i % 25) 0

def mixColumns (s : State) : State :=
  let parity : Vector UInt64 5 := Vector.ofFn fun x =>
    lane s x ^^^ lane s (x + 5) ^^^ lane s (x + 10) ^^^ lane s (x + 15) ^^^ lane s (x + 20)
  let effect : Vector UInt64 5 := Vector.ofFn fun x =>
    parity.getD ((x + 4) % 5) 0 ^^^ rotateLeft (parity.getD ((x + 1) % 5) 0) 1
  Vector.ofFn fun i => lane s i ^^^ effect.getD (i % 5) 0

def movesTable : Vector (Nat × Nat) 25 :=
  Vector.ofFn fun i => moves.getD i (0, 0)

def moveLanes (s : State) : State :=
  movesTable.map fun (source, distance) => rotateLeft (lane s source) distance

def mixRows (s : State) : State :=
  Vector.ofFn fun i =>
    let row := i / 5 * 5
    lane s i ^^^ (~~~ lane s (row + (i + 1) % 5) &&& lane s (row + (i + 2) % 5))

def round (s : State) (constant : UInt64) : State :=
  let s := mixRows (moveLanes (mixColumns s))
  s.set 0 (lane s 0 ^^^ constant)

def permute (s : State) : State :=
  roundConstants.foldl round s

/-! ## The sponge -/

def absorbBlock (s : State) (block : Bytes) : State :=
  let lanes := (block.pieces 8).toArray
  permute (Vector.ofFn fun i => lane s i ^^^ UInt64.ofNat (lanes.getD i []).toNatLE)

/-- Fills the message up to whole blocks of `rate` octets; the octet `suffix`
marks the member of the family, and the last bit closes the block. -/
def padded (rate : Nat) (suffix : UInt8) (message : Bytes) : Bytes :=
  match rate - 1 - message.length % rate with
  | 0 => message ++ [suffix ||| 0x80]
  | fill + 1 => message ++ suffix :: Bytes.zeros fill ++ [0x80]

def absorb (rate : Nat) (suffix : UInt8) (message : Bytes) : State :=
  ((padded rate suffix message).pieces rate).foldl absorbBlock blank

def output (rate : Nat) (s : State) : Bytes :=
  (s.toList.flatMap fun x => Bytes.littleEndian 8 x.toNat).take rate

def squeeze (rate : Nat) : (blocks : Nat) → State → Bytes
  | 0, _ => []
  | blocks + 1, s => output rate s ++ squeeze rate blocks (permute s)

/-! ## Members of the family -/

def sha3_256 (message : Bytes) : Bytes :=
  (output 136 (absorb 136 0x06 message)).take 32

def sha3_512 (message : Bytes) : Bytes :=
  (output 72 (absorb 72 0x06 message)).take 64

def shake256 (message : Bytes) (n : Nat) : Bytes :=
  (squeeze 136 (n / 136 + 1) (absorb 136 0x1f message)).take n

def shake128Rate : Nat := 168

def shake128 (message : Bytes) : State :=
  absorb shake128Rate 0x1f message

end Keccak
end PeerMix
