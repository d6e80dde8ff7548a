import PeerMix.Bytes

/-!
# The ChaCha20 keystream

A key and a stream number determine an endless sequence of 32-bit words.  Block
`n` of sixteen words is the image of the key, the block number and the stream
number under twenty rounds.  The words of all blocks in order are numbered from
zero.
-/

namespace PeerMix

structure Keystream where
  key : Bytes
  stream : UInt64
  deriving DecidableEq, Repr

namespace Keystream

abbrev Block := Vector UInt32 16

def rotateLeft (x k : UInt32) : UInt32 :=
  (x <<< k) ||| (x >>> (32 - k))

/-! ## Rounds -/

def quarterRound (s : Block) (a b c d : Fin 16) : Block :=
  let va := s[a] + s[b]
  let vd := rotateLeft (s[d] ^^^ va) 16
  let vc := s[c] + vd
  let vb := rotateLeft (s[b] ^^^ vc) 12
  let va := va + vb
  let vd := rotateLeft (vd ^^^ va) 8
  let vc := vc + vd
  let vb := rotateLeft (vb ^^^ vc) 7
  (((s.set a va).set b vb).set c vc).set d vd

def columnRound (s : Block) : Block :=
  let s := quarterRound s 0 4 8 12
  let s := quarterRound s 1 5 9 13
  let s := quarterRound s 2 6 10 14
  quarterRound s 3 7 11 15

def diagonalRound (s : Block) : Block :=
  let s := quarterRound s 0 5 10 15
  let s := quarterRound s 1 6 11 12
  let s := quarterRound s 2 7 8 13
  quarterRound s 3 4 9 14

/-! ## Blocks -/

/-- The octets of the text "expand 32-byte k". -/
def constants : List UInt32 :=
  [0x61707865, 0x3320646e, 0x79622d32, 0x6b206574]

def words (bs : Bytes) : List UInt32 :=
  (bs.pieces 4).map fun piece => UInt32.ofNat piece.toNatLE

def start (k : Keystream) (number : UInt64) : Block :=
  let counter := [number.toUInt32, (number >>> 32).toUInt32]
  let nonce := [k.stream.toUInt32, (k.stream >>> 32).toUInt32]
  let input := (constants ++ (words k.key).take 8 ++ counter ++ nonce).toArray
  Vector.ofFn fun i => input.getD i 0

def block (k : Keystream) (number : UInt64) : Block :=
  let s := k.start number
  let r := (List.range 10).foldl (fun r _ => diagonalRound (columnRound r)) s
  Vector.zipWith (· + ·) s r

end Keystream
end PeerMix
