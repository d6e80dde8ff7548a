import Mathlib.Data.Fintype.Basic
import Mathlib.Logic.Function.Iterate
import Mathlib.Tactic.FinCases
import PeerMix.Proofs.Bytes.Numbers
import PeerMix.Proofs.Bytes.Pieces
import PeerMix.Random.ChaCha

/-!
# The square of ChaCha20

The cipher seen as a square of words whose columns are mixed, then its diagonals,
ten times over.  The blocks that are computed in place, word by word, are the sums
of such a square with the one it began with.
-/

namespace PeerMix

/-!
## The cipher
-/

namespace ChaCha20

/-- Sixteen words in four rows and four columns. -/
abbrev Square := Fin 4 -> Fin 4 -> BitVec 32

/-- Mixes the four words of a column. -/
def quarter (a b c d : BitVec 32) : Fin 4 -> BitVec 32 :=
  let a := a + b
  let d := (d ^^^ a).rotateLeft 16
  let c := c + d
  let b := (b ^^^ c).rotateLeft 12
  let a := a + b
  let d := (d ^^^ a).rotateLeft 8
  let c := c + d
  let b := (b ^^^ c).rotateLeft 7
  fun
  | 0 => a
  | 1 => b
  | 2 => c
  | 3 => d

def columns (s : Square) : Square := fun row column =>
  quarter (s 0 column) (s 1 column) (s 2 column) (s 3 column) row

/-- Moves every row on by its number, which turns diagonals into columns. -/
def slant (s : Square) : Square := fun row column => s row (column + row)

def unslant (s : Square) : Square := fun row column => s row (column - row)

def doubleRound (s : Square) : Square :=
  unslant (columns (slant (columns s)))

/-- Word `i` of a byte string, least significant octet first. -/
def wordAt (bs : Bytes) (i : Nat) : BitVec 32 :=
  BitVec.ofNat 32 (Bytes.toNatLE ((bs.drop (4 * i)).take 4))

/-- A row of constants, two of the key and one of the numbers of the block and of the
stream. -/
def start (key : Bytes) (stream number : BitVec 64) : Square
  | 0, column => wordAt (Bytes.ofLatin "expand 32-byte k") column
  | 1, column => wordAt key column
  | 2, column => wordAt key (4 + column)
  | 3, 0 => number.setWidth 32
  | 3, 1 => (number >>> 32).setWidth 32
  | 3, 2 => stream.setWidth 32
  | 3, 3 => (stream >>> 32).setWidth 32

def block (key : Bytes) (stream number : BitVec 64) : Square := fun row column =>
  start key stream number row column + (doubleRound^[10] (start key stream number)) row column

/-- Word `i` of the keystream, which goes through the rows of one block after the
other. -/
def word (key : Bytes) (stream : BitVec 64) (i : Nat) : BitVec 32 :=
  block key stream (BitVec.ofNat 64 (i / 16)) (Fin.ofNat 4 (i / 4)) (Fin.ofNat 4 i)

/-- Octet `i` of the keystream, whose words have their least significant octet
first. -/
def octet (key : Bytes) (stream : BitVec 64) (i : Nat) : UInt8 :=
  UInt8.ofBitVec ((word key stream (i / 4)).extractLsb' (8 * (i % 4)) 8)

/-- The number of words until the numbers of the blocks start again. -/
def period : Nat :=
  16 * UInt64.size

end ChaCha20

/-!
## Rounds in place
-/

namespace Keystream

open ChaCha20

def bits (b : Block) (i : Fin 16) : BitVec 32 :=
  (b.get i).toBitVec

theorem bits_eq (b : Block) {i : Nat} (hi : i < 16) : bits b ⟨i, hi⟩ = b[i].toBitVec := rfl

theorem bits_ofFn (f : Fin 16 -> UInt32) (i : Fin 16) :
    bits (Vector.ofFn f) i = (f i).toBitVec := by
  rcases i with ⟨i, hi⟩
  rw [bits_eq, Vector.getElem_ofFn]

def square (b : Block) : Square := fun row column =>
  bits b ⟨4 * row.val + column.val, by omega⟩

theorem toBitVec_rotateLeft (x k : UInt32) (hpos : 0 < k.toNat) (hk : k.toNat < 32) :
    (rotateLeft x k).toBitVec = x.toBitVec.rotateLeft k.toNat := by
  simp only [rotateLeft, UInt32.toBitVec_or, UInt32.toBitVec_shiftLeft, UInt32.toBitVec_shiftRight,
    BitVec.rotateLeft_def, BitVec.shiftLeft_eq', BitVec.ushiftRight_eq']
  congr 2
  rw [Nat.mod_eq_of_lt hk, BitVec.toNat_umod, UInt32.toNat_toBitVec, UInt32.toNat_sub]
  show (4294967296 - k.toNat + 32) % 4294967296 % 32 = 32 - k.toNat
  omega

theorem bits_set (b : Block) {i : Nat} (hi : i < 16) (x : UInt32) :
    bits (b.set i x hi) = Function.update (bits b) ⟨i, hi⟩ x.toBitVec := by
  funext ⟨j, hj⟩
  rw [Function.update_apply, bits_eq, bits_eq, Vector.getElem_set]
  by_cases hij : i = j
  · rw [if_pos hij, if_pos (Fin.ext hij.symm)]
  · rw [if_neg hij, if_neg fun h => hij (congrArg Fin.val h.symm)]

theorem bits_quarterRound (s : Block) (a b c d : Fin 16) :
    let q := quarter (bits s a) (bits s b) (bits s c) (bits s d)
    bits (quarterRound s a b c d) =
      Function.update (Function.update (Function.update (Function.update (bits s)
        a (q 0)) b (q 1)) c (q 2)) d (q 3) := by
  have h16 (x : UInt32) : (rotateLeft x 16).toBitVec = x.toBitVec.rotateLeft 16 :=
    toBitVec_rotateLeft x 16 (by decide) (by decide)
  have h12 (x : UInt32) : (rotateLeft x 12).toBitVec = x.toBitVec.rotateLeft 12 :=
    toBitVec_rotateLeft x 12 (by decide) (by decide)
  have h8 (x : UInt32) : (rotateLeft x 8).toBitVec = x.toBitVec.rotateLeft 8 :=
    toBitVec_rotateLeft x 8 (by decide) (by decide)
  have h7 (x : UInt32) : (rotateLeft x 7).toBitVec = x.toBitVec.rotateLeft 7 :=
    toBitVec_rotateLeft x 7 (by decide) (by decide)
  simp only [quarterRound, bits_set, Fin.eta, UInt32.toBitVec_add, UInt32.toBitVec_xor, h16, h12,
    h8, h7]
  rfl

theorem square_columnRound (s : Block) : square (columnRound s) = columns (square s) := by
  funext row column
  -- Each of the sixteen words is one that a quarter round has just written.
  fin_cases row <;> fin_cases column <;>
    simp only [square, columnRound, bits_quarterRound, columns] <;> rfl

theorem square_diagonalRound (s : Block) :
    square (diagonalRound s) = unslant (columns (slant (square s))) := by
  funext row column
  fin_cases row <;> fin_cases column <;>
    simp only [square, diagonalRound, bits_quarterRound] <;> rfl

theorem square_doubleRounds (s : Block) (n : Nat) :
    square ((List.range n).foldl (fun r _ => diagonalRound (columnRound r)) s) =
      doubleRound^[n] (square s) := by
  induction n with
  | zero => rfl
  | succ n ih =>
      rw [List.range_succ, List.foldl_append, Function.iterate_succ_apply', ← ih]
      exact (square_diagonalRound _).trans
        (congrArg (fun s => unslant (columns (slant s))) (square_columnRound _))

/-!
## Blocks
-/

theorem words_eq {count : Nat} {bs : Bytes} (hbs : bs.length = 4 * count) :
    words bs = (List.range count).map fun i => UInt32.ofBitVec (wordAt bs i) := by
  rw [words, Bytes.pieces_eq (by decide) hbs, List.map_map]
  rfl

theorem constants_eq :
    constants = (List.range 4).map fun i =>
      UInt32.ofBitVec (wordAt (Bytes.ofLatin "expand 32-byte k") i) := by
  decide

theorem square_start (k : Keystream) (hkey : k.key.length = 32) (number : UInt64) :
    square (k.start number) = ChaCha20.start k.key k.stream.toBitVec number.toBitVec := by
  have hwords : words k.key = (List.range 8).map fun i => UInt32.ofBitVec (wordAt k.key i) :=
    words_eq hkey
  funext row column
  fin_cases row <;> fin_cases column <;>
    simp [square, start, ChaCha20.start, bits_ofFn, hwords, constants_eq]

theorem square_block (k : Keystream) (hkey : k.key.length = 32) (number : UInt64) :
    square (k.block number) = ChaCha20.block k.key k.stream.toBitVec number.toBitVec := by
  have hadd (s r : Block) : square (Vector.zipWith (· + ·) s r) = fun row column =>
      square s row column + square r row column := by
    funext row column
    simp [square, bits_eq]
  rw [block, hadd, square_doubleRounds, square_start k hkey]
  rfl

/-- Word `i` of the blocks in order. -/
def word (k : Keystream) (i : Nat) : UInt32 :=
  (k.block (UInt64.ofNat (i / 16)))[i % 16]

theorem toBitVec_word (k : Keystream) (hkey : k.key.length = 32) (i : Nat) :
    (k.word i).toBitVec = ChaCha20.word k.key k.stream.toBitVec i := by
  have hplace : 4 * (i / 4 % 4) + i % 4 = i % 16 := by omega
  have hblock := congrFun (congrFun (square_block k hkey (UInt64.ofNat (i / 16)))
    (Fin.ofNat 4 (i / 4))) (Fin.ofNat 4 i)
  refine Eq.trans ?_ hblock
  simp only [word, square, bits_eq, Fin.val_ofNat, hplace]

end Keystream
end PeerMix
