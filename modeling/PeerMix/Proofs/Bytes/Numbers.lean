import Mathlib.Data.List.Induction
import Mathlib.Tactic.Ring
import PeerMix.Bytes

/-!
# Numbers in octets

Reading the octets that spell a number gives the number back, up to what its
octets hold.
-/

namespace PeerMix
namespace Bytes

theorem toNat_append (bs : Bytes) (b : UInt8) : toNat (bs ++ [b]) = 256 * toNat bs + b.toNat := by
  rw [toNat, List.foldl_append]
  rfl

theorem toNatLE_cons (b : UInt8) (bs : Bytes) :
    toNatLE (b :: bs) = 256 * toNatLE bs + b.toNat := by
  rw [toNatLE, List.reverse_cons, toNat_append]
  rfl

theorem toNatLE_littleEndian (width n : Nat) :
    toNatLE (littleEndian width n) = n % Nat.pow 256 width := by
  induction width generalizing n with
  | zero => exact (Nat.mod_one n).symm
  | succ width ih =>
      have hoctet : (UInt8.ofNat n).toNat = n % 256 := UInt8.toNat_ofNat'
      have hpower : Nat.pow 256 (width + 1) = 256 * Nat.pow 256 width := Nat.pow_succ'
      rw [littleEndian, toNatLE_cons, ih, hoctet, hpower, Nat.mod_mul, Nat.add_comm]

theorem toNat_bigEndian (width n : Nat) : toNat (bigEndian width n) = n % Nat.pow 256 width := by
  rw [← toNatLE_littleEndian, toNatLE, bigEndian]

/-- Numbers that fit are told apart by their octets. -/
theorem littleEndian_inj {width m n : Nat} (hm : m < Nat.pow 256 width)
    (hn : n < Nat.pow 256 width) (h : littleEndian width m = littleEndian width n) : m = n := by
  have hread := congrArg toNatLE h
  rw [toNatLE_littleEndian, toNatLE_littleEndian, Nat.mod_eq_of_lt hm, Nat.mod_eq_of_lt hn] at hread
  exact hread

theorem bigEndian_inj {width m n : Nat} (hm : m < Nat.pow 256 width) (hn : n < Nat.pow 256 width)
    (h : bigEndian width m = bigEndian width n) : m = n :=
  littleEndian_inj hm hn (List.reverse_inj.mp h)

/-!
## All octets count
-/

theorem toNatLE_lt (bs : Bytes) : toNatLE bs < 256 ^ bs.length := by
  induction bs with
  | nil => exact Nat.one_pos
  | cons b bs ih =>
      have hoctet : b.toNat < 256 := b.toNat_lt
      have hpower : 256 ^ (b :: bs).length = 256 * 256 ^ bs.length := Nat.pow_succ'
      rw [toNatLE_cons, hpower]
      omega

theorem toNat_eq_toNatLE (bs : Bytes) : toNat bs = toNatLE bs.reverse := by
  rw [toNatLE, List.reverse_reverse]

theorem toNat_lt (bs : Bytes) : toNat bs < 256 ^ bs.length := by
  rw [toNat_eq_toNatLE, ← List.length_reverse]
  exact toNatLE_lt bs.reverse

/-- The first octet counts for the most. -/
theorem toNat_cons (b : UInt8) (bs : Bytes) :
    toNat (b :: bs) = b.toNat * 256 ^ bs.length + toNat bs := by
  induction bs using List.reverseRecOn with
  | nil =>
      show 256 * 0 + b.toNat = b.toNat * 1 + 0
      omega
  | append_singleton bs last ih =>
      rw [← List.cons_append, toNat_append, ih, toNat_append, List.length_append,
        List.length_singleton, pow_succ]
      ring

theorem littleEndian_toNatLE (bs : Bytes) : littleEndian bs.length (toNatLE bs) = bs := by
  induction bs with
  | nil => rfl
  | cons b bs ih =>
      have hoctet : b.toNat < 256 := b.toNat_lt
      have hfirst : UInt8.ofNat (256 * toNatLE bs + b.toNat) = b := by
        apply UInt8.toNat_inj.mp
        rw [UInt8.toNat_ofNat']
        omega
      have hrest : (256 * toNatLE bs + b.toNat) / 256 = toNatLE bs := by omega
      rw [List.length_cons, toNatLE_cons, littleEndian, hfirst, hrest, ih]

/-- Octets are the spelling of the number that they spell. -/
theorem bigEndian_toNat {bs : Bytes} {width : Nat} (h : bs.length = width) :
    bigEndian width (toNat bs) = bs := by
  rw [← h, toNat_eq_toNatLE, bigEndian, ← List.length_reverse, littleEndian_toNatLE,
    List.reverse_reverse]

end Bytes
end PeerMix
