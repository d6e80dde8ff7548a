import PeerMix.Proofs.Bytes.Numbers
import PeerMix.Proofs.Lattice.Sizes

/-!
# The blank key

The key pair whose vectors hold nothing but zeros hides a message under its
last small polynomial alone.  Rounding removes that polynomial, so the blank key
recovers every message whatever the coins are.
-/

namespace PeerMix
namespace Lattice

namespace Poly

theorem scale_replicate_zero (c n : Nat) :
    scale c (List.replicate n 0) = List.replicate n 0 := by
  simp [scale]

theorem add_replicate_zero (n m : Nat) :
    add (List.replicate n 0) (List.replicate m 0) = List.replicate (min n m) 0 := by
  simp [add]

theorem sub_replicate_zero (n m : Nat) :
    sub (List.replicate n 0) (List.replicate m 0) = List.replicate (min n m) 0 := by
  simp [sub]

theorem restoreFrom_replicate_zero (level node : Nat) :
    restoreFrom level node (List.replicate (Nat.pow 2 (level + 1)) 0) =
      List.replicate (Nat.pow 2 (level + 1)) 0 := by
  induction level generalizing node with
  | zero => rfl
  | succ level ih =>
      have hdouble : Nat.pow 2 (level + 1 + 1) = Nat.pow 2 (level + 1) + Nat.pow 2 (level + 1) :=
        Nat.two_pow_succ (level + 1)
      rw [restoreFrom, List.take_replicate, List.drop_replicate, hdouble,
        Nat.min_eq_left (Nat.le_add_right _ _), Nat.add_sub_cancel, ih, ih]
      simp only [add_replicate_zero, sub_replicate_zero, scale_replicate_zero, Nat.min_self,
        List.replicate_append_replicate]

theorem restore_zero : zero.restore = zero := by
  have hlevels : restoreFrom 7 1 (List.replicate 256 0) = List.replicate 256 0 :=
    restoreFrom_replicate_zero 7 1
  rw [restore, zero, hlevels, scale_replicate_zero]

theorem multiplyLeaves_zero (roots f : List Nat) (hf : f.length = 2 * roots.length) :
    multiplyLeaves roots (List.replicate (2 * roots.length) 0) f =
      List.replicate (2 * roots.length) 0 := by
  induction roots generalizing f with
  | nil => rfl
  | cons r roots ih =>
      match f, hf with
      | a :: b :: f, hf =>
          have hrest : f.length = 2 * roots.length := by
            simp only [List.length_cons] at hf
            omega
          rw [List.length_cons, Nat.mul_succ, List.replicate_succ, List.replicate_succ,
            multiplyLeaves, ih f hrest]
          simp

theorem zero_multiply {f : Poly} (hf : f.IsFull) : zero.multiply f = zero := by
  have hroots : leafRoots.length = 128 := by
    rw [leafRoots, List.length_map, List.length_range]
  have hproduct := multiplyLeaves_zero leafRoots f (by rw [hf, hroots])
  rw [hroots] at hproduct
  exact hproduct

theorem zero_add_zero : zero.add zero = zero :=
  add_replicate_zero 256 256

theorem zero_add {f : Poly} (hf : f.IsFull) (hreduced : forall x, x ∈ f -> x < modulus) :
    zero.add f = f := by
  apply List.ext_getElem
  · rw [isFull_zero.add hf, hf]
  · intro i _hi hif
    have hx := hreduced f[i] (List.getElem_mem hif)
    simp only [add, zero, List.getElem_zipWith, List.getElem_replicate, Nat.zero_add,
      Nat.mod_eq_of_lt hx]

theorem sub_zero {f : Poly} (hf : f.IsFull) (hreduced : forall x, x ∈ f -> x < modulus) :
    f.sub zero = f := by
  apply List.ext_getElem
  · rw [sub, List.length_zipWith, hf, isFull_zero, Nat.min_self]
  · intro i _hi hif
    have hx := hreduced f[i] (List.getElem_mem hif)
    simp only [sub, zero, List.getElem_zipWith, List.getElem_replicate, Nat.sub_zero,
      Nat.add_mod_right, Nat.mod_eq_of_lt hx]

end Poly

theorem inner_zero {v : List Poly} (hv : FullVector v) :
    inner [Poly.zero, Poly.zero, Poly.zero] v = Poly.zero := by
  match v, hv with
  | [f, g, h], hv =>
      have hf := Poly.zero_multiply (hv.right f (by simp))
      have hg := Poly.zero_multiply (hv.right g (by simp))
      have hh := Poly.zero_multiply (hv.right h (by simp))
      simp only [inner, List.zipWith_cons_cons, List.zipWith_nil_left, hf, hg, hh, List.foldl_cons,
        List.foldl_nil, Poly.zero_add_zero]

/-!
## Packing
-/

theorem digits_lt (width count n : Nat) : forall x, x ∈ digits width count n -> x < Nat.pow 2 width := by
  induction count generalizing n with
  | zero => simp [digits]
  | succ count ih =>
      intro x hx
      rcases List.mem_cons.mp hx with rfl | hx
      · exact Nat.mod_lt _ (Nat.two_pow_pos width)
      · exact ih _ x hx

/-- The number that is packed, in digits to the base `2 ^ width`. -/
def packed (width : Nat) (xs : List Nat) : Nat :=
  xs.foldr (fun x n => x % Nat.pow 2 width + Nat.pow 2 width * n) 0

theorem packed_lt (width : Nat) (xs : List Nat) :
    packed width xs < Nat.pow (Nat.pow 2 width) xs.length := by
  induction xs with
  | nil => exact Nat.one_pos
  | cons x xs ih =>
      have hdigit : x % Nat.pow 2 width < Nat.pow 2 width := Nat.mod_lt _ (Nat.two_pow_pos width)
      have hpower : Nat.pow (Nat.pow 2 width) (x :: xs).length =
          Nat.pow 2 width * Nat.pow (Nat.pow 2 width) xs.length := Nat.pow_succ'
      have hrest := Nat.mul_le_mul_left (Nat.pow 2 width) (Nat.succ_le_of_lt ih)
      rw [Nat.mul_succ] at hrest
      show x % Nat.pow 2 width + Nat.pow 2 width * packed width xs < _
      omega

theorem digits_packed (width : Nat) (xs : List Nat) (hxs : forall x, x ∈ xs -> x < Nat.pow 2 width) :
    digits width xs.length (packed width xs) = xs := by
  induction xs with
  | nil => rfl
  | cons x xs ih =>
      have hx : x % Nat.pow 2 width = x := Nat.mod_eq_of_lt (hxs x List.mem_cons_self)
      have hrest := ih fun y hy => hxs y (List.mem_cons_of_mem x hy)
      have hnumber : packed width (x :: xs) = x + Nat.pow 2 width * packed width xs :=
        congrArg (· + Nat.pow 2 width * packed width xs) hx
      have hquotient : (x + Nat.pow 2 width * packed width xs) / Nat.pow 2 width =
          packed width xs := by
        have hpositive : 0 < Nat.pow 2 width := Nat.two_pow_pos width
        rw [Nat.add_mul_div_left _ _ hpositive, Nat.div_eq_of_lt (hxs x List.mem_cons_self),
          Nat.zero_add]
      rw [List.length_cons, digits, hnumber, Nat.add_mul_mod_self_left, hx, hquotient, hrest]

theorem packed_digits (width count n : Nat) :
    packed width (digits width count n) = n % Nat.pow (Nat.pow 2 width) count := by
  induction count generalizing n with
  | zero => exact (Nat.mod_one n).symm
  | succ count ih =>
      have hpower : Nat.pow (Nat.pow 2 width) (count + 1) =
          Nat.pow 2 width * Nat.pow (Nat.pow 2 width) count := Nat.pow_succ'
      show n % Nat.pow 2 width % Nat.pow 2 width +
        Nat.pow 2 width * packed width (digits width count (n / Nat.pow 2 width)) = _
      rw [ih, hpower, Nat.mod_mul, Nat.mod_mod]

/-- What is packed into octets comes out again. -/
theorem unpack_pack {f : Poly} (hf : f.IsFull) (hreduced : forall x, x ∈ f -> x < Nat.pow 2 4) :
    unpack 4 (pack 4 f) = f := by
  have hlength : (pack 4 f).length = 128 := by rw [length_pack, hf]
  have hroom : packed 4 f < Nat.pow 256 128 := by
    have hlt := packed_lt 4 f
    rw [hf] at hlt
    exact hlt
  have hnumber : (pack 4 f).toNatLE = packed 4 f := by
    rw [pack, Bytes.toNatLE_littleEndian, hf]
    exact Nat.mod_eq_of_lt hroom
  have hdigits := digits_packed 4 f hreduced
  rw [hf] at hdigits
  rw [unpack, hlength, hnumber]
  exact hdigits

/-- Octets are packed from their bits. -/
theorem pack_unpack {bs : Bytes} (hbs : bs.length = 32) : pack 1 (unpack 1 bs) = bs := by
  have hlength : (unpack 1 bs).length = 256 := by rw [length_unpack, hbs]
  have hroom : bs.toNatLE < Nat.pow (Nat.pow 2 1) 256 := by
    have hlt := Bytes.toNatLE_lt bs
    rw [hbs] at hlt
    exact hlt
  have hnumber : packed 1 (unpack 1 bs) = bs.toNatLE := by
    rw [unpack, hbs, packed_digits]
    exact Nat.mod_eq_of_lt hroom
  have hspelling := Bytes.littleEndian_toNatLE bs
  rw [hbs] at hspelling
  show Bytes.littleEndian ((unpack 1 bs).length * 1 / 8) (packed 1 (unpack 1 bs)) = bs
  rw [hlength, hnumber]
  exact hspelling

/-!
## Rounding removes small polynomials
-/

theorem compress_smallCoefficient {bits y : Nat} (hbits : bits < 16) (hy : y < 2) :
    compress 4 ((smallCoefficient bits + decompress 1 y) % modulus) = 8 * y := by
  have hall : forall bits, bits < 16 -> forall y, y < 2 ->
      compress 4 ((smallCoefficient bits + decompress 1 y) % modulus) = 8 * y := by
    decide
  exact hall bits hbits y hy

theorem small_reduced (key : Bytes) (counter : Nat) :
    forall x, x ∈ small key counter -> x < modulus := by
  intro x hx
  rcases List.mem_map.mp hx with ⟨bits, _hbits, rfl⟩
  exact Nat.mod_lt _ (by decide)

theorem unpack_bits {message : Bytes} (hmessage : message.length = 32) :
    (unpack 1 message).length = 256 ∧ forall y, y ∈ unpack 1 message -> y < 2 :=
  ⟨by rw [length_unpack, hmessage], digits_lt 1 _ _⟩

/-- What is left of a message under a small polynomial after rounding. -/
theorem compress_small (key : Bytes) (counter : Nat) {message : Bytes}
    (hmessage : message.length = 32) :
    ((small key counter).add (Poly.decompress 1 message)).compress 4 =
      pack 4 ((unpack 1 message).map (8 * ·)) := by
  rcases unpack_bits hmessage with ⟨hlength, hbits⟩
  have hfull := isFull_small key counter
  have hrounded : ((small key counter).add (Poly.decompress 1 message)).map (compress 4) =
      (unpack 1 message).map (8 * ·) := by
    apply List.ext_getElem
    · rw [List.length_map, List.length_map, hfull.add (Poly.isFull_decompress (by rw [hmessage])),
        hlength]
    · intro i _hi hbit
      rw [List.length_map] at hbit
      have hy := hbits _ (List.getElem_mem hbit)
      have hplace : i < (small key counter).length := by
        rw [hfull, ← hlength]
        exact hbit
      rcases List.mem_map.mp (List.getElem_mem hplace) with ⟨bits, hmem, hcoefficient⟩
      simp only [Poly.add, Poly.decompress, List.getElem_map, List.getElem_zipWith, ← hcoefficient]
      exact compress_smallCoefficient (digits_lt 4 _ _ bits hmem) hy
  rw [Poly.compress, hrounded]

/-!
## The key pair
-/

def PublicKey.blank : PublicKey :=
  { vector := [Poly.zero, Poly.zero, Poly.zero], matrixSeed := Bytes.zeros 32 }

def SecretKey.blank : SecretKey :=
  { vector := [], publicKey := PublicKey.blank, refusalKey := [] }

theorem PublicKey.isFull_blank : PublicKey.blank.IsFull := by
  constructor
  · constructor
    · rfl
    · intro f hf
      have hzero : f = Poly.zero := by simpa [PublicKey.blank] using hf
      rw [hzero]
      exact Poly.isFull_zero
  · rfl

theorem PublicKey.eq_of_parts {k l : PublicKey} (hvector : k.vector = l.vector)
    (hseed : k.matrixSeed = l.matrixSeed) : k = l := by
  cases k
  cases l
  cases hvector
  cases hseed
  rfl

theorem PublicKey.ofBytes_toBytes_blank :
    PublicKey.ofBytes PublicKey.blank.toBytes = PublicKey.blank := by
  have hvector : (PublicKey.ofBytes PublicKey.blank.toBytes).vector = PublicKey.blank.vector := by
    decide +kernel
  have hseed : (PublicKey.ofBytes PublicKey.blank.toBytes).matrixSeed =
      PublicKey.blank.matrixSeed := by
    decide +kernel
  exact PublicKey.eq_of_parts hvector hseed

/-- All that is left of a message is rounded. -/
theorem PublicKey.encrypt_blank {message : Bytes} (hmessage : message.length = 32) (coins : Bytes) :
    exists front, front.length = 960 ∧
      PublicKey.blank.encrypt message coins = front ++ pack 4 ((unpack 1 message).map (8 * ·)) := by
  have hy := (fullVector_smallVector coins 0).transform
  have hlast : (inner PublicKey.blank.vector
      ((smallVector coins 0).map Poly.transform)).restore.add (small coins (2 * rank)) =
        small coins (2 * rank) := by
    rw [PublicKey.blank, inner_zero hy, Poly.restore_zero,
      Poly.zero_add (isFull_small _ _) (small_reduced _ _)]
  have hlength := PublicKey.length_encrypt PublicKey.isFull_blank.left message coins hmessage
  rw [PublicKey.encrypt, hlast, compress_small _ _ hmessage] at hlength ⊢
  refine ⟨_, ?_, rfl⟩
  have hrounded : (pack 4 ((unpack 1 message).map (8 * ·))).length = 128 := by
    rw [length_pack, List.length_map, (unpack_bits hmessage).left]
  have hsize : ciphertextSize = 1088 := rfl
  rw [List.length_append] at hlength
  omega

theorem SecretKey.decrypt_blank {message : Bytes} (hmessage : message.length = 32)
    (coins : Bytes) :
    SecretKey.blank.decrypt (PublicKey.blank.encrypt message coins) = message := by
  rcases PublicKey.encrypt_blank hmessage coins with ⟨front, hfront, hciphertext⟩
  rcases unpack_bits hmessage with ⟨hlength, hbits⟩
  have hinner (v : List Poly) : (inner SecretKey.blank.vector v).restore = Poly.zero :=
    Poly.restore_zero
  have hrounded : unpack 4 (pack 4 ((unpack 1 message).map (8 * ·))) =
      (unpack 1 message).map (8 * ·) := by
    apply unpack_pack
    · rw [Poly.IsFull, List.length_map, hlength]
    · intro x hx
      rcases List.mem_map.mp hx with ⟨y, hy, rfl⟩
      have hbit := hbits y hy
      show 8 * y < 16
      omega
  have hrestored : forall y, y < 2 -> decompress 4 (8 * y) < modulus ∧
      compress 1 (decompress 4 (8 * y)) = y := by
    decide
  have hremoved : Poly.sub (((unpack 1 message).map (8 * ·)).map (decompress 4)) Poly.zero =
      ((unpack 1 message).map (8 * ·)).map (decompress 4) := by
    apply Poly.sub_zero
    · rw [Poly.IsFull, List.length_map, List.length_map, hlength]
    · intro x hx
      rw [List.map_map] at hx
      rcases List.mem_map.mp hx with ⟨y, hy, rfl⟩
      exact (hrestored y (hbits y hy)).left
  have hrecovered : (((unpack 1 message).map (8 * ·)).map (decompress 4)).map (compress 1) =
      unpack 1 message := by
    rw [List.map_map, List.map_map]
    exact (List.map_congr_left fun y hy => (hrestored y (hbits y hy)).right).trans
      (List.map_id _)
  rw [SecretKey.decrypt, hinner, hciphertext, List.drop_left' hfront, Poly.decompress, hrounded,
    hremoved, Poly.compress, hrecovered, pack_unpack hmessage]

/-- The blank key recovers whatever is encapsulated to it. -/
theorem SecretKey.decapsulate_blank {message : Bytes} (hmessage : message.length = 32) :
    SecretKey.blank.decapsulate (PublicKey.blank.encapsulate message).1 =
      (PublicKey.blank.encapsulate message).2 := by
  have hdecrypt := SecretKey.decrypt_blank hmessage (derive PublicKey.blank message).2
  have hkey : SecretKey.blank.publicKey = PublicKey.blank := rfl
  unfold SecretKey.decapsulate PublicKey.encapsulate
  dsimp only
  rw [hdecrypt, hkey, if_pos rfl]

end Lattice
end PeerMix
