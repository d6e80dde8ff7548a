import PeerMix.Lattice.Kem
import PeerMix.Proofs.Bytes.Pieces

/-!
# Sizes in the key encapsulation

Whatever seeds, messages and coins go in, an encapsulation key has 1184 octets
and a ciphertext has 1088.  All of it comes down to one invariant: polynomials
keep their 256 coefficients.
-/

namespace PeerMix

/-!
## Hash outputs
-/

namespace Keccak

theorem length_output {rate : Nat} (s : State) (hrate : rate ≤ 200) :
    (output rate s).length = rate := by
  have hlanes : (s.toList.flatMap fun x => Bytes.littleEndian 8 x.toNat).length = 200 := by
    rw [List.length_flatMap]
    simp only [Bytes.length_littleEndian, List.map_const', Vector.length_toList]
    rfl
  rw [output, List.length_take, hlanes]
  omega

theorem length_squeeze {rate : Nat} (blocks : Nat) (s : State) (hrate : rate ≤ 200) :
    (squeeze rate blocks s).length = rate * blocks := by
  induction blocks generalizing s with
  | zero => rfl
  | succ blocks ih =>
      rw [squeeze, List.length_append, length_output s hrate, ih, Nat.mul_succ]
      omega

theorem length_shake256 (message : Bytes) (n : Nat) :
    (shake256 message n).length = n := by
  rw [shake256, List.length_take, length_squeeze _ _ (by decide)]
  omega

theorem length_sha3_512 (message : Bytes) : (sha3_512 message).length = 64 := by
  rw [sha3_512, List.length_take, length_output _ (by decide)]
  rfl

end Keccak

namespace Lattice

/-!
## Coefficients and octets
-/

theorem length_pack (width : Nat) (xs : List Nat) :
    (pack width xs).length = xs.length * width / 8 := by
  exact Bytes.length_littleEndian _ _

theorem length_digits (width count n : Nat) : (digits width count n).length = count := by
  induction count generalizing n with
  | zero => rfl
  | succ count ih => rw [digits, List.length_cons, ih]

theorem length_unpack (width : Nat) (bs : Bytes) :
    (unpack width bs).length = 8 * bs.length / width := by
  exact length_digits _ _ _

/-!
## Polynomials
-/

/-- A polynomial with all its coefficients. -/
def Poly.IsFull (f : Poly) : Prop :=
  f.length = 256

namespace Poly

theorem isFull_zero : zero.IsFull := List.length_replicate

theorem IsFull.add {f g : Poly} (hf : f.IsFull) (hg : g.IsFull) : (f.add g).IsFull := by
  rw [IsFull, Poly.add, List.length_zipWith, hf, hg]
  rfl

theorem length_transformFrom (level node : Nat) (f : List Nat)
    (hf : f.length = Nat.pow 2 (level + 1)) :
    (transformFrom level node f).length = Nat.pow 2 (level + 1) := by
  induction level generalizing node f with
  | zero => exact hf
  | succ level ih =>
      -- Both halves have the length that the next level expects.
      have hdouble : Nat.pow 2 (level + 1 + 1) = 2 * Nat.pow 2 (level + 1) := Nat.pow_succ'
      simp only [transformFrom, List.length_append]
      rw [ih, ih]
      · omega
      · simp [sub, scale, hf]
        omega
      · simp [add, scale, hf]
        omega

theorem IsFull.transform {f : Poly} (hf : f.IsFull) : f.transform.IsFull :=
  length_transformFrom 7 1 f hf

theorem length_restoreFrom (level node : Nat) (f : List Nat)
    (hf : f.length = Nat.pow 2 (level + 1)) :
    (restoreFrom level node f).length = Nat.pow 2 (level + 1) := by
  induction level generalizing node f with
  | zero => exact hf
  | succ level ih =>
      have hdouble : Nat.pow 2 (level + 1 + 1) = 2 * Nat.pow 2 (level + 1) := Nat.pow_succ'
      have hlow := ih (2 * node) (f.take (Nat.pow 2 (level + 1))) (by
        rw [List.length_take, hf]
        omega)
      have hhigh := ih (2 * node + 1) (f.drop (Nat.pow 2 (level + 1))) (by
        rw [List.length_drop, hf]
        omega)
      simp only [restoreFrom, List.length_append, add, sub, scale, List.length_zipWith,
        List.length_map, hlow, hhigh]
      omega

theorem IsFull.restore {f : Poly} (hf : f.IsFull) : f.restore.IsFull := by
  rw [IsFull, Poly.restore, scale, List.length_map]
  exact length_restoreFrom 7 1 f hf

theorem length_multiplyLeaves (roots f g : List Nat)
    (hf : f.length = 2 * roots.length) (hg : g.length = 2 * roots.length) :
    (multiplyLeaves roots f g).length = 2 * roots.length := by
  induction roots generalizing f g with
  | nil => rfl
  | cons r roots ih =>
      match f, g, hf, hg with
      | a0 :: a1 :: f, b0 :: b1 :: g, hf, hg =>
          simp only [List.length_cons] at hf hg
          simp only [multiplyLeaves, List.length_cons]
          rw [ih f g (by omega) (by omega)]
          omega

theorem IsFull.multiply {f g : Poly} (hf : f.IsFull) (hg : g.IsFull) :
    (f.multiply g).IsFull := by
  have hroots : leafRoots.length = 128 := by
    rw [leafRoots, List.length_map, List.length_range]
  have hlength := length_multiplyLeaves leafRoots f g
    (by rw [hf, hroots]) (by rw [hg, hroots])
  rw [hroots] at hlength
  exact hlength

theorem isFull_ofBytes {bs : Bytes} (hbs : bs.length = 384) : (ofBytes bs).IsFull := by
  rw [IsFull, ofBytes, List.length_map, length_unpack, hbs]

theorem isFull_decompress {width : Nat} {bs : Bytes} (hbs : 8 * bs.length / width = 256) :
    (decompress width bs).IsFull := by
  rw [IsFull, decompress, List.length_map, length_unpack, hbs]

theorem length_toBytes {f : Poly} (hf : f.IsFull) : f.toBytes.length = 384 := by
  rw [toBytes, length_pack, hf]

theorem length_compress {f : Poly} (hf : f.IsFull) (width : Nat) :
    (f.compress width).length = 32 * width := by
  rw [compress, length_pack, List.length_map, hf]
  omega

end Poly

/-!
## Drawn polynomials
-/

theorem length_sampleUniform (blocks : Nat) (s : Keccak.State) (drawn : List Nat) :
    (sampleUniform blocks s drawn).length = 256 := by
  induction blocks generalizing s drawn with
  | zero =>
      rw [sampleUniform, List.length_take, List.length_append, Poly.isFull_zero]
      omega
  | succ blocks ih =>
      rw [sampleUniform]
      split
      · rw [List.length_take]
        omega
      · exact ih _ _

theorem isFull_uniform (seed : Bytes) : (uniform seed).IsFull :=
  length_sampleUniform _ _ _

theorem isFull_small (key : Bytes) (counter : Nat) : (small key counter).IsFull := by
  rw [Poly.IsFull, small, List.length_map, length_unpack, Keccak.length_shake256]

/-!
## Vectors
-/

/-- Vectors whose entries are all full. -/
def FullVector (v : List Poly) : Prop :=
  v.length = rank ∧ forall f, f ∈ v -> f.IsFull

theorem fullVector_map_range {entry : Nat -> Poly} (h : forall i, (entry i).IsFull) :
    FullVector ((List.range rank).map entry) := by
  constructor
  · rw [List.length_map, List.length_range]
  · intro f hf
    rcases List.mem_map.mp hf with ⟨i, _hi, rfl⟩
    exact h i

theorem fullVector_smallVector (key : Bytes) (counter : Nat) :
    FullVector (smallVector key counter) :=
  fullVector_map_range fun i => isFull_small key (counter + i)

theorem FullVector.transform {v : List Poly} (hv : FullVector v) :
    FullVector (v.map Poly.transform) := by
  constructor
  · rw [List.length_map]
    exact hv.left
  · intro f hf
    rcases List.mem_map.mp hf with ⟨g, hg, rfl⟩
    exact (hv.right g hg).transform

theorem isFull_foldl_add (fs : List Poly) (start : Poly) (hstart : start.IsFull)
    (hfs : forall f, f ∈ fs -> f.IsFull) : (fs.foldl Poly.add start).IsFull := by
  induction fs generalizing start with
  | nil => exact hstart
  | cons f fs ih =>
      apply ih
      · exact hstart.add (hfs f List.mem_cons_self)
      · intro g hg
        exact hfs g (List.mem_cons_of_mem f hg)

theorem isFull_inner {v w : List Poly} (hv : forall f, f ∈ v -> f.IsFull)
    (hw : forall f, f ∈ w -> f.IsFull) : (inner v w).IsFull := by
  apply isFull_foldl_add _ _ Poly.isFull_zero
  intro f hf
  rw [List.zipWith_eq_zipWith_take_min, ← List.map_uncurry_zip_eq_zipWith] at hf
  rcases List.mem_map.mp hf with ⟨⟨g, h⟩, hgh, rfl⟩
  have hmem := List.of_mem_zip hgh
  exact (hv g (List.mem_of_mem_take hmem.left)).multiply
    (hw h (List.mem_of_mem_take hmem.right))

/-- Combines a counter with the entries of a vector, as both halves of a key
and of a ciphertext are made. -/
theorem FullVector.zipWith_range {v : List Poly} (hv : FullVector v)
    {combine : Nat -> Poly -> Poly} (h : forall i f, f.IsFull -> (combine i f).IsFull) :
    FullVector (List.zipWith combine (List.range rank) v) := by
  constructor
  · rw [List.length_zipWith, List.length_range, hv.left]
    rfl
  · intro f hf
    rw [← List.map_uncurry_zip_eq_zipWith] at hf
    rcases List.mem_map.mp hf with ⟨⟨i, g⟩, hig, rfl⟩
    exact h i g (hv.right g (List.of_mem_zip hig).right)

theorem FullVector.length_flatMap {v : List Poly} (hv : FullVector v)
    {write : Poly -> Bytes} {size : Nat}
    (h : forall f : Poly, f.IsFull -> (write f).length = size) :
    (v.flatMap write).length = rank * size := by
  have hsizes : v.map (fun f => (write f).length) = v.map fun _ => size :=
    List.map_congr_left fun f hf => h f (hv.right f hf)
  rw [List.length_flatMap, hsizes, List.map_const', hv.left]
  simp

/-!
## Keys and ciphertexts
-/

namespace PublicKey

/-- A key whose vector and seed have their full sizes. -/
def IsFull (k : PublicKey) : Prop :=
  FullVector k.vector ∧ k.matrixSeed.length = 32

theorem IsFull.length_toBytes {k : PublicKey} (hk : k.IsFull) :
    k.toBytes.length = publicKeySize := by
  rw [toBytes, List.length_append,
    hk.left.length_flatMap (fun f hf => Poly.length_toBytes hf), hk.right]
  rfl

theorem fullVector_ofBytes {bs : Bytes} (hbs : bs.length = publicKeySize) :
    FullVector (ofBytes bs).vector := by
  have hvector : (bs.take 1152).length = 384 * rank := by
    rw [List.length_take, hbs]
    rfl
  have hpieces := Bytes.pieces_sizes (by decide) hvector
  constructor
  · rw [ofBytes, List.length_map]
    exact hpieces.left
  · intro f hf
    rcases List.mem_map.mp hf with ⟨piece, hpiece, rfl⟩
    exact Poly.isFull_ofBytes (hpieces.right piece hpiece)

theorem length_encrypt {k : PublicKey} (hk : FullVector k.vector) (message coins : Bytes)
    (hmessage : message.length = 32) :
    (k.encrypt message coins).length = ciphertextSize := by
  have hy := (fullVector_smallVector coins 0).transform
  have hu : FullVector (List.zipWith
      (fun j e => (inner ((List.range rank).map fun i => matrixEntry k.matrixSeed i j)
        ((smallVector coins 0).map Poly.transform)).restore.add e)
      (List.range rank) (smallVector coins rank)) := by
    apply (fullVector_smallVector coins rank).zipWith_range
    intro j e he
    exact (isFull_inner (fullVector_map_range fun i => isFull_uniform _).right
      hy.right).restore.add he
  have hbits : (Poly.decompress 1 message).IsFull :=
    Poly.isFull_decompress (by rw [hmessage])
  have hv := ((isFull_inner hk.right hy.right).restore.add
    (isFull_small coins (2 * rank))).add hbits
  rw [encrypt, List.length_append, hu.length_flatMap fun f hf => Poly.length_compress hf 10,
    Poly.length_compress hv]
  rfl

end PublicKey

theorem isFull_generate (seed refusalKey : Bytes) :
    (generate seed refusalKey).publicKey.IsFull := by
  have hderived := Keccak.length_sha3_512 (seed ++ [UInt8.ofNat rank])
  constructor
  · apply (fullVector_smallVector _ _).transform.zipWith_range
    intro i f hf
    apply Poly.IsFull.add _ hf
    exact isFull_inner (fullVector_map_range fun j => isFull_uniform _).right
      (fullVector_smallVector _ _).transform.right
  · simp [generate, List.length_take, hderived]

end Lattice
end PeerMix
