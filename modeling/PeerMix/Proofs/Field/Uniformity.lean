import Mathlib.Data.Set.Card
import PeerMix.Proofs.Bytes.Numbers
import PeerMix.Proofs.Field.Arithmetic
import PeerMix.Proofs.Field.Sampling

/-!
# Drawing is exact and even

A byte string is drawn from block by block.  A block is passed over only when its
low 127 bits are all ones, and the first other one is the element that they spell.
As the top bit is ignored, every element is spelled by exactly two blocks.
-/

namespace PeerMix
namespace Field

/-!
## Blocks
-/

/-- The block of sixteen octets with index `k`, if `bs` is long enough. -/
def block (bs : Bytes) (k : Nat) : Bytes :=
  (bs.drop (width * k)).take width

/-- The number that the low 127 bits of a block spell. -/
def lowBits (block : Bytes) : Nat :=
  Bytes.toNat block % 2 ^ 127

/-- A block whose low 127 bits are all ones. -/
def AllOnes (block : Bytes) : Prop :=
  lowBits block = 2 ^ 127 - 1

/-- The first block of `bs` that is not passed over. -/
structure FirstElement (bs : Bytes) (k : Nat) : Prop where
  present : width * (k + 1) ≤ bs.length
  spelled : ¬AllOnes (block bs k)
  earlier : forall j, j < k -> AllOnes (block bs j)

/-- All blocks of `bs` are passed over. -/
def Barren (bs : Bytes) : Prop :=
  forall k, width * (k + 1) ≤ bs.length -> AllOnes (block bs k)

section Blocks

variable {bs : Bytes} {k : Nat}

theorem block_zero (bs : Bytes) : block bs 0 = bs.take width := rfl

theorem block_succ (bs : Bytes) (k : Nat) : block bs (k + 1) = block (bs.drop width) k := by
  rw [block, block, List.drop_drop, Nat.mul_succ, Nat.add_comm]

theorem drop_succ (bs : Bytes) (k : Nat) :
    bs.drop (width * (k + 1)) = (bs.drop width).drop (width * k) := by
  rw [List.drop_drop, Nat.mul_succ, Nat.add_comm]

theorem FirstElement.unique {j : Nat} (hk : FirstElement bs k) (hj : FirstElement bs j) :
    k = j := by
  rcases Nat.lt_trichotomy k j with hlt | heq | hlt
  · exact absurd (hj.earlier k hlt) hk.spelled
  · exact heq
  · exact absurd (hk.earlier j hlt) hj.spelled

theorem FirstElement.not_barren (h : FirstElement bs k) : ¬Barren bs :=
  fun hbarren => h.spelled (hbarren k h.present)

theorem FirstElement.cons (hlength : width ≤ bs.length) (hfirst : AllOnes (bs.take width))
    (h : FirstElement (bs.drop width) k) : FirstElement bs (k + 1) := by
  constructor
  case present =>
    have hpresent := h.present
    rw [List.length_drop] at hpresent
    rw [Nat.mul_succ]
    omega
  case spelled =>
    rw [block_succ]
    exact h.spelled
  case earlier =>
    intro j hj
    cases j with
    | zero => exact hfirst
    | succ j =>
        rw [block_succ]
        exact h.earlier j (Nat.lt_of_succ_lt_succ hj)

theorem Barren.cons (hfirst : AllOnes (bs.take width)) (h : Barren (bs.drop width)) :
    Barren bs := by
  intro k hk
  cases k with
  | zero => exact hfirst
  | succ k =>
      rw [block_succ]
      apply h k
      rw [List.length_drop]
      rw [Nat.mul_succ] at hk
      omega

/-- The candidate that a block gives is the number of its low bits. -/
theorem candidate_eq_lowBits {bs : Bytes} (h : bs.length = width) : candidate bs = lowBits bs := by
  cases bs with
  | nil => cases h
  | cons b rest =>
      have hlength : rest.length = 15 := Nat.succ.inj h
      have hrest : Bytes.toNat rest < 256 ^ 15 := hlength ▸ Bytes.toNat_lt rest
      have hmask : (b &&& 0x7f).toNat = b.toNat % 128 := by
        rw [UInt8.toNat_and]
        exact Nat.and_two_pow_sub_one_eq_mod b.toNat 7
      rw [candidate, lowBits, Bytes.toNat_cons, Bytes.toNat_cons, hlength, hmask]
      omega

/-- What is not passed over spells an element. -/
theorem contains_lowBits_iff {bs : Bytes} : contains (lowBits bs) = true ↔ ¬AllOnes bs := by
  have hlt : lowBits bs < 2 ^ 127 := Nat.mod_lt _ (by decide)
  have hprime : prime = 2 ^ 127 - 1 := rfl
  rw [contains_iff, AllOnes, hprime]
  omega

end Blocks

/-!
## Drawing
-/

/-- With attempts for all blocks, drawing stops right after the first block that is
not passed over, or behind the last block when there is none. -/
theorem sample_cases {attempts : Nat} {bs : Bytes} (hattempts : bs.length < width * attempts) :
    (exists k, FirstElement bs k ∧
      sample Draw.bytes attempts bs = (.ok (lowBits (block bs k)), bs.drop (width * (k + 1)))) ∨
    (Barren bs ∧
      sample Draw.bytes attempts bs =
        (.error "exhausted", bs.drop (width * (bs.length / width)))) := by
  induction attempts generalizing bs with
  | zero => exact absurd hattempts (Nat.not_lt_zero _)
  | succ attempts ih =>
      rw [sample, Draw.bytes]
      by_cases hshort : bs.length < width
      · rw [if_pos hshort]
        refine .inr ⟨?_, ?_⟩
        · intro k hk
          rw [Nat.mul_succ] at hk
          omega
        · rw [Nat.div_eq_of_lt hshort]
          rfl
      rw [if_neg hshort]
      dsimp only
      have hlength : width ≤ bs.length := Nat.le_of_not_lt hshort
      have htake : (bs.take width).length = width := by
        rw [List.length_take, Nat.min_eq_left hlength]
      rw [candidate_eq_lowBits htake]
      by_cases hones : AllOnes (bs.take width)
      · rw [if_neg (mt contains_lowBits_iff.mp (not_not.mpr hones))]
        have hrest : (bs.drop width).length < width * attempts := by
          rw [Nat.mul_succ] at hattempts
          rw [List.length_drop]
          omega
        rcases ih hrest with ⟨k, hk, hsample⟩ | ⟨hbarren, hsample⟩
        · refine .inl ⟨k + 1, hk.cons hlength hones, ?_⟩
          rw [hsample, block_succ, drop_succ bs (k + 1)]
        · refine .inr ⟨hbarren.cons hones, ?_⟩
          have hblocks : bs.length / width = (bs.drop width).length / width + 1 := by
            rw [List.length_drop]
            exact Nat.div_eq_sub_div (by decide) hlength
          rw [hsample, hblocks, drop_succ]
      · rw [if_pos (contains_lowBits_iff.mpr hones)]
        refine .inl ⟨0, ⟨hlength, hones, fun j hj => absurd hj (Nat.not_lt_zero j)⟩, rfl⟩

theorem sampleBytes_cases (bs : Bytes) :
    (exists k, FirstElement bs k ∧
      sampleBytes bs = (.ok (lowBits (block bs k)), bs.drop (width * (k + 1)))) ∨
    (Barren bs ∧
      sampleBytes bs = (.error "exhausted", bs.drop (width * (bs.length / width)))) := by
  apply sample_cases
  show bs.length < 16 * (bs.length + 1)
  omega

theorem sampleBytes_eq_ok_iff {bs rest : Bytes} {x : Nat} :
    sampleBytes bs = (.ok x, rest) ↔
      exists k, FirstElement bs k ∧ x = lowBits (block bs k) ∧
        rest = bs.drop (width * (k + 1)) := by
  rcases sampleBytes_cases bs with ⟨k, hk, hsample⟩ | ⟨hbarren, hsample⟩
  · rw [hsample]
    constructor
    · intro h
      cases h
      exact ⟨k, hk, rfl, rfl⟩
    · intro h
      rcases h with ⟨j, hj, rfl, rfl⟩
      rw [hk.unique hj]
  · rw [hsample]
    constructor
    · exact nofun
    · intro h
      rcases h with ⟨k, hk, _, _⟩
      exact absurd hbarren hk.not_barren

theorem sampleBytes_eq_error_iff {bs rest : Bytes} {reason : String} :
    sampleBytes bs = (.error reason, rest) ↔
      Barren bs ∧ reason = "exhausted" ∧ rest = bs.drop (width * (bs.length / width)) := by
  rcases sampleBytes_cases bs with ⟨k, hk, hsample⟩ | ⟨hbarren, hsample⟩
  · rw [hsample]
    exact ⟨nofun, fun h => absurd h.left hk.not_barren⟩
  · rw [hsample]
    constructor
    · intro h
      cases h
      exact ⟨hbarren, rfl, rfl⟩
    · intro h
      rcases h with ⟨_, rfl, rfl⟩
      rfl

/-!
## Blocks that spell an element
-/

/-- The blocks that are drawn as `x`, whatever follows them. -/
def blocksOf (x : Nat) : Set Bytes :=
  { first | first.length = width ∧
    forall more, sampleBytes (first ++ more) = (.ok x, more) }

theorem sampleBytes_block_append {first more : Bytes} {x : Nat} (h : first.length = width) :
    sampleBytes (first ++ more) = (.ok x, more) ↔ x < prime ∧ lowBits first = x := by
  have hblock : block (first ++ more) 0 = first := by
    rw [block_zero, List.take_left' h]
  have hdrop : (first ++ more).drop (width * (0 + 1)) = more := by
    rw [Nat.zero_add, Nat.mul_one, List.drop_left' h]
  rw [sampleBytes_eq_ok_iff]
  constructor
  · intro hx
    rcases hx with ⟨k, hk, rfl, hmore⟩
    have hzero : k = 0 := by
      have hlengths := congrArg List.length hmore
      have hpresent := hk.present
      have hwidth : width = 16 := rfl
      rw [List.length_drop, List.length_append, h, hwidth] at hlengths
      rw [List.length_append, h, hwidth] at hpresent
      omega
    subst hzero
    have hspelled := hk.spelled
    rw [hblock] at hspelled ⊢
    exact ⟨contains_iff.mp (contains_lowBits_iff.mpr hspelled), rfl⟩
  · intro hx
    rcases hx with ⟨hprime, rfl⟩
    refine ⟨0, ⟨?_, ?_, fun j hj => absurd hj (Nat.not_lt_zero j)⟩, ?_, hdrop.symm⟩
    · rw [List.length_append, h, Nat.zero_add, Nat.mul_one]
      exact Nat.le_add_right _ _
    · rw [hblock]
      exact contains_lowBits_iff.mp (contains_iff.mpr hprime)
    · rw [hblock]

/-- The blocks of an element differ in the top bit only. -/
theorem mem_blocksOf_iff {first : Bytes} {x : Nat} (hx : x < prime) :
    first ∈ blocksOf x ↔
      first = Bytes.bigEndian width x ∨ first = Bytes.bigEndian width (x + 2 ^ 127) := by
  have hprime : prime = 2 ^ 127 - 1 := rfl
  have hread (n : Nat) (hn : n < 2 ^ 128) : Bytes.toNat (Bytes.bigEndian width n) = n := by
    rw [Bytes.toNat_bigEndian]
    exact Nat.mod_eq_of_lt hn
  constructor
  · intro h
    rcases h with ⟨hlength, hdrawn⟩
    have hlow : Bytes.toNat first % 2 ^ 127 = x :=
      ((sampleBytes_block_append hlength).mp (hdrawn [])).right
    have hlt : Bytes.toNat first < 256 ^ 16 := by
      have hnumber := Bytes.toNat_lt first
      rw [hlength] at hnumber
      exact hnumber
    have hnumber : Bytes.toNat first = x ∨ Bytes.toNat first = x + 2 ^ 127 := by omega
    rw [← Bytes.bigEndian_toNat hlength]
    rcases hnumber with hnumber | hnumber
    · exact .inl (congrArg _ hnumber)
    · exact .inr (congrArg _ hnumber)
  · intro h
    have hspelled (n : Nat) (hn : n < 2 ^ 128) (hlow : n % 2 ^ 127 = x) :
        Bytes.bigEndian width n ∈ blocksOf x := by
      have hlength : (Bytes.bigEndian width n).length = width := Bytes.length_bigEndian width n
      refine ⟨hlength, fun more => (sampleBytes_block_append hlength).mpr ⟨hx, ?_⟩⟩
      rw [lowBits, hread n hn, hlow]
    rcases h with rfl | rfl
    · exact hspelled x (by omega) (by omega)
    · exact hspelled (x + 2 ^ 127) (by omega) (by omega)

theorem ncard_blocksOf {x : Nat} (hx : x < prime) : (blocksOf x).ncard = 2 := by
  have hprime : prime = 2 ^ 127 - 1 := rfl
  have hblocks :
      blocksOf x = {Bytes.bigEndian width x, Bytes.bigEndian width (x + 2 ^ 127)} := by
    ext first
    exact mem_blocksOf_iff hx
  have hsize : Nat.pow 256 width = 2 ^ 128 := rfl
  have hne : Bytes.bigEndian width x ≠ Bytes.bigEndian width (x + 2 ^ 127) := by
    intro h
    have hsame := Bytes.bigEndian_inj (by omega) (by omega) h
    omega
  rw [hblocks, Set.ncard_pair hne]

/-- Byte strings of one length are as many as the numbers that they spell. -/
theorem ncard_setOf_length_eq (n : Nat) : { bs : Bytes | bs.length = n }.ncard = 256 ^ n := by
  have hstrings : { bs : Bytes | bs.length = n } =
      Bytes.bigEndian n '' (Finset.range (256 ^ n) : Set Nat) := by
    ext bs
    constructor
    · intro h
      refine ⟨Bytes.toNat bs, ?_, Bytes.bigEndian_toNat h⟩
      have hlt := Bytes.toNat_lt bs
      rw [h] at hlt
      exact Finset.mem_coe.mpr (Finset.mem_range.mpr hlt)
    · intro h
      rcases h with ⟨number, _, rfl⟩
      exact Bytes.length_bigEndian n number
  have hinj : Set.InjOn (Bytes.bigEndian n) (Finset.range (256 ^ n) : Set Nat) := by
    intro a ha b hb h
    exact Bytes.bigEndian_inj (Finset.mem_range.mp (Finset.mem_coe.mp ha))
      (Finset.mem_range.mp (Finset.mem_coe.mp hb)) h
  rw [hstrings, hinj.ncard_image, Set.ncard_coe_finset, Finset.card_range]

theorem ncard_blocks : { first : Bytes | first.length = width }.ncard = 2 ^ 128 := by
  rw [ncard_setOf_length_eq]
  exact (by norm_num : (256 : Nat) ^ 16 = 2 ^ 128)

/-!
## Exactness
-/

/-- Drawing from a byte string gives what the low 127 bits of its first block spell
that is not passed over, and uses up exactly the blocks up to this one; it fails exactly
when all whole blocks are passed over, with less than a block left.  What is drawn
is an element of the field, and each element is what exactly two of all blocks give. -/
theorem drawing_is_exact_and_even (bs : Bytes) :
    (forall x rest, sampleBytes bs = (.ok x, rest) ↔
      exists k, FirstElement bs k ∧ x = lowBits (block bs k) ∧
        rest = bs.drop (width * (k + 1))) ∧
    (forall reason rest, sampleBytes bs = (.error reason, rest) ↔
      Barren bs ∧ reason = "exhausted" ∧ rest = bs.drop (width * (bs.length / width))) ∧
    (forall x rest, sampleBytes bs = (.ok x, rest) -> x < prime) ∧
    { first : Bytes | first.length = width }.ncard = 2 ^ 128 ∧
    forall x, x < prime -> (blocksOf x).ncard = 2 :=
  ⟨fun _ _ => sampleBytes_eq_ok_iff, fun _ _ => sampleBytes_eq_error_iff,
    fun _ _ h => contains_iff.mp (contains_of_sample h), ncard_blocks, fun _ hx => ncard_blocksOf hx⟩

/-- The block that spells the prime is passed over; the octets behind the next block
stay unread.  Two blocks give the largest element. -/
theorem drawing_is_exact_and_even_of_spelled_prime :
    sampleBytes (Bytes.bigEndian width prime ++ Bytes.bigEndian width 5 ++ [9]) = (.ok 5, [9]) ∧
      (exists reason rest, sampleBytes (Bytes.bigEndian width prime ++ [9]) =
        (.error reason, rest) ∧ rest = [9]) ∧
      prime - 1 < prime ∧ (blocksOf (prime - 1)).ncard = 2 := by
  have hfirst : AllOnes (Bytes.bigEndian width prime) := by
    unfold AllOnes
    decide
  have hlast : prime - 1 < prime := by decide
  rcases drawing_is_exact_and_even
    (Bytes.bigEndian width prime ++ Bytes.bigEndian width 5 ++ [9]) with ⟨hdrawn, _, _, _, hcard⟩
  rcases drawing_is_exact_and_even (Bytes.bigEndian width prime ++ [9]) with ⟨_, hfails, _⟩
  refine ⟨(hdrawn _ _).mpr ⟨1, ⟨by decide, ?_, ?_⟩, by decide, by decide⟩, ?_, hlast,
    hcard _ hlast⟩
  · unfold AllOnes
    decide
  · intro j hj
    rw [Nat.lt_one_iff.mp hj]
    exact hfirst
  · refine ⟨_, _, (hfails _ _).mpr ⟨?_, rfl, rfl⟩, by decide⟩
    intro k hk
    have hlength : (Bytes.bigEndian width prime ++ [9]).length = 17 := by decide
    have hwidth : width = 16 := rfl
    rw [hlength, hwidth] at hk
    have hzero : k = 0 := by omega
    rw [hzero]
    exact hfirst

end Field
end PeerMix
