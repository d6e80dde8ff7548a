import Mathlib.Algebra.BigOperators.Fin
import Mathlib.Logic.Equiv.Basic
import PeerMix.Proofs.DcNet.Overlay

/-!
# Messages that trade places

Two messages of the message mix and their slots may trade places without a
trace: if the key that their two places share takes in what is traded, every
published vector stays as it is.  The change of the key is its own inverse, so
whoever does not know that key has seen as much of the one case as of the other.
-/

namespace PeerMix
namespace DcNet

/-!
## Tables and placements
-/

/-- A key for every pair of messages; both ends of a pair hold the same one. -/
@[ext]
structure KeyTable (n size : Nat) where
  key : Fin n -> Fin n -> SlotVector
  symmetric : forall g i, key g i = key i g
  dimensions : forall g i, (key g i).HasDimensions n size

/-- A message and the slot that it goes to. -/
structure Placement (n size : Nat) where
  message : Bytes
  slot : Fin n
  length_message : message.length = size

section Trade

variable {n size : Nat}

/-- The vector that the message at global index `g` publishes. -/
def published (K : KeyTable n size) (P : Fin n -> Placement n size) (g : Fin n) :
    Except PrimitiveError SlotVector := do
  let pad ← messagePad (List.ofFn (K.key g)) size g
  messageMix pad (P g).message (P g).slot

namespace Placement

/-- All slots, with zeros in those of other messages. -/
def laid (p : Placement n size) : Bytes :=
  Bytes.zeros (p.slot * size) ++ p.message ++ Bytes.zeros ((n - (p.slot + 1)) * size)

theorem length_laid (p : Placement n size) : p.laid.length = n * size := by
  have hslots : p.slot + 1 + (n - (p.slot + 1)) = n := by omega
  calc
    p.laid.length = p.slot * size + size + (n - (p.slot + 1)) * size := by
      simp [laid, Bytes.zeros, p.length_message, Nat.add_assoc]
    _ = (p.slot + 1 + (n - (p.slot + 1))) * size := by
      rw [Nat.add_mul (p.slot + 1), Nat.succ_mul]
    _ = n * size := by
      rw [hslots]

theorem maskAt_laid (p : Placement n size) (k : Nat) :
    p.laid.maskAt k = laidOver p.message (p.slot * size) k := by
  have hzeros : (Bytes.zeros (p.slot * size)).length = p.slot * size := List.length_replicate
  have hmessage := p.length_message
  unfold laid laidOver
  by_cases hbefore : k < p.slot * size
  · rw [List.append_assoc, Bytes.maskAt_append_left _ (by omega), Bytes.maskAt_zeros,
      if_neg (by omega)]
  · rw [if_pos (by omega), List.append_assoc, Bytes.maskAt_append_right _ (by omega), hzeros]
    by_cases hinside : k - p.slot * size < size
    · rw [Bytes.maskAt_append_left _ (by omega)]
    · rw [Bytes.maskAt_append_right _ (by omega), Bytes.maskAt_zeros,
        Bytes.maskAt_of_length_le (by omega)]

end Placement

/-!
## What is published
-/

theorem messagePad_ofFn_eq_ok {K : Fin n -> SlotVector} (hK : forall i, (K i).HasDimensions n size)
    (g : Fin n) :
    exists pad, messagePad (List.ofFn K) size g = .ok pad ∧ pad.HasDimensions n size ∧
      forall k, pad.data.maskAt k = ∑ i with i ≠ g, (K i).data.maskAt k := by
  have hn : NeZero n := ⟨Nat.ne_of_gt (Nat.zero_lt_of_lt g.isLt)⟩
  have hdimensions : forall i, i < n -> (K (Fin.ofNat n i)).HasDimensions n size :=
    fun i _hi => hK (Fin.ofNat n i)
  rcases messagePad_eq_ok hdimensions g with ⟨pad, hpad, hsize, hmask⟩
  refine ⟨pad, ?_, hsize, ?_⟩
  · rw [ofFn_eq_map_range]
    exact hpad
  · intro k
    rw [hmask, Finset.sum_filter, Finset.sum_range, Finset.sum_filter]
    apply Finset.sum_congr rfl
    intro i _hi
    simp [Fin.ext_iff]

theorem published_eq_ok (K : KeyTable n size) (P : Fin n -> Placement n size) (g : Fin n) :
    exists v, published K P g = .ok v ∧ v.HasDimensions n size ∧
      forall k, v.data.maskAt k =
        (∑ i with i ≠ g, (K.key g i).data.maskAt k) + (P g).laid.maskAt k := by
  rcases messagePad_ofFn_eq_ok (K.dimensions g) g with ⟨pad, hpad, hpadSize, hpadMask⟩
  rcases messageMix_eq_ok hpadSize (P g).length_message (P g).slot.isLt with
    ⟨v, hv, hsize, hmask⟩
  refine ⟨v, ?_, hsize, ?_⟩
  · rw [published, hpad]
    exact hv
  · intro k
    rw [hmask, hpadMask, Placement.maskAt_laid]

/-!
## Trading places
-/

/-- What two messages that trade places leave behind together. -/
def traded (P : Fin n -> Placement n size) (a b : Fin n) : Bytes :=
  (P a).laid.xor (P b).laid

theorem length_traded (P : Fin n -> Placement n size) (a b : Fin n) :
    (traded P a b).length = n * size := by
  rw [traded, Bytes.length_xor, Placement.length_laid]
  rw [Placement.length_laid, Placement.length_laid]

theorem maskAt_traded (P : Fin n -> Placement n size) (a b : Fin n) (k : Nat) :
    (traded P a b).maskAt k = (P a).laid.maskAt k + (P b).laid.maskAt k := by
  apply Bytes.maskAt_xor
  rw [Placement.length_laid, Placement.length_laid]

/-- The two places of a pair, in either order. -/
def IsPair (a b g i : Fin n) : Prop :=
  (g = a ∧ i = b) ∨ (g = b ∧ i = a)

instance (a b g i : Fin n) : Decidable (IsPair a b g i) :=
  inferInstanceAs (Decidable (_ ∨ _))

theorem isPair_comm {a b g i : Fin n} : IsPair a b g i ↔ IsPair a b i g := by
  unfold IsPair
  constructor
  · rintro (⟨hg, hi⟩ | ⟨hg, hi⟩)
    · exact .inr ⟨hi, hg⟩
    · exact .inl ⟨hi, hg⟩
  · rintro (⟨hi, hg⟩ | ⟨hi, hg⟩)
    · exact .inr ⟨hg, hi⟩
    · exact .inl ⟨hg, hi⟩

/-- The key with what is traded added to it. -/
def rekey (P : Fin n -> Placement n size) (a b : Fin n) (v : SlotVector) : SlotVector :=
  { v with data := v.data.xor (traded P a b) }

theorem hasDimensions_rekey (P : Fin n -> Placement n size) (a b : Fin n) {v : SlotVector}
    (hv : v.HasDimensions n size) : (rekey P a b v).HasDimensions n size := by
  rcases hv with ⟨hslots, hsize, hdata⟩
  refine ⟨hslots, hsize, ?_⟩
  have hlength : v.data.length = (traded P a b).length := hdata.trans (length_traded P a b).symm
  exact (Bytes.length_xor hlength).trans hdata

theorem maskAt_rekey (P : Fin n -> Placement n size) (a b : Fin n) {v : SlotVector}
    (hv : v.HasDimensions n size) (k : Nat) :
    (rekey P a b v).data.maskAt k =
      v.data.maskAt k + ((P a).laid.maskAt k + (P b).laid.maskAt k) := by
  rw [← maskAt_traded]
  exact Bytes.maskAt_xor (hv.right.right.trans (length_traded P a b).symm) k

theorem rekey_rekey (P : Fin n -> Placement n size) (a b : Fin n) {v : SlotVector}
    (hv : v.HasDimensions n size) : rekey P a b (rekey P a b v) = v := by
  have honce := hasDimensions_rekey P a b hv
  apply SlotVector.eq_of_maskAt (hasDimensions_rekey P a b honce) hv
  intro k
  rw [maskAt_rekey P a b honce, maskAt_rekey P a b hv, add_assoc, Mask.add_self, add_zero]

/-- The table in which `a` and `b` share another key. -/
def KeyTable.rekeyed (K : KeyTable n size) (P : Fin n -> Placement n size) (a b : Fin n) :
    KeyTable n size where
  key g i := if IsPair a b g i then rekey P a b (K.key g i) else K.key g i
  symmetric := by
    intro g i
    simp only [K.symmetric g i, isPair_comm (g := g)]
  dimensions := by
    intro g i
    by_cases hpair : IsPair a b g i
    · rw [if_pos hpair]
      exact hasDimensions_rekey P a b (K.dimensions g i)
    · rw [if_neg hpair]
      exact K.dimensions g i

theorem KeyTable.rekeyed_rekeyed (K : KeyTable n size) (P : Fin n -> Placement n size)
    (a b : Fin n) : (K.rekeyed P a b).rekeyed P a b = K := by
  ext g i : 3
  by_cases hpair : IsPair a b g i
  · simp [rekeyed, hpair, rekey_rekey P a b (K.dimensions g i)]
  · simp [rekeyed, hpair]

theorem maskAt_rekeyed (K : KeyTable n size) (P : Fin n -> Placement n size) (a b g i : Fin n)
    (k : Nat) :
    ((K.rekeyed P a b).key g i).data.maskAt k = (K.key g i).data.maskAt k +
      if IsPair a b g i then (P a).laid.maskAt k + (P b).laid.maskAt k else 0 := by
  by_cases hpair : IsPair a b g i
  · rw [if_pos hpair, ← maskAt_rekey P a b (K.dimensions g i)]
    simp [KeyTable.rekeyed, hpair]
  · rw [if_neg hpair, add_zero]
    simp [KeyTable.rekeyed, hpair]

theorem sum_isPair {a b : Fin n} (hab : a ≠ b) (g : Fin n) (x : Mask) :
    (∑ i with i ≠ g, if IsPair a b g i then x else 0) = if g = a ∨ g = b then x else 0 := by
  rw [Finset.sum_filter]
  -- Either message of the pair meets the key that changes once, the others never.
  by_cases ha : g = a
  · subst ha
    rw [if_pos (Or.inl rfl), Finset.sum_eq_single b]
    · simp [IsPair, hab.symm]
    · intro i _hi hne
      simp [IsPair, hne, hab]
    · simp
  · by_cases hb : g = b
    · subst hb
      rw [if_pos (Or.inr rfl), Finset.sum_eq_single a]
      · simp [IsPair, hab]
      · intro i _hi hne
        simp [IsPair, hne, hab.symm]
      · simp
    · simp [IsPair, ha, hb]

/-!
## What the published vectors tell
-/

theorem published_rekeyed (K : KeyTable n size) (P : Fin n -> Placement n size) {a b : Fin n}
    (hab : a ≠ b) (g : Fin n) :
    published (K.rekeyed P a b) (P ∘ Equiv.swap a b) g = published K P g := by
  rcases published_eq_ok K P g with ⟨v, hv, hvSize, hvMask⟩
  rcases published_eq_ok (K.rekeyed P a b) (P ∘ Equiv.swap a b) g with ⟨w, hw, hwSize, hwMask⟩
  have hkeys : forall k,
      (∑ i with i ≠ g, ((K.rekeyed P a b).key g i).data.maskAt k) =
        (∑ i with i ≠ g, (K.key g i).data.maskAt k) +
          if g = a ∨ g = b then (P a).laid.maskAt k + (P b).laid.maskAt k else 0 := by
    intro k
    rw [← sum_isPair hab g, ← Finset.sum_add_distrib]
    exact Finset.sum_congr rfl fun i _hi => maskAt_rekeyed K P a b g i k
  -- At either place of the pair the message that has left is taken back by the key.
  have htrade : forall k,
      (if g = a ∨ g = b then (P a).laid.maskAt k + (P b).laid.maskAt k else 0) +
        (P (Equiv.swap a b g)).laid.maskAt k = (P g).laid.maskAt k := by
    intro k
    by_cases ha : g = a
    · subst ha
      rw [if_pos (Or.inl rfl), Equiv.swap_apply_left, add_assoc, Mask.add_self, add_zero]
    · by_cases hb : g = b
      · subst hb
        rw [if_pos (Or.inr rfl), Equiv.swap_apply_right, add_right_comm, Mask.add_self, zero_add]
      · rw [if_neg (by simp [ha, hb]), Equiv.swap_apply_of_ne_of_ne ha hb, zero_add]
  have hsame : w = v := by
    apply SlotVector.eq_of_maskAt hwSize hvSize
    intro k
    rw [hwMask, hvMask, hkeys, add_assoc]
    exact congrArg _ (htrade k)
  rw [hv, hw, hsame]

/-- Every table that explains the published vectors has one in which the two
messages have traded places and which explains them as well. -/
theorem traded_messages_publish_alike (P : Fin n -> Placement n size) {a b : Fin n} (hab : a ≠ b) :
    (forall K : KeyTable n size,
      (forall g i, ¬IsPair a b g i -> (K.rekeyed P a b).key g i = K.key g i) ∧
      forall g, exists v, published K P g = .ok v ∧
        published (K.rekeyed P a b) (P ∘ Equiv.swap a b) g = .ok v) ∧
    (Function.Involutive fun K : KeyTable n size => K.rekeyed P a b) ∧
    forall seen : Fin n -> SlotVector,
      Set.BijOn (fun K : KeyTable n size => K.rekeyed P a b)
        {K | forall g, published K P g = .ok (seen g)}
        {K | forall g, published K (P ∘ Equiv.swap a b) g = .ok (seen g)} := by
  have hinvolutive : Function.Involutive fun K : KeyTable n size => K.rekeyed P a b :=
    fun K => K.rekeyed_rekeyed P a b
  refine ⟨?_, hinvolutive, ?_⟩
  · intro K
    constructor
    · intro g i hpair
      exact if_neg hpair
    · intro g
      rcases published_eq_ok K P g with ⟨v, hv, _hsize, _hmask⟩
      exact ⟨v, hv, (published_rekeyed K P hab g).trans hv⟩
  · intro seen
    refine ⟨?_, hinvolutive.injective.injOn, ?_⟩
    · intro K hK g
      rw [published_rekeyed K P hab g]
      exact hK g
    · intro K hK
      refine ⟨K.rekeyed P a b, ?_, K.rekeyed_rekeyed P a b⟩
      intro g
      rw [← published_rekeyed (K.rekeyed P a b) P hab g, K.rekeyed_rekeyed]
      exact hK g

end Trade

/-- A table of blank keys for two messages of one octet. -/
def blankTable : KeyTable 2 1 where
  key _ _ := SlotVector.zero 2 1
  symmetric _ _ := rfl
  dimensions _ _ := by decide

/-- One octet for either message, in the slot of its own index. -/
def twoPlacements (g : Fin 2) : Placement 2 1 where
  message := [g.val.toUInt8 + 1]
  slot := g
  length_message := rfl

theorem traded_messages_publish_alike_of_blankTable :
    (0 : Fin 2) ≠ 1 ∧
      (blankTable.rekeyed twoPlacements 0 1).key 0 1 = ⟨2, 1, [1, 2]⟩ ∧
      published blankTable twoPlacements 0 = .ok ⟨2, 1, [1, 0]⟩ ∧
      published (blankTable.rekeyed twoPlacements 0 1) (twoPlacements ∘ Equiv.swap 0 1) 0 =
        .ok ⟨2, 1, [1, 0]⟩ := by
  have hpair : (0 : Fin 2) ≠ 1 := by decide
  have hplain : published blankTable twoPlacements 0 = .ok ⟨2, 1, [1, 0]⟩ := by decide
  refine ⟨hpair, by decide, hplain, ?_⟩
  rcases ((traded_messages_publish_alike twoPlacements hpair).left blankTable).right 0 with
    ⟨v, hv, htraded⟩
  rw [htraded, ← hv, hplain]

end DcNet
end PeerMix
