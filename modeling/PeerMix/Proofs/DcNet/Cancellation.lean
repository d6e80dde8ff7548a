import Mathlib.Algebra.BigOperators.Group.Finset.Sigma
import PeerMix.DcNet.Mix
import PeerMix.Proofs.Field.PowerSums

/-!
# Pads cancel

Of every pair of messages one side adds what the other takes away, so all pads
vanish from the sum over all messages.  The double sum is the same for both
mixes; this module states it once and applies it to slot reservation.
-/

namespace PeerMix

/-!
## Sums over pairs
-/

/-- What cancels for every pair of different indices vanishes from the sum over
all of them. -/
theorem sum_pairs_eq_zero {ι M : Type} [DecidableEq ι] [AddCommGroup M] (s : Finset ι)
    (a : ι -> ι -> M) (h : forall g i, g ∈ s -> i ∈ s -> g ≠ i -> a g i + a i g = 0) :
    ∑ g ∈ s, ∑ i ∈ s with i ≠ g, a g i = 0 := by
  rw [Finset.sum_sigma']
  refine Finset.sum_involution (fun pair _ => ⟨pair.2, pair.1⟩) ?_ ?_ ?_ ?_
  · rintro ⟨g, i⟩ hpair
    simp only [Finset.mem_sigma, Finset.mem_filter] at hpair
    exact h g i hpair.left hpair.right.left (Ne.symm hpair.right.right)
  · rintro ⟨g, i⟩ hpair _hne heq
    simp only [Finset.mem_sigma, Finset.mem_filter] at hpair
    exact hpair.right.right (congrArg Sigma.fst heq)
  · rintro ⟨g, i⟩ hpair
    simp only [Finset.mem_sigma, Finset.mem_filter] at hpair ⊢
    exact ⟨hpair.right.left, hpair.left, Ne.symm hpair.right.right⟩
  · rintro ⟨g, i⟩ _hpair
    rfl

/-!
## Lists by index
-/

theorem zipIdx_map_range {α : Type} (f : Nat -> α) (n : Nat) :
    ((List.range n).map f).zipIdx = (List.range n).map fun i => (f i, i) := by
  apply List.ext_getElem
  · simp
  · intro i _hi _hi'
    simp

theorem eq_map_range {α : Type} (xs : List α) (default : α) :
    xs = (List.range xs.length).map fun i => xs.getD i default := by
  apply List.ext_getElem
  · simp
  · intro i hi _hi'
    simp [hi]

/-- The entries at all places but `my`, with their places. -/
theorem others_map_range {α : Type} (f : Nat -> α) (n my : Nat) :
    ((List.range n).map f).zipIdx.filter (fun (_, i) => i ≠ my) =
      ((List.range n).filter fun i => i ≠ my).map fun i => (f i, i) := by
  rw [zipIdx_map_range, List.filter_map]
  rfl

/-- The entries at all places but `my` do not depend on what stands there. -/
theorem others_congr {α : Type} {xs ys : List α} {my offset : Nat} (hlength : xs.length = ys.length)
    (h : forall i, offset + i ≠ my -> xs[i]? = ys[i]?) :
    (xs.zipIdx offset).filter (fun (_, i) => i ≠ my) =
      (ys.zipIdx offset).filter (fun (_, i) => i ≠ my) := by
  induction xs generalizing ys offset with
  | nil => rw [List.eq_nil_of_length_eq_zero hlength.symm]
  | cons x xs ih =>
      cases ys with
      | nil => cases hlength
      | cons y ys =>
          have hrest : (xs.zipIdx (offset + 1)).filter (fun (_, i) => i ≠ my) =
              (ys.zipIdx (offset + 1)).filter (fun (_, i) => i ≠ my) := by
            apply ih (Nat.succ_inj.mp hlength)
            intro i hi
            exact h (i + 1) (by omega)
          by_cases hmy : offset = my
          · simpa [List.zipIdx_cons, hmy] using hrest
          · have hhead : x = y := Option.some.inj (h 0 hmy)
            simpa [List.zipIdx_cons, hmy, hhead] using hrest

theorem getElem?_ofFn_congr {α : Type} {n : Nat} {f h : Fin n -> α} {g : Fin n}
    (hsame : forall i, i ≠ g -> f i = h i) {i : Nat} (hi : i ≠ g) :
    (List.ofFn f)[i]? = (List.ofFn h)[i]? := by
  by_cases hin : i < n
  · have hentry := hsame ⟨i, hin⟩ fun heq => hi (congrArg Fin.val heq)
    simp [hin, hentry]
  · simp [hin]

theorem ofFn_eq_map_range {α : Type} {n : Nat} [NeZero n] (f : Fin n -> α) :
    List.ofFn f = (List.range n).map fun i => f (Fin.ofNat n i) := by
  apply List.ext_getElem
  · simp
  · intro i hi _hi
    rw [List.length_ofFn] at hi
    simp [Fin.ofNat, Nat.mod_eq_of_lt hi]

theorem sum_map_filter_range {M : Type} [AddCommMonoid M] (f : Nat -> M) (p : Nat -> Prop)
    [DecidablePred p] (n : Nat) :
    (((List.range n).filter fun i => p i).map f).sum = ∑ i ∈ Finset.range n with p i, f i := rfl

namespace DcNet

open PeerMix.Field

/-!
## Slot reservation
-/

section Reservation

variable {κ : Type} (share : κ -> Nat -> Nat)

/-- What the pair of `my` and `i` adds to the pad of `my` for a power. -/
def contribution (key : κ) (my i power : Nat) : Element :=
  if i < my then (share key power : Element) else -(share key power : Element)

theorem contribution_comm (key : κ) {g i : Nat} (hgi : g ≠ i) (power : Nat) :
    contribution share key g i power + contribution share key i g power = 0 := by
  unfold contribution
  by_cases hlt : i < g
  · have hgt : ¬g < i := by omega
    rw [if_pos hlt, if_neg hgt, add_neg_cancel]
  · have hgt : g < i := by omega
    rw [if_neg hlt, if_pos hgt, neg_add_cancel]

theorem cast_foldl_contribution (keys : List (κ × Nat)) (my power start : Nat) :
    ((keys.foldl (fun pad (key, i) =>
        if i < my then (pad + share key power) % prime else sub pad (share key power))
      start : Nat) : Element) =
        start + (keys.map fun (key, i) => contribution share key my i power).sum := by
  induction keys generalizing start with
  | nil => simp
  | cons pair keys ih =>
      rcases pair with ⟨key, i⟩
      rw [List.foldl_cons, ih, List.map_cons, List.sum_cons, ← add_assoc]
      congr 1
      unfold contribution
      by_cases hlt : i < my
      · simp only [if_pos hlt, cast_mod, Nat.cast_add]
      · simp only [if_neg hlt, cast_sub, sub_eq_add_neg]

/-- The pad of a power in the field. -/
theorem cast_reservationPadsOf (K : Nat -> κ) (n my : Nat) :
    (reservationPadsOf share ((List.range n).map K) my).map (Nat.cast : Nat -> Element) =
      (List.range n).map fun j =>
        ∑ i ∈ Finset.range n with i ≠ my, contribution share (K i) my i (j + 1) := by
  rw [reservationPadsOf, List.length_map, List.length_range, List.map_map]
  apply List.map_congr_left
  intro j _hj
  rw [Function.comp_apply, others_map_range, cast_foldl_contribution, Nat.cast_zero, zero_add,
    List.map_map]
  exact sum_map_filter_range _ _ n

/-- A published entry is the power under its pad. -/
theorem getD_reservationMix (m : Nat) {pads : List Nat} {k : Nat} (hk : k < pads.length) :
    (reservationMix m pads).getD k 0 = (pow m (k + 1) + pads.getD k 0) % prime := by
  simp [reservationMix, hk]

theorem length_reservationMix (m : Nat) (pads : List Nat) :
    (reservationMix m pads).length = pads.length := by
  rw [reservationMix, List.length_map, List.length_zipIdx]

theorem reservationMix_lt {m x : Nat} {pads : List Nat} (h : x ∈ reservationMix m pads) :
    x < prime := by
  rcases List.mem_map.mp h with ⟨y, _hy, rfl⟩
  exact Nat.mod_lt _ prime_pos

theorem length_reservationPadsOf (keys : List κ) (my : Nat) :
    (reservationPadsOf share keys my).length = keys.length := by
  rw [reservationPadsOf, List.length_map, List.length_range]

/-- The key in the own place does not enter the pads. -/
theorem reservationPadsOf_congr {keys others : List κ} {my : Nat}
    (hlength : keys.length = others.length) (h : forall i, i ≠ my -> keys[i]? = others[i]?) :
    reservationPadsOf share keys my = reservationPadsOf share others my := by
  have hsame : keys.zipIdx.filter (fun (_, i) => i ≠ my) =
      others.zipIdx.filter (fun (_, i) => i ≠ my) :=
    others_congr hlength fun i hi => h i (by omega)
  rw [reservationPadsOf, reservationPadsOf, hsame, hlength]

/-- The vector of the message at `g`, whose key with the message at `i` is
`K g i`. -/
def publishedOf (K : Nat -> Nat -> κ) (V : Nat -> Nat) (n g : Nat) : List Nat :=
  reservationMix (V g) (reservationPadsOf share ((List.range n).map (K g)) g)

theorem length_publishedOf (K : Nat -> Nat -> κ) (V : Nat -> Nat) (n g : Nat) :
    (publishedOf share K V n g).length = n := by
  rw [publishedOf, length_reservationMix, length_reservationPadsOf, List.length_map,
    List.length_range]

theorem cast_publishedOf (K : Nat -> Nat -> κ) (V : Nat -> Nat) {n k : Nat} (g : Nat)
    (hk : k < n) :
    (((publishedOf share K V n g).getD k 0 : Nat) : Element) =
      (V g : Element) ^ (k + 1) +
        ∑ i ∈ Finset.range n with i ≠ g, contribution share (K g i) g i (k + 1) := by
  have hpads := cast_reservationPadsOf share (K g) n g
  have hlength := length_reservationPadsOf share ((List.range n).map (K g)) g
  rw [List.length_map, List.length_range] at hlength
  have hentry := congrArg (fun xs => xs.getD k 0) hpads
  rw [publishedOf, getD_reservationMix _ (by omega), cast_mod, Nat.cast_add, cast_pow]
  congr 1
  simpa [hk, hlength] using hentry

/-- Vectors as long as there are of them add up place by place. -/
theorem addVectors_of_square {vectors : List (List Nat)}
    (h : forall v, v ∈ vectors -> v.length = vectors.length) :
    addVectors vectors =
      some ((List.range vectors.length).map fun k => sum (vectors.map fun v => v.getD k 0)) := by
  cases vectors with
  | nil => rfl
  | cons v vs =>
      have hv := h v List.mem_cons_self
      have hall : vs.all (fun w => decide (v.length ≤ w.length)) = true := by
        rw [List.all_eq_true]
        intro w hw
        have hlength := h w (List.mem_cons_of_mem v hw)
        exact decide_eq_true (by omega)
      rw [addVectors, if_pos hall, hv]

/-- All pads vanish from the sum of what is published under keys that both ends
of a pair share. -/
theorem addVectors_publishedOf {K : Nat -> Nat -> κ} {V : Nat -> Nat} {n : Nat}
    (hK : forall g i, g < n -> i < n -> g ≠ i -> K g i = K i g) :
    addVectors ((List.range n).map (publishedOf share K V n)) =
      some (powerSums ((List.range n).map V)) := by
  have hlength : ((List.range n).map (publishedOf share K V n)).length = n := by
    rw [List.length_map, List.length_range]
  rw [addVectors_of_square, hlength, powerSums, List.length_map, List.length_range]
  · congr 1
    apply List.map_congr_left
    intro k hk
    have hk' : k < n := List.mem_range.mp hk
    apply eq_of_cast_eq (sum_lt _) (sum_lt _)
    rw [cast_sum, cast_sum, List.map_map, List.map_map, List.map_map, List.map_map,
      sum_map_range, sum_map_range]
    have hpads : ∑ g ∈ Finset.range n, ∑ i ∈ Finset.range n with i ≠ g,
        contribution share (K g i) g i (k + 1) = 0 := by
      apply sum_pairs_eq_zero
      intro g i hg hi hgi
      rw [hK i g (Finset.mem_range.mp hi) (Finset.mem_range.mp hg) (Ne.symm hgi)]
      exact contribution_comm share (K g i) hgi (k + 1)
    calc
      ∑ g ∈ Finset.range n, (((publishedOf share K V n g).getD k 0 : Nat) : Element)
          = ∑ g ∈ Finset.range n, ((V g : Element) ^ (k + 1) +
              ∑ i ∈ Finset.range n with i ≠ g, contribution share (K g i) g i (k + 1)) := by
            apply Finset.sum_congr rfl
            intro g _hg
            exact cast_publishedOf share K V g hk'
      _ = ∑ g ∈ Finset.range n, (V g : Element) ^ (k + 1) := by
            rw [Finset.sum_add_distrib, hpads, add_zero]
      _ = ∑ g ∈ Finset.range n, ((pow (V g) (k + 1) : Nat) : Element) := by
            apply Finset.sum_congr rfl
            intro g _hg
            exact (cast_pow (V g) (k + 1)).symm
  · intro v hv
    rcases List.mem_map.mp hv with ⟨g, _hg, rfl⟩
    rw [hlength, length_publishedOf]

end Reservation

end DcNet
end PeerMix
