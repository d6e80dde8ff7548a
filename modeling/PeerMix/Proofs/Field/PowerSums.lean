import Mathlib.RingTheory.MvPolynomial.Symmetric.NewtonIdentities
import Mathlib.RingTheory.Polynomial.Vieta
import PeerMix.Proofs.Field.Arithmetic

/-!
# Power sums and roots

The coefficients found from the power sums of some values are those of the
polynomial with these values as roots and leading coefficient `-1`.  Newton's
identities carry the induction: they give each coefficient from the higher ones.
-/

namespace PeerMix
namespace Field

/-- The sums of the powers of `values`, as many as there are values. -/
def powerSums (values : List Nat) : List Nat :=
  (List.range values.length).map fun k => sum (values.map fun m => pow m (k + 1))

theorem powerSums_eq (values : List Nat) :
    powerSums values =
      (List.range values.length).map fun k => (values.map fun m => m ^ (k + 1)).sum % prime := by
  apply List.map_congr_left
  intro k _hk
  show (values.map fun m => pow m (k + 1)).sum % prime = _
  rw [List.sum_nat_mod (values.map fun m => m ^ (k + 1)), List.map_map]
  congr 2
  apply List.map_congr_left
  intro m _hm
  exact pow_eq m (k + 1)

theorem powerSums_ofFn {n : Nat} (values : Fin n -> Nat) :
    powerSums (List.ofFn values) =
      List.ofFn fun j : Fin n => (∑ g, values g ^ (j.val + 1)) % prime := by
  rw [powerSums_eq, List.length_ofFn]
  apply List.ext_getElem
  · simp
  · intro j _hj _hj'
    simp [List.map_ofFn, List.sum_ofFn]

theorem sum_map_range {M : Type} [AddCommMonoid M] (f : Nat -> M) (n : Nat) :
    ((List.range n).map f).sum = ∑ i ∈ Finset.range n, f i := rfl

/-!
## Newton's identities
-/

/-- The elements that `values` stand for. -/
def elements (values : List Nat) : Multiset Element :=
  (values.map (Nat.cast : Nat -> Element) : List Element)

/-- The coefficient `k` degrees below the leading one. -/
noncomputable def coefficientBelow (values : List Nat) (k : Nat) : Element :=
  -((-1) ^ k * (elements values).esymm k)

theorem coefficientBelow_zero (values : List Nat) : coefficientBelow values 0 = -1 := by
  simp [coefficientBelow, Multiset.esymm]

/-- The sum of the `k`-th powers in the field. -/
def powerSum (values : List Nat) (k : Nat) : Element :=
  (values.map fun (m : Nat) => (m : Element) ^ k).sum

theorem cast_powerSums (values : List Nat) :
    (powerSums values).map (Nat.cast : Nat -> Element) =
      (List.range values.length).map fun k => powerSum values (k + 1) := by
  rw [powerSums, List.map_map]
  apply List.map_congr_left
  intro k _hk
  rw [Function.comp_apply, cast_sum, List.map_map, powerSum]
  congr 1
  apply List.map_congr_left
  intro m _hm
  exact cast_pow m (k + 1)

/-- Newton's identity for the symmetric functions of the values. -/
theorem mul_esymm_elements (values : List Nat) (k : Nat) :
    ((k + 1 : Nat) : Element) * (elements values).esymm (k + 1) =
      (-1) ^ k * ∑ t ∈ Finset.range (k + 1),
        (-1) ^ (k - t) * (elements values).esymm (k - t) * powerSum values (t + 1) := by
  let value : Fin values.length -> Element := fun i => (values[i] : Element)
  have helements : Finset.univ.val.map value = elements values := by
    rw [Fin.univ_val_map, elements]
    congr 1
    apply List.ext_getElem <;> simp [value]
  have hesymm (j : Nat) : MvPolynomial.aeval value (MvPolynomial.esymm (Fin values.length) Element j)
      = (elements values).esymm j := by
    rw [MvPolynomial.aeval_esymm_eq_multiset_esymm, helements]
  have hpsum (j : Nat) : MvPolynomial.aeval value (MvPolynomial.psum (Fin values.length) Element j)
      = powerSum values j := by
    rw [MvPolynomial.psum, map_sum]
    simp only [map_pow, MvPolynomial.aeval_X, value]
    exact Fin.sum_univ_fun_getElem values fun m => (m : Element) ^ j
  have hnewton := congrArg (MvPolynomial.aeval value)
    (MvPolynomial.mul_esymm_eq_sum (Fin values.length) Element (k + 1))
  simp only [map_mul, map_natCast, map_pow, map_neg, map_one, map_sum, hesymm, hpsum] at hnewton
  rw [hnewton, Finset.sum_filter, Finset.Nat.sum_antidiagonal_succ', if_neg (lt_irrefl _), zero_add,
    ← Finset.Nat.sum_antidiagonal_swap, Finset.Nat.sum_antidiagonal_eq_sum_range_succ_mk]
  have hsign : ((-1) ^ (k + 1 + 1) : Element) = (-1) ^ k := by
    rw [pow_succ, pow_succ, mul_assoc, neg_one_mul, neg_neg, mul_one]
  rw [hsign]
  congr 1
  apply Finset.sum_congr rfl
  intro t _ht
  dsimp only [Prod.swap]
  rw [if_pos (by omega)]

theorem newton (values : List Nat) (k : Nat) :
    ((k + 1 : Nat) : Element) * coefficientBelow values (k + 1) =
      -∑ t ∈ Finset.range (k + 1), coefficientBelow values (k - t) * powerSum values (t + 1) := by
  have hsum : ∑ t ∈ Finset.range (k + 1), coefficientBelow values (k - t) * powerSum values (t + 1) =
      -∑ t ∈ Finset.range (k + 1),
        (-1) ^ (k - t) * (elements values).esymm (k - t) * powerSum values (t + 1) := by
    rw [← Finset.sum_neg_distrib]
    apply Finset.sum_congr rfl
    intro t _ht
    rw [coefficientBelow, neg_mul]
  calc
    ((k + 1 : Nat) : Element) * coefficientBelow values (k + 1)
        = (-1) ^ k * (((k + 1 : Nat) : Element) * (elements values).esymm (k + 1)) := by
          rw [coefficientBelow, pow_succ]
          ring
    _ = ((-1) ^ k * (-1) ^ k) * ∑ t ∈ Finset.range (k + 1),
          (-1) ^ (k - t) * (elements values).esymm (k - t) * powerSum values (t + 1) := by
          rw [mul_esymm_elements, mul_assoc]
    _ = -∑ t ∈ Finset.range (k + 1),
          coefficientBelow values (k - t) * powerSum values (t + 1) := by
          rw [← mul_pow, neg_one_mul, neg_neg, one_pow, one_mul, hsum, neg_neg]

/-!
## The coefficients
-/

theorem cast_nextCoefficient (s higher : List Nat) (k : Nat) :
    ((nextCoefficient s higher k : Nat) : Element) =
      ((List.zipWith (· * ·) higher s).map (Nat.cast : Nat -> Element)).sum *
        -((k : Nat) : Element)⁻¹ := by
  rw [nextCoefficient, cast_mod, Nat.cast_mul, cast_sum, cast_sub, cast_inverse, Nat.cast_zero,
    zero_sub]

/-- Newton's identity gives the next coefficient wherever its index can be
inverted.  The other coefficients have to vanish by themselves. -/
def VanishesAtMultiples (values : List Nat) : Prop :=
  forall k, 0 < k -> k ≤ values.length -> ((k : Nat) : Element) = 0 ->
    coefficientBelow values k = 0

/-- The coefficients down to `i` degrees below the leading one, lowest first. -/
def upperCoefficients (s : List Nat) (i : Nat) : List Nat :=
  (List.range i).foldl (fun higher i => nextCoefficient s higher (i + 1) :: higher) [prime - 1]

theorem upperCoefficients_succ (s : List Nat) (i : Nat) :
    upperCoefficients s (i + 1) =
      nextCoefficient s (upperCoefficients s i) (i + 1) :: upperCoefficients s i := by
  rw [upperCoefficients, List.range_succ, List.foldl_append]
  rfl

theorem cast_prime_sub_one : ((prime - 1 : Nat) : Element) = -1 := by
  rw [Nat.cast_sub prime_pos, ZMod.natCast_self, Nat.cast_one, zero_sub]

theorem map_cast_zipWith_powerSums {values higher : List Nat} {i : Nat} (hi : i < values.length)
    (hhigher : higher.map (Nat.cast : Nat -> Element) =
      (List.range (i + 1)).map fun t => coefficientBelow values (i - t)) :
    (List.zipWith (· * ·) higher (powerSums values)).map (Nat.cast : Nat -> Element) =
      (List.range (i + 1)).map fun t =>
        coefficientBelow values (i - t) * powerSum values (t + 1) := by
  have hlength : higher.length = i + 1 := by
    simpa using congrArg List.length hhigher
  have hsums := cast_powerSums values
  apply List.ext_getElem
  · simp [hlength, powerSums]
    omega
  · intro t ht _ht
    simp only [List.length_map, List.length_zipWith] at ht
    have hleft : t < higher.length := by omega
    have hright : t < (powerSums values).length := by omega
    have hcoefficient : ((higher[t] : Nat) : Element) = coefficientBelow values (i - t) := by
      have hentry := congrArg (fun xs => xs[t]?) hhigher
      have ht' : t < i + 1 := by omega
      simpa [hlength, ht'] using hentry
    have hpower : (((powerSums values)[t] : Nat) : Element) = powerSum values (t + 1) := by
      have hentry := congrArg (fun xs => xs[t]?) hsums
      have ht' : t < values.length := by omega
      simpa [ht', hright] using hentry
    simp only [List.getElem_map, List.getElem_zipWith, List.getElem_range, Nat.cast_mul,
      hcoefficient, hpower]

theorem cast_upperCoefficients {values : List Nat} (hvalues : VanishesAtMultiples values) {i : Nat}
    (hi : i ≤ values.length) :
    (upperCoefficients (powerSums values) i).map (Nat.cast : Nat -> Element) =
      (List.range (i + 1)).map fun t => coefficientBelow values (i - t) := by
  induction i with
  | zero =>
      show [((prime - 1 : Nat) : Element)] = [coefficientBelow values 0]
      rw [cast_prime_sub_one, coefficientBelow_zero]
  | succ i ih =>
      have hhigher := ih (by omega)
      have hnext : ((nextCoefficient (powerSums values) (upperCoefficients (powerSums values) i)
          (i + 1) : Nat) : Element) = coefficientBelow values (i + 1) := by
        rw [cast_nextCoefficient, map_cast_zipWith_powerSums (by omega) hhigher, sum_map_range]
        by_cases hzero : ((i + 1 : Nat) : Element) = 0
        · rw [hvalues (i + 1) (by omega) hi hzero, hzero, inv_zero, neg_zero, mul_zero]
        · have hnewton := newton values i
          rw [mul_neg, ← neg_mul, ← hnewton, mul_comm, inv_mul_cancel_left₀ hzero]
      have hrange : List.range (i + 1 + 1) = 0 :: (List.range (i + 1)).map Nat.succ :=
        List.range_succ_eq_map
      rw [upperCoefficients_succ, List.map_cons, hnext, hhigher, hrange, List.map_cons,
        List.map_map]
      congr 1
      apply List.map_congr_left
      intro t _ht
      rw [Function.comp_apply, Nat.succ_sub_succ]

theorem cast_coefficients {values : List Nat} (hvalues : VanishesAtMultiples values) :
    (coefficients (powerSums values)).map (Nat.cast : Nat -> Element) =
      (List.range (values.length + 1)).map fun t =>
        coefficientBelow values (values.length - t) := by
  have hlength : (powerSums values).length = values.length := by
    rw [powerSums, List.length_map, List.length_range]
  have hupper := cast_upperCoefficients hvalues (Nat.le_refl values.length)
  rw [coefficients, hlength]
  exact hupper

/-!
## Roots
-/

/-- The value at `x` of the polynomial with these coefficients, lowest first. -/
def evaluation (x : Element) (cs : List Element) : Element :=
  cs.foldr (fun c rest => c + x * rest) 0

theorem evaluation_map_range (x : Element) (f : Nat -> Element) (n : Nat) :
    evaluation x ((List.range n).map f) = ∑ t ∈ Finset.range n, f t * x ^ t := by
  induction n generalizing f with
  | zero => rfl
  | succ n ih =>
      have htail := ih (f ∘ Nat.succ)
      rw [List.range_succ_eq_map, List.map_cons, List.map_map]
      show f 0 + x * evaluation x ((List.range n).map (f ∘ Nat.succ)) = _
      rw [htail, Finset.sum_range_succ', Finset.mul_sum, pow_zero, mul_one, add_comm]
      congr 1
      apply Finset.sum_congr rfl
      intro t _ht
      rw [Function.comp_apply, pow_succ]
      ring

/-- The running sum and power of `isRoot` after some coefficients. -/
def evaluationStep (x : Nat) (s : Nat × Nat) (c : Nat) : Nat × Nat :=
  ((s.1 + s.2 * c) % prime, s.2 * x % prime)

theorem cast_foldl_evaluationStep (x : Nat) (cs : List Nat) (s : Nat × Nat) :
    (((cs.foldl (evaluationStep x) s).1 : Nat) : Element) =
      s.1 + s.2 * evaluation x (cs.map (Nat.cast : Nat -> Element)) := by
  induction cs generalizing s with
  | nil => simp [evaluation]
  | cons c cs ih =>
      rw [List.foldl_cons, ih]
      simp only [evaluationStep, cast_mod, Nat.cast_add, Nat.cast_mul, List.map_cons, evaluation,
        List.foldr_cons]
      ring

theorem foldl_evaluationStep_lt (x : Nat) (cs : List Nat) (s : Nat × Nat) (hs : s.1 < prime) :
    (cs.foldl (evaluationStep x) s).1 < prime := by
  induction cs generalizing s with
  | nil => exact hs
  | cons c cs ih => exact ih _ (Nat.mod_lt _ prime_pos)

theorem isRoot_iff (x : Nat) (cs : List Nat) :
    isRoot x cs = true ↔ evaluation x (cs.map (Nat.cast : Nat -> Element)) = 0 := by
  have hcast := cast_foldl_evaluationStep x cs (0, 1)
  have hlt := foldl_evaluationStep_lt x cs (0, 1) prime_pos
  rw [Nat.cast_zero, zero_add, Nat.cast_one, one_mul] at hcast
  rw [← hcast]
  show decide ((cs.foldl (evaluationStep x) (0, 1)).1 = 0) = true ↔ _
  rw [decide_eq_true_iff]
  constructor
  · intro hzero
    rw [hzero, Nat.cast_zero]
  · intro hzero
    exact eq_of_cast_eq hlt prime_pos (hzero.trans Nat.cast_zero.symm)

theorem evaluation_coefficientBelow (values : List Nat) (x : Element) :
    evaluation x ((List.range (values.length + 1)).map fun t =>
        coefficientBelow values (values.length - t)) =
      -((elements values).map fun m => x - m).prod := by
  have hcard : (elements values).card = values.length := by
    rw [elements, Multiset.coe_card, List.length_map]
  have hprod := congrArg (Polynomial.eval x)
    (Multiset.prod_X_sub_X_eq_sum_esymm (elements values))
  rw [Polynomial.eval_multiset_prod, Multiset.map_map, Polynomial.eval_finsetSum, hcard] at hprod
  simp only [Function.comp_apply, Polynomial.eval_sub, Polynomial.eval_X, Polynomial.eval_C,
    Polynomial.eval_mul, Polynomial.eval_pow, Polynomial.eval_neg, Polynomial.eval_one] at hprod
  rw [evaluation_map_range, hprod, ← Finset.sum_neg_distrib, ← Finset.sum_range_reflect]
  apply Finset.sum_congr rfl
  intro j hj
  have hj' : j < values.length + 1 := Finset.mem_range.mp hj
  have hindex : values.length - (values.length + 1 - 1 - j) = j := by omega
  have hpower : values.length + 1 - 1 - j = values.length - j := by omega
  rw [hindex, hpower, coefficientBelow]
  ring

theorem mem_zero_of_nodup {values : List Nat} (hnodup : values.Nodup)
    (hreduced : forall m, m ∈ values -> m < prime) (hlength : prime ≤ values.length) :
    0 ∈ values := by
  have hsubset : values.toFinset ⊆ Finset.range prime := by
    intro m hm
    exact Finset.mem_range.mpr (hreduced m (List.mem_toFinset.mp hm))
  have hcard : (Finset.range prime).card ≤ values.toFinset.card := by
    rw [Finset.card_range, List.toFinset_card_of_nodup hnodup]
    exact hlength
  have hall := Finset.eq_of_subset_of_card_le hsubset hcard
  have hzero : 0 ∈ values.toFinset := by
    rw [hall]
    exact Finset.mem_range.mpr prime_pos
  exact List.mem_toFinset.mp hzero

/-- Different elements of the field are at most as many as the prime, and if
they are as many then zero is among them. -/
theorem vanishesAtMultiples_of_nodup {values : List Nat} (hnodup : values.Nodup)
    (hreduced : forall m, m ∈ values -> m < prime) : VanishesAtMultiples values := by
  intro k hpos hk hzero
  have hprime : prime ≤ k := Nat.le_of_dvd hpos ((ZMod.natCast_eq_zero_iff k prime).mp hzero)
  have hcard : values.length ≤ prime := by
    have hsubset : values ⊆ List.range prime := by
      intro m hm
      exact List.mem_range.mpr (hreduced m hm)
    have hle := (hnodup.subperm hsubset).length_le
    rw [List.length_range] at hle
    exact hle
  have hkn : k = values.length := by omega
  have hlowest := evaluation_coefficientBelow values 0
  have hproduct : ((elements values).map fun m => 0 - m).prod = 0 := by
    apply Multiset.prod_eq_zero
    rw [Multiset.mem_map]
    refine ⟨0, ?_, sub_zero 0⟩
    have hmem : 0 ∈ values := mem_zero_of_nodup hnodup hreduced (by omega)
    exact List.mem_map.mpr ⟨0, hmem, Nat.cast_zero⟩
  rw [hproduct, neg_zero, List.range_succ_eq_map, List.map_cons] at hlowest
  rw [hkn]
  simpa [evaluation] using hlowest

/-- The values, and nothing else, are roots of the polynomial found from their
power sums. -/
theorem isRoot_coefficients_iff {values : List Nat} (hvalues : VanishesAtMultiples values)
    (x : Nat) :
    isRoot x (coefficients (powerSums values)) = true ↔ (x : Element) ∈ elements values := by
  rw [isRoot_iff, cast_coefficients hvalues, evaluation_coefficientBelow, neg_eq_zero,
    Multiset.prod_eq_zero_iff, Multiset.mem_map]
  constructor
  · rintro ⟨m, hm, hzero⟩
    rw [sub_eq_zero.mp hzero]
    exact hm
  · intro hx
    exact ⟨x, hx, sub_self _⟩

end Field
end PeerMix
