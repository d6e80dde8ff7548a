import Mathlib.Algebra.Polynomial.Roots
import PeerMix.Proofs.Field.PowerSums

/-!
# The polynomial behind the power sums

The coefficients found from power sums are, reduced, those of a polynomial that
has the values as its roots, each as often as it occurs.  A polynomial of this
kind determines its roots, so power sums determine the values up to their order,
as long as there are fewer of them than the prime.
-/

namespace PeerMix
namespace Field

open Polynomial

theorem map_val_cast {values : List Nat} (hreduced : forall m, m ∈ values -> m < prime) :
    (values.map (Nat.cast : Nat -> Element)).map ZMod.val = values := by
  rw [List.map_map]
  calc
    values.map (ZMod.val ∘ (Nat.cast : Nat -> Element)) = values.map id :=
      List.map_congr_left fun m hm => ZMod.val_cast_of_lt (hreduced m hm)
    _ = values := List.map_id values

/-- The polynomial with leading coefficient `-1` whose roots are the values. -/
noncomputable def rootPolynomial (values : List Nat) : Polynomial Element :=
  -(values.map fun (m : Nat) => X - C (m : Element)).prod

theorem rootPolynomial_eq_neg_prod (values : List Nat) :
    rootPolynomial values = -((elements values).map fun m => X - C m).prod := by
  rw [rootPolynomial, elements, Multiset.map_coe, Multiset.prod_coe, List.map_map]
  rfl

theorem card_elements (values : List Nat) : (elements values).card = values.length := by
  rw [elements, Multiset.coe_card, List.length_map]

/-!
## Coefficients
-/

theorem coeff_rootPolynomial (values : List Nat) {k : Nat} (hk : k ≤ values.length) :
    (rootPolynomial values).coeff k = coefficientBelow values (values.length - k) := by
  have hcard := card_elements values
  rw [rootPolynomial_eq_neg_prod, coeff_neg, Multiset.prod_X_sub_C_coeff (elements values) (by omega),
    hcard, coefficientBelow]

theorem rootPolynomial_eq_sum (values : List Nat) :
    rootPolynomial values = ∑ j ∈ Finset.range (values.length + 1),
      C (coefficientBelow values j) * X ^ (values.length - j) := by
  rw [rootPolynomial_eq_neg_prod, Multiset.prod_X_sub_X_eq_sum_esymm, card_elements,
    ← Finset.sum_neg_distrib]
  apply Finset.sum_congr rfl
  intro j _hj
  rw [coefficientBelow, C_neg, C_mul, C_pow, C_neg, C_1]
  ring

/-- As long as the index of a coefficient stays below the prime it can be
inverted, and Newton's identities leave nothing open. -/
theorem vanishesAtMultiples_of_length_lt {values : List Nat} (hlength : values.length < prime) :
    VanishesAtMultiples values := by
  intro k hpos hk hzero
  have hprime : prime ≤ k := Nat.le_of_dvd hpos ((ZMod.natCast_eq_zero_iff k prime).mp hzero)
  omega

theorem lt_of_mem_upperCoefficients {s : List Nat} {i a : Nat} (h : a ∈ upperCoefficients s i) :
    a < prime := by
  induction i with
  | zero =>
      rw [List.mem_singleton.mp h]
      exact Nat.sub_one_lt_of_lt prime_pos
  | succ i ih =>
      rw [upperCoefficients_succ] at h
      rcases List.mem_cons.mp h with rfl | hmem
      · exact Nat.mod_lt _ prime_pos
      · exact ih hmem

/-- The coefficients found from power sums are those of the polynomial with the
values as roots, lowest degree first. -/
theorem coefficients_powerSums {values : List Nat} (hvalues : VanishesAtMultiples values) :
    coefficients (powerSums values) =
      (List.range (values.length + 1)).map fun k => ((rootPolynomial values).coeff k).val := by
  have hreduced : forall a, a ∈ coefficients (powerSums values) -> a < prime :=
    fun a ha => lt_of_mem_upperCoefficients ha
  rw [← map_val_cast hreduced, cast_coefficients hvalues, List.map_map]
  apply List.map_congr_left
  intro k hk
  rw [Function.comp_apply, coeff_rootPolynomial values (Nat.lt_succ_iff.mp (List.mem_range.mp hk))]

/-!
## Values
-/

theorem cast_mem_elements_iff (x : Nat) (values : List Nat) :
    (x : Element) ∈ elements values ↔ exists m, m ∈ values ∧ x % prime = m % prime := by
  rw [elements, Multiset.mem_coe, List.mem_map]
  apply exists_congr
  intro m
  rw [eq_comm (a := (m : Element)), ZMod.natCast_eq_natCast_iff']

/-- A polynomial of this kind has no other roots than its values, and each of
them as often as it occurs. -/
theorem elements_eq_of_rootPolynomial_eq {values others : List Nat}
    (h : rootPolynomial others = rootPolynomial values) : elements others = elements values := by
  rw [rootPolynomial_eq_neg_prod, rootPolynomial_eq_neg_prod, neg_inj] at h
  have hroots := congrArg roots h
  rw [roots_multiset_prod_X_sub_C, roots_multiset_prod_X_sub_C] at hroots
  exact hroots

theorem map_val_elements {values : List Nat} (hreduced : forall m, m ∈ values -> m < prime) :
    (elements values).map ZMod.val = values := by
  rw [elements, Multiset.map_coe, map_val_cast hreduced]

theorem rootPolynomial_eq_of_powerSums_eq {values others : List Nat}
    (hvalues : VanishesAtMultiples values) (hothers : VanishesAtMultiples others)
    (hlength : others.length = values.length) (hsums : powerSums others = powerSums values) :
    rootPolynomial others = rootPolynomial values := by
  have hlists := (cast_coefficients hothers).symm.trans
    ((congrArg (fun s => (coefficients s).map (Nat.cast : Nat -> Element)) hsums).trans
      (cast_coefficients hvalues))
  rw [hlength, List.map_inj_left] at hlists
  rw [rootPolynomial_eq_sum, rootPolynomial_eq_sum, hlength]
  apply Finset.sum_congr rfl
  intro j hj
  have hj' : j ≤ values.length := Nat.lt_succ_iff.mp (Finset.mem_range.mp hj)
  -- The list runs upwards from the lowest degree, the sum downwards from the highest.
  have hentry := hlists (values.length - j) (List.mem_range.mpr (by omega))
  rw [Nat.sub_sub_self hj'] at hentry
  rw [hentry]

/-- Power sums of fewer values than the prime give back the polynomial with these
values as roots, nothing but the values as roots, and among elements of the field
the values themselves up to their order. -/
theorem power_sums_determine_values {values : List Nat} (hlength : values.length < prime) :
    coefficients (powerSums values) =
        (List.range (values.length + 1)).map (fun k => ((rootPolynomial values).coeff k).val) ∧
      (forall x, isRoot x (coefficients (powerSums values)) = true ↔
        exists m, m ∈ values ∧ x % prime = m % prime) ∧
      forall others : List Nat, others.length = values.length ->
        (forall m, m ∈ values -> m < prime) -> (forall m, m ∈ others -> m < prime) ->
          powerSums others = powerSums values -> others.Perm values := by
  have hvalues := vanishesAtMultiples_of_length_lt hlength
  refine ⟨coefficients_powerSums hvalues, ?_, ?_⟩
  · intro x
    rw [isRoot_coefficients_iff hvalues, cast_mem_elements_iff]
  · intro others hsame hreduced hreducedOthers hsums
    have hothers : VanishesAtMultiples others :=
      vanishesAtMultiples_of_length_lt (by omega)
    have helements := elements_eq_of_rootPolynomial_eq
      (rootPolynomial_eq_of_powerSums_eq hvalues hothers hsame hsums)
    rw [← Multiset.coe_eq_coe, ← map_val_elements hreduced, ← map_val_elements hreducedOthers,
      helements]

/-- Two of three values are the same: the polynomial is `-(X - 2) ^ 2 * (X - 3)`. -/
theorem power_sums_determine_values_of_double_root :
    [2, 3, 2].length < prime ∧
      coefficients [7, 17, 43] = [12, prime - 16, 7, prime - 1] ∧
      isRoot (prime + 3) (coefficients [7, 17, 43]) = true ∧
      isRoot 5 (coefficients [7, 17, 43]) = false ∧
      [3, 2, 2].Perm [2, 3, 2] := by
  have hlength : [2, 3, 2].length < prime := by decide
  have hsums : powerSums [2, 3, 2] = [7, 17, 43] := by decide +kernel
  rcases power_sums_determine_values hlength with ⟨_hcoefficients, hroots, hunique⟩
  rw [hsums] at hroots
  refine ⟨hlength, by decide +kernel, ?_, ?_, ?_⟩
  · exact (hroots (prime + 3)).mpr ⟨3, by decide, by decide⟩
  · rw [← Bool.not_eq_true, hroots 5]
    decide
  · exact hunique [3, 2, 2] rfl (by decide) (by decide) (by decide +kernel)

end Field
end PeerMix
