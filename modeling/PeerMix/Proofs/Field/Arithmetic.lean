import Mathlib.FieldTheory.Finite.Basic
import Mathlib.NumberTheory.LucasLehmer
import PeerMix.Field

/-!
# Arithmetic modulo the prime

The operations on naturals are those of the field of the Mersenne prime
`2 ^ 127 - 1`.  Each gets one equation over that field, and two reduced numbers
that stand for the same element are equal.
-/

namespace PeerMix
namespace Field

theorem prime_eq_mersenne : prime = mersenne 127 := rfl

theorem prime_isPrime : Nat.Prime prime := by
  rw [prime_eq_mersenne]
  exact lucas_lehmer_sufficiency 127 (by norm_num) (by norm_num)

instance : Fact (Nat.Prime prime) := ⟨prime_isPrime⟩

theorem prime_pos : 0 < prime := prime_isPrime.pos

/-- The elements that the naturals stand for. -/
abbrev Element := ZMod prime

theorem eq_of_cast_eq {a b : Nat} (ha : a < prime) (hb : b < prime)
    (h : (a : Element) = (b : Element)) : a = b := by
  have hmod := (ZMod.natCast_eq_natCast_iff' a b prime).mp h
  rw [Nat.mod_eq_of_lt ha, Nat.mod_eq_of_lt hb] at hmod
  exact hmod

theorem contains_iff {x : Nat} : contains x = true ↔ x < prime :=
  decide_eq_true_iff

/-!
## The operations
-/

@[simp] theorem cast_mod (a : Nat) : ((a % prime : Nat) : Element) = (a : Element) :=
  ZMod.natCast_mod a prime

theorem cast_sub (a b : Nat) : ((sub a b : Nat) : Element) = (a : Element) - (b : Element) := by
  have hb : b % prime ≤ a + prime :=
    Nat.le_trans (Nat.le_of_lt (Nat.mod_lt b prime_pos)) (Nat.le_add_left _ _)
  rw [sub, cast_mod, Nat.cast_sub hb, cast_mod, Nat.cast_add, ZMod.natCast_self, add_zero]

theorem pow_eq (base exponent : Nat) : pow base exponent = base ^ exponent % prime :=
  Modular.pow_eq prime base exponent

theorem cast_pow (base exponent : Nat) :
    ((pow base exponent : Nat) : Element) = (base : Element) ^ exponent := by
  rw [pow_eq, cast_mod, Nat.cast_pow]

theorem cast_sum (xs : List Nat) :
    ((sum xs : Nat) : Element) = (xs.map (Nat.cast : Nat -> Element)).sum := by
  rw [sum, cast_mod]
  induction xs with
  | nil => simp
  | cons x xs ih =>
      rw [List.foldr_cons, Nat.cast_add, ih, List.map_cons, List.sum_cons]

theorem cast_inverse (x : Nat) : ((inverse x : Nat) : Element) = (x : Element)⁻¹ := by
  rw [inverse, cast_pow]
  by_cases hx : (x : Element) = 0
  · have hexponent : prime - 2 ≠ 0 := by decide
    rw [hx, zero_pow hexponent, inv_zero]
  · have hfermat : (x : Element) ^ (prime - 2 + 1) = 1 := by
      have hone : prime - 2 + 1 = prime - 1 := by decide
      rw [hone]
      exact ZMod.pow_card_sub_one_eq_one hx
    rw [pow_succ] at hfermat
    exact eq_inv_of_mul_eq_one_left hfermat

/-!
## Results are reduced
-/

theorem sum_lt (xs : List Nat) : sum xs < prime :=
  Nat.mod_lt _ prime_pos

end Field
end PeerMix
