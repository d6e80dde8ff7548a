/-!
# Powers modulo a number
-/

namespace PeerMix
namespace Modular

/-- The power `base ^ exponent` modulo `modulus`, by repeated squaring. -/
def pow (modulus base exponent : Nat) : Nat :=
  if exponent = 0 then 1 % modulus
  else
    let half := pow modulus (base * base % modulus) (exponent / 2)
    if exponent % 2 = 1 then base * half % modulus else half
  termination_by exponent

theorem pow_eq (modulus base exponent : Nat) :
    pow modulus base exponent = Nat.pow base exponent % modulus := by
  induction exponent using Nat.strongRecOn generalizing base with
  | _ exponent ih =>
    unfold pow
    split
    · next h => rw [h]; rfl
    · next h =>
      have hhalf := ih (exponent / 2) (by omega) (base * base % modulus)
      have hsquare : Nat.pow (base * base % modulus) (exponent / 2) % modulus =
          Nat.pow base (2 * (exponent / 2)) % modulus := by
        simp only [Nat.pow_eq]
        rw [← Nat.pow_mod, ← Nat.pow_two, ← Nat.pow_mul]
      rw [hhalf, hsquare]
      dsimp only
      split
      · next hodd =>
        have hlast : exponent = 2 * (exponent / 2) + 1 := by omega
        rw [Nat.mul_mod, Nat.mod_mod, ← Nat.mul_mod]
        conv => rhs; rw [hlast]
        exact congrArg (· % modulus) (Nat.mul_comm base _)
      · next heven =>
        have hlast : exponent = 2 * (exponent / 2) := by omega
        conv => rhs; rw [hlast]

end Modular
end PeerMix
