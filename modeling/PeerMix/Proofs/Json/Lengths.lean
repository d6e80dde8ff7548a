import Mathlib.Algebra.Order.BigOperators.Group.List
import Mathlib.Algebra.Order.Ring.Nat
import PeerMix.Proofs.Bytes.Hex
import PeerMix.Proofs.Json.Spelling

/-!
# How long compact text is

The text of an array or an object has a bracket in front, and behind every part
of it a comma or the closing bracket.  So its length is a sum over the parts, one
for each part included, and one more.
-/

namespace PeerMix
namespace Json

/-- The number of characters of the text of a value. -/
def width (v : Json) : Nat :=
  v.render.length

/-- The characters of a name, of the colon behind it, of the value and of what closes
the member. -/
def memberWidth (m : List Char × Json) : Nat :=
  (quoted m.1).length + m.2.width + 2

/-!
## Numbers and texts
-/

theorem width_natural {n k : Nat} (hk : 0 < k) (h : n < 10 ^ k) : width (.integer n) ≤ k := by
  have hdigits : (Nat.toDigits 10 n).length ≤ k :=
    (Nat.length_toDigits_le_iff (by decide) hk).mpr h
  have hnatural : ¬((n : Int) < 0) := by omega
  rw [width, render, renderInteger, if_neg hnatural, Int.natAbs_natCast]
  exact hdigits

/-- Digits are written as they are. -/
theorem escape_of_isDigit {c : Char} (h : Hex.IsDigit c) : escape c = [c] := by
  rcases h with ⟨n, hn, hc⟩
  have hall : forall d : Fin 16, escape (Hex.digit d) = [Hex.digit d] := by decide
  rw [hc]
  exact hall ⟨n, hn⟩

theorem length_quoted_of_isDigit {cs : List Char} (h : forall c, c ∈ cs -> Hex.IsDigit c) :
    (quoted cs).length = cs.length + 2 := by
  have hplain : cs.flatMap escape = cs := by
    induction cs with
    | nil => rfl
    | cons c cs ih =>
        rw [List.flatMap_cons, escape_of_isDigit (h c List.mem_cons_self),
          ih fun d hd => h d (List.mem_cons_of_mem c hd)]
        rfl
  rw [quoted, hplain, List.length_append, List.length_cons, List.length_singleton]

theorem width_text_encode (bs : Bytes) : width (.text (Hex.encode bs)) = 2 * bs.length + 2 := by
  rw [width, render, length_quoted_of_isDigit fun _ hc => Hex.isDigit_of_mem_encode hc,
    Hex.length_encode]

theorem width_text_ofNat {n k : Nat} (hk : 0 < k) (h : n < 16 ^ k) :
    width (.text (Hex.ofNat n)) ≤ k + 2 := by
  have hdigits : (Hex.ofNat n).length ≤ k :=
    (Nat.length_toDigits_le_iff (by decide) hk).mpr h
  rw [width, render, length_quoted_of_isDigit fun _ hc => Hex.isDigit_of_mem_ofNat hc]
  omega

/-!
## Arrays and objects
-/

theorem length_renderItems {items : List Json} (hsome : items ≠ []) :
    (renderItems items).length + 1 = (items.map fun v => v.width + 1).sum := by
  induction items with
  | nil => exact absurd rfl hsome
  | cons v items ih =>
      cases items with
      | nil => rfl
      | cons w vs =>
          rw [renderItems, List.length_append, List.length_cons, List.map_cons, List.sum_cons,
            ← ih (List.cons_ne_nil w vs), width, Nat.add_assoc, Nat.add_assoc]
          omega

theorem length_renderMembers {members : List (List Char × Json)} (hsome : members ≠ []) :
    (renderMembers (named members)).length + 1 = (members.map memberWidth).sum := by
  induction members with
  | nil => exact absurd rfl hsome
  | cons m members ih =>
      cases members with
      | nil =>
          show (quoted m.1 ++ ':' :: m.2.render).length + 1 = memberWidth m + 0
          rw [List.length_append, List.length_cons, memberWidth, width]
          omega
      | cons n ms =>
          show (quoted m.1 ++ ':' :: m.2.render ++
            ',' :: renderMembers (named (n :: ms))).length + 1 = _
          rw [List.length_append, List.length_append, List.length_cons, List.length_cons,
            List.map_cons, List.sum_cons, ← ih (List.cons_ne_nil n ms), memberWidth, width]
          omega

/-- What stands between two brackets is as long as the rest of the text without them. -/
theorem length_enclosed (first last : Char) (cs : List Char) :
    (first :: cs ++ [last]).length = cs.length + 2 := by
  rw [List.length_append, List.length_cons, List.length_singleton]

theorem width_ofArray {items : List Json} (hsome : items ≠ []) :
    width (.ofArray items) = (items.map fun v => v.width + 1).sum + 1 := by
  rw [← length_renderItems hsome]
  exact length_enclosed '[' ']' (renderItems items)

theorem width_ofObject {members : List (List Char × Json)} (hsome : members ≠ []) :
    width (.ofObject members) = (members.map memberWidth).sum + 1 := by
  rw [← length_renderMembers hsome]
  exact length_enclosed _ _ (renderMembers (named members))

/-- An array of values that are not long is not long. -/
theorem width_ofArray_le {items : List Json} {n : Nat} (h : forall v, v ∈ items -> v.width ≤ n) :
    width (.ofArray items) ≤ items.length * (n + 1) + 2 := by
  rcases Decidable.em (items = []) with hnone | hsome
  · rw [hnone]
    exact Nat.le_add_left 2 _
  · have hsum : (items.map fun v => v.width + 1).sum ≤ items.length * (n + 1) := by
      have hparts : forall k, k ∈ items.map (fun v => v.width + 1) -> k ≤ n + 1 := by
        intro k hk
        rcases List.mem_map.mp hk with ⟨v, hv, rfl⟩
        exact Nat.succ_le_succ (h v hv)
      have hbound := List.sum_le_card_nsmul _ _ hparts
      rw [List.length_map] at hbound
      exact hbound
    rw [width_ofArray hsome]
    omega

theorem width_ofObject_le (members : List (List Char × Json)) :
    width (.ofObject members) ≤ (members.map memberWidth).sum + 2 := by
  rcases Decidable.em (members = []) with hnone | hsome
  · rw [hnone]
    exact Nat.le_refl 2
  · rw [width_ofObject hsome]
    omega

end Json
end PeerMix
