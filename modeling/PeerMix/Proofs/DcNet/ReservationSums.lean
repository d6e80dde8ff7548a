import PeerMix.Proofs.DcNet.Cancellation

/-!
# Sums of reservation vectors

Under one table of keys for all messages the pads vanish from the sum of the
reservation vectors, which leaves the power sums of the reserved values.  Nothing
is asked of the hash that makes pads from keys, nor of the keys that messages
have with themselves.
-/

namespace PeerMix
namespace DcNet

open PeerMix.Field

section Reserved

variable {κ : Type} (share : κ -> Nat -> Nat) {n : Nat}

/-- The vector that reserves a slot for the value at `g`: its powers under the
pads that its row of keys gives.  What a key contributes to a pad is `share`; the
mix itself takes `reservationShare`, and nothing here depends on it. -/
def reserved (K : Fin n -> Fin n -> κ) (values : Fin n -> Nat) (g : Fin n) : List Nat :=
  reservationMix (values g) (reservationPadsOf share (List.ofFn (K g)) g)

/-- Only the keys with other messages enter a vector. -/
theorem reserved_congr {K L : Fin n -> Fin n -> κ} (values : Fin n -> Nat) {g : Fin n}
    (h : forall i, i ≠ g -> L g i = K g i) :
    reserved share L values g = reserved share K values g := by
  have hpads : reservationPadsOf share (List.ofFn (L g)) g =
      reservationPadsOf share (List.ofFn (K g)) g := by
    apply reservationPadsOf_congr
    · rw [List.length_ofFn, List.length_ofFn]
    · exact fun i hi => getElem?_ofFn_congr h hi
  rw [reserved, reserved, hpads]

/-!
## Power sums
-/

theorem ofFn_reserved [NeZero n] (K : Fin n -> Fin n -> κ) (values : Fin n -> Nat) :
    List.ofFn (reserved share K values) =
      (List.range n).map (publishedOf share (fun g i => K (Fin.ofNat n g) (Fin.ofNat n i))
        (fun g => values (Fin.ofNat n g)) n) := by
  rw [ofFn_eq_map_range]
  apply List.map_congr_left
  intro g hg
  have hindex : ((Fin.ofNat n g : Fin n) : Nat) = g := Nat.mod_eq_of_lt (List.mem_range.mp hg)
  rw [reserved, publishedOf, ofFn_eq_map_range, hindex]

/-- The reservation vectors of all messages add up to the power sums of their
values.  Every single one holds elements of the field, whichever key the message
has with itself. -/
theorem reservations_add_up {K : Fin n -> Fin n -> κ}
    (hshared : forall g i, g ≠ i -> K g i = K i g) (values : Fin n -> Nat) :
    addVectors (List.ofFn (reserved share K values)) =
        some (List.ofFn fun j : Fin n => (∑ g, values g ^ (j.val + 1)) % prime) ∧
      forall g, (forall x, x ∈ reserved share K values g -> x < prime) ∧
        forall L : Fin n -> Fin n -> κ, (forall i, i ≠ g -> L g i = K g i) ->
          reserved share L values g = reserved share K values g := by
  constructor
  · rw [← powerSums_ofFn]
    cases n with
    | zero => rfl
    | succ n =>
        rw [ofFn_reserved, ofFn_eq_map_range values]
        apply addVectors_publishedOf share
        intro g i hg hi hgi
        apply hshared
        intro heq
        have hval := congrArg Fin.val heq
        simp only [Fin.ofNat, Nat.mod_eq_of_lt hg, Nat.mod_eq_of_lt hi] at hval
        exact hgi hval
  · intro g
    exact ⟨fun x hx => reservationMix_lt hx, fun L hL => reserved_congr share values hL⟩

end Reserved

/-- Two messages that share a key and have one of their own each. -/
def twoKeys (g i : Fin 2) : Bytes :=
  List.replicate 32 (if g = i then g.val.toUInt8 else 7)

theorem reservations_add_up_of_two_messages :
    (forall g i, g ≠ i -> twoKeys g i = twoKeys i g) ∧
      addVectors [reserved reservationShare twoKeys ![5, prime + 2] 0,
          reserved reservationShare twoKeys ![5, prime + 2] 1] = some [7, 29] ∧
      reserved reservationShare (fun _ _ => List.replicate 32 7) ![5, prime + 2] 0 =
        reserved reservationShare twoKeys ![5, prime + 2] 0 := by
  have hshared : forall g i, g ≠ i -> twoKeys g i = twoKeys i g := by decide
  rcases reservations_add_up reservationShare hshared ![5, prime + 2] with ⟨hsum, hsingle⟩
  refine ⟨hshared, hsum, ?_⟩
  apply (hsingle 0).right
  decide

end DcNet
end PeerMix
