import PeerMix.Field

/-!
# Slots

The roots recovered from the slot reservation mix, in ascending order, are the
slots of the message mix.  A peer finds its own slots by the values it has
reserved.
-/

namespace PeerMix
namespace Slots

/-! ## Sorting -/

/-- The roots in ascending order, or the first one that is not an element of
the field. -/
def sortRoots (roots : List Nat) : Except Nat (List Nat) :=
  match roots.find? fun r => !Field.contains r with
  | some bad => .error bad
  | none => .ok (roots.mergeSort fun a b => decide (a ≤ b))

/-- Sorts the roots where they are.  They are looked through before the first of
them is moved. -/
def sortInPlace : EStateM Nat (List Nat) Unit := do
  let roots ← get
  if let some bad := roots.find? fun r => !Field.contains r then
    throw bad
  set (roots.mergeSort fun a b => decide (a ≤ b))

/-! ## Searching -/

/-- Stands for the encoding of what is not an element of the field.  No element has
it, as the highest bit of theirs is clear. -/
def noMatch : Bytes :=
  List.replicate Field.width 0xff

/-- The last index at which the roots have the encoding `wanted`, or minus one.  All
of them are compared, whether or not one has been found. -/
def searchIndex (wanted : Bytes) (roots : List Nat) : Int :=
  roots.zipIdx.foldl
    (fun slot (root, i) =>
      if (Field.encode? root).getD noMatch = wanted then (i : Int) else slot)
    (-1)

/-- The slot of a secret, which has none unless it is an element of the field. -/
def search? (secret : Nat) (roots : List Nat) : Option Nat :=
  match Field.encode? secret with
  | none => none
  | some wanted => (searchIndex wanted roots).toNat?

/-! ## Resolving -/

def resolveFrom (roots : List Nat) (found : List Nat) : List Nat → Option (List Nat)
  | [] => some found
  | secret :: secrets =>
      match search? secret roots with
      | none => none
      | some slot =>
          if slot ∈ found then none else resolveFrom roots (found ++ [slot]) secrets

/-- The slots of the secrets in order.  There are none when a secret is missing
from the roots or two of them share a slot. -/
def resolve? (secrets roots : List Nat) : Option (List Nat) :=
  resolveFrom roots [] secrets

end Slots
end PeerMix
