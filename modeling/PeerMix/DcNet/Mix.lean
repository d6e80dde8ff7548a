import PeerMix.DcNet.SlotVector
import PeerMix.Field
import PeerMix.Hash.Sha2

/-!
# Pads and mixes

Two mixes use the keys that each pair of messages shares.  In the slot
reservation mix a message stands for a field element whose powers are
published, each under a pad; in the message mix it stands in the slot it has
reserved, under a pad as long as all slots.  Of every pair one side adds what
the other one takes away, so all pads vanish from the sum.
-/

namespace PeerMix
namespace DcNet

/-! ## Slot reservation -/

/-- The pads of the message at global index `my`, one for each power up to the
number of keys: the sum of what the pair with every other message contributes,
added for lower indices and taken away for higher ones. -/
def reservationPadsOf {κ : Type} (share : κ → Nat → Nat) (keys : List κ) (my : Nat) :
    List Nat :=
  (List.range keys.length).map fun j =>
    (keys.zipIdx.filter fun (_, i) => i ≠ my).foldl
      (fun pad (key, i) =>
        if i < my then (pad + share key (j + 1)) % Field.prime
        else Field.sub pad (share key (j + 1)))
      0

def reservationShare (key : Bytes) (power : Nat) : Nat :=
  (sha256 (key ++ Bytes.littleEndian 8 power)).toNat % Field.prime

def reservationPads (keys : List Bytes) (my : Nat) : List Nat :=
  reservationPadsOf reservationShare keys my

/-- The powers of `m` from the first on, each under its pad.  The exponents are those
that half a machine word counts, as long as the pads are fewer than it can number. -/
def reservationMix (m : Nat) (pads : List Nat) : List Nat :=
  pads.zipIdx.map fun (pad, k) => (Field.pow m (k + 1) + pad) % Field.prime

/-! ## Messages -/

/-- The pad of the message at global index `my`: the exclusive or of the keys
of all pairs with other messages. -/
def messagePad (keys : List SlotVector) (size my : Nat) :
    Except PrimitiveError SlotVector :=
  ((keys.zipIdx.filter fun (_, i) => i ≠ my).map (·.1)).foldlM SlotVector.xor
    (SlotVector.zero keys.length size)

def messageMix (pad : SlotVector) (message : Bytes) (slot : Nat) :
    Except PrimitiveError SlotVector :=
  if pad.slots ≤ slot then .error (.slotRange slot pad.slots)
  else if message.length ≠ pad.size then .error (.messageLength pad.size message.length)
  else
    match pad.slot? slot with
    | none => .error .indexRange
    | some covered =>
        .ok { pad with
          data := pad.data.take (slot * pad.size)
            ++ covered.xor message
            ++ pad.data.drop ((slot + 1) * pad.size) }

end DcNet
end PeerMix
