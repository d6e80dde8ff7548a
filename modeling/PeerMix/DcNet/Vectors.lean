import PeerMix.DcNet.Mix
import PeerMix.DcNet.PadKeys

/-!
# Published vectors

What a peer publishes in the two mixes: one vector for each own message, under
the pads that the keys of the message give.  The own messages stand next to each
other in global order.
-/

namespace PeerMix
namespace DcNet

/-- The slot reservation vectors of messages with global indices from `start`
on. -/
def reservationVectors (start : Nat) (reservations : List Nat) (rows : List (List PadKey)) :
    List (List Nat) :=
  ((reservations.zip rows).zipIdx start).map fun ((m, row), g) =>
    reservationMix m (reservationPads (row.map (·.reservation)) g)

def messageVector (size g : Nat) (message : Bytes) (slot : Nat) (row : List PadKey) :
    Except PrimitiveError SlotVector := do
  let pad ← messagePad (row.map (·.message)) size g
  messageMix pad message slot

def messageVectors (size start : Nat) (messages : List Bytes) (slots : List Nat)
    (rows : List (List PadKey)) : Except PrimitiveError (List SlotVector) :=
  ((messages.zip slots).zipIdx).mapM fun ((message, slot), i) =>
    match rows[i]? with
    | none => .error .indexRange
    | some row => messageVector size (start + i) message slot row

end DcNet
end PeerMix
