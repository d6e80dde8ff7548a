/-!
# Message counts

How many messages each peer of a run has.  The messages of all peers are
numbered through, peer by peer.
-/

namespace PeerMix
namespace Counts

def total (counts : List Nat) : Nat :=
  counts.foldr (· + ·) 0

/-- The global index of the first message of peer `p`. -/
def start (counts : List Nat) (p : Nat) : Nat :=
  total (counts.take p)

end Counts
end PeerMix
