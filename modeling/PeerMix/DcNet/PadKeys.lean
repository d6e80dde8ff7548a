import PeerMix.Counts
import PeerMix.DcNet.SlotVector
import PeerMix.Hash.Hkdf
import PeerMix.KeyAgreement

/-!
# Pad keys

Each own message shares a key with every message of every peer, and with the
other own messages.  The secret of the pair of peers is expanded once for each
message of one side, and the messages of the other side select streams of the
expanded seed.  Both ends of a pair of messages agree on who takes which side.
-/

namespace PeerMix
namespace DcNet

structure PadKey where
  reservation : Bytes
  message : SlotVector
  deriving DecidableEq, Repr

structure PadScope where
  sid : Bytes
  run : UInt32
  /-- Octets in a message. -/
  size : Nat
  /-- The own index among the peers. -/
  my : Nat
  /-- The number of messages of every peer. -/
  counts : List Nat
  deriving DecidableEq, Repr

namespace PadScope

def total (scope : PadScope) : Nat :=
  Counts.total scope.counts

/-- A machine word counts the octets of a pad, and half a word numbers its messages
from one on. -/
def Fits (scope : PadScope) : Prop :=
  scope.total * scope.size < UInt64.size ∧ scope.total + 1 < UInt32.size

instance (scope : PadScope) : Decidable scope.Fits :=
  inferInstanceAs (Decidable (_ ∧ _))

/-- The key that an own message has in its own place, which no pad uses. -/
def ownKey (scope : PadScope) : PadKey :=
  { reservation := Bytes.zeros 32
    message := SlotVector.zero scope.total scope.size }

end PadScope

/-! ## The stream of a pair of messages -/

def infoLabel : Bytes :=
  Bytes.ofLatin "cspp-dcnet-pad-seed-v1"

/-- The message indices that select the seed and the stream.  The peer with the
lower index selects the seed; between own messages the higher one does. -/
def roles (my peer i j : Nat) : Nat × Nat :=
  if peer < my ∨ (my = peer ∧ i < j) then (j, i) else (i, j)

/-- The expansion text and the stream number for own message `i` and message
`j` of `peer`. -/
def padStream (run : UInt32) (my peer i j : Nat) : Bytes × UInt32 :=
  let (counter, nonce) := roles my peer i j
  (infoLabel ++ Bytes.littleEndian 4 run.toNat ++ Bytes.littleEndian 4 counter,
    UInt32.ofNat nonce)

def readPadKey (scope : PadScope) (seed : Bytes) (nonce : UInt32) : PadKey :=
  let (reservation, r) := (Reader.forKeys seed nonce).read 32
  let (data, _) := r.read (scope.total * scope.size)
  { reservation
    message := { slots := scope.total, size := scope.size, data } }

/-- The pad key of own message `i` and message `j` of `peer`, from the extracted
secret of the two peers. -/
def padKey (scope : PadScope) (secret : Bytes) (peer i j : Nat) :
    Except PrimitiveError PadKey :=
  if scope.my = peer ∧ i = j then .ok scope.ownKey
  else
    let (info, nonce) := padStream scope.run scope.my peer i j
    match Hkdf.expand? secret info 32 with
    | none => .error .derivation
    | some seed => .ok (readPadKey scope seed nonce)

/-! ## All pad keys of a peer -/

/-- The extracted secret shared with `peer`.  A peer with a single message
needs none with itself. -/
def pairSecret (scope : PadScope) (own : Nat) (key : HybridKey) (peer : Nat)
    (point ciphertext : Bytes) : Except PrimitiveError Bytes :=
  if peer = scope.my ∧ own = 1 then .ok []
  else
    (key.combinedSecret peer point ciphertext scope.my).map (Hkdf.extract scope.sid)

def padRow (scope : PadScope) (secrets : List Bytes) (i : Nat) :
    Except PrimitiveError (List PadKey) := do
  let rows ← ((secrets.zip scope.counts).zipIdx).mapM fun ((secret, count), peer) =>
    (List.range count).mapM fun j => padKey scope secret peer i j
  return rows.flatten

/-- The keys of every own message.  Points and ciphertexts are those of the
peers in order; the ciphertexts are the ones that they encapsulated to us.
Totals and lengths are those that machine words give when the scope `Fits`. -/
def padKeys (key : HybridKey) (points ciphertexts : List Bytes) (scope : PadScope) :
    Except PrimitiveError (List (List PadKey)) :=
  let peers := scope.counts.length
  if points.length ≠ peers then
    .error (.peerCount (.publicKeys points.length peers))
  else if ciphertexts.length ≠ peers then
    .error (.peerCount (.ciphertexts ciphertexts.length peers))
  else
    match scope.counts[scope.my]? with
    | none => .error .indexRange
    | some 0 => .ok []
    | some own => do
        let secrets ← ((points.zip ciphertexts).zipIdx).mapM
          fun ((point, ciphertext), peer) => pairSecret scope own key peer point ciphertext
        (List.range own).mapM fun i => padRow scope secrets i

end DcNet
end PeerMix
