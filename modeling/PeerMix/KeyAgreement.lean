import PeerMix.Curve.X25519
import PeerMix.Lattice.Kem
import PeerMix.Bytes.Hex
import PeerMix.Random.Source
import PeerMix.PrimitiveError

/-!
# Hybrid key agreement

Every peer publishes a point and an encapsulation key, and encapsulates a
secret to every peer, itself included.  The secret of a pair is the exclusive
or of the point agreement and both encapsulated secrets, so it stays unknown as
long as one of the two schemes holds.
-/

namespace PeerMix

structure HybridKey where
  scalar : Bytes
  kem : Lattice.SecretKey
  /-- The secrets encapsulated to the peers, in their order. -/
  sent : List Bytes

namespace HybridKey

/-- Draws the scalar and the two seeds of the encapsulation key, in this
order. -/
def generate (r : Reader) : HybridKey × Reader :=
  let (scalar, r) := r.read 32
  let (seed, r) := r.read 32
  let (refusalKey, r) := r.read 32
  ({ scalar, kem := Lattice.generate seed refusalKey, sent := [] }, r)

def point (k : HybridKey) : Bytes :=
  X25519.publicKey k.scalar

def encapsulationKey (k : HybridKey) : Bytes :=
  k.kem.publicKey.toBytes

def description (k : HybridKey) : String :=
  s!"HybridKx \x7b x25519_public: \"{Hex.text k.point}\", secret: \"[REDACTED]\", .. \x7d"

/-! ## Encapsulation -/

/-- Encapsulates to one key after the other until a key has the wrong size.
The result is that failure or the ciphertexts, then the secrets up to it, then
the reader. -/
def encapsulateEach :
    (keys : List Bytes) → Reader → Except PrimitiveError (List Bytes) × List Bytes × Reader
  | [], r => (.ok [], [], r)
  | key :: keys, r =>
      if key.length ≠ Lattice.publicKeySize then
        (.error (.keyLength Lattice.publicKeySize key.length), [], r)
      else
        let (randomness, r) := r.read 32
        let (ciphertext, secret) :=
          (Lattice.PublicKey.ofBytes key).encapsulate randomness
        let (ciphertexts, secrets, r) := encapsulateEach keys r
        (ciphertexts.map (ciphertext :: ·), secret :: secrets, r)

/-- Encapsulates a fresh secret to every key.  Secrets of an earlier call are
forgotten; those made before a failure are kept. -/
def encapsulate (k : HybridKey) (r : Reader) (keys : List Bytes) :
    Except PrimitiveError (List Bytes) × HybridKey × Reader :=
  let (ciphertexts, sent, r) := encapsulateEach keys r
  (ciphertexts, { k with sent }, r)

/-! ## The secret of a pair -/

/-- The secret shared with `peer`, whose point and whose ciphertext for us are
given.  For our own index both encapsulated secrets are the same one, which
enters only once. -/
def combinedSecret (k : HybridKey) (peer : Nat) (theirPoint theirCiphertext : Bytes)
    (my : Nat) : Except PrimitiveError Bytes :=
  if theirCiphertext.length ≠ Lattice.ciphertextSize then
    .error (.ciphertextLength Lattice.ciphertextSize theirCiphertext.length)
  else
    match k.sent[peer]? with
    | none => .error (.peerCount (.noSecretFor peer))
    | some sent =>
        let received := k.kem.decapsulate theirCiphertext
        let shared := (X25519.agree k.scalar theirPoint).xor received
        .ok (if peer = my then shared else shared.xor sent)

end HybridKey
end PeerMix
