import PeerMix.Curve.Ed25519
import PeerMix.Bytes.Hex
import PeerMix.Random.Source
import PeerMix.PrimitiveError

/-!
# Session identities

A peer signs its messages of a session with a key pair made for that session.
The public half stands for the peer in the roster.
-/

namespace PeerMix

structure Identity where
  seed : Bytes
  deriving DecidableEq, Repr

namespace Identity

def seedSize : Nat := 32

def generate {σ : Type} (draw : Draw σ) (s : σ) : Except PrimitiveError Identity × σ :=
  match draw seedSize s with
  | (.ok seed, s) => (.ok { seed }, s)
  | (.error reason, s) => (.error (.randomness reason), s)

def publicKey (id : Identity) : Bytes :=
  Ed25519.publicKey id.seed

def sign (id : Identity) (message : Bytes) : Bytes :=
  Ed25519.sign id.seed message

/-- The first eight octets of the digest of a public key, as pairs of digits
with colons between them. -/
def fingerprintOf (publicKey : Bytes) : String :=
  ":".intercalate (((sha256 publicKey).take 8).map fun b => Hex.text [b])

def fingerprint (id : Identity) : String :=
  fingerprintOf id.publicKey

/-- What may be shown of a key pair: all but its secret. -/
def description (id : Identity) : String :=
  s!"SessionKeyPair \x7b public: \"{Hex.text id.publicKey}\", secret: \"[REDACTED]\" \x7d"

end Identity
end PeerMix
