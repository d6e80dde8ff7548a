import PeerMix.Identity
import PeerMix.Wire.Message
import PeerMix.Wire.Preimage

/-!
# Signatures and commitments

A message of a peer is signed over the digest of its other fields.  The digests
of a run bind the session, the run and the peers; the commitment in a key
exchange binds the secrets that the peer may have to reveal.
-/

namespace PeerMix
namespace Wire

/-- Messages that carry a signature over a preimage of their other fields. -/
class Signed (α : Type) where
  preimage : α → Preimage
  signature : α → Bytes

namespace Signed

variable {α : Type} [Signed α]

def digest (m : α) : Bytes :=
  (preimage m).digest

def verify (m : α) (publicKey : Bytes) : Bool :=
  Ed25519.verify publicKey (digest m) (signature m)

end Signed

/-! ## Preimages of messages -/

instance : Signed PairRequest where
  preimage m :=
    { tag := Bytes.ofLatin "PR"
      items :=
        [.bytes m.identity, .bytes m.pairCommitment, .bytes m.unmixed,
          .int m.messageCount.toUInt64] }
  signature m := m.signature

instance : Signed KeyExchange where
  preimage m :=
    { tag := Bytes.ofLatin "KE"
      items := [.int m.run.toUInt64, .bytes m.ecdh, .bytes m.pqpk, .bytes m.commitment] }
  signature m := m.signature

instance : Signed Ciphertexts where
  preimage m :=
    { tag := Bytes.ofLatin "CT"
      items := [.byteStrings m.ciphertexts] }
  signature m := m.signature

instance : Signed SlotReserve where
  preimage m :=
    { tag := Bytes.ofLatin "SR"
      items :=
        .int m.run.toUInt64 :: .int (UInt64.ofNat m.dcMix.length) :: m.dcMix.map .elements }
  signature m := m.signature

instance : Signed DcNet where
  preimage m :=
    { tag := Bytes.ofLatin "DC"
      items :=
        .int m.run.toUInt64 :: .int (UInt64.ofNat m.dcNet.length)
          :: m.dcNet.flatMap (fun v => [.int v.n, .int v.msize, .bytes v.data])
          ++ [.flag m.revealSecrets] }
  signature m := m.signature

instance : Signed ConfirmMix where
  preimage m :=
    { tag := Bytes.ofLatin "CM"
      items := [.bytes m.mix, .flag m.revealSecrets] }
  signature m := m.signature

/-! ## Digests of a run -/

structure RunScope where
  sid : Bytes
  run : UInt32
  /-- The public keys of the peers. -/
  vk : List Bytes
  deriving DecidableEq, Repr

namespace RunScope

/-- Binds the session, the peers and the run. -/
def rosterPreimage (scope : RunScope) : Preimage :=
  { tag := Bytes.ofLatin "sidH"
    items := [.bytes scope.sid, .byteStrings scope.vk, .int scope.run.toUInt64] }

/-- Binds the session and the run only. -/
def sessionPreimage (scope : RunScope) : Preimage :=
  { tag := Bytes.ofLatin "sidHPre"
    items := [.bytes scope.sid, .int scope.run.toUInt64] }

end RunScope

/-! ## Commitments -/

def RevealSecrets.preimage (rs : RevealSecrets) (scope : RunScope) : Preimage :=
  { tag := Bytes.ofLatin "COMMIT"
    items :=
      [.bytes scope.sessionPreimage.digest, .bytes rs.seed, .int rs.seedRun.toUInt64,
        .elements rs.sr, .byteStrings rs.m] }

/-- What is published in the key exchange before a secret is used. -/
def RevealSecrets.commitment (rs : RevealSecrets) (scope : RunScope) : Bytes :=
  (rs.preimage scope).digest

/-! ## Signing -/

/-- The signature of `m`, whatever signature it carries. -/
def signatureOf {α : Type} [Signed α] (id : Identity) (m : α) : Bytes :=
  id.sign (Signed.digest m)

def PairRequest.sign (id : Identity) (m : PairRequest) : PairRequest :=
  { m with signature := signatureOf id m }

def KeyExchange.sign (id : Identity) (m : KeyExchange) : KeyExchange :=
  { m with signature := signatureOf id m }

def Ciphertexts.sign (id : Identity) (m : Ciphertexts) : Ciphertexts :=
  { m with signature := signatureOf id m }

def SlotReserve.sign (id : Identity) (m : SlotReserve) : SlotReserve :=
  { m with signature := signatureOf id m }

def DcNet.sign (id : Identity) (m : DcNet) : DcNet :=
  { m with signature := signatureOf id m }

def ConfirmMix.sign (id : Identity) (m : ConfirmMix) : ConfirmMix :=
  { m with signature := signatureOf id m }

def PairRequest.make (id : Identity) (pairCommitment unmixed : Bytes)
    (messageCount : UInt32) : PairRequest :=
  PairRequest.sign id
    { identity := id.publicKey, pairCommitment, unmixed, messageCount, signature := [] }

def KeyExchange.make (id : Identity) (run : UInt32) (ecdh pqpk commitment : Bytes) :
    KeyExchange :=
  KeyExchange.sign id { run, ecdh, pqpk, commitment, signature := [] }

def Ciphertexts.make (id : Identity) (ciphertexts : List Bytes) : Ciphertexts :=
  Ciphertexts.sign id { ciphertexts, signature := [] }

def SlotReserve.make (id : Identity) (run : UInt32) (dcMix : List (List Nat)) : SlotReserve :=
  SlotReserve.sign id { run, dcMix, signature := [] }

def DcNet.make (id : Identity) (run : UInt32) (dcNet : List SlotVector) : DcNet :=
  DcNet.sign id
    { run, dcNet := dcNet.map MixVector.ofSlotVector, revealSecrets := false, signature := [] }

def ConfirmMix.make (id : Identity) (mix : Bytes) : ConfirmMix :=
  ConfirmMix.sign id { mix, revealSecrets := false, br := none, err := 0, signature := [] }

end Wire
end PeerMix
