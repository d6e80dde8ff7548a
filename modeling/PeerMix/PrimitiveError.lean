/-!
# Failures of the mixing primitives

Each failure names its cause; the wording is in one place.
-/

namespace PeerMix

inductive PeerMismatch
  | publicKeys (count peers : Nat)
  | ciphertexts (count peers : Nat)
  | noSecretFor (peer : Nat)
  deriving DecidableEq, Repr

inductive PrimitiveError
  | keyLength (expected actual : Nat)
  | ciphertextLength (expected actual : Nat)
  | notInField
  | dimensions (leftSlots leftSize rightSlots rightSize : Nat)
  | messageLength (expected actual : Nat)
  | slotRange (slot slots : Nat)
  | peerCount (mismatch : PeerMismatch)
  | derivation
  | randomness (reason : String)
  /-- An index beyond the end of a list.  Callers promise that none occurs. -/
  | indexRange
  deriving DecidableEq, Repr

def PeerMismatch.message : PeerMismatch → String
  | .publicKeys count peers => s!"{count} x25519 public keys for {peers} peers"
  | .ciphertexts count peers => s!"{count} ciphertexts for {peers} peers"
  | .noSecretFor peer => s!"no encapsulated secret for peer {peer}"

def PrimitiveError.message : PrimitiveError → String
  | .keyLength expected actual =>
      s!"Invalid key length: expected {expected}, got {actual}"
  | .ciphertextLength expected actual =>
      s!"Invalid ciphertext length: expected {expected}, got {actual}"
  | .notInField => "Value is not in the field"
  | .dimensions leftSlots leftSize rightSlots rightSize =>
      s!"Vector dimensions differ: {leftSlots}x{leftSize} vs {rightSlots}x{rightSize}"
  | .messageLength expected actual =>
      s!"Message length {actual} does not match slot size {expected}"
  | .slotRange slot slots => s!"Slot {slot} out of range for {slots} slots"
  | .peerCount mismatch => s!"Peer count mismatch: {mismatch.message}"
  | .derivation =>
      "Key derivation failed: invalid number of blocks, too large output"
  | .randomness reason => s!"Randomness source failed: {reason}"
  | .indexRange => "Index out of range"

end PeerMix
