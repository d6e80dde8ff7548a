import PeerMix.Hash.Sha2

/-!
# Keyed hashing and key derivation

HMAC with SHA-256, and the two steps of HKDF on top of it: a salt and secret
input give a key, and the key with a context text gives output octets.
-/

namespace PeerMix
namespace Hkdf

def blockSize : Nat := 64

/-- The key as one block: hashed first when it is longer, then filled up with
zeros. -/
def block (key : Bytes) : Bytes :=
  let short := if blockSize < key.length then sha256 key else key
  short ++ Bytes.zeros (blockSize - short.length)

def hmac (key message : Bytes) : Bytes :=
  let outer := (block key).map (· ^^^ 0x5c)
  let inner := (block key).map (· ^^^ 0x36)
  sha256 (outer ++ sha256 (inner ++ message))

def extract (salt secret : Bytes) : Bytes :=
  hmac salt secret

/-- The output blocks `counter`, `counter + 1` and so on, each of which takes
part in the next one. -/
def outputBlocks (key info : Bytes) : (blocks counter : Nat) → (last : Bytes) → Bytes
  | 0, _, _ => []
  | blocks + 1, counter, last =>
      let block := hmac key (last ++ info ++ [UInt8.ofNat counter])
      block ++ outputBlocks key info blocks (counter + 1) block

/-- The first `n` octets of output for `info`.  The counter of the blocks is one
octet, so there are no more than 255 of them. -/
def expand? (key info : Bytes) (n : Nat) : Option Bytes :=
  if 255 * 32 < n then none
  else some ((outputBlocks key info ((n + 31) / 32) 1 []).take n)

end Hkdf
end PeerMix
