import PeerMix.Bytes
import PeerMix.Hash.Sha2

/-!
# Preimages

What is hashed for a signature or a commitment: a tag that names the purpose,
then a list of items.  Numbers take eight octets; byte strings follow their
length, lists follow their count, and a field element follows an octet that is
zero for zero alone.
-/

namespace PeerMix
namespace Wire

namespace Preimage

inductive Item
  | int (n : UInt64)
  | flag (b : Bool)
  | bytes (bs : Bytes)
  | byteStrings (bss : List Bytes)
  | element (x : Nat)
  | elements (xs : List Nat)
  deriving DecidableEq, Repr

def encodeCount (n : Nat) : Bytes :=
  Bytes.bigEndian 8 n

def encodeFlag (b : Bool) : UInt8 :=
  if b then 1 else 0

def encodeBytes (bs : Bytes) : Bytes :=
  encodeCount bs.length ++ bs

def encodeElement (x : Nat) : Bytes :=
  encodeFlag (x ≠ 0) :: encodeBytes (Bytes.ofNat x)

def Item.encode : Item → Bytes
  | .int n => encodeCount n.toNat
  | .flag b => [encodeFlag b]
  | .bytes bs => encodeBytes bs
  | .byteStrings bss => encodeCount bss.length ++ bss.flatMap encodeBytes
  | .element x => encodeElement x
  | .elements xs => encodeCount xs.length ++ xs.flatMap encodeElement

end Preimage

structure Preimage where
  tag : Bytes
  items : List Preimage.Item
  deriving DecidableEq, Repr

namespace Preimage

def toBytes (p : Preimage) : Bytes :=
  encodeBytes p.tag ++ p.items.flatMap Item.encode

def digest (p : Preimage) : Bytes :=
  sha256 p.toBytes

end Preimage

end Wire
end PeerMix
