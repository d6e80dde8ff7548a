import PeerMix.Field
import PeerMix.Random.Source

/-!
# Drawing field elements

A field element is drawn by rejection: sixteen octets with the top bit cleared
spell a number below `2 ^ 127`, and only the prime itself is thrown away.
-/

namespace PeerMix
namespace Field

/-- The number that the low 127 bits of sixteen octets spell. -/
def candidate : Bytes → Nat
  | [] => 0
  | b :: bs => Bytes.toNat ((b &&& 0x7f) :: bs)

/-- Draws blocks of sixteen octets until one spells an element, at most
`attempts` of them. -/
def sample {σ : Type} (draw : Draw σ) : (attempts : Nat) → σ → Except String Nat × σ
  | 0, s => (.error "no field element drawn", s)
  | attempts + 1, s =>
      match draw width s with
      | (.error reason, s) => (.error reason, s)
      | (.ok block, s) =>
          if contains (candidate block) then (.ok (candidate block), s)
          else sample draw attempts s

/-- Draws from a byte string.  Each attempt but the last one uses up sixteen
octets, so their number bounds the attempts. -/
def sampleBytes (bs : Bytes) : Except String Nat × Bytes :=
  sample Draw.bytes (bs.length + 1) bs

/-- As many blocks of sixteen octets as there are in a keystream before its
block counter returns to zero. -/
def keystreamBlocks : Nat := 4 * UInt64.size

/-- Draws from a keystream, which never refuses.  Zero stands for the element
of a keystream in which every block spells the prime. -/
def sampleReader (r : Reader) : Nat × Reader :=
  match sample Draw.reader keystreamBlocks r with
  | (.ok x, r) => (x, r)
  | (.error _, r) => (0, r)

def sampleMany : (count : Nat) → Reader → List Nat
  | 0, _ => []
  | count + 1, r =>
      let (x, r) := sampleReader r
      x :: sampleMany count r

end Field
end PeerMix
