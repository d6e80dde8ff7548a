import PeerMix.Random.Reader

/-!
# Sources of randomness

A source hands out a number of octets or refuses, telling why.  A refusal takes
nothing from the source.  A reader of a keystream never refuses; a finite byte
string does once it holds too few octets.
-/

namespace PeerMix

/-- How to draw a number of octets from a source with states in `σ`. -/
abbrev Draw (σ : Type) := Nat → σ → Except String Bytes × σ

namespace Draw

def reader : Draw Reader := fun n r =>
  let (bs, r) := r.read n
  (.ok bs, r)

def bytes : Draw Bytes := fun n bs =>
  if bs.length < n then (.error "exhausted", bs)
  else (.ok (bs.take n), bs.drop n)

end Draw
end PeerMix
