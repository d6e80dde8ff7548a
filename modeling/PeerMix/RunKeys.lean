import PeerMix.Field.Sampling
import PeerMix.KeyAgreement

/-!
# Keys of a run

All keys and slot reservation values of a peer come from one seed.  The stream
of the run for which the seed was drawn gives the key material and then the
reservation values; encapsulation has a stream of its own for every run.
-/

namespace PeerMix

structure RunKeys where
  /-- The stream from which encapsulations are drawn. -/
  encapsulation : Reader
  key : HybridKey
  /-- The slot reservation values, one for each own message. -/
  reservations : List Nat

namespace RunKeys

/-- The keys for `run` with `count` messages, from a seed bound to `seedRun`. -/
def derive (seed : Bytes) (seedRun run : UInt32) (count : Nat) : RunKeys :=
  let (key, r) := HybridKey.generate (Reader.forKeys seed seedRun)
  { encapsulation := Reader.forEncapsulation seed run, key
    reservations := Field.sampleMany count r }

end RunKeys
end PeerMix
