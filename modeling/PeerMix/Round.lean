import PeerMix.DcNet.Vectors
import PeerMix.RunKeys
import PeerMix.Slots

/-!
# Rounds

A round of honest peers, seen from outside: all of them derive their keys,
encapsulate to each other and mix, and what they publish is put together the
way the coordinator does.
-/

namespace PeerMix
namespace Round

open DcNet

/-! ## Exchanging keys -/

structure Plan where
  seed : Bytes
  seedRun : UInt32
  count : Nat
  deriving DecidableEq, Repr

structure Party where
  key : HybridKey
  reservations : List Nat
  ciphertexts : List Bytes
  count : Nat

def encapsulate (count : Nat) (keys : RunKeys) (encapsulationKeys : List Bytes) :
    Except PrimitiveError Party :=
  let (made, key, _) := keys.key.encapsulate keys.encapsulation encapsulationKeys
  made.map fun ciphertexts =>
    { key, reservations := keys.reservations, ciphertexts, count }

def exchange (run : UInt32) (plans : List Plan) : Except PrimitiveError (List Party) := do
  let keys := plans.map fun plan => RunKeys.derive plan.seed plan.seedRun run plan.count
  let encapsulationKeys := keys.map fun k => k.key.encapsulationKey
  (plans.zip keys).mapM fun (plan, keys) => encapsulate plan.count keys encapsulationKeys

def points (parties : List Party) : List Bytes :=
  parties.map fun party => party.key.point

def ciphertextsFor (parties : List Party) (p : Nat) : List Bytes :=
  parties.map fun party => party.ciphertexts.getD p []

def counts (parties : List Party) : List Nat :=
  parties.map fun party => party.count

def rowsOf (parties : List Party) (sid : Bytes) (run : UInt32) (size p : Nat)
    (party : Party) : Except PrimitiveError (List (List PadKey)) :=
  padKeys party.key (points parties) (ciphertextsFor parties p)
    { sid, run, size, my := p, counts := counts parties }

/-! ## Mixing -/

inductive Failure
  | primitive (fault : PrimitiveError)
  | slotsMissing
  deriving DecidableEq, Repr

structure Transcript where
  /-- The slot reservation vectors of all messages. -/
  reservations : List (List Nat)
  sums : List Nat
  coefficients : List Nat
  /-- Whether each reservation value is a root. -/
  isRoot : List Bool
  /-- The slots of every peer. -/
  slots : List (List Nat)
  /-- The message vectors of all messages. -/
  vectors : List SlotVector
  mixed : SlotVector

/-- What peers that have exchanged keys publish when peer `p` sends the messages
`messages[p]`, and what comes of it. -/
def mix (sid : Bytes) (run : UInt32) (size : Nat) (parties : List Party)
    (messages : List (List Bytes)) : Except Failure Transcript := do
  let rows ← (parties.zipIdx.mapM fun (party, p) =>
    rowsOf parties sid run size p party).mapError .primitive
  let starts := (List.range parties.length).map (Counts.start (counts parties))
  let reservations := (starts.zip (parties.zip rows)).flatMap fun (start, party, rows) =>
    reservationVectors start party.reservations rows
  let some sums := Field.addVectors reservations
    | throw (.primitive .indexRange)
  let coefficients := Field.coefficients sums
  let secrets := parties.flatMap fun party => party.reservations
  let roots := secrets.mergeSort fun a b => decide (a ≤ b)
  let some slots := parties.mapM fun party => Slots.resolve? party.reservations roots
    | throw .slotsMissing
  let vectors ← ((starts.zip (messages.zip (slots.zip rows))).mapM
    fun (start, messages, slots, rows) =>
      messageVectors size start messages slots rows).mapError .primitive
  let mixed ← (SlotVector.xorAll vectors.flatten).mapError .primitive
  return {
    reservations, sums, coefficients, slots, mixed
    isRoot := secrets.map fun x => Field.isRoot x coefficients
    vectors := vectors.flatten }

def perform (sid : Bytes) (run : UInt32) (size : Nat) (plans : List Plan)
    (messages : List (List Bytes)) : Except Failure Transcript := do
  let parties ← (exchange run plans).mapError .primitive
  mix sid run size parties messages

end Round
end PeerMix
