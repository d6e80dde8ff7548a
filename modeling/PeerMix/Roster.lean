import PeerMix.Counts
import PeerMix.Wire.Message

/-!
# Rosters

The peers of a run, once their announcement has been checked: the keys differ,
the own key is among them with the own number of messages, and the pads of all
messages fit into memory.  The messages of all peers are numbered through in
the order of the roster.
-/

namespace PeerMix

def messageSize : Nat := 20

/-- The most octets of pads that one peer derives in a run. -/
def maxPadOctets : Nat := 256 * 1024 * 1024

inductive RosterFault
  | lengths (keys counts : Nat)
  | keyLength (index length : Nat)
  | duplicate (index : Nat)
  | missingOwn
  | ownCount (expected : Nat) (actual : Int)
  | count (index : Nat) (actual : Int)
  | overflow
  | tooLarge (total : Nat)
  deriving DecidableEq, Repr

structure Roster where
  sid : Bytes
  /-- The public keys of the peers. -/
  vk : List Bytes
  /-- The number of messages of every peer. -/
  counts : List Nat
  /-- The own index. -/
  my : Nat
  /-- The global index of the first own message. -/
  myStart : Nat
  /-- The number of all messages. -/
  total : Nat
  deriving DecidableEq, Repr

namespace Roster

def keySize : Nat := 32

def checkKeys (index : Nat) (seen : List Bytes) : List Bytes → Except RosterFault Unit
  | [] => .ok ()
  | key :: keys =>
      if key.length ≠ keySize then .error (.keyLength index key.length)
      else if key ∈ seen then .error (.duplicate index)
      else checkKeys (index + 1) (key :: seen) keys

def readCounts (index : Nat) : List Int → Except RosterFault (List Nat)
  | [] => .ok []
  | count :: counts =>
      if count ≤ 0 then .error (.count index count)
      else (readCounts (index + 1) counts).map (count.toNat :: ·)

/-- Checks an announcement for the peer with key `own` and `messageCount`
messages. -/
def ofBeginRun (br : Wire.BeginRun) (own : Bytes) (messageCount : UInt32) :
    Except RosterFault Roster := do
  let counts := br.messageCounts.map Int64.toInt
  if br.vk.length ≠ counts.length then
    throw (.lengths br.vk.length counts.length)
  checkKeys 0 [] br.vk
  let some my := br.vk.findIdx? (· = own) | throw .missingOwn
  let ownCount := counts.getD my 0
  if ownCount ≠ messageCount.toNat then
    throw (.ownCount messageCount.toNat ownCount)
  let counts ← readCounts 0 counts
  let total := Counts.total counts
  if UInt64.size ≤ total then throw .overflow
  if maxPadOctets < total * total * messageCount.toNat * messageSize then
    throw (.tooLarge total)
  return { sid := br.sid, vk := br.vk, counts, my, myStart := Counts.start counts my, total }

def peerCount (r : Roster) : Nat :=
  r.vk.length

end Roster
end PeerMix
