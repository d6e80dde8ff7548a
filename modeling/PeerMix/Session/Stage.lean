import PeerMix.DcNet.Vectors
import PeerMix.RunKeys
import PeerMix.Session
import PeerMix.Session.Dialogue
import PeerMix.Slots
import PeerMix.Wire.Signed

/-!
# Stages of a run

A run goes through four stages: keys, ciphertexts, slots and messages.  Each
publishes what it has and waits for the answer of the coordinator.  The answer
may lead away from the run: to a new roster, or to revealing the secrets.
-/

namespace PeerMix
namespace Session

open Wire DcNet

inductive Blame
  | server
  | client
  deriving DecidableEq, Repr

/-- Where a run goes instead of its next stage. -/
inductive Reroute
  | beginRun (br : BeginRun)
  | revealSecrets (blame : Blame)
  deriving DecidableEq

inductive Departure
  | reroute (r : Reroute)
  | failure (f : MixFailure)
  deriving DecidableEq

/-- What a stage does: a dialogue that gives its result or leaves the run. -/
abbrev Stage := ExceptT Departure Dialogue

namespace Stage

def fail {α : Type} (f : MixFailure) : Stage α :=
  throw (.failure f)

def question (q : Question) : Stage q.Answer :=
  ExceptT.lift (Dialogue.question q)

def check {ε α : Type} (failure : ε → MixFailure) : Except ε α → Stage α
  | .ok a => pure a
  | .error e => fail (failure e)

end Stage

/-! ## Answers of the coordinator -/

/-- Answers that may lead away from a run. -/
class Reply (α : Type) where
  roster : α → Option BeginRun
  /-- The answer without its roster. -/
  withoutRoster : α → α
  asksForSecrets : α → Bool

instance : Reply KeyExchanges where
  roster m := m.br
  withoutRoster m := { m with br := none }
  asksForSecrets _ := false

instance : Reply CiphertextsReply where
  roster m := m.br
  withoutRoster m := { m with br := none }
  asksForSecrets _ := false

instance : Reply RecoveredMessages where
  roster m := m.br
  withoutRoster m := { m with br := none }
  asksForSecrets m := m.revealSecrets

instance : Reply ConfirmMix where
  roster m := m.br
  withoutRoster m := { m with br := none }
  asksForSecrets m := m.revealSecrets

/-- Where an answer leads, if away from the run, and the answer once its roster
has been taken.  A roster without peers does not count. -/
def reroute? {α : Type} [Reply α] (m : α) : Option Reroute × α :=
  let rest := Reply.withoutRoster m
  match (Reply.roster m).filter fun br => !br.vk.isEmpty with
  | some br => (some (.beginRun br), rest)
  | none => (if Reply.asksForSecrets m then some (.revealSecrets .server) else none, rest)

/-! ## What the stages of a run share -/

structure RunSetting where
  identity : Identity
  settings : Settings
  scope : RunScope
  roster : Roster

namespace RunSetting

def send (s : RunSetting) (kind : Kind) (m : kind.Message) : Stage Unit := do
  let sent ← Stage.question (.send kind m s.settings.sendLimit)
  Stage.check (fun fault => .transport (.send kind fault)) sent

def reply (s : RunSetting) (kind : Kind) [Reply kind.Message] : Stage kind.Message := do
  let received ← Stage.question (.receive kind s.settings.receiveLimit)
  let m ← Stage.check .transport (deliverMessage kind received)
  match reroute? m with
  | (some r, _) => throw (.reroute r)
  | (none, m) => return m

end RunSetting

/-! ## Keys -/

def readPoints (kes : List KeyExchange) : Except MixFailure (List Bytes) :=
  kes.mapM fun ke =>
    if ke.ecdh.length = 32 then .ok ke.ecdh
    else .error (.malformed (.pointLength ke.ecdh.length))

/-- Publishes the own public keys and the commitment to the own secrets.  The
result is the points and the encapsulation keys of all peers. -/
def exchangeKeys (s : RunSetting) (keys : RunKeys) (commitment : Bytes) :
    Stage (List Bytes × List Bytes) := do
  s.send .keyExchange
    (KeyExchange.make s.identity s.scope.run keys.key.point keys.key.encapsulationKey commitment)
  let answer ← s.reply .keyExchanges
  let present := answer.kes.filterMap id
  if present.length ≠ s.roster.peerCount then
    Stage.fail (.keyExchangeCount s.roster.peerCount present.length)
  let points ← Stage.check id (readPoints present)
  return (points, present.map (·.pqpk))

/-! ## Ciphertexts -/

def padScope (s : RunSetting) : PadScope :=
  { sid := s.scope.sid, run := s.scope.run, size := messageSize, my := s.roster.my,
    counts := s.roster.counts }

/-- Encapsulates to all peers.  The result is the pad keys of all own messages. -/
def exchangeCiphertexts (s : RunSetting) (keys : RunKeys)
    (points encapsulationKeys : List Bytes) : Stage (List (List PadKey)) := do
  let (made, key, _) := keys.key.encapsulate keys.encapsulation encapsulationKeys
  let ciphertexts ← Stage.check .primitive made
  s.send .ciphertexts (Ciphertexts.make s.identity ciphertexts)
  let answer ← s.reply .ciphertextsReply
  Stage.check .primitive (padKeys key points answer.ciphertexts (padScope s))

/-! ## Slots -/

/-- Reserves slots.  The result is the slots of all own messages. -/
def reserveSlots (s : RunSetting) (reservations : List Nat) (rows : List (List PadKey)) :
    Stage (List Nat) := do
  s.send .slotReserve
    (SlotReserve.make s.identity s.scope.run
      (reservationVectors s.roster.myStart reservations rows))
  let answer ← s.reply .recoveredMessages
  if s.roster.total < answer.roots.length then
    Stage.fail (.malformed (.tooManyRoots answer.roots.length s.roster.total))
  let roots ← Stage.check .rootNotInField (Slots.sortRoots answer.roots)
  match Slots.resolve? reservations roots with
  | none => throw (.reroute (.revealSecrets .client))
  | some slots => return slots

/-! ## Messages -/

/-- Publishes the own messages.  The result is the merged payload. -/
def mixMessages (s : RunSetting) (messages : List Bytes) (slots : List Nat)
    (rows : List (List PadKey)) : Stage Bytes := do
  let vectors ←
    Stage.check .primitive (messageVectors messageSize s.roster.myStart messages slots rows)
  s.send .dcNet (DcNet.make s.identity s.scope.run vectors)
  let answer ← s.reply .confirmMix
  return answer.mix

/-- Takes a result of the owner of the payload.  Missing messages lead to blame. -/
def judge : Except PayloadError Unit → Stage Unit
  | .ok _ => pure ()
  | .error e =>
      if e.isMissingMessage then throw (.reroute (.revealSecrets .client))
      else Stage.fail (.confirm e)

def confirmMix (s : RunSetting) (mix : Bytes) : Stage Unit := do
  judge (← Stage.question (.unmarshal mix))
  judge (← Stage.question .confirm)
  let confirmed ← Stage.check .payload (← Stage.question .marshal)
  s.send .confirmMix (ConfirmMix.make s.identity confirmed)
  let answer ← s.reply .confirmMix
  Stage.check .payload (← Stage.question (.unmarshal answer.mix))

/-! ## All stages -/

def stages (s : RunSetting) (keys : RunKeys) (messages : List Bytes) (commitment : Bytes) :
    Stage Unit := do
  let (points, encapsulationKeys) ← exchangeKeys s keys commitment
  let rows ← exchangeCiphertexts s keys points encapsulationKeys
  let slots ← reserveSlots s keys.reservations rows
  let mix ← mixMessages s messages slots rows
  confirmMix s mix

end Session
end PeerMix
