import PeerMix.Session.Stage

/-!
# Mixing

A session asks to be paired and then goes through runs until one is confirmed
or something fails.  A run that is left starts the next one, with the roster
that the coordinator has given or with one yet to come.
-/

namespace PeerMix
namespace Session

open Wire

/-- What a session does: a dialogue that may fail and that changes the session
either way. -/
abbrev Act := ExceptT MixFailure (StateT Session Dialogue)

namespace Act

def question (q : Question) : Act q.Answer :=
  ExceptT.lift (StateT.lift (Dialogue.question q))

def check {ε α : Type} (failure : ε → MixFailure) : Except ε α → Act α
  | .ok a => pure a
  | .error e => throw (failure e)

/-- Goes through stages, which leave the session as it is. -/
def ofStage {α : Type} (stage : Stage α) : Act (Except Departure α) :=
  ExceptT.lift (StateT.lift stage.run)

def send (kind : Kind) (m : kind.Message) : Act Unit := do
  let sent ← question (.send kind m (← get).settings.sendLimit)
  check (fun fault => .transport (.send kind fault)) sent

end Act

/-! ## Secrets -/

/-- Whether the generated messages are as many as announced and of the right
size. -/
def checkMessages (count : Nat) (messages : List Bytes) : Except MixFailure Unit :=
  if messages.length ≠ count then .error (.generatedCount count messages.length)
  else
    match messages.zipIdx.find? fun (m, _) => m.length ≠ messageSize with
    | some (m, i) => .error (.generatedSize i messageSize m.length)
    | none => .ok ()

def drawSecrets (run : UInt32) : Act Secrets := do
  let seed ← Act.check (fun reason => .primitive (.randomness reason))
    (← Act.question (.draw 32))
  let messages ← Act.check .generate (← Act.question .generate)
  Act.check id (checkMessages (← get).messageCount.toNat messages)
  return { seed, seedRun := run, messages }

/-- The secrets for `run`: those of the latest draw, unless there is none or it
has been revealed.  A draw that fails leaves the session without secrets. -/
def prepareSecrets (run : UInt32) : Act Secrets := do
  let s ← get
  set { s with secrets := none }
  let secrets ←
    match s.secrets with
    | some secrets => if s.drawsAnew then drawSecrets run else pure secrets
    | none => drawSecrets run
  modify fun s => { s with drawsAnew := false, secrets := some secrets }
  return secrets

def revelation (secrets : Secrets) (keys : RunKeys) : RevealSecrets :=
  { seed := secrets.seed, seedRun := secrets.seedRun, sr := keys.reservations,
    m := secrets.messages }

/-- Reveals the secrets of a run, unless the session is to be ended.  From then
on they count as known. -/
def reveal (blame : Blame) (rs : RevealSecrets) : Act Unit := do
  if ← Act.question .cancelled then throw .cancelled
  modify fun s => { s with drawsAnew := true }
  match blame with
  | .server => pure ()
  | .client => Act.send .clientFailure ClientFailure.notice
  Act.send .revealSecrets rs

/-! ## Runs -/

inductive Outcome
  | confirmed
  /-- Another run has to follow, with the given roster if there is one. -/
  | rerun (roster : Option BeginRun)
  deriving DecidableEq

/-- Waits for the roster of a run.  The first run waits as long as it takes. -/
def awaitRoster (run : UInt32) : Act BeginRun := do
  let limit := (← get).settings.receiveLimit
  match ← Act.question (.awaitRoster (if run = 0 then none else some limit)) with
  | none => throw .cancelled
  | some received => Act.check .transport (deliverMessage .beginRun received)

/-- One run, with the roster that the last one has left. -/
def performRun (run : UInt32) (carried : Option BeginRun) : Act Outcome := do
  let br ←
    match carried with
    | some br => pure br
    | none => awaitRoster run
  let s ← get
  let roster ← Act.check .roster (Roster.ofBeginRun br s.identity.publicKey s.messageCount)
  modify fun s => { s with sid := roster.sid }
  let scope : RunScope := { sid := roster.sid, run, vk := roster.vk }
  let secrets ← prepareSecrets run
  let keys := RunKeys.derive secrets.seed secrets.seedRun run s.messageCount.toNat
  let rs := revelation secrets keys
  let setting : RunSetting := { identity := s.identity, settings := s.settings, scope, roster }
  match ← Act.ofStage (stages setting keys secrets.messages (rs.commitment scope)) with
  | .ok _ => return .confirmed
  | .error (.failure f) => throw f
  | .error (.reroute (.beginRun br)) => return .rerun (some br)
  | .error (.reroute (.revealSecrets blame)) =>
      reveal blame rs
      return .rerun none

def lastRun : Nat :=
  UInt32.size - 1

/-- Runs until one is confirmed, while `left` more may follow the first one. -/
def performRuns (left : Nat) (carried : Option BeginRun) : Act Unit := do
  if ← Act.question .cancelled then throw .cancelled
  match ← performRun (UInt32.ofNat (lastRun - left)) carried with
  | .confirmed => return ()
  | .rerun roster =>
      match left with
      | 0 => throw .runOverflow
      | left + 1 => performRuns left roster

/-! ## Sessions -/

def mix : Act Unit := do
  let unmixed ← Act.check .payload (← Act.question .marshal)
  let s ← get
  Act.send .pairRequest (PairRequest.make s.identity s.commitment unmixed s.messageCount)
  performRuns lastRun none

/-- Takes part in a mix.  Whatever comes of it, the connection is closed and the
session remains. -/
def perform (s : Session) : Dialogue (Except MixFailure Unit × Session) := do
  let result ← mix.run.run s
  Dialogue.question .close
  return result

end Session
end PeerMix
