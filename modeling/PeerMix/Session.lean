import PeerMix.Identity
import PeerMix.MixFailure
import PeerMix.Settings

/-!
# Sessions

The participation of one peer in a mix.  Its secrets survive runs that end
without blame; once they have been revealed, the next run draws a new seed and
asks for new messages.
-/

namespace PeerMix

structure Secrets where
  seed : Bytes
  /-- The run for which the seed was drawn. -/
  seedRun : UInt32
  messages : List Bytes
  deriving DecidableEq, Repr

structure Session where
  identity : Identity
  commitment : Bytes
  messageCount : UInt32
  settings : Settings
  /-- Whether the next run has to draw new secrets. -/
  drawsAnew : Bool
  secrets : Option Secrets
  /-- The session id of the latest roster. -/
  sid : Bytes
  deriving DecidableEq

namespace Session

/-- Opens a session with `messageCount` messages, at least one.  The identity is
the first thing drawn from the source. -/
def create {σ : Type} (draw : Draw σ) (s : σ) (commitment : Bytes) (messageCount : UInt32)
    (settings : Settings) : Except MixFailure Session × σ :=
  if messageCount = 0 then (.error (.malformed .noMessages), s)
  else
    match Identity.generate draw s with
    | (.error fault, s) => (.error (.primitive fault), s)
    | (.ok identity, s) =>
        (.ok
          { identity, commitment, messageCount, settings, drawsAnew := true,
            secrets := none, sid := [] },
          s)

def description (s : Session) : String :=
  let sid := Hex.text s.sid
  s!"Session \x7b identity: \"{s.identity.fingerprint}\", mcount: {s.messageCount}, "
    ++ s!"sid: \"{sid}\", .. \x7d"

end Session
end PeerMix
