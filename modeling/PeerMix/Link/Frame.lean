import PeerMix.Link
import PeerMix.Text.Blank
import PeerMix.Text.Duration
import PeerMix.Wire.Message

/-!
# Framing

Every message is the compact text of a JSON value on a line of its own.  What
stands behind the value on the line may be blank.  A message that carries an
error code of the coordinator is not delivered.
-/

namespace PeerMix

open Wire

/-! ## Failures -/

inductive FrameError
  | io (text : String)
  | decode (fault : DecodeError)
  | timeout (milliseconds : Nat)
  | closed
  | tooLarge
  deriving DecidableEq, Repr

def FrameError.message? : FrameError → Option String
  | .io text => some s!"I/O error: {text}"
  | .decode fault => fault.message?
  | .timeout milliseconds =>
      let span := Duration.text milliseconds
      some s!"timed out after {span}"
  | .closed => some "connection closed"
  | .tooLarge => some s!"message exceeds {Link.maxLine} bytes"

inductive TransportError
  | send (kind : Kind) (fault : FrameError)
  | receive (kind : Kind) (fault : FrameError)
  | server (kind : Kind) (fault : ServerError)
  deriving DecidableEq, Repr

namespace TransportError

def isTimeout : TransportError → Bool
  | .send _ (.timeout _) | .receive _ (.timeout _) => true
  | _ => false

def serverError? : TransportError → Option ServerError
  | .server _ fault => some fault
  | _ => none

end TransportError

/-! ## Lines and messages -/

def readMessage {α : Type} (codec : Codec α) (line : List Char) : Except FrameError α :=
  (codec.decode (Text.trimEnd line)).mapError .decode

/-- What the attempt to read a line gives to a reader that waits `limit`
milliseconds at most. -/
def readEnding {α : Type} (codec : Codec α) (limit : Nat) : Link.Ending → Except FrameError α
  | .failed text => .error (.io text)
  | .expired => .error (.timeout limit)
  | .cancelled => .error .closed
  | .line octets => do
      let line ← (Utf8.decode octets).mapError fun fault => .io fault.message
      readMessage codec line
  | .full octets => do
      let _ ← (Utf8.decode octets).mapError fun fault => .io fault.message
      throw .tooLarge
  | .ended octets => do
      let _ ← (Utf8.decode octets).mapError fun fault => .io fault.message
      throw .closed

/-- The message of a kind, unless it carries an error code. -/
def deliverMessage (kind : Kind) (received : Except FrameError kind.Message) :
    Except TransportError kind.Message :=
  match received with
  | .error fault => .error (.receive kind fault)
  | .ok m =>
      match kind.serverError? m with
      | some fault => .error (.server kind fault)
      | none => .ok m

def writeMessage (kind : Kind) (m : kind.Message) : List Char :=
  kind.codec.encode m

namespace Link

/-- A message as it travels: the octets of its text and the end of its line. -/
def frame (kind : Kind) (m : kind.Message) : Bytes :=
  Utf8.encode (writeMessage kind m) ++ [newline]

def deadline (limit : Option Nat) (link : Link) : Option Nat :=
  limit.map (link.clock + ·)

/-- Receives a line, waiting at most `limit` milliseconds when given, and reads
the message on it. -/
def receiveFrame (kind : Kind) (limit : Option Nat) (link : Link) :
    Except FrameError kind.Message × Link :=
  let (ending, link) :=
    link.readLine { deadline := link.deadline limit, heedsCancel := false }
  (readEnding kind.codec (limit.getD 0) ending, link)

/-- Receives a line like `receiveFrame`, but gives up on a wish to end the
session when it would have to wait. -/
def receiveUnlessCancelled (kind : Kind) (limit : Option Nat) (link : Link) :
    Option (Except FrameError kind.Message) × Link :=
  let (ending, link) :=
    link.readLine { deadline := link.deadline limit, heedsCancel := true }
  (if ending = .cancelled then none else some (readEnding kind.codec (limit.getD 0) ending),
    link)

/-- Receives a message like `receiveFrame`, but does not deliver one that carries an
error code. -/
def receive (kind : Kind) (limit : Option Nat) (link : Link) :
    Except TransportError kind.Message × Link :=
  let (received, link) := link.receiveFrame kind limit
  (deliverMessage kind received, link)

def sendFrame (kind : Kind) (m : kind.Message) (limit : Nat) (link : Link) :
    Except FrameError Unit × Link :=
  match link.send (frame kind m) limit with
  | (.sent, link) => (.ok (), link)
  | (.stalled, link) => (.error (.timeout limit), link)
  | (.failed text, link) => (.error (.io text), link)

end Link
end PeerMix
