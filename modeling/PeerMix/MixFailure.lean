import PeerMix.Link.Frame
import PeerMix.Roster

/-!
# Failures of a session

What ends a session.  What the protocol recovers from, by another run or by
assigning blame, is not among it.
-/

namespace PeerMix

open Wire

inductive PayloadError
  /-- Own messages are not in the mix.  This leads to blame, not to an end. -/
  | missingMessage (text : String)
  | invalid (text : String)
  | other (text : String)
  deriving DecidableEq, Repr

namespace PayloadError

def isMissingMessage : PayloadError → Bool
  | .missingMessage _ => true
  | _ => false

def message : PayloadError → String
  | .missingMessage text => s!"missing anonymized message: {text}"
  | .invalid text => s!"invalid payload: {text}"
  | .other text => text

end PayloadError

inductive Malformation
  | noMessages
  | pointLength (length : Nat)
  | tooManyRoots (roots messages : Nat)
  deriving DecidableEq, Repr

inductive MixFailure
  | cancelled
  | transport (fault : TransportError)
  | roster (fault : RosterFault)
  /-- The number of key exchanges is not that of the peers. -/
  | keyExchangeCount (expected actual : Nat)
  | malformed (fault : Malformation)
  | rootNotInField (root : Nat)
  | generatedCount (expected actual : Nat)
  | generatedSize (index expected actual : Nat)
  | generate (fault : PayloadError)
  | payload (fault : PayloadError)
  | confirm (fault : PayloadError)
  | primitive (fault : PrimitiveError)
  | runOverflow
  deriving DecidableEq, Repr

/-! ## Wording -/

def RosterFault.message : RosterFault → String
  | .lengths keys counts => s!"invalid roster: {keys} keys but {counts} message counts"
  | .keyLength index length => s!"invalid roster: key {index} is {length} bytes"
  | .duplicate index => s!"invalid roster: duplicate key at {index}"
  | .missingOwn => "invalid roster: own key not in roster"
  | .ownCount expected actual =>
      s!"incorrect self message count: expected {expected}, got {actual}"
  | .count index actual => s!"invalid roster: peer {index} declares {actual} messages"
  | .overflow => "invalid roster: message count overflow"
  | .tooLarge total => s!"invalid roster: {total} messages exceed the DC-net size limit"

def Malformation.message : Malformation → String
  | .noMessages => "malformed session: must contribute at least one message"
  | .pointLength length => s!"malformed key exchange: x25519 public key is {length} bytes"
  | .tooManyRoots roots messages =>
      s!"malformed recovered messages: {roots} roots for {messages} messages"

namespace MixFailure

def message? : MixFailure → Option String
  | .cancelled => some "mix cancelled"
  | .transport _ => none
  | .roster fault => some fault.message
  | .keyExchangeCount expected actual =>
      some s!"wrong total key exchange count: expected {expected}, got {actual}"
  | .malformed fault => some fault.message
  | .rootNotInField root =>
      let digits := Hex.natText root
      some s!"root {digits} is not in the field"
  | .generatedCount expected actual =>
      some s!"generator returned {actual} messages, expected {expected}"
  | .generatedSize index expected actual =>
      some s!"generated message {index} is {actual} bytes, expected {expected}"
  | .generate fault => some s!"generate: {fault.message}"
  | .payload fault => some s!"payload: {fault.message}"
  | .confirm fault => some s!"confirm: {fault.message}"
  | .primitive fault => some fault.message
  | .runOverflow => some "run index overflow"

def isTimeout : MixFailure → Bool
  | .transport fault => fault.isTimeout
  | _ => false

def serverError? : MixFailure → Option ServerError
  | .transport fault => fault.serverError?
  | _ => none

end MixFailure
end PeerMix
