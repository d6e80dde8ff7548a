import PeerMix.Session.Mix

/-!
# Rehearsals

A session in front of a known coordinator: what arrives is laid down in a link,
what the owner of the payload answers in lists, and randomness comes from a
keystream.  A rehearsal records what happens in order.
-/

namespace PeerMix
namespace Session

open Wire

/-! ## Randomness -/

/-- A keystream of which only so many draws may be taken, when there is a
limit. -/
structure Entropy where
  reader : Reader
  left : Option Nat

def Entropy.draw : Draw Entropy := fun n e =>
  match e.left with
  | some 0 => (.error "entropy source unavailable", e)
  | left =>
      let (bs, reader) := e.reader.read n
      (.ok bs, { reader, left := left.map (· - 1) })

/-! ## Payloads -/

/-- The answers of the owner of a payload.  Each list is gone through call by
call; its last entry stays, and an empty list means success. -/
structure PayloadScript where
  /-- What `marshal` gives; without octets, the current payload. -/
  marshals : List (Except PayloadError (Option Bytes))
  unmarshals : List (Except PayloadError Unit)
  generates : List (Except PayloadError (List Bytes))
  confirms : List (Except PayloadError Unit)
  /-- The current payload. -/
  data : Bytes

def nextEntry {α : Type} (success : α) : List α → α × List α
  | [] => (success, [])
  | [a] => (a, [a])
  | a :: b :: rest => (a, b :: rest)

/-! ## The partner -/

inductive Event
  | marshal
  | unmarshal (data : Bytes)
  | generate
  | confirm
  | sent (line : List Char)
  | closed
  deriving DecidableEq, Repr

structure Rehearsal where
  link : Link
  payload : PayloadScript
  entropy : Entropy
  /-- What has happened, last first. -/
  past : List Event

namespace Rehearsal

def note (r : Rehearsal) (e : Event) : Rehearsal :=
  { r with past := e :: r.past }

def partner : Dialogue.Partner Rehearsal
  | .draw count, r =>
      let (answer, entropy) := r.entropy.draw count
      (answer, { r with entropy })
  | .marshal, r =>
      let (entry, marshals) := nextEntry (.ok none) r.payload.marshals
      let r := { r with payload := { r.payload with marshals } }
      (entry.map fun data => data.getD r.payload.data, r.note .marshal)
  | .unmarshal data, r =>
      let (entry, unmarshals) := nextEntry (.ok ()) r.payload.unmarshals
      let kept := if entry.isOk then data else r.payload.data
      let r := { r with payload := { r.payload with unmarshals, data := kept } }
      (entry, r.note (.unmarshal data))
  | .generate, r =>
      let (entry, generates) := nextEntry (.ok []) r.payload.generates
      (entry, { r with payload := { r.payload with generates } }.note .generate)
  | .confirm, r =>
      let (entry, confirms) := nextEntry (.ok ()) r.payload.confirms
      (entry, { r with payload := { r.payload with confirms } }.note .confirm)
  | .send kind m limit, r =>
      let (answer, link) := r.link.sendFrame kind m limit
      let r := { r with link }
      (answer, if answer.isOk then r.note (.sent (writeMessage kind m)) else r)
  | .receive kind limit, r =>
      let (answer, link) := r.link.receiveFrame kind (some limit)
      (answer, { r with link })
  | .awaitRoster limit, r =>
      let (answer, link) := r.link.receiveUnlessCancelled .beginRun limit
      (answer, { r with link })
  | .cancelled, r => (r.link.cancelled, r)
  | .close, r => ((), r.note .closed)

def events (r : Rehearsal) : List Event :=
  r.past.reverse

end Rehearsal

def rehearse (s : Session) (r : Rehearsal) :
    Except MixFailure Unit × Session × Rehearsal :=
  let ((result, s), r) := s.perform.run Rehearsal.partner r
  (result, s, r)

end Session
end PeerMix
