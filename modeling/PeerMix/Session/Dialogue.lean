import PeerMix.MixFailure

/-!
# Dialogues

A session talks to its surroundings: it draws randomness, asks the owner of the
payload, and exchanges messages with the coordinator.  A dialogue is the tree
of its questions, with one branch for every possible answer.  It says nothing
about who answers, so what holds on all branches holds for every owner, every
source of randomness and every coordinator.
-/

namespace PeerMix
namespace Session

open Wire

inductive Question
  /-- So many octets of randomness. -/
  | draw (count : Nat)
  /-- The binary form of the payload. -/
  | marshal
  /-- Replaces the payload by its binary form. -/
  | unmarshal (data : Bytes)
  /-- New messages to be mixed. -/
  | generate
  /-- Checks the merged payload and confirms it. -/
  | confirm
  /-- Sends a message within so many milliseconds. -/
  | send (kind : Kind) (message : kind.Message) (limit : Nat)
  /-- Receives a message within so many milliseconds. -/
  | receive (kind : Kind) (limit : Nat)
  /-- Waits for a roster, unless the session is to be ended. -/
  | awaitRoster (limit : Option Nat)
  /-- Whether the session is to be ended. -/
  | cancelled
  /-- Closes the connection. -/
  | close

@[reducible] def Question.Answer : Question → Type
  | .draw _ => Except String Bytes
  | .marshal => Except PayloadError Bytes
  | .unmarshal _ => Except PayloadError Unit
  | .generate => Except PayloadError (List Bytes)
  | .confirm => Except PayloadError Unit
  | .send _ _ _ => Except FrameError Unit
  | .receive kind _ => Except FrameError kind.Message
  | .awaitRoster _ => Option (Except FrameError BeginRun)
  | .cancelled => Bool
  | .close => Unit

inductive Dialogue (α : Type) : Type
  | done (a : α)
  | ask (q : Question) (next : q.Answer → Dialogue α)

namespace Dialogue

def bind {α β : Type} : Dialogue α → (α → Dialogue β) → Dialogue β
  | .done a, f => f a
  | .ask q next, f => .ask q fun answer => bind (next answer) f

instance : Monad Dialogue where
  pure := .done
  bind := bind

def question (q : Question) : Dialogue q.Answer :=
  .ask q .done

abbrev Partner (σ : Type) := (q : Question) → σ → q.Answer × σ

def run {α σ : Type} (partner : Partner σ) : Dialogue α → σ → α × σ
  | .done a, s => (a, s)
  | .ask q next, s =>
      let (answer, s) := partner q s
      run partner (next answer) s

/-! ## Traces -/

structure Exchange where
  question : Question
  answer : question.Answer

/-- `Traces d events a` says that `d` ends with `a` after these exchanges. -/
inductive Traces {α : Type} : Dialogue α → List Exchange → α → Prop
  | done (a : α) : Traces (.done a) [] a
  | ask (q : Question) (next : q.Answer → Dialogue α) (answer : q.Answer)
      (events : List Exchange) (a : α) (rest : Traces (next answer) events a) :
      Traces (.ask q next) (⟨q, answer⟩ :: events) a

end Dialogue

end Session
end PeerMix
