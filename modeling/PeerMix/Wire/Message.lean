import PeerMix.DcNet.SlotVector
import PeerMix.Wire.Codec

/-!
# Messages

What a peer and the coordinator send each other, one JSON object a line.  Byte
strings travel as hexadecimal text, field elements as the hexadecimal text of
their value.
-/

namespace PeerMix
namespace Wire

/-! ## Errors of the coordinator -/

inductive ServerError
  | abortedSession
  | invalidUnmixed
  | tooFewPeers
  | unknown (code : UInt32)
  deriving DecidableEq, Repr

namespace ServerError

/-- The error with a code; zero stands for none. -/
def ofCode? (code : UInt32) : Option ServerError :=
  if code = 0 then none
  else if code = 1 then some .abortedSession
  else if code = 2 then some .invalidUnmixed
  else if code = 3 then some .tooFewPeers
  else some (.unknown code)

def code : ServerError → UInt32
  | .abortedSession => 1
  | .invalidUnmixed => 2
  | .tooFewPeers => 3
  | .unknown code => code

def message : ServerError → String
  | .abortedSession => "server aborted mix session"
  | .invalidUnmixed => "server rejected unmixed data"
  | .tooFewPeers => "too few peers to mix"
  | .unknown code => s!"unknown server error code {code}"

end ServerError

/-! ## Opening a run -/

structure PairRequest where
  identity : Bytes
  pairCommitment : Bytes
  unmixed : Bytes
  messageCount : UInt32
  signature : Bytes
  deriving DecidableEq, Repr

structure BeginRun where
  /-- The public keys of the peers. -/
  vk : List Bytes
  messageCounts : List Int64
  sid : Bytes
  err : UInt32
  deriving DecidableEq

/-! ## Exchanging keys -/

structure KeyExchange where
  run : UInt32
  ecdh : Bytes
  pqpk : Bytes
  commitment : Bytes
  signature : Bytes
  deriving DecidableEq, Repr

structure KeyExchanges where
  kes : List (Option KeyExchange)
  br : Option BeginRun
  err : UInt32
  deriving DecidableEq

structure Ciphertexts where
  ciphertexts : List Bytes
  signature : Bytes
  deriving DecidableEq, Repr

structure CiphertextsReply where
  ciphertexts : List Bytes
  br : Option BeginRun
  err : UInt32
  deriving DecidableEq

/-! ## Mixing -/

structure SlotReserve where
  run : UInt32
  dcMix : List (List Nat)
  signature : Bytes
  deriving DecidableEq, Repr

structure RecoveredMessages where
  run : UInt32
  roots : List Nat
  revealSecrets : Bool
  br : Option BeginRun
  err : UInt32
  deriving DecidableEq

structure MixVector where
  n : UInt64
  msize : UInt64
  data : Bytes
  deriving DecidableEq, Repr

structure DcNet where
  run : UInt32
  dcNet : List MixVector
  revealSecrets : Bool
  signature : Bytes
  deriving DecidableEq, Repr

/-- The merged mix, from the coordinator for confirmation and back with the
signature of every peer. -/
structure ConfirmMix where
  mix : Bytes
  revealSecrets : Bool
  br : Option BeginRun
  err : UInt32
  signature : Bytes
  deriving DecidableEq

/-! ## Assigning blame -/

/-- The secrets of a run.  The seed and the run to which it is bound bring back
every key and slot reservation value. -/
structure RevealSecrets where
  seed : Bytes
  seedRun : UInt32
  sr : List Nat
  m : List Bytes
  deriving DecidableEq, Repr

def RevealSecrets.description (rs : RevealSecrets) : String :=
  s!"RevealSecrets \x7b seed: \"[REDACTED]\", seed_run: {rs.seedRun}, "
    ++ s!"sr: {rs.sr.length}, m: {rs.m.length} \x7d"

/-- Precedes the secrets of a peer that has found the failure itself. -/
structure ClientFailure where
  revealSecrets : Bool
  deriving DecidableEq, Repr

def ClientFailure.notice : ClientFailure :=
  { revealSecrets := true }

/-! ## Slot vectors on the wire -/

def MixVector.ofSlotVector (v : SlotVector) : MixVector :=
  { n := UInt64.ofNat v.slots, msize := UInt64.ofNat v.size, data := v.data }

def MixVector.toSlotVector (v : MixVector) : SlotVector :=
  { slots := v.n.toNat, size := v.msize.toNat, data := v.data }

/-! ## Codecs -/

open Codec Fields

def PairRequest.codec : Codec PairRequest :=
  record
    (required "identity" bytes <| required "pair_commitment" bytes <|
      required "unmixed" bytes <| required "message_count" uint32 <|
      required "signature" bytes nil)
    (fun m => (m.identity, m.pairCommitment, m.unmixed, m.messageCount, m.signature, ()))
    (fun (identity, pairCommitment, unmixed, messageCount, signature, _) =>
      { identity, pairCommitment, unmixed, messageCount, signature })

def BeginRun.codec : Codec BeginRun :=
  record
    (optional "vk" bytesList [] <| optional "message_counts" (list int64) [] <|
      optional "sid" bytes [] <| optional "err" uint32 0 nil)
    (fun m => (m.vk, m.messageCounts, m.sid, m.err, ()))
    (fun (vk, messageCounts, sid, err, _) => { vk, messageCounts, sid, err })

def KeyExchange.codec : Codec KeyExchange :=
  record
    (required "run" uint32 <| required "ecdh" bytes <| required "pqpk" bytes <|
      required "commitment" bytes <| required "signature" bytes nil)
    (fun m => (m.run, m.ecdh, m.pqpk, m.commitment, m.signature, ()))
    (fun (run, ecdh, pqpk, commitment, signature, _) =>
      { run, ecdh, pqpk, commitment, signature })

def KeyExchanges.codec : Codec KeyExchanges :=
  record
    (optional "kes" (list KeyExchange.codec.nullable) [] <|
      omittable "br" BeginRun.codec <| optional "err" uint32 0 nil)
    (fun m => (m.kes, m.br, m.err, ()))
    (fun (kes, br, err, _) => { kes, br, err })

def Ciphertexts.codec : Codec Ciphertexts :=
  record
    (required "ciphertexts" bytesList <| required "signature" bytes nil)
    (fun m => (m.ciphertexts, m.signature, ()))
    (fun (ciphertexts, signature, _) => { ciphertexts, signature })

def CiphertextsReply.codec : Codec CiphertextsReply :=
  record
    (optional "ciphertexts" bytesList [] <| omittable "br" BeginRun.codec <|
      optional "err" uint32 0 nil)
    (fun m => (m.ciphertexts, m.br, m.err, ()))
    (fun (ciphertexts, br, err, _) => { ciphertexts, br, err })

def SlotReserve.codec : Codec SlotReserve :=
  record
    (required "run" uint32 <| required "dc_mix" elementsList <|
      required "signature" bytes nil)
    (fun m => (m.run, m.dcMix, m.signature, ()))
    (fun (run, dcMix, signature, _) => { run, dcMix, signature })

def RecoveredMessages.codec : Codec RecoveredMessages :=
  record
    (optional "run" uint32 0 <| optional "roots" elements [] <|
      optional "reveal_secrets" bool false <| omittable "br" BeginRun.codec <|
      optional "err" uint32 0 nil)
    (fun m => (m.run, m.roots, m.revealSecrets, m.br, m.err, ()))
    (fun (run, roots, revealSecrets, br, err, _) => { run, roots, revealSecrets, br, err })

def MixVector.codec : Codec MixVector :=
  record
    (required "n" uint64 <| required "msize" uint64 <| required "data" bytes nil)
    (fun m => (m.n, m.msize, m.data, ()))
    (fun (n, msize, data, _) => { n, msize, data })

def DcNet.codec : Codec DcNet :=
  record
    (required "run" uint32 <| required "dc_net" (list MixVector.codec) <|
      optional "reveal_secrets" bool false <| required "signature" bytes nil)
    (fun m => (m.run, m.dcNet, m.revealSecrets, m.signature, ()))
    (fun (run, dcNet, revealSecrets, signature, _) => { run, dcNet, revealSecrets, signature })

def ConfirmMix.codec : Codec ConfirmMix :=
  record
    (optional "mix" bytes [] <| optional "reveal_secrets" bool false <|
      omittable "br" BeginRun.codec <| optional "err" uint32 0 <|
      optional "signature" bytes [] nil)
    (fun m => (m.mix, m.revealSecrets, m.br, m.err, m.signature, ()))
    (fun (mix, revealSecrets, br, err, signature, _) =>
      { mix, revealSecrets, br, err, signature })

def RevealSecrets.codec : Codec RevealSecrets :=
  record
    (required "seed" bytes <| required "seed_run" uint32 <| required "sr" elements <|
      required "m" bytesList nil)
    (fun m => (m.seed, m.seedRun, m.sr, m.m, ()))
    (fun (seed, seedRun, sr, m, _) => { seed, seedRun, sr, m })

def ClientFailure.codec : Codec ClientFailure :=
  record
    (required "reveal_secrets" bool nil)
    (fun m => (m.revealSecrets, ()))
    (fun (revealSecrets, _) => { revealSecrets })

/-! ## Kinds of messages -/

inductive Kind
  | pairRequest
  | beginRun
  | keyExchange
  | keyExchanges
  | ciphertexts
  | ciphertextsReply
  | slotReserve
  | recoveredMessages
  | mixVector
  | dcNet
  | confirmMix
  | revealSecrets
  | clientFailure
  deriving DecidableEq, Repr

namespace Kind

def all : List Kind :=
  [.pairRequest, .beginRun, .keyExchange, .keyExchanges, .ciphertexts, .ciphertextsReply,
    .slotReserve, .recoveredMessages, .mixVector, .dcNet, .confirmMix, .revealSecrets,
    .clientFailure]

def name : Kind → String
  | .pairRequest => "PairRequest"
  | .beginRun => "BeginRun"
  | .keyExchange => "KeyExchange"
  | .keyExchanges => "KeyExchanges"
  | .ciphertexts => "Ciphertexts"
  | .ciphertextsReply => "CiphertextsReply"
  | .slotReserve => "SlotReserve"
  | .recoveredMessages => "RecoveredMessages"
  | .mixVector => "MixVector"
  | .dcNet => "DcNet"
  | .confirmMix => "ConfirmMix"
  | .revealSecrets => "RevealSecrets"
  | .clientFailure => "ClientFailure"

def ofName? (name : String) : Option Kind :=
  all.find? fun k => k.name = name

@[reducible] def Message : Kind → Type
  | .pairRequest => PairRequest
  | .beginRun => BeginRun
  | .keyExchange => KeyExchange
  | .keyExchanges => KeyExchanges
  | .ciphertexts => Ciphertexts
  | .ciphertextsReply => CiphertextsReply
  | .slotReserve => SlotReserve
  | .recoveredMessages => RecoveredMessages
  | .mixVector => MixVector
  | .dcNet => DcNet
  | .confirmMix => ConfirmMix
  | .revealSecrets => RevealSecrets
  | .clientFailure => ClientFailure

def codec : (k : Kind) → Codec k.Message
  | .pairRequest => PairRequest.codec
  | .beginRun => BeginRun.codec
  | .keyExchange => KeyExchange.codec
  | .keyExchanges => KeyExchanges.codec
  | .ciphertexts => Ciphertexts.codec
  | .ciphertextsReply => CiphertextsReply.codec
  | .slotReserve => SlotReserve.codec
  | .recoveredMessages => RecoveredMessages.codec
  | .mixVector => MixVector.codec
  | .dcNet => DcNet.codec
  | .confirmMix => ConfirmMix.codec
  | .revealSecrets => RevealSecrets.codec
  | .clientFailure => ClientFailure.codec

def code? : (k : Kind) → k.Message → Option UInt32
  | .beginRun, m => some m.err
  | .keyExchanges, m => some m.err
  | .ciphertextsReply, m => some m.err
  | .recoveredMessages, m => some m.err
  | .confirmMix, m => some m.err
  | _, _ => none

def serverError? (k : Kind) (m : k.Message) : Option ServerError :=
  (k.code? m).bind ServerError.ofCode?

end Kind

end Wire
end PeerMix
