import PeerMix.Proofs.Field.Sampling
import PeerMix.Proofs.Round.PadAgreement
import PeerMix.Proofs.Session.Runs
import PeerMix.Proofs.Slots.Resolution

/-!
# A lone peer

A peer that is alone in its roster can be led through a run as far as its own
message and then be asked for its secrets, whatever it draws.  So the traces in
which secrets are revealed are not empty.
-/

namespace PeerMix
namespace Session

open Wire DcNet Dialogue

/-!
## The stages of a lone peer
-/

section Stages

def loneRoster (key : Bytes) : Roster :=
  { sid := [], vk := [key], counts := [1], my := 0, myStart := 0, total := 1 }

/-- A lone message is covered by nothing. -/
def loneRows : List (List PadKey) :=
  [[{ reservation := Bytes.zeros 32, message := SlotVector.zero 1 messageSize }]]

theorem padKeys_alone (key : HybridKey) (point ciphertext : Bytes) {s : RunSetting} {own : Bytes}
    (hroster : s.roster = loneRoster own) :
    padKeys key [point] [ciphertext] (padScope s) = .ok loneRows := by
  unfold padScope
  rw [hroster]
  rfl

theorem messageVectors_alone {message : Bytes} (hmessage : message.length = messageSize) :
    exists vectors, messageVectors messageSize 0 [message] [0] loneRows = .ok vectors := by
  have hmix : exists v, messageMix (SlotVector.zero 1 messageSize) message 0 = .ok v := by
    unfold messageMix
    rw [if_neg (by decide), if_neg (by rw [hmessage]; decide)]
    exact ⟨_, rfl⟩
  rcases hmix with ⟨v, hmix⟩
  refine ⟨[v], ?_⟩
  show (messageMix (SlotVector.zero 1 messageSize) message 0 >>= fun v => pure [v]) = .ok [v]
  rw [hmix]
  rfl

theorem sortRoots_singleton {root : Nat} (hroot : root < Field.prime) :
    Slots.sortRoots [root] = .ok [root] := by
  rw [Slots.sortRoots_eq_ok (by simpa using hroot), Slots.ascending, List.mergeSort_singleton]

theorem resolve?_singleton {root : Nat} (hroot : root < Field.prime) :
    Slots.resolve? [root] [root] = some [0] := by
  rw [Slots.resolve?_eq (List.nodup_singleton root) (by simpa using hroot)
    (List.nodup_singleton root) (by simp)]
  simp [Slots.indicesOf]

theorem encapsulated_singleton (keys : RunKeys) {key : Bytes}
    (hkey : key.length = Lattice.publicKeySize) :
    exists ciphertext, (encapsulated keys [key]).1 = .ok [ciphertext] := by
  rcases HybridKey.encapsulateEach_eq_ok [key] keys.encapsulation (by simpa using hkey) with
    ⟨ciphertexts, hmade, hlength, _⟩
  rcases List.length_eq_one_iff.mp hlength with ⟨ciphertext, rfl⟩
  exact ⟨ciphertext, hmade⟩

theorem readPoints_singleton {ke : KeyExchange} (hpoint : ke.ecdh.length = 32) :
    readPoints [ke] = .ok [ke.ecdh] := by
  show ((if ke.ecdh.length = 32 then .ok ke.ecdh else _) >>= fun point =>
    (pure [point] : Except MixFailure (List Bytes))) = _
  rw [if_pos hpoint]
  rfl

variable (s : RunSetting) (keys : RunKeys) (commitment ciphertext : Bytes)
  (vectors : List SlotVector)

/-- The answers to a lone peer, the last of which asks for its secrets. -/
def keysAnswer : KeyExchanges :=
  { kes := [some (ownKeys s keys commitment)], br := none, err := 0 }

def ciphertextsAnswer : CiphertextsReply :=
  { ciphertexts := [ciphertext], br := none, err := 0 }

def rootsAnswer : RecoveredMessages :=
  { run := s.scope.run, roots := keys.reservations, revealSecrets := false, br := none, err := 0 }

def askingAnswer : ConfirmMix :=
  { mix := [], revealSecrets := true, br := none, err := 0, signature := [] }

/-- What a lone peer sends and receives up to its own message. -/
def loneStages : List Exchange :=
  [sent s .keyExchange (ownKeys s keys commitment),
    received s .keyExchanges (keysAnswer s keys commitment),
    sent s .ciphertexts (Ciphertexts.make s.identity [ciphertext]),
    received s .ciphertextsReply (ciphertextsAnswer ciphertext),
    sent s .slotReserve (ownReservation s keys.reservations loneRows),
    received s .recoveredMessages (rootsAnswer s keys),
    sent s .dcNet (DcNet.make s.identity s.scope.run vectors),
    received s .confirmMix askingAnswer]

variable {s keys commitment ciphertext vectors}

theorem traces_send (kind : Kind) (m : kind.Message) :
    Stage.Traces (s.send kind m) [sent s kind m] (.ok ()) :=
  .ask _ _ _ _ _ (.done _)

theorem traces_turn {α : Type} {kind answerKind : Kind} [Reply answerKind.Message]
    {m : kind.Message} {answer : answerKind.Message} {next : answerKind.Message -> Stage α}
    {result : Except Departure α}
    (hreply : Stage.Traces (s.reply answerKind) [received s answerKind answer] (.ok answer))
    (hnext : Stage.Traces (next answer) [] result) :
    Stage.Traces (do
      s.send kind m
      let answer ← s.reply answerKind
      next answer) [sent s kind m, received s answerKind answer] result :=
  (traces_send kind m).bind (hreply.bind hnext)

/-- Whatever single key exchange a lone peer is answered, it takes it if its point has the
right size. -/
theorem traces_exchangeKeys_answered {own : Bytes} (hroster : s.roster = loneRoster own)
    {ke : KeyExchange} (hpoint : ke.ecdh.length = 32) :
    Stage.Traces (exchangeKeys s keys commitment)
      [sent s .keyExchange (ownKeys s keys commitment),
        received s .keyExchanges { kes := [some ke], br := none, err := 0 }]
      (.ok ([ke.ecdh], [ke.pqpk])) := by
  have hreply : Stage.Traces (s.reply .keyExchanges)
      [received s .keyExchanges { kes := [some ke], br := none, err := 0 }]
      (.ok { kes := [some ke], br := none, err := 0 }) := .ask _ _ _ _ _ (.done _)
  have hcount : ¬[ke].length ≠ s.roster.peerCount := by
    rw [hroster]
    exact fun hne => hne rfl
  exact traces_turn hreply (Stage.Traces.guard hcount
    (Stage.Traces.check_bind (readPoints_singleton hpoint) (.done _)))

theorem traces_exchangeKeys {own : Bytes} (hroster : s.roster = loneRoster own)
    (hpoint : keys.key.point.length = 32) :
    Stage.Traces (exchangeKeys s keys commitment)
      [sent s .keyExchange (ownKeys s keys commitment),
        received s .keyExchanges (keysAnswer s keys commitment)]
      (.ok ([keys.key.point], [keys.key.encapsulationKey])) :=
  @traces_exchangeKeys_answered s keys commitment own hroster (ownKeys s keys commitment) hpoint

theorem traces_exchangeCiphertexts {own : Bytes} (hroster : s.roster = loneRoster own)
    {point key : Bytes} (hmade : (encapsulated keys [key]).1 = .ok [ciphertext]) :
    Stage.Traces (exchangeCiphertexts s keys [point] [key])
      [sent s .ciphertexts (Ciphertexts.make s.identity [ciphertext]),
        received s .ciphertextsReply (ciphertextsAnswer ciphertext)] (.ok loneRows) := by
  have hreply : Stage.Traces (s.reply .ciphertextsReply)
      [received s .ciphertextsReply (ciphertextsAnswer ciphertext)]
      (.ok (ciphertextsAnswer ciphertext)) := .ask _ _ _ _ _ (.done _)
  have hpads := padKeys_alone (encapsulated keys [key]).2 point ciphertext hroster
  apply Stage.Traces.check_bind hmade
  apply traces_turn hreply
  show Stage.Traces (Stage.check .primitive
    (padKeys (encapsulated keys [key]).2 [point] [ciphertext] (padScope s))) [] _
  rw [hpads]
  exact .done _

theorem traces_reserveSlots {own : Bytes} (hroster : s.roster = loneRoster own) {root : Nat}
    (hroot : root < Field.prime) (hreservations : keys.reservations = [root]) :
    Stage.Traces (reserveSlots s keys.reservations loneRows)
      [sent s .slotReserve (ownReservation s keys.reservations loneRows),
        received s .recoveredMessages (rootsAnswer s keys)] (.ok [0]) := by
  have hreply : Stage.Traces (s.reply .recoveredMessages)
      [received s .recoveredMessages (rootsAnswer s keys)] (.ok (rootsAnswer s keys)) :=
    .ask _ _ _ _ _ (.done _)
  have hcount : ¬s.roster.total < (rootsAnswer s keys).roots.length := by
    rw [hroster, rootsAnswer, hreservations]
    exact Nat.lt_irrefl 1
  have hroots : Slots.sortRoots (rootsAnswer s keys).roots = .ok [root] := by
    rw [rootsAnswer, hreservations]
    exact sortRoots_singleton hroot
  apply traces_turn hreply
  apply Stage.Traces.guard hcount
  apply Stage.Traces.check_bind hroots
  rw [hreservations, resolve?_singleton hroot]
  exact .done _

theorem traces_mixMessages {own message : Bytes} (hroster : s.roster = loneRoster own)
    (hvectors : messageVectors messageSize 0 [message] [0] loneRows = .ok vectors) :
    Stage.Traces (mixMessages s [message] [0] loneRows)
      [sent s .dcNet (DcNet.make s.identity s.scope.run vectors),
        received s .confirmMix askingAnswer] (.error (.reroute (.revealSecrets .server))) := by
  have hreply : Stage.Traces (s.reply .confirmMix) [received s .confirmMix askingAnswer]
      (.error (.reroute (.revealSecrets .server))) := .ask _ _ _ _ _ (.done _)
  unfold mixMessages
  rw [hroster]
  apply Stage.Traces.check_bind hvectors
  exact (traces_send .dcNet _).bind hreply.bind_error

theorem traces_stages {own message : Bytes} (hroster : s.roster = loneRoster own)
    (hmessage : message.length = messageSize) (hpoint : keys.key.point.length = 32)
    (hkey : keys.key.encapsulationKey.length = Lattice.publicKeySize) {root : Nat}
    (hroot : root < Field.prime) (hreservations : keys.reservations = [root]) :
    exists ciphertext vectors, Stage.Traces (stages s keys [message] commitment)
      (loneStages s keys commitment ciphertext vectors)
      (.error (.reroute (.revealSecrets .server))) := by
  rcases encapsulated_singleton keys hkey with ⟨ciphertext, hmade⟩
  rcases messageVectors_alone hmessage with ⟨vectors, hvectors⟩
  refine ⟨ciphertext, vectors, ?_⟩
  exact (traces_exchangeKeys hroster hpoint).bind ((traces_exchangeCiphertexts hroster hmade).bind
    ((traces_reserveSlots hroster hroot hreservations).bind
      (traces_mixMessages hroster hvectors).bind_error))

end Stages

/-!
## The session of a lone peer
-/

theorem checkKeys_singleton {key : Bytes} (hkey : key.length = Roster.keySize) :
    Roster.checkKeys 0 [] [key] = .ok () := by
  rw [Roster.checkKeys, if_neg (by simp [hkey]), if_neg (by simp), Roster.checkKeys]

theorem findIdx?_singleton (key : Bytes) :
    [key].findIdx? (fun other => decide (other = key)) = some 0 := by
  rw [List.findIdx?_cons, if_pos (decide_eq_true rfl)]

theorem ofBeginRun_alone {key : Bytes} (hkey : key.length = Roster.keySize) :
    Roster.ofBeginRun { vk := [key], messageCounts := [1], sid := [], err := 0 } key 1 =
      .ok (loneRoster key) := by
  unfold Roster.ofBeginRun
  dsimp only
  rw [if_neg (by simp), checkKeys_singleton hkey, findIdx?_singleton]
  rfl

theorem checkMessages_singleton {message : Bytes} (hmessage : message.length = messageSize) :
    checkMessages 1 [message] = .ok () := by
  unfold checkMessages
  rw [if_neg (by simp)]
  simp [hmessage]

theorem traces_performRuns_rerun {left : Nat} {s between s' : Session}
    {carried roster : Option BeginRun} {events rest : List Exchange}
    {result : Except MixFailure Unit}
    (h : Act.Traces (performRun (UInt32.ofNat (lastRun - (left + 1))) carried) s events
      (.ok (.rerun roster)) between)
    (hrest : Act.Traces (performRuns left roster) between rest result s') :
    Act.Traces (performRuns (left + 1) carried) s (⟨.cancelled, false⟩ :: (events ++ rest))
      result s' := by
  unfold performRuns
  exact Act.Traces.question_bind (h.bind hrest)

theorem traces_performRuns_cancelled (left : Nat) (s : Session) (carried : Option BeginRun) :
    Act.Traces (performRuns left carried) s [⟨.cancelled, true⟩] (.error .cancelled) s := by
  unfold performRuns
  exact .ask _ _ _ _ _ (.done _)

/-- A call asks to be paired, goes through its runs and closes the connection. -/
theorem traces_perform_of_runs {s s' : Session} {events : List Exchange}
    {result : Except MixFailure Unit} (unmixed : Bytes)
    (h : Act.Traces (performRuns lastRun none) s events result s') :
    Traces s.perform
      ([⟨.marshal, .ok unmixed⟩,
        ⟨.send .pairRequest (PairRequest.make s.identity s.commitment unmixed s.messageCount)
          s.settings.sendLimit, .ok ()⟩] ++ events ++ [⟨.close, ()⟩])
      (result, s') := by
  have hsend : Act.Traces
      (Act.send .pairRequest (PairRequest.make s.identity s.commitment unmixed s.messageCount)) s
      [⟨.send .pairRequest (PairRequest.make s.identity s.commitment unmixed s.messageCount)
        s.settings.sendLimit, .ok ()⟩] (.ok ()) s := .ask _ _ _ _ _ (.done _)
  have hmix : Act.Traces mix s (⟨.marshal, .ok unmixed⟩ :: _) result s' :=
    Act.Traces.question_bind (Act.Traces.check_bind rfl (Act.Traces.get_bind (hsend.bind h)))
  have hclose : Traces (do
      Dialogue.question .close
      return ((result, s') : Except MixFailure Unit × Session)) [⟨.close, ()⟩] (result, s') :=
    .ask _ _ _ _ _ (.done _)
  exact Dialogue.Traces.bind hmix hclose

section Alone

variable (id : Identity) (settings : Settings) (seed message : Bytes)

def loneSession : Session :=
  { identity := id, commitment := [], messageCount := 1, settings, drawsAnew := true,
    secrets := none, sid := [] }

def loneAnnouncement : BeginRun :=
  { vk := [id.publicKey], messageCounts := [1], sid := [], err := 0 }

def loneSetting : RunSetting :=
  settingOf (loneSession id settings) 0 (loneRoster id.publicKey)

def loneSecrets : Secrets :=
  { seed, seedRun := 0, messages := [message] }

def loneKeys : RunKeys :=
  keysFor (loneSession id settings) 0 (loneSecrets seed message)

def loneRevelation : RevealSecrets :=
  revelation (loneSecrets seed message) (loneKeys id settings seed message)

def loneCommitment : Bytes :=
  (loneRevelation id settings seed message).commitment (loneSetting id settings).scope

/-- The session with secrets that have or have not been revealed. -/
def lonePrepared (drawsAnew : Bool) : Session :=
  { loneSession id settings with drawsAnew, secrets := some (loneSecrets seed message) }

/-- All exchanges before the secrets are revealed. -/
def loneExchanges (ciphertext : Bytes) (vectors : List SlotVector) : List Exchange :=
  [⟨.marshal, .ok []⟩,
    ⟨.send .pairRequest (PairRequest.make id [] [] 1) settings.sendLimit, .ok ()⟩,
    ⟨.cancelled, false⟩, ⟨.awaitRoster none, some (.ok (loneAnnouncement id))⟩,
    ⟨.draw 32, .ok seed⟩, ⟨.generate, .ok [message]⟩] ++
  loneStages (loneSetting id settings) (loneKeys id settings seed message)
    (loneCommitment id settings seed message) ciphertext vectors ++ [⟨.cancelled, false⟩]

def loneReveal : Exchange :=
  ⟨.send .revealSecrets (loneRevelation id settings seed message) settings.sendLimit, .ok ()⟩

theorem traces_prepareSecrets {message : Bytes} (hmessage : message.length = messageSize) :
    Act.Traces (prepareSecrets 0) (loneSession id settings)
      [⟨.draw 32, .ok seed⟩, ⟨.generate, .ok [message]⟩] (.ok (loneSecrets seed message))
      (lonePrepared id settings seed message false) := by
  have hdraw : Act.Traces (drawSecrets 0) (loneSession id settings)
      [⟨.draw 32, .ok seed⟩, ⟨.generate, .ok [message]⟩] (.ok (loneSecrets seed message))
      (loneSession id settings) := by
    apply Act.Traces.question_bind
    apply Act.Traces.check_bind rfl
    apply Act.Traces.question_bind
    apply Act.Traces.check_bind rfl
    apply Act.Traces.get_bind
    apply Act.Traces.check_bind (checkMessages_singleton hmessage)
    exact .done _
  exact Act.Traces.get_bind (Act.Traces.set_bind (hdraw.bind (.done _)))

theorem traces_reveal :
    Act.Traces (reveal .server (loneRevelation id settings seed message))
      (lonePrepared id settings seed message false)
      [⟨.cancelled, false⟩, loneReveal id settings seed message] (.ok ())
      (lonePrepared id settings seed message true) :=
  .ask _ _ _ _ _ (.ask _ _ _ _ _ (.done _))

theorem exists_reservation :
    exists root, root < Field.prime ∧
      (loneKeys id settings seed message).reservations = [root] := by
  have hlength : (loneKeys id settings seed message).reservations.length = 1 :=
    Field.length_sampleMany 1 _
  rcases List.length_eq_one_iff.mp hlength with ⟨root, hroot⟩
  have hmem : root ∈ (loneKeys id settings seed message).reservations := by
    rw [hroot]
    exact List.mem_cons_self
  exact ⟨root, Field.lt_of_mem_sampleMany hmem, hroot⟩

theorem traces_performRun {message : Bytes} (hmessage : message.length = messageSize) :
    exists ciphertext vectors, Act.Traces (performRun 0 none) (loneSession id settings)
      ([⟨.awaitRoster none, some (.ok (loneAnnouncement id))⟩] ++
        ([⟨.draw 32, .ok seed⟩, ⟨.generate, .ok [message]⟩] ++
          (loneStages (loneSetting id settings) (loneKeys id settings seed message)
              (loneCommitment id settings seed message) ciphertext vectors ++
            [⟨.cancelled, false⟩, loneReveal id settings seed message])))
      (.ok (.rerun none)) (lonePrepared id settings seed message true) := by
  rcases exists_reservation id settings seed message with ⟨root, hroot, hreservations⟩
  have hpoint : (loneKeys id settings seed message).key.point.length = 32 :=
    Bytes.length_littleEndian 32 _
  have hkey : (loneKeys id settings seed message).key.encapsulationKey.length =
      Lattice.publicKeySize := (Lattice.isFull_generate _ _).length_toBytes
  have howned : id.publicKey.length = Roster.keySize := Bytes.length_littleEndian 32 _
  have hroster : (loneSetting id settings).roster = loneRoster id.publicKey := rfl
  rcases traces_stages hroster hmessage hpoint hkey hroot hreservations with
    ⟨ciphertext, vectors, hstages⟩
  refine ⟨ciphertext, vectors, ?_⟩
  have hawait : Act.Traces (awaitRoster 0) (loneSession id settings)
      [⟨.awaitRoster none, some (.ok (loneAnnouncement id))⟩] (.ok (loneAnnouncement id))
      (loneSession id settings) := .ask _ _ _ _ _ (.done _)
  have hclosing := (traces_reveal id settings seed message).bind (f := fun _ =>
    (pure (.rerun none) : Act Outcome)) (.done _)
  apply hawait.bind
  apply Act.Traces.get_bind
  apply Act.Traces.check_bind (ofBeginRun_alone howned)
  apply Act.Traces.modify_bind
  apply (traces_prepareSecrets id settings seed hmessage).bind
  exact (Act.Traces.ofStage hstages).bind hclosing

/-- A lone peer is asked for its secrets and reveals them, whatever it draws. -/
theorem traces_perform {message : Bytes} (hmessage : message.length = messageSize) :
    exists ciphertext vectors, Traces (loneSession id settings).perform
      (loneExchanges id settings seed message ciphertext vectors ++
        loneReveal id settings seed message :: [⟨.cancelled, true⟩, ⟨.close, ()⟩])
      (.error .cancelled, lonePrepared id settings seed message true) := by
  rcases traces_performRun id settings seed hmessage with ⟨ciphertext, vectors, hrun⟩
  refine ⟨ciphertext, vectors, ?_⟩
  have hruns : Act.Traces (performRuns lastRun none) (loneSession id settings) _ _ _ :=
    @traces_performRuns_rerun (lastRun - 1) _ _ _ _ _ _ _ _ hrun
      (traces_performRuns_cancelled _ _ none)
  exact traces_perform_of_runs [] hruns

end Alone

end Session
end PeerMix
