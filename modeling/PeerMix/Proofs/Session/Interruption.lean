import PeerMix.Proofs.Session.Lifecycle

/-!
# An interrupted peer

A lone peer whose runs are cut short as soon as it has sent its ciphertexts, by a
roster for another run or by the end of the connection.  It does not give its
secrets away, so they serve the next run and the next call as well.
-/

namespace PeerMix
namespace Session

open Wire DcNet Dialogue

/-!
## A run that is cut short
-/

/-- What cuts a run short. -/
inductive Cut
  /-- The same peer is announced once more. -/
  | rerun
  | closed

section Runs

variable (id : Identity) (settings : Settings) (seed message : Bytes) (run : UInt32)

namespace Cut

def interruption : MixFailure :=
  .transport (.receive .ciphertextsReply .closed)

/-- The answer to the ciphertexts. -/
def answer : Cut -> Except FrameError CiphertextsReply
  | .rerun => .ok { ciphertexts := [], br := some (loneAnnouncement id), err := 0 }
  | .closed => .error .closed

def departure : Cut -> Departure
  | .rerun => .reroute (.beginRun (loneAnnouncement id))
  | .closed => .failure interruption

def outcome : Cut -> Except MixFailure Outcome
  | .rerun => .ok (.rerun (some (loneAnnouncement id)))
  | .closed => .error interruption

end Cut

def settingAt : RunSetting :=
  settingOf (loneSession id settings) run (loneRoster id.publicKey)

def keysAt : RunKeys :=
  keysFor (loneSession id settings) run (loneSecrets seed message)

def commitmentAt : Bytes :=
  (revelation (loneSecrets seed message) (keysAt id settings seed message run)).commitment
    (settingAt id settings run).scope

def ownAt : KeyExchange :=
  ownKeys (settingAt id settings run) (keysAt id settings seed message run)
    (commitmentAt id settings seed message run)

/-- The roster of a run if the last one has left it. -/
def carriedRoster : Bool -> Option BeginRun
  | false => none
  | true => some (loneAnnouncement id)

/-- The announcement of a run, unless its roster is carried over. -/
def rosterTurn : Bool -> List Exchange
  | false => [⟨.awaitRoster (if run = 0 then none else some settings.receiveLimit),
      some (.ok (loneAnnouncement id))⟩]
  | true => []

/-- The key exchanges of a run that is answered `ke`. -/
def keysTurn (ke : KeyExchange) : List Exchange :=
  [sent (settingAt id settings run) .keyExchange (ownAt id settings seed message run),
    received (settingAt id settings run) .keyExchanges { kes := [some ke], br := none, err := 0 }]

/-- The rest of a run that is cut short. -/
def cutTurn (ciphertext : Bytes) (cut : Cut) : List Exchange :=
  [sent (settingAt id settings run) .ciphertexts (Ciphertexts.make id [ciphertext]),
    ⟨.receive .ciphertextsReply settings.receiveLimit, cut.answer id⟩]

variable {id settings seed message run}

theorem length_ownAt_point (id : Identity) (settings : Settings) (seed message : Bytes)
    (run : UInt32) : (ownAt id settings seed message run).ecdh.length = 32 :=
  Bytes.length_littleEndian 32 _

/-- The own encapsulation key can be encapsulated to. -/
theorem exists_encapsulated_ownAt (id : Identity) (settings : Settings) (seed message : Bytes)
    (run : UInt32) :
    exists ciphertext, (encapsulated (keysAt id settings seed message run)
      [(ownAt id settings seed message run).pqpk]).1 = .ok [ciphertext] :=
  encapsulated_singleton _ (Lattice.isFull_generate _ _).length_toBytes

theorem traces_cutStages {ke : KeyExchange} {ciphertext : Bytes} (cut : Cut)
    (hpoint : ke.ecdh.length = 32)
    (hmade : (encapsulated (keysAt id settings seed message run) [ke.pqpk]).1 =
      .ok [ciphertext]) :
    Stage.Traces (stages (settingAt id settings run) (keysAt id settings seed message run) [message]
        (commitmentAt id settings seed message run))
      (keysTurn id settings seed message run ke ++ cutTurn id settings run ciphertext cut)
      (.error (cut.departure id)) := by
  have hreply : Stage.Traces ((settingAt id settings run).reply .ciphertextsReply)
      [⟨.receive .ciphertextsReply settings.receiveLimit, cut.answer id⟩]
      (.error (cut.departure id)) := by
    cases cut <;> exact .ask _ _ _ _ _ (.done _)
  have hciphertexts : Stage.Traces (exchangeCiphertexts (settingAt id settings run)
      (keysAt id settings seed message run) [ke.ecdh] [ke.pqpk])
      (cutTurn id settings run ciphertext cut) (.error (cut.departure id)) :=
    Stage.Traces.check_bind hmade ((traces_send .ciphertexts _).bind hreply.bind_error)
  exact (@traces_exchangeKeys_answered _ _ _ id.publicKey rfl _ hpoint).bind
    hciphertexts.bind_error

/-- The session with whatever secrets it has kept. -/
def loneHolding (id : Identity) (settings : Settings) (drawsAnew : Bool)
    (secrets : Option Secrets) : Session :=
  { loneSession id settings with drawsAnew, secrets }

/-- A run is cut short wherever its roster and its secrets have come from. -/
theorem traces_cutRun {drawsAnew : Bool} {kept : Option Secrets} {preparing : List Exchange}
    {ke : KeyExchange} {ciphertext : Bytes} (carried : Bool) (cut : Cut)
    (hprepared : Act.Traces (prepareSecrets run) (loneHolding id settings drawsAnew kept) preparing
      (.ok (loneSecrets seed message)) (lonePrepared id settings seed message false))
    (hpoint : ke.ecdh.length = 32)
    (hmade : (encapsulated (keysAt id settings seed message run) [ke.pqpk]).1 =
      .ok [ciphertext]) :
    Act.Traces (performRun run (carriedRoster id carried)) (loneHolding id settings drawsAnew kept)
      (rosterTurn id settings run carried ++ (preparing ++
        (keysTurn id settings seed message run ke ++ cutTurn id settings run ciphertext cut)))
      (cut.outcome id) (lonePrepared id settings seed message false) := by
  have howned : id.publicKey.length = Roster.keySize := Bytes.length_littleEndian 32 _
  have hstages : Act.Traces (Act.ofStage (stages (settingAt id settings run)
      (keysAt id settings seed message run) [message]
      (commitmentAt id settings seed message run)))
      (lonePrepared id settings seed message false) _ _ _ :=
    Act.Traces.ofStage (traces_cutStages cut hpoint hmade)
  have hawait : Act.Traces (awaitRoster run) (loneHolding id settings drawsAnew kept)
      (rosterTurn id settings run false) (.ok (loneAnnouncement id))
      (loneHolding id settings drawsAnew kept) := .ask _ _ _ _ _ (.done _)
  have hcarried : Act.Traces (pure (loneAnnouncement id)) (loneHolding id settings drawsAnew kept)
      (rosterTurn id settings run true) (.ok (loneAnnouncement id))
      (loneHolding id settings drawsAnew kept) := .done _
  rw [← List.append_nil (keysTurn id settings seed message run ke ++ _)]
  cases carried
  case' false => apply hawait.bind
  case' true => apply hcarried.bind
  all_goals
    apply Act.Traces.get_bind
    apply Act.Traces.check_bind (ofBeginRun_alone howned)
    apply Act.Traces.modify_bind
    apply hprepared.bind
    cases cut <;> exact hstages.bind (.done _)

end Runs

/-!
## Calls that are cut short
-/

section Calls

variable (id : Identity) (settings : Settings) (seed message : Bytes)

def requestTurn : List Exchange :=
  [⟨.marshal, .ok []⟩,
    ⟨.send .pairRequest (PairRequest.make id [] [] 1) settings.sendLimit, .ok ()⟩]

def drawTurn : List Exchange :=
  [⟨.draw 32, .ok seed⟩, ⟨.generate, .ok [message]⟩]

/-- A call up to its first key exchanges. -/
def callOpening (preparing : List Exchange) (ke : KeyExchange) : List Exchange :=
  requestTurn id settings ++ ⟨.cancelled, false⟩ :: (rosterTurn id settings 0 false ++
    (preparing ++ keysTurn id settings seed message 0 ke))

/-- A call whose first run is cut short by the end of the connection. -/
def closedCall (preparing : List Exchange) (ke : KeyExchange) (ciphertext : Bytes) :
    List Exchange :=
  callOpening id settings seed message preparing ke ++ cutTurn id settings 0 ciphertext .closed ++
    [⟨.close, ()⟩]

/-- A call whose first run is cut short by another roster, and the second one by the
end of the connection. -/
def repeatedCall (ke ke' : KeyExchange) (ciphertext ciphertext' : Bytes) : List Exchange :=
  callOpening id settings seed message (drawTurn seed message) ke ++
    cutTurn id settings 0 ciphertext .rerun ++
      ⟨.cancelled, false⟩ :: keysTurn id settings seed message 1 ke' ++
        cutTurn id settings 1 ciphertext' .closed ++ [⟨.close, ()⟩]

variable {id settings seed message} {ke ke' : KeyExchange} {ciphertext ciphertext' : Bytes}

theorem traces_keepSecrets (run : UInt32) :
    Act.Traces (prepareSecrets run) (lonePrepared id settings seed message false) []
      (.ok (loneSecrets seed message)) (lonePrepared id settings seed message false) :=
  Act.Traces.get_bind (Act.Traces.set_bind (.done _))

theorem traces_performRuns_failed {left : Nat} {s s' : Session} {carried : Option BeginRun}
    {events : List Exchange} {f : MixFailure}
    (h : Act.Traces (performRun (UInt32.ofNat (lastRun - left)) carried) s events (.error f) s') :
    Act.Traces (performRuns left carried) s (⟨.cancelled, false⟩ :: events) (.error f) s' := by
  unfold performRuns
  exact Act.Traces.question_bind h.bind_error

theorem traces_closedCall {drawsAnew : Bool} {kept : Option Secrets} {preparing : List Exchange}
    (hprepared : Act.Traces (prepareSecrets 0) (loneHolding id settings drawsAnew kept) preparing
      (.ok (loneSecrets seed message)) (lonePrepared id settings seed message false))
    (hpoint : ke.ecdh.length = 32)
    (hmade : (encapsulated (keysAt id settings seed message 0) [ke.pqpk]).1 = .ok [ciphertext]) :
    Traces (loneHolding id settings drawsAnew kept).perform
      (closedCall id settings seed message preparing ke ciphertext)
      (.error Cut.interruption, lonePrepared id settings seed message false) := by
  have hruns : Act.Traces (performRuns lastRun none) (loneHolding id settings drawsAnew kept)
      _ _ _ :=
    @traces_performRuns_failed lastRun _ _ _ _ _ (traces_cutRun false .closed hprepared hpoint hmade)
  have hevents : closedCall id settings seed message preparing ke ciphertext =
      requestTurn id settings ++ ⟨.cancelled, false⟩ :: (rosterTurn id settings 0 false ++
        (preparing ++ (keysTurn id settings seed message 0 ke ++
          cutTurn id settings 0 ciphertext .closed))) ++ [⟨.close, ()⟩] := by
    simp [closedCall, callOpening]
  rw [hevents]
  exact traces_perform_of_runs [] hruns

/-- The own keys serve a call just as well with another run and another signature. -/
theorem traces_relabelledCall (id : Identity) (settings : Settings) (seed : Bytes)
    {message : Bytes} (hmessage : message.length = messageSize) (run : UInt32) (signature : Bytes) :
    exists ciphertext, Traces (loneSession id settings).perform
      (closedCall id settings seed message (drawTurn seed message)
        { ownAt id settings seed message 0 with run, signature } ciphertext)
      (.error Cut.interruption, lonePrepared id settings seed message false) := by
  rcases exists_encapsulated_ownAt id settings seed message 0 with ⟨ciphertext, hmade⟩
  exact ⟨ciphertext, @traces_closedCall id settings seed message _ ciphertext true none _
    (traces_prepareSecrets id settings seed hmessage) (length_ownAt_point id settings seed message 0)
    hmade⟩

theorem traces_repeatedCall (hmessage : message.length = messageSize)
    (hpoint : ke.ecdh.length = 32) (hpoint' : ke'.ecdh.length = 32)
    (hmade : (encapsulated (keysAt id settings seed message 0) [ke.pqpk]).1 = .ok [ciphertext])
    (hmade' : (encapsulated (keysAt id settings seed message 1) [ke'.pqpk]).1 =
      .ok [ciphertext']) :
    Traces (loneSession id settings).perform
      (repeatedCall id settings seed message ke ke' ciphertext ciphertext')
      (.error Cut.interruption, lonePrepared id settings seed message false) := by
  have hfirst : Act.Traces (performRun 0 none) (loneSession id settings) _ _ _ :=
    @traces_cutRun id settings seed message 0 true none _ ke ciphertext false .rerun
      (traces_prepareSecrets id settings seed hmessage) hpoint hmade
  have hsecond : Act.Traces (performRun 1 (some (loneAnnouncement id)))
      (lonePrepared id settings seed message false) _ _ _ :=
    @traces_cutRun id settings seed message 1 false (some (loneSecrets seed message)) [] ke'
      ciphertext' true .closed (traces_keepSecrets 1) hpoint' hmade'
  have hruns : Act.Traces (performRuns lastRun none) (loneSession id settings) _ _ _ :=
    @traces_performRuns_rerun (lastRun - 1) _ _ _ _ _ _ _ _ hfirst
      (@traces_performRuns_failed (lastRun - 1) _ _ _ _ _ hsecond)
  exact traces_perform_of_runs [] hruns

/-- After a call that was cut short the next one goes the same way with the same secrets. -/
theorem calls_closed (hmessage : message.length = messageSize)
    (hpoint : ke.ecdh.length = 32) (hpoint' : ke'.ecdh.length = 32)
    (hmade : (encapsulated (keysAt id settings seed message 0) [ke.pqpk]).1 = .ok [ciphertext])
    (hmade' : (encapsulated (keysAt id settings seed message 0) [ke'.pqpk]).1 =
      .ok [ciphertext']) :
    Calls (loneSession id settings)
      (closedCall id settings seed message (drawTurn seed message) ke ciphertext ++
        closedCall id settings seed message [] ke' ciphertext')
      (lonePrepared id settings seed message false) := by
  have hfirst : Traces (loneSession id settings).perform _ _ :=
    @traces_closedCall id settings seed message ke ciphertext true none _
      (traces_prepareSecrets id settings seed hmessage) hpoint hmade
  have hsecond : Traces (lonePrepared id settings seed message false).perform _ _ :=
    @traces_closedCall id settings seed message ke' ciphertext' false
      (some (loneSecrets seed message)) [] (traces_keepSecrets 0) hpoint' hmade'
  have hcalls : Calls (loneSession id settings) _ _ := Calls.more Calls.none hfirst
  exact hcalls.more hsecond

end Calls

end Session
end PeerMix
