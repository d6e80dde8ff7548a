import PeerMix.Proofs.Session.LonePeer
import PeerMix.Proofs.Session.Order
import PeerMix.Session.Rehearsal

/-!
# Warrants

Why a session may send what it sends.  A message of a stage needs an answer that
lets the run go on, the secrets of a run need an answer that asks for them or a
failure that the session has found itself.
-/

namespace PeerMix
namespace Session

open Wire DcNet Dialogue

/-!
## What warrants a message
-/

/-- Questions that the coordinator does not hear: they go to the source of
randomness or to the owner of the payload. -/
def Question.IsLocal : Question -> Prop
  | .draw _ | .marshal | .unmarshal _ | .generate | .confirm => True
  | _ => False

/-- A message of `kind` has been sent, and exactly one answer has arrived since,
which passes. -/
def AfterAnswer (past : List Exchange) (kind answerKind : Kind) [Reply answerKind.Message] : Prop :=
  exists before m limit answerLimit answer between,
    past = before ++ ⟨.send kind m limit, .ok ()⟩ ::
      ⟨.receive answerKind answerLimit, .ok answer⟩ :: between ∧
    Passes answerKind answer ∧ forall e, e ∈ between -> e.question.IsLocal

/-- The last exchanges are a message of `kind` and an answer that asks for the
secrets. -/
def AskedAfter (past : List Exchange) (kind answerKind : Kind) [Reply answerKind.Message] : Prop :=
  exists before m limit answerLimit answer,
    past = before ++ [⟨.send kind m limit, .ok ()⟩,
      ⟨.receive answerKind answerLimit, .ok answer⟩] ∧ Asks answerKind answer

/-- The coordinator asks for the secrets. -/
def Asked (past : List Exchange) : Prop :=
  AskedAfter past .slotReserve .recoveredMessages ∨ AskedAfter past .dcNet .confirmMix ∨
    AskedAfter past .confirmMix .confirmMix

/-- The slot reservation values do not resolve among the recovered roots. -/
def Unresolved (past : List Exchange) (reservations : List Nat) : Prop :=
  exists before m limit answerLimit answer roots,
    past = before ++ [⟨.send .slotReserve m limit, .ok ()⟩,
      ⟨.receive .recoveredMessages answerLimit, .ok answer⟩] ∧
    Passes .recoveredMessages answer ∧ Slots.sortRoots answer.roots = .ok roots ∧
      Slots.resolve? reservations roots = none

/-- The last exchanges are the own messages and the merged payload. -/
def MixAnswered (past : List Exchange) (mix : Bytes) : Prop :=
  exists before m limit answerLimit answer,
    past = before ++ [⟨.send .dcNet m limit, .ok ()⟩,
      ⟨.receive .confirmMix answerLimit, .ok answer⟩] ∧
    Passes .confirmMix answer ∧ answer.mix = mix

/-- The owner of the payload misses a message in the merged payload. -/
def Missing (past : List Exchange) : Prop :=
  exists before mix text, MixAnswered before mix ∧
    (past = before ++ [⟨.unmarshal mix, .error (.missingMessage text)⟩] ∨
      past = before ++ [⟨.unmarshal mix, .ok ()⟩, ⟨.confirm, .error (.missingMessage text)⟩])

/-- What justifies the blame for a run with these slot reservation values. -/
def Justified (past : List Exchange) (reservations : List Nat) : Blame -> Prop
  | .server => Asked past
  | .client => Unresolved past reservations ∨ Missing past

/-- The key exchange of the latest run commits to these secrets. -/
def Committed (past : List Exchange) (rs : RevealSecrets) : Prop :=
  exists before ke limit between scope,
    past = before ++ ⟨.send .keyExchange ke limit, .ok ()⟩ :: between ∧ Without .keyExchange between ∧
      scope.run = ke.run ∧ ke.commitment = rs.commitment scope

/-- What has to precede a message. -/
def Warranted (past : List Exchange) : (kind : Kind) -> kind.Message -> Prop
  | .ciphertexts, _ => AfterAnswer past .keyExchange .keyExchanges
  | .slotReserve, _ => AfterAnswer past .ciphertexts .ciphertextsReply
  | .dcNet, _ => AfterAnswer past .slotReserve .recoveredMessages
  | .confirmMix, _ => AfterAnswer past .dcNet .confirmMix
  | .clientFailure, _ => exists earlier rs, past = earlier ++ [⟨.cancelled, false⟩] ∧
      Committed earlier rs ∧ Justified earlier rs.sr .client
  | .revealSecrets, rs => exists earlier, Committed earlier rs ∧
      ((past = earlier ++ [⟨.cancelled, false⟩] ∧ Justified earlier rs.sr .server) ∨
        exists notice limit, past = earlier ++ [⟨.cancelled, false⟩,
            ⟨.send .clientFailure notice limit, .ok ()⟩] ∧ Justified earlier rs.sr .client)
  | _, _ => True

/-!
## Turns
-/

section Turns

variable {s : RunSetting} {events past : List Exchange}
  {good : List Exchange -> (kind : Kind) -> kind.Message -> Prop}

theorem Turn.everySend {kind answerKind : Kind} {m : kind.Message} [Reply answerKind.Message]
    {result : Except Departure answerKind.Message} (h : Turn s kind m answerKind events result)
    (hgood : good past kind m) : EverySend good past events := by
  cases h with
  | unsent => exact ⟨hgood, trivial⟩
  | refused => exact ⟨hgood, trivial, trivial⟩
  | replaced => exact ⟨hgood, trivial, trivial⟩
  | asked => exact ⟨hgood, trivial, trivial⟩
  | passed => exact ⟨hgood, trivial, trivial⟩

theorem Ends.everySend {α : Type} {kind : Kind} {m : kind.Message} {answerKind : Kind}
    [Reply answerKind.Message] {accept : answerKind.Message -> Except Departure α}
    {result : Except Departure α} (h : Ends s kind m answerKind accept events result)
    (hgood : good past kind m) : EverySend good past events := by
  rcases h with ⟨turned, hturn, _⟩
  exact hturn.everySend hgood

theorem Ends.afterAnswer {α : Type} {kind : Kind} {m : kind.Message} {answerKind : Kind}
    [Reply answerKind.Message] {accept : answerKind.Message -> Except Departure α} {a : α}
    (h : Ends s kind m answerKind accept events (.ok a)) (past : List Exchange) :
    AfterAnswer (past ++ events) kind answerKind := by
  rcases h.ok_cases with ⟨answer, hpasses, rfl, _⟩
  exact ⟨past, m, _, _, answer, [], rfl, hpasses, by simp⟩

theorem Turn.askedAfter {kind answerKind : Kind} {m : kind.Message} [Reply answerKind.Message]
    {blame : Blame}
    (h : Turn s kind m answerKind events (.error (.reroute (.revealSecrets blame))))
    (past : List Exchange) : blame = .server ∧ AskedAfter (past ++ events) kind answerKind := by
  cases h with
  | asked answer hasks => exact ⟨rfl, past, m, _, _, answer, rfl, hasks⟩

theorem Ends.askedAfter {α : Type} {kind : Kind} {m : kind.Message} {answerKind : Kind}
    [Reply answerKind.Message] {accept : answerKind.Message -> Except Departure α} {blame : Blame}
    (h : Ends s kind m answerKind accept events (.error (.reroute (.revealSecrets blame))))
    (haccept : forall answer r, accept answer ≠ .error (.reroute r)) (past : List Exchange) :
    blame = .server ∧ AskedAfter (past ++ events) kind answerKind := by
  rcases h with ⟨turned, hturn, hresult⟩
  cases turned with
  | error d =>
      cases hresult
      exact hturn.askedAfter past
  | ok answer => exact absurd hresult.symm (haccept answer _)

end Turns

/-!
## Walks
-/

section Walk

variable {s : RunSetting} {keys : RunKeys} {messages : List Bytes} {commitment : Bytes}
  {events : List Exchange} (past : List Exchange)

theorem EndsKeys.warranted {result : Except Departure (List Bytes × List Bytes)}
    (h : EndsKeys s keys commitment events result) : EverySend Warranted past events :=
  Ends.everySend h trivial

theorem PadsKnown.warranted {rows : List (List PadKey)}
    (h : PadsKnown s keys commitment events rows) :
    EverySend Warranted past events ∧
      AfterAnswer (past ++ events) .ciphertexts .ciphertextsReply := by
  rcases h with ⟨first, last, _, _, _, hkeys, _, hciphertexts, rfl⟩
  constructor
  · exact (hkeys.warranted past).append (Ends.everySend hciphertexts (Ends.afterAnswer hkeys past))
  · rw [← List.append_assoc]
    exact Ends.afterAnswer hciphertexts (past ++ first)

theorem SlotsKnown.warranted {rows : List (List PadKey)} {slots : List Nat}
    (h : SlotsKnown s keys commitment events rows slots) :
    EverySend Warranted past events ∧
      AfterAnswer (past ++ events) .slotReserve .recoveredMessages := by
  rcases h with ⟨first, last, hpads, hslots, rfl⟩
  rcases hpads.warranted past with ⟨hsends, hafter⟩
  constructor
  · exact hsends.append (Ends.everySend hslots hafter)
  · rw [← List.append_assoc]
    exact Ends.afterAnswer hslots (past ++ first)

theorem MixKnown.warranted {mix : Bytes} (h : MixKnown s keys messages commitment events mix) :
    EverySend Warranted past events ∧ MixAnswered (past ++ events) mix := by
  rcases h with ⟨first, last, _, _, _, hslots, _, hmix, rfl⟩
  rcases hslots.warranted past with ⟨hsends, hafter⟩
  constructor
  · exact hsends.append (Ends.everySend hmix hafter)
  · rcases Ends.ok_cases hmix with ⟨answer, hpasses, rfl, haccept⟩
    cases haccept
    rw [← List.append_assoc]
    exact ⟨past ++ first, _, _, _, answer, rfl, hpasses, rfl⟩

theorem MixAnswered.afterAnswer {mix : Bytes} (h : MixAnswered past mix)
    (hlocal : forall e, e ∈ events -> e.question.IsLocal) :
    AfterAnswer (past ++ events) .dcNet .confirmMix := by
  rcases h with ⟨before, m, limit, answerLimit, answer, rfl, hpasses, _⟩
  refine ⟨before, m, limit, answerLimit, answer, events, ?_, hpasses, hlocal⟩
  rw [List.append_assoc]
  rfl

theorem local_before_confirmMix (mix confirmed : Bytes) :
    forall e, e ∈ ([⟨.unmarshal mix, .ok ()⟩, ⟨.confirm, .ok ()⟩,
      ⟨.marshal, .ok confirmed⟩] : List Exchange) -> e.question.IsLocal := by
  simp [Question.IsLocal]

theorem Confirmation.warranted {mix : Bytes} {result : Except Departure Unit}
    (h : Confirmation s mix events result) (hmix : MixAnswered past mix) :
    EverySend Warranted past events := by
  cases h with
  | unreadable => exact ⟨trivial, trivial⟩
  | unconfirmed => exact ⟨trivial, trivial, trivial⟩
  | unwritten => exact ⟨trivial, trivial, trivial, trivial⟩
  | left confirmed events d hturn =>
      refine EverySend.append ⟨trivial, trivial, trivial, trivial⟩ (hturn.everySend ?_)
      exact hmix.afterAnswer past (local_before_confirmMix mix confirmed)
  | ended confirmed events answer hturn taken =>
      refine EverySend.append (EverySend.append ⟨trivial, trivial, trivial, trivial⟩
        (hturn.everySend ?_)) ⟨trivial, trivial⟩
      exact hmix.afterAnswer past (local_before_confirmMix mix confirmed)

theorem Confirmation.justified {mix : Bytes} {blame : Blame} {result : Except Departure Unit}
    (reservations : List Nat) (h : Confirmation s mix events result) (hmix : MixAnswered past mix)
    (hresult : result = .error (.reroute (.revealSecrets blame))) :
    Justified (past ++ events) reservations blame := by
  cases h with
  | unreadable e =>
      rcases judgement_eq_reroute (Except.error.inj hresult) with ⟨⟨text, rfl⟩, hblame⟩
      cases hblame
      exact .inr ⟨past, mix, text, hmix, .inl rfl⟩
  | unconfirmed e =>
      rcases judgement_eq_reroute (Except.error.inj hresult) with ⟨⟨text, rfl⟩, hblame⟩
      cases hblame
      exact .inr ⟨past, mix, text, hmix, .inr rfl⟩
  | unwritten => cases hresult
  | left confirmed events d hturn =>
      cases hresult
      rw [← List.append_assoc]
      rcases hturn.askedAfter (past ++ _) with ⟨rfl, hasked⟩
      exact .inr (.inr hasked)
  | ended confirmed events answer hturn taken => cases taken <;> cases hresult

theorem Walk.warranted {result : Except Departure Unit}
    (h : Walk s keys messages commitment events result) : EverySend Warranted past events := by
  cases h with
  | keys h => exact h.warranted past
  | unsealed h => exact h.warranted past
  | ciphertexts h hmade hlast =>
      exact (h.warranted past).append (Ends.everySend hlast (Ends.afterAnswer h past))
  | slots h hlast =>
      rcases h.warranted past with ⟨hsends, hafter⟩
      exact hsends.append (Ends.everySend hlast hafter)
  | uncovered h => exact (h.warranted past).left
  | messages h hvectors hlast =>
      rcases h.warranted past with ⟨hsends, hafter⟩
      exact hsends.append (Ends.everySend hlast hafter)
  | confirmation h hlast =>
      rcases h.warranted past with ⟨hsends, hmix⟩
      exact hsends.append (hlast.warranted _ hmix)

theorem EndsSlots.justified {rows : List (List PadKey)} {blame : Blame}
    (h : EndsSlots s keys rows events (.error (.reroute (.revealSecrets blame)))) :
    Justified (past ++ events) keys.reservations blame := by
  rcases h.reroute_cases with ⟨answer, rfl, ⟨_, _, _, _, hr⟩ | ⟨hasks, hr⟩ | ⟨hpasses, hr⟩⟩
  · cases hr
  · cases hr
    exact .inl ⟨past, _, _, _, answer, rfl, hasks⟩
  · rcases acceptRoots_eq_reroute hr with ⟨⟨roots, hsorted, hunresolved⟩, hblame⟩
    cases hblame
    exact .inl ⟨past, _, _, _, answer, roots, rfl, hpasses, hsorted, hunresolved⟩

theorem Walk.justified {blame : Blame}
    (h : Walk s keys messages commitment events (.error (.reroute (.revealSecrets blame)))) :
    Justified (past ++ events) keys.reservations blame := by
  generalize hresult : Except.error (Departure.reroute (.revealSecrets blame)) = result at h
  cases h with
  | keys h =>
      cases hresult
      cases h.ne_reveal
  | unsealed => cases hresult
  | ciphertexts h hmade hlast =>
      cases hresult
      cases hlast.ne_reveal
  | slots h hlast =>
      cases hresult
      rw [← List.append_assoc]
      exact EndsSlots.justified _ hlast
  | uncovered => cases hresult
  | messages h hvectors hlast =>
      cases hresult
      rw [← List.append_assoc]
      rcases Ends.askedAfter hlast nofun (past ++ _) with ⟨rfl, hasked⟩
      exact .inr (.inl hasked)
  | confirmation h hlast =>
      rw [← List.append_assoc]
      exact hlast.justified _ _ (h.warranted past).right hresult.symm

end Walk

/-!
## Runs
-/

section Runs

variable {s s' : Session} {run : UInt32} {carried : Option BeginRun} {events : List Exchange}
  (past : List Exchange)

theorem Revealing.warranted {rs : RevealSecrets} {blame : Blame} {result : Except MixFailure Unit}
    (h : Revealing s rs blame events result s') (hcommitted : Committed past rs)
    (hjustified : Justified past rs.sr blame) : EverySend Warranted past events := by
  cases h with
  | cancelled => exact ⟨trivial, trivial⟩
  | asked => exact ⟨trivial, ⟨past, hcommitted, .inl ⟨rfl, hjustified⟩⟩, trivial⟩
  | unannounced => exact ⟨trivial, ⟨past, rs, rfl, hcommitted, hjustified⟩, trivial⟩
  | announced =>
      refine ⟨trivial, ⟨past, rs, rfl, hcommitted, hjustified⟩,
        ⟨past, hcommitted, .inr ⟨ClientFailure.notice, s.settings.sendLimit, ?_, hjustified⟩⟩,
        trivial⟩
      rw [List.append_assoc]
      rfl

theorem Settled.warranted {rs : RevealSecrets} {walk : Except Departure Unit}
    {result : Except MixFailure Outcome} (h : Settled s rs walk events result s')
    (hwalk : forall blame, walk = .error (.reroute (.revealSecrets blame)) ->
      Committed past rs ∧ Justified past rs.sr blame) : EverySend Warranted past events := by
  cases h with
  | confirmed => exact trivial
  | failed => exact trivial
  | replaced => exact trivial
  | unrevealed h =>
      rcases hwalk _ rfl with ⟨hcommitted, hjustified⟩
      exact h.warranted past hcommitted hjustified
  | revealed h =>
      rcases hwalk _ rfl with ⟨hcommitted, hjustified⟩
      exact h.warranted past hcommitted hjustified

theorem RunTrace.warranted {result : Except MixFailure Outcome}
    (h : RunTrace s run carried events result s') : EverySend Warranted past events := by
  cases h with
  | unannounced => exact ⟨trivial, trivial⟩
  | rejected hannounced => exact everySend_of_unsent hannounced.unsent
  | unprepared hannounced hroster hprepared =>
      exact (everySend_of_unsent hannounced.unsent).append (everySend_of_unsent hprepared.unsent)
  | @walked opening preparing walking closing br roster secrets between _ walk _
      hannounced hroster hprepared hwalk hsettled =>
      refine (((everySend_of_unsent hannounced.unsent).append
        (everySend_of_unsent hprepared.unsent)).append (hwalk.warranted _)).append
          (hsettled.warranted _ ?_)
      rintro blame rfl
      rw [← List.append_assoc]
      constructor
      · rcases hwalk.keyed nofun with ⟨rest, rfl, hrest⟩
        exact ⟨_, _, _, rest, (settingOf s run roster).scope, rfl, hrest, rfl, rfl⟩
      · exact hwalk.justified _

theorem Chain.warranted {left : Nat} {result : Except MixFailure Unit}
    (h : Chain left s carried events result s') : EverySend Warranted past events := by
  induction h generalizing past with
  | cancelled => exact ⟨trivial, trivial⟩
  | confirmed h => exact ⟨trivial, h.warranted _⟩
  | failed h => exact ⟨trivial, h.warranted _⟩
  | exhausted h => exact ⟨trivial, h.warranted _⟩
  | rerun h _ ih => exact EverySend.append ⟨trivial, h.warranted _⟩ (ih _)

theorem Conversation.warranted {result : Except MixFailure Unit}
    (h : Conversation s events result s') : EverySend Warranted [] events := by
  cases h with
  | unread => exact ⟨trivial, trivial, trivial⟩
  | unsent => exact ⟨trivial, trivial, trivial, trivial⟩
  | ran unmixed h =>
      refine EverySend.append (EverySend.append ?_ (h.warranted _)) ?_
      · exact ⟨trivial, trivial, trivial⟩
      · exact ⟨trivial, trivial⟩

end Runs

/-!
## Lines
-/

theorem readEnding_eq_ok {kind : Kind} {limit : Nat} {ending : Link.Ending} {m : kind.Message}
    (h : readEnding kind.codec limit ending = .ok m) :
    exists octets text, ending = .line octets ∧ Utf8.decode octets = .ok text ∧
      kind.codec.decode (Text.trimEnd text) = .ok m := by
  cases ending with
  | line octets =>
      rcases bind_eq_ok h with ⟨text, htext, hm⟩
      exact ⟨octets, text, rfl, mapError_eq_ok htext, mapError_eq_ok hm⟩
  | full octets =>
      rcases bind_eq_ok h with ⟨_, _, hm⟩
      cases hm
  | ended octets =>
      rcases bind_eq_ok h with ⟨_, _, hm⟩
      cases hm
  | failed text => cases h
  | expired => cases h
  | cancelled => cases h

/-- Whoever answers over a link takes one line for an answer. -/
theorem receive_eq_ok {r r' : Rehearsal} {kind : Kind} {limit : Nat} {m : kind.Message}
    (h : Rehearsal.partner (.receive kind limit) r = (.ok m, r')) :
    exists octets text link,
      r.link.readLine { deadline := r.link.deadline (some limit), heedsCancel := false } =
          (.line octets, link) ∧
        r' = { r with link } ∧ Utf8.decode octets = .ok text ∧
          kind.codec.decode (Text.trimEnd text) = .ok m := by
  have hanswer : readEnding kind.codec limit (r.link.readLine
      { deadline := r.link.deadline (some limit), heedsCancel := false }).1 = .ok m :=
    congrArg Prod.fst h
  rcases readEnding_eq_ok hanswer with ⟨octets, text, hending, htext, hm⟩
  refine ⟨octets, text, _, Prod.ext hending rfl, ?_, htext, hm⟩
  exact (congrArg Prod.snd h).symm

/-!
## The messages of a session
-/

/-- Whatever a session is answered, its messages follow the script, and each of
them is warranted by the exchanges before it.  Every answer over a link stands on
one line. -/
theorem messages_follow_script (s s' : Session) (events : List Exchange)
    (result : Except MixFailure Unit) (h : Traces s.perform events (result, s')) :
    (exists script, Script 0 script ∧ written events <+: (.pairRequest, none) :: script) ∧
    (forall before kind m limit answer after,
      events = before ++ ⟨.send kind m limit, answer⟩ :: after -> Warranted before kind m) ∧
    forall (r r' : Rehearsal) kind limit m,
      Rehearsal.partner (.receive kind limit) r = (.ok m, r') ->
      exists octets text link,
        r.link.readLine { deadline := r.link.deadline (some limit), heedsCancel := false } =
            (.line octets, link) ∧
          r' = { r with link } ∧ Utf8.decode octets = .ok text ∧
            kind.codec.decode (Text.trimEnd text) = .ok m := by
  have hconversation := conversation_of_traces h
  refine ⟨hconversation.written_cases, ?_, ?_⟩
  · intro before kind m limit answer after hevents
    exact hconversation.warranted.send hevents
  · intro r r' kind limit m hreceive
    exact receive_eq_ok hreceive

/-- A lone peer that reveals its secrets has been asked for them. -/
theorem messages_follow_script_of_lone_peer :
    exists ciphertext vectors,
      Traces (loneSession ⟨Bytes.zeros 32⟩ Settings.default).perform
        (loneExchanges ⟨Bytes.zeros 32⟩ Settings.default (Bytes.zeros 32) (Bytes.zeros 20)
            ciphertext vectors ++
          loneReveal ⟨Bytes.zeros 32⟩ Settings.default (Bytes.zeros 32) (Bytes.zeros 20) ::
            [⟨.cancelled, true⟩, ⟨.close, ()⟩])
        (.error .cancelled,
          lonePrepared ⟨Bytes.zeros 32⟩ Settings.default (Bytes.zeros 32) (Bytes.zeros 20) true) ∧
      Warranted
        (loneExchanges ⟨Bytes.zeros 32⟩ Settings.default (Bytes.zeros 32) (Bytes.zeros 20)
          ciphertext vectors)
        .revealSecrets
        (loneRevelation ⟨Bytes.zeros 32⟩ Settings.default (Bytes.zeros 32) (Bytes.zeros 20)) := by
  have hmessage : (Bytes.zeros 20).length = messageSize := List.length_replicate
  rcases traces_perform ⟨Bytes.zeros 32⟩ Settings.default (Bytes.zeros 32) hmessage with
    ⟨ciphertext, vectors, htraces⟩
  refine ⟨ciphertext, vectors, htraces, ?_⟩
  exact (messages_follow_script _ _ _ _ htraces).right.left _ _ _ _ _ _ rfl

end Session
end PeerMix
