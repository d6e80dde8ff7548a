import PeerMix.Proofs.Session.Indifference
import PeerMix.Proofs.Session.Interruption
import PeerMix.Proofs.Session.Openings
import PeerMix.Proofs.Session.Replay

/-!
# What a peer checks in key exchanges

A peer encapsulates to the keys that it is answered in the order of the answer, as
those of the peers in its roster.  It asks for one pair of keys for each peer and
for their sizes, and an answer that falls short of this is the end of the session's
call.  Who has made the keys, and for which run, is for the coordinator to check.
-/

namespace PeerMix
namespace Session

open Wire Dialogue

/-!
## Judging answers
-/

/-- Whether an exchange is lawful, given what an answer with key exchanges calls for. -/
def AtReply (law : List Exchange -> KeyExchanges -> List Exchange -> Prop)
    (past after : List Exchange) : Exchange -> Prop
  | ⟨.receive .keyExchanges _, .ok reply⟩ => law past reply after
  | _ => True

/-- Every answer with key exchanges is lawful between all that precedes it and all that
follows. -/
def EveryReply (law : List Exchange -> KeyExchanges -> List Exchange -> Prop)
    (past : List Exchange) : List Exchange -> Prop
  | [] => True
  | e :: after => AtReply law past after e ∧ EveryReply law (past ++ [e]) after

section EveryReply

variable {law : List Exchange -> KeyExchanges -> List Exchange -> Prop} {past : List Exchange}

theorem AtReply.mono {law' : List Exchange -> KeyExchanges -> List Exchange -> Prop}
    {after after' : List Exchange} {e : Exchange} (h : AtReply law past after e)
    (hlaw : forall reply, law past reply after -> law' past reply after') :
    AtReply law' past after' e := by
  rcases e with ⟨question, answer⟩
  cases question with
  | receive kind limit =>
      cases kind with
      | keyExchanges =>
          cases answer with
          | error fault => trivial
          | ok reply => exact hlaw reply h
      | _ => trivial
  | _ => trivial

theorem EveryReply.append {law' : List Exchange -> KeyExchanges -> List Exchange -> Prop}
    {first last : List Exchange} (hfirst : EveryReply law past first)
    (hlaw : forall past reply after, law past reply after -> law' past reply (after ++ last))
    (hlast : EveryReply law' (past ++ first) last) : EveryReply law' past (first ++ last) := by
  induction first generalizing past with
  | nil =>
      rw [List.append_nil] at hlast
      exact hlast
  | cons e first ih =>
      constructor
      · exact hfirst.left.mono fun reply => hlaw past reply first
      · apply ih hfirst.right
        rw [List.append_assoc]
        exact hlast

theorem EveryReply.reply {events before after : List Exchange} {limit : Nat}
    {reply : KeyExchanges} (h : EveryReply law past events)
    (hevents : events = before ++ ⟨.receive .keyExchanges limit, .ok reply⟩ :: after) :
    law (past ++ before) reply after := by
  induction before generalizing past events with
  | nil =>
      subst hevents
      rw [List.append_nil]
      exact h.left
  | cons e before ih =>
      subst hevents
      have hrest := ih h.right rfl
      rw [List.append_assoc] at hrest
      exact hrest

end EveryReply

/-!
## What follows key exchanges
-/

/-- The ciphertexts follow a complete answer to the own key exchange, and each is
encapsulated to the encapsulation key at its place in the answer. -/
def Answered (own : Bytes) (count : UInt32) (past : List Exchange) :
    (kind : Kind) -> kind.Message -> Prop
  | .ciphertexts, m => exists earlier ke sendLimit receiveLimit reply br roster r,
      past = earlier ++ [⟨.send .keyExchange ke sendLimit, .ok ()⟩,
        ⟨.receive .keyExchanges receiveLimit, .ok reply⟩] ∧
      latestRoster earlier = some br ∧ Roster.ofBeginRun br own count = .ok roster ∧
      Plain .keyExchanges reply ∧ Complete roster (keysIn reply) ∧
      (HybridKey.encapsulateEach ((keysIn reply).map (·.2)) r).1 = .ok m.ciphertexts
  | _, _ => True

/-- A plain answer is followed by the own ciphertexts if it is complete for the latest
roster.  Otherwise the end is a failure that says why. -/
def Verdict (own : Bytes) (count : UInt32) (fails : List Exchange -> MixFailure -> Prop)
    (past : List Exchange) (reply : KeyExchanges) (after : List Exchange) : Prop :=
  Plain .keyExchanges reply -> exists br roster, latestRoster past = some br ∧
    Roster.ofBeginRun br own count = .ok roster ∧
      ((Complete roster (keysIn reply) ∧ exists m limit answer rest,
          after = ⟨.send .ciphertexts m limit, answer⟩ :: rest) ∨
        exists f, fails after f ∧ Refusal roster (keysIn reply) f)

structure Checked (own : Bytes) (count : UInt32) (fails : List Exchange -> MixFailure -> Prop)
    (past events : List Exchange) : Prop where
  sends : EverySend (Answered own count) past events
  replies : EveryReply (Verdict own count fails) past events

/-- The exchanges in which neither ciphertexts are sent nor key exchanges received. -/
def Keyless (events : List Exchange) : Prop :=
  Without .ciphertexts events ∧
    forall e, e ∈ events -> forall limit, e.question ≠ .receive .keyExchanges limit

section Checked

variable {own : Bytes} {count : UInt32} {fails : List Exchange -> MixFailure -> Prop}
  {past events : List Exchange}

theorem Checked.append {fails' : List Exchange -> MixFailure -> Prop} {first last : List Exchange}
    (hfirst : Checked own count fails past first)
    (hfails : forall after f, fails after f -> fails' (after ++ last) f)
    (hlast : Checked own count fails' (past ++ first) last) :
    Checked own count fails' past (first ++ last) := by
  refine ⟨hfirst.sends.append hlast.sends, hfirst.replies.append ?_ hlast.replies⟩
  intro past reply after hverdict hplain
  rcases hverdict hplain with ⟨br, roster, hbr, hroster, hend⟩
  refine ⟨br, roster, hbr, hroster, ?_⟩
  rcases hend with ⟨hcomplete, m, limit, answer, rest, rfl⟩ | ⟨f, hf, hrefusal⟩
  · exact .inl ⟨hcomplete, m, limit, answer, rest ++ last, rfl⟩
  · exact .inr ⟨f, hfails after f hf, hrefusal⟩

theorem everyReply_of_keyless {law : List Exchange -> KeyExchanges -> List Exchange -> Prop}
    (h : forall e, e ∈ events -> forall limit, e.question ≠ .receive .keyExchanges limit) :
    EveryReply law past events := by
  induction events generalizing past with
  | nil => trivial
  | cons e events ih =>
      constructor
      · have he := h e List.mem_cons_self
        rcases e with ⟨question, answer⟩
        cases question with
        | receive kind limit =>
            cases kind with
            | keyExchanges => exact absurd rfl (he limit)
            | _ => trivial
        | _ => trivial
      · exact ih fun other hother => h other (List.mem_cons_of_mem e hother)

theorem Keyless.everySend (h : Keyless events) : EverySend (Answered own count) past events := by
  apply everySend_of_without _ h.left
  intro past kind m hkind
  cases kind with
  | ciphertexts => exact absurd rfl hkind
  | _ => trivial

theorem Keyless.checked (h : Keyless events) : Checked own count fails past events :=
  ⟨h.everySend, everyReply_of_keyless h.right⟩

theorem Checked.mono {fails' : List Exchange -> MixFailure -> Prop}
    (h : Checked own count fails past events)
    (hfails : forall after f, fails after f -> fails' after f) :
    Checked own count fails' past events := by
  have hnothing : Keyless [] := by simp [Keyless, Without]
  rw [← List.append_nil events]
  refine h.append ?_ hnothing.checked
  intro after f hf
  rw [List.append_nil]
  exact hfails after f hf

theorem Keyless.append_checked {first last : List Exchange} (hfirst : Keyless first)
    (hlast : Checked own count fails (past ++ first) last) :
    Checked own count fails past (first ++ last) := by
  have hchecked : Checked own count (fun _ _ => False) past first := hfirst.checked
  exact hchecked.append (fun _ _ => False.elim) hlast

theorem Quiet.keyless (h : Quiet events) : Keyless events := by
  refine ⟨h.without_ciphertexts, ?_⟩
  intro e he limit hquestion
  have hquiet := h e he
  rw [hquestion] at hquiet
  cases hquiet

end Checked

section Runs

variable {s s' : Session} {run : UInt32} {carried : Option BeginRun} {events past : List Exchange}

theorem Preparing.keyless {result : Except MixFailure Secrets}
    (h : Preparing run s events result s') : Keyless events := by
  have hdrawn {result : Except MixFailure Secrets}
      (h : Drawing run s.messageCount.toNat events result) : Keyless events := by
    cases h <;> simp [Keyless, Without, sentKind?]
  cases h with
  | kept => exact quiet_nil.keyless
  | failed _ _ _ hdrawing => exact hdrawn hdrawing
  | drawn _ _ _ hdrawing => exact hdrawn hdrawing

/-- A walk through a run fails as soon as an answer is refused. -/
theorem Opening.checked {t : RunSetting} {keys : RunKeys} {commitment own : Bytes} {count : UInt32}
    {result : Except Departure Unit} {br : BeginRun} (h : Opening t keys commitment events result)
    (hbr : latestRoster past = some br) (hroster : Roster.ofBeginRun br own count = .ok t.roster) :
    Checked own count (fun after f => after = [] ∧ result = .error (.failure f)) past events := by
  have hlatest : latestRoster (past ++ [sent t .keyExchange (ownKeys t keys commitment)]) =
      some br := by
    rw [latestRoster_append (by simp [sent, rosterOf?])]
    exact hbr
  cases h with
  | unsent fault => exact ⟨⟨trivial, trivial⟩, trivial, trivial⟩
  | unanswered answer _ hanswer =>
      refine ⟨⟨trivial, trivial, trivial⟩, trivial, ?_, trivial⟩
      cases answer with
      | error fault => trivial
      | ok reply =>
          intro hplain
          exact absurd ⟨hplain, rfl⟩ (hanswer reply rfl)
  | refused reply _ hrefusal =>
      refine ⟨⟨trivial, trivial, trivial⟩, trivial, ?_, trivial⟩
      intro _
      exact ⟨br, t.roster, hlatest, hroster, .inr ⟨_, ⟨rfl, rfl⟩, hrefusal⟩⟩
  | @sealed reply points encapsulationKeys ciphertexts answer rest _ hpasses haccept hmade hrest =>
      have hcomplete : Complete t.roster (keysIn reply) := complete_of_encapsulated haccept hmade
      refine ⟨⟨trivial, trivial, ?_, hrest.keyless.everySend⟩, trivial, ?_, trivial,
        everyReply_of_keyless hrest.keyless.right⟩
      · rcases keysIn_of_acceptKeys haccept with ⟨_, _, rfl⟩
        exact ⟨past, ownKeys t keys commitment, t.settings.sendLimit, t.settings.receiveLimit,
          reply, br, t.roster, keys.encapsulation, List.append_assoc _ _ _, hbr, hroster,
          hpasses.toPlain, hcomplete, hmade⟩
      · intro _
        exact ⟨br, t.roster, hlatest, hroster, .inl ⟨hcomplete, _, _, _, _, rfl⟩⟩

theorem RunTrace.checked {result : Except MixFailure Outcome}
    (h : RunTrace s run carried events result s')
    (hcarried : forall br, carried = some br -> latestRoster past = some br) :
    Checked s.identity.publicKey s.messageCount
      (fun after f => after = [] ∧ result = .error f) past events := by
  cases h with
  | unannounced limit answer =>
      have hquiet : Quiet [⟨.awaitRoster limit, answer⟩] := by simp [Quiet, opens]
      exact hquiet.keyless.checked
  | rejected hannounced => exact hannounced.quiet.keyless.checked
  | unprepared hannounced hroster hprepared =>
      exact hannounced.quiet.keyless.append_checked hprepared.keyless.checked
  | @walked opening preparing walking closing br roster secrets between _ walk _ hannounced hroster
      hprepared hwalk hsettled =>
      have hlatest : latestRoster (past ++ opening ++ preparing) = some br := by
        rw [latestRoster_append hprepared.rosterless]
        exact hannounced.latest hcarried
      rw [List.append_assoc, List.append_assoc]
      apply hannounced.quiet.keyless.append_checked
      apply hprepared.keyless.append_checked
      refine (hwalk.opening.checked hlatest hroster).append ?_ hsettled.quiet.keyless.checked
      -- A failed walk is settled by its failure, and nothing is said any more.
      rintro after f ⟨rfl, rfl⟩
      cases hsettled
      exact ⟨rfl, rfl⟩

theorem RunTrace.checked_uncancelled {result : Except MixFailure Outcome}
    (h : RunTrace s run carried events result s')
    (hcarried : forall br, carried = some br -> latestRoster past = some br) :
    Checked s.identity.publicKey s.messageCount
      (fun after f => after = [] ∧ result = .error f) past (⟨.cancelled, false⟩ :: events) :=
  (quiet_cancelled false).keyless.append_checked (h.checked (latest_uncancelled hcarried))

theorem Chain.checked {left : Nat} {result : Except MixFailure Unit}
    (h : Chain left s carried events result s')
    (hcarried : forall br, carried = some br -> latestRoster past = some br) :
    Checked s.identity.publicKey s.messageCount
      (fun after f => after = [] ∧ result = .error f) past events := by
  induction h generalizing past with
  | cancelled => exact (quiet_cancelled true).keyless.checked
  | confirmed h =>
      refine (h.checked_uncancelled hcarried).mono ?_
      rintro after f ⟨_, hf⟩
      cases hf
  | failed h =>
      refine (h.checked_uncancelled hcarried).mono ?_
      rintro after f ⟨hafter, hf⟩
      cases hf
      exact ⟨hafter, rfl⟩
  | exhausted h =>
      refine (h.checked_uncancelled hcarried).mono ?_
      rintro after f ⟨_, hf⟩
      cases hf
  | @rerun left s between s' carried roster events rest result h hrest ih =>
      refine (h.checked_uncancelled hcarried).append ?_ ?_
      · rintro after f ⟨_, hf⟩
        cases hf
      · rcases h.same with ⟨hidentity, hcount⟩
        rw [← hidentity, ← hcount]
        apply ih
        intro br hbr
        have hleaves : latestRoster ((past ++ [⟨.cancelled, false⟩]) ++ events) = some br :=
          h.leaves br hbr
        rw [List.append_assoc] at hleaves
        exact hleaves

/-- The end of a call that has failed. -/
def Closed (result : Except MixFailure Unit) (after : List Exchange) (f : MixFailure) : Prop :=
  after = [⟨.close, ()⟩] ∧ result = .error f

theorem Conversation.checked {result : Except MixFailure Unit}
    (h : Conversation s events result s') :
    Checked s.identity.publicKey s.messageCount (Closed result) [] events := by
  cases h with
  | unread =>
      apply Keyless.checked
      simp [Keyless, Without, sentKind?]
  | unsent =>
      apply Keyless.checked
      simp [Keyless, Without, sentKind?]
  | ran unmixed h =>
      have hopening : Keyless [⟨.marshal, .ok unmixed⟩,
          ⟨.send .pairRequest (PairRequest.make s.identity s.commitment unmixed s.messageCount)
            s.settings.sendLimit, .ok ()⟩] := by simp [Keyless, Without, sentKind?]
      have hclosing : Keyless [⟨.close, ()⟩] := by simp [Keyless, Without, sentKind?]
      rw [List.append_assoc]
      apply hopening.append_checked
      refine (h.checked (latest_uncarried _)).append ?_ hclosing.checked
      rintro after f ⟨rfl, hf⟩
      exact ⟨rfl, hf⟩

/-- Whatever a session is answered, its ciphertexts follow an answer that has one pair of
keys of the right sizes for each peer of the latest roster, and they are encapsulated to
these in their order.  Every other answer without an error code or a roster with peers is
the end of the call, which says what is wrong with it.  Runs, commitments and signatures
in the key exchanges make no difference to anything. -/
theorem ciphertexts_follow_complete_keys (s s' : Session) (events : List Exchange)
    (result : Except MixFailure Unit) (h : Traces s.perform events (result, s')) :
    (forall before m limit answer after,
      events = before ++ ⟨.send .ciphertexts m limit, answer⟩ :: after ->
        Answered s.identity.publicKey s.messageCount before .ciphertexts m) ∧
    (forall before limit reply after,
      events = before ++ ⟨.receive .keyExchanges limit, .ok reply⟩ :: after ->
        Verdict s.identity.publicKey s.messageCount (Closed result) before reply after) ∧
    forall events', SameExchanges events events' -> Traces s.perform events' (result, s') := by
  have hchecked := (conversation_of_traces h).checked
  refine ⟨?_, ?_, fun events' hsame => traces_perform_of_sameExchanges h hsame⟩
  · intro before m limit answer after hevents
    exact hchecked.sends.send hevents
  · intro before limit reply after hevents
    exact hchecked.replies.reply hevents

end Runs

/-- A lone peer that is given its own key exchange back encapsulates to it, and just as
well with another run and without a signature. -/
theorem ciphertexts_follow_complete_keys_of_lone_peer :
    let id : Identity := ⟨Bytes.zeros 32⟩
    let own := ownAt id Settings.default (Bytes.zeros 32) (Bytes.zeros 20) 0
    let opening := callOpening id Settings.default (Bytes.zeros 32) (Bytes.zeros 20)
      (drawTurn (Bytes.zeros 32) (Bytes.zeros 20))
    let call := closedCall id Settings.default (Bytes.zeros 32) (Bytes.zeros 20)
      (drawTurn (Bytes.zeros 32) (Bytes.zeros 20))
    let result : Except MixFailure Unit × Session := (.error Cut.interruption,
      lonePrepared id Settings.default (Bytes.zeros 32) (Bytes.zeros 20) false)
    exists ciphertext,
      Traces (loneSession id Settings.default).perform (call own ciphertext) result ∧
      Answered id.publicKey 1 (opening own) .ciphertexts (Ciphertexts.make id [ciphertext]) ∧
      (exists br roster, Roster.ofBeginRun br id.publicKey 1 = .ok roster ∧
        Complete roster [(own.ecdh, own.pqpk)]) ∧
      Traces (loneSession id Settings.default).perform
        (call { own with run := 7, signature := [] } ciphertext) result := by
  intro id own opening call result
  have hmessage : (Bytes.zeros 20).length = messageSize := List.length_replicate
  rcases traces_relabelledCall id Settings.default (Bytes.zeros 32) hmessage own.run
    own.signature with ⟨ciphertext, htraces⟩
  let asked : List Exchange := requestTurn id Settings.default ++ ⟨.cancelled, false⟩ ::
    (rosterTurn id Settings.default 0 false ++ (drawTurn (Bytes.zeros 32) (Bytes.zeros 20) ++
      [sent (settingAt id Settings.default 0) .keyExchange own]))
  let ending : List Exchange :=
    cutTurn id Settings.default 0 ciphertext .closed ++ [⟨.close, ()⟩]
  rcases ciphertexts_follow_complete_keys _ _ _ _ htraces with ⟨hsends, hreplies, hsame⟩
  refine ⟨ciphertext, htraces, hsends (opening own) _ _ _ _ rfl, ?_, ?_⟩
  · have hplain : Plain .keyExchanges { kes := [some own], br := none, err := 0 } := by
      constructor
      · rintro code ⟨⟩
        rfl
      · exact nofun
    rcases hreplies asked _ _ ending rfl hplain with
      ⟨br, roster, _, hroster, ⟨hcomplete, _⟩ | ⟨f, ⟨hclosed, _⟩, _⟩⟩
    · exact ⟨br, roster, hroster, hcomplete⟩
    · simp [ending, cutTurn] at hclosed
  · apply hsame
    have hanswer : SameExchanges
        (received (settingAt id Settings.default 0) .keyExchanges
          { kes := [some own], br := none, err := 0 } :: ending)
        (received (settingAt id Settings.default 0) .keyExchanges
          { kes := [some { own with run := 7, signature := [] }], br := none, err := 0 } ::
            ending) := .cons (.keys _ ⟨rfl, rfl, rfl⟩) (sameExchanges_refl ending)
    exact (sameExchanges_refl asked).append hanswer

/-- A lone peer encapsulates to the keys in a key exchange of another run that nobody has
signed. -/
theorem ciphertexts_follow_unsigned_keys :
    let id : Identity := ⟨Bytes.zeros 32⟩
    let own := ownAt id Settings.default (Bytes.zeros 32) (Bytes.zeros 20) 0
    let foreign : KeyExchange := { own with run := 7, signature := [] }
    foreign.run ≠ own.run ∧ Signed.verify foreign id.publicKey = false ∧
      exists ciphertext rest,
        Traces (loneSession id Settings.default).perform
          (callOpening id Settings.default (Bytes.zeros 32) (Bytes.zeros 20)
              (drawTurn (Bytes.zeros 32) (Bytes.zeros 20)) foreign ++
            sent (settingAt id Settings.default 0) .ciphertexts
              (Ciphertexts.make id [ciphertext]) :: rest)
          (.error Cut.interruption,
            lonePrepared id Settings.default (Bytes.zeros 32) (Bytes.zeros 20) false) := by
  intro id own foreign
  have hmessage : (Bytes.zeros 20).length = messageSize := List.length_replicate
  have hunsigned : Signed.verify foreign id.publicKey = false := by
    rw [Signed.verify, Ed25519.verify]
    exact if_neg fun h => absurd h.right.left (by decide)
  have hrun : foreign.run ≠ own.run := by
    show (7 : UInt32) ≠ 0
    decide
  rcases traces_relabelledCall id Settings.default (Bytes.zeros 32) hmessage 7 [] with
    ⟨ciphertext, htraces⟩
  refine ⟨hrun, hunsigned, ciphertext,
    [⟨.receive .ciphertextsReply Settings.default.receiveLimit, .error .closed⟩, ⟨.close, ()⟩], ?_⟩
  exact htraces

end Session
end PeerMix
