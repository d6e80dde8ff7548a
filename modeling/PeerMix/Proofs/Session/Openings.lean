import PeerMix.Proofs.Session.KeyReplies
import PeerMix.Proofs.Session.Runs

/-!
# How runs open

A walk through a run opens with the own keys.  If the answer is complete, the own
ciphertexts follow at once, and if it is refused, the walk has failed.  All that
comes later in a run draws no randomness, shows neither keys nor ciphertexts and
asks for no key exchanges.
-/

namespace PeerMix
namespace Session

open Wire DcNet Dialogue

/-!
## Quiet exchanges
-/

/-- The questions that open a call or a run: the request, the draws, the keys with their
answer and the ciphertexts. -/
def opens : Question -> Bool
  | .draw _ => true
  | .send .pairRequest _ _ => true
  | .send .keyExchange _ _ => true
  | .receive .keyExchanges _ => true
  | .send .ciphertexts _ _ => true
  | _ => false

def Quiet (events : List Exchange) : Prop :=
  forall e, e ∈ events -> opens e.question = false

theorem opens_receive {kind : Kind} (h : kind ≠ .keyExchanges) (limit : Nat) :
    opens (.receive kind limit) = false := by
  cases kind with
  | keyExchanges => exact absurd rfl h
  | _ => rfl

theorem quiet_nil : Quiet [] := by
  simp [Quiet]

section Quiet

variable {s : RunSetting} {events : List Exchange}

theorem Quiet.append {first last : List Exchange} (hfirst : Quiet first) (hlast : Quiet last) :
    Quiet (first ++ last) := by
  intro e he
  rcases List.mem_append.mp he with he | he
  · exact hfirst e he
  · exact hlast e he

theorem Quiet.without_ciphertexts (h : Quiet events) : Without .ciphertexts events := by
  intro e he hkind
  have hquiet := h e he
  rcases e with ⟨question, answer⟩
  cases question with
  | send kind m limit =>
      cases hkind
      cases hquiet
  | _ => cases hkind

theorem quiet_cancelled (cancelled : Bool) : Quiet [⟨.cancelled, cancelled⟩] := by
  simp [Quiet, opens]

theorem Announced.quiet {carried : Option BeginRun} {br : BeginRun}
    (h : Announced carried events br) : Quiet events := by
  cases h <;> simp [Quiet, opens]

theorem Turn.opening {kind answerKind : Kind} {m : kind.Message} [Reply answerKind.Message]
    {result : Except Departure answerKind.Message} (h : Turn s kind m answerKind events result)
    (hanswer : answerKind ≠ .keyExchanges) :
    exists answer rest, events = ⟨.send kind m s.settings.sendLimit, answer⟩ :: rest ∧
      Quiet rest := by
  cases h <;> exact ⟨_, _, rfl, by simp [Quiet, received, opens_receive hanswer]⟩

theorem Turn.quiet {kind answerKind : Kind} {m : kind.Message} [Reply answerKind.Message]
    {result : Except Departure answerKind.Message} (h : Turn s kind m answerKind events result)
    (hanswer : answerKind ≠ .keyExchanges)
    (hkind : opens (.send kind m s.settings.sendLimit) = false) : Quiet events := by
  rcases h.opening hanswer with ⟨answer, rest, rfl, hrest⟩
  intro e he
  rcases List.mem_cons.mp he with rfl | he
  · exact hkind
  · exact hrest e he

theorem Ends.quiet {α : Type} {kind : Kind} {m : kind.Message} {answerKind : Kind}
    [Reply answerKind.Message] {accept : answerKind.Message -> Except Departure α}
    {result : Except Departure α} (h : Ends s kind m answerKind accept events result)
    (hanswer : answerKind ≠ .keyExchanges)
    (hkind : opens (.send kind m s.settings.sendLimit) = false) : Quiet events := by
  rcases h with ⟨_, hturn, _⟩
  exact hturn.quiet hanswer hkind

theorem Confirmation.quiet {mix : Bytes} {result : Except Departure Unit}
    (h : Confirmation s mix events result) : Quiet events := by
  cases h with
  | unreadable => simp [Quiet, opens]
  | unconfirmed => simp [Quiet, opens]
  | unwritten => simp [Quiet, opens]
  | left confirmed events d hturn =>
      refine Quiet.append ?_ (hturn.quiet (by decide) rfl)
      simp [Quiet, opens]
  | ended confirmed events answer hturn taken =>
      refine Quiet.append (Quiet.append ?_ (hturn.quiet (by decide) rfl)) ?_
      · simp [Quiet, opens]
      · simp [Quiet, opens]

theorem Revealing.quiet {t t' : Session} {rs : RevealSecrets} {blame : Blame}
    {result : Except MixFailure Unit} (h : Revealing t rs blame events result t') :
    Quiet events := by
  cases h <;> simp [Quiet, opens]

theorem Settled.quiet {t t' : Session} {rs : RevealSecrets} {walk : Except Departure Unit}
    {result : Except MixFailure Outcome} (h : Settled t rs walk events result t') :
    Quiet events := by
  cases h with
  | confirmed => exact quiet_nil
  | failed => exact quiet_nil
  | replaced => exact quiet_nil
  | unrevealed h => exact h.quiet
  | revealed h => exact h.quiet

end Quiet

/-!
## The opening of a walk
-/

section Opening

variable (s : RunSetting) (keys : RunKeys) (commitment : Bytes)

/-- The own keys with their answer, and the ciphertexts if the answer is accepted. -/
inductive Opening : List Exchange → Except Departure Unit → Prop
  | unsent (fault : FrameError) (result : Except Departure Unit) :
      Opening [⟨.send .keyExchange (ownKeys s keys commitment) s.settings.sendLimit, .error fault⟩]
        result
  | unanswered (answer : Except FrameError KeyExchanges) (result : Except Departure Unit)
      (h : forall reply, answer = .ok reply -> ¬Passes .keyExchanges reply) :
      Opening [sent s .keyExchange (ownKeys s keys commitment),
        ⟨.receive .keyExchanges s.settings.receiveLimit, answer⟩] result
  | refused (reply : KeyExchanges) {f : MixFailure} (hpasses : Passes .keyExchanges reply)
      (h : Refusal s.roster (keysIn reply) f) :
      Opening [sent s .keyExchange (ownKeys s keys commitment), received s .keyExchanges reply]
        (.error (.failure f))
  | sealed (reply : KeyExchanges) {points encapsulationKeys ciphertexts : List Bytes}
      (answer : Except FrameError Unit) {rest : List Exchange} (result : Except Departure Unit)
      (hpasses : Passes .keyExchanges reply)
      (haccept : acceptKeys s (Reply.withoutRoster reply) = .ok (points, encapsulationKeys))
      (hmade : (encapsulated keys encapsulationKeys).1 = .ok ciphertexts) (h : Quiet rest) :
      Opening (sent s .keyExchange (ownKeys s keys commitment) :: received s .keyExchanges reply ::
        ⟨.send .ciphertexts (Ciphertexts.make s.identity ciphertexts) s.settings.sendLimit, answer⟩ ::
          rest) result

variable {s keys commitment} {messages : List Bytes} {events : List Exchange}

theorem Plain.delivered {kind : Kind} [Reply kind.Message] {m : kind.Message}
    (h : Plain kind m) : deliverMessage kind (.ok m) = .ok m := by
  have herror : kind.serverError? m = none := by
    rw [Kind.serverError?]
    cases hcode : kind.code? m with
    | none => rfl
    | some code =>
        rw [h.noError code hcode]
        rfl
  rw [deliverMessage, herror]

theorem EndsKeys.opening {d : Departure} (h : EndsKeys s keys commitment events (.error d)) :
    Opening s keys commitment events (.error d) := by
  rcases h with ⟨turned, hturn, hresult⟩
  cases hturn with
  | unsent fault => exact .unsent fault _
  | refused answer fault hfault =>
      apply Opening.unanswered
      rintro reply rfl hpasses
      cases hfault.symm.trans hpasses.delivered
  | replaced answer br hroster hpeers =>
      apply Opening.unanswered
      rintro reply ⟨⟩ hpasses
      exact hpeers (hpasses.noPeers br hroster)
  | asked answer hasks =>
      apply Opening.unanswered
      rintro reply ⟨⟩ hpasses
      cases hasks.asked.symm.trans hpasses.notAsked
  | passed answer hpasses =>
      have hd : (.error d : Except Departure (List Bytes × List Bytes)) =
          (acceptKeys s (Reply.withoutRoster answer)).mapError .failure := hresult
      cases haccept : acceptKeys s (Reply.withoutRoster answer) with
      | error f =>
          rw [haccept] at hd
          cases hd
          exact .refused answer hpasses (refusal_of_acceptKeys haccept)
      | ok known =>
          rw [haccept] at hd
          cases hd

/-- The ciphertexts follow the keys that they are encapsulated to. -/
theorem EndsKeys.sealed {points encapsulationKeys ciphertexts : List Bytes}
    {first last : List Exchange} {turned : Except Departure (List (List PadKey))}
    (hkeys : EndsKeys s keys commitment first (.ok (points, encapsulationKeys)))
    (hmade : (encapsulated keys encapsulationKeys).1 = .ok ciphertexts)
    (h : EndsCiphertexts s keys points encapsulationKeys ciphertexts last turned)
    (result : Except Departure Unit) {rest : List Exchange} (hrest : Quiet rest) :
    Opening s keys commitment (first ++ last ++ rest) result := by
  rcases Ends.ok_cases hkeys with ⟨reply, hpasses, rfl, haccept⟩
  rcases h with ⟨_, hturn, _⟩
  rcases hturn.opening (by decide) with ⟨answer, later, rfl, hlater⟩
  exact .sealed reply answer result hpasses (mapError_eq_ok haccept) hmade (hlater.append hrest)

theorem PadsKnown.opening {rows : List (List PadKey)} (h : PadsKnown s keys commitment events rows)
    (result : Except Departure Unit) {rest : List Exchange} (hrest : Quiet rest) :
    Opening s keys commitment (events ++ rest) result := by
  rcases h with ⟨first, last, _, _, _, hkeys, hmade, hciphertexts, rfl⟩
  exact hkeys.sealed hmade hciphertexts result hrest

theorem SlotsKnown.opening {rows : List (List PadKey)} {slots : List Nat}
    (h : SlotsKnown s keys commitment events rows slots) (result : Except Departure Unit)
    {rest : List Exchange} (hrest : Quiet rest) :
    Opening s keys commitment (events ++ rest) result := by
  rcases h with ⟨first, last, hpads, hslots, rfl⟩
  rw [List.append_assoc]
  exact hpads.opening result ((Ends.quiet hslots (by decide) rfl).append hrest)

theorem MixKnown.opening {mix : Bytes} (h : MixKnown s keys messages commitment events mix)
    (result : Except Departure Unit) {rest : List Exchange} (hrest : Quiet rest) :
    Opening s keys commitment (events ++ rest) result := by
  rcases h with ⟨first, last, _, _, _, hslots, _, hmix, rfl⟩
  rw [List.append_assoc]
  exact hslots.opening result ((Ends.quiet hmix (by decide) rfl).append hrest)

theorem Walk.opening {result : Except Departure Unit}
    (h : Walk s keys messages commitment events result) :
    Opening s keys commitment events result := by
  cases h with
  | keys h => exact h.opening
  | unsealed h hfault =>
      rcases Ends.ok_cases h with ⟨reply, hpasses, rfl, haccept⟩
      exact .refused reply hpasses (refusal_of_encapsulated (mapError_eq_ok haccept) hfault)
  | ciphertexts h hmade hlast =>
      rw [← List.append_nil (_ ++ _)]
      exact h.sealed hmade hlast _ quiet_nil
  | slots h hlast => exact h.opening _ (Ends.quiet hlast (by decide) rfl)
  | uncovered h =>
      rw [← List.append_nil events]
      exact h.opening _ quiet_nil
  | messages h hvectors hlast => exact h.opening _ (Ends.quiet hlast (by decide) rfl)
  | confirmation h hlast => exact h.opening _ hlast.quiet

end Opening

end Session
end PeerMix
