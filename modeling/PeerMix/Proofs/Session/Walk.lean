import PeerMix.Proofs.Session.Turns

/-!
# Walks through a run

A run goes through its stages as far as it gets.  Each of the cumulative
predicates below says which exchanges have led to a stage and what a peer knows
there; a walk stops at one of the stages or is through.
-/

namespace PeerMix
namespace Session

open Wire DcNet Dialogue

section Walk

variable (s : RunSetting) (keys : RunKeys) (messages : List Bytes) (commitment : Bytes)

/-!
## How far a run has come
-/

def EndsKeys (events : List Exchange) (result : Except Departure (List Bytes × List Bytes)) :
    Prop :=
  Ends s .keyExchange (ownKeys s keys commitment) .keyExchanges
    (fun answer => (acceptKeys s answer).mapError .failure) events result

def EndsCiphertexts (points encapsulationKeys ciphertexts : List Bytes) (events : List Exchange)
    (result : Except Departure (List (List PadKey))) : Prop :=
  Ends s .ciphertexts (Ciphertexts.make s.identity ciphertexts) .ciphertextsReply
    (fun answer => (padKeys (encapsulated keys encapsulationKeys).2 points answer.ciphertexts
      (padScope s)).mapError fun fault => .failure (.primitive fault)) events result

def EndsSlots (rows : List (List PadKey)) (events : List Exchange)
    (result : Except Departure (List Nat)) : Prop :=
  Ends s .slotReserve (ownReservation s keys.reservations rows) .recoveredMessages
    (acceptRoots s keys.reservations) events result

def EndsMessages (vectors : List SlotVector) (events : List Exchange)
    (result : Except Departure Bytes) : Prop :=
  Ends s .dcNet (DcNet.make s.identity s.scope.run vectors) .confirmMix
    (fun answer => .ok answer.mix) events result

def PadsKnown (events : List Exchange) (rows : List (List PadKey)) : Prop :=
  exists first last points encapsulationKeys ciphertexts,
    EndsKeys s keys commitment first (.ok (points, encapsulationKeys)) ∧
      (encapsulated keys encapsulationKeys).1 = .ok ciphertexts ∧
        EndsCiphertexts s keys points encapsulationKeys ciphertexts last (.ok rows) ∧
          events = first ++ last

def SlotsKnown (events : List Exchange) (rows : List (List PadKey)) (slots : List Nat) : Prop :=
  exists first last, PadsKnown s keys commitment first rows ∧
    EndsSlots s keys rows last (.ok slots) ∧ events = first ++ last

def MixKnown (events : List Exchange) (mix : Bytes) : Prop :=
  exists first last rows slots vectors, SlotsKnown s keys commitment first rows slots ∧
    messageVectors messageSize s.roster.myStart messages slots rows = .ok vectors ∧
      EndsMessages s vectors last (.ok mix) ∧ events = first ++ last

/-- A walk through the stages of a run and where it ends. -/
inductive Walk : List Exchange → Except Departure Unit → Prop
  | keys {events : List Exchange} {d : Departure} (h : EndsKeys s keys commitment events (.error d)) :
      Walk events (.error d)
  | unsealed {events : List Exchange} {points encapsulationKeys : List Bytes}
      {fault : PrimitiveError}
      (h : EndsKeys s keys commitment events (.ok (points, encapsulationKeys)))
      (hfault : (encapsulated keys encapsulationKeys).1 = .error fault) :
      Walk events (.error (.failure (.primitive fault)))
  | ciphertexts {first last : List Exchange} {points encapsulationKeys ciphertexts : List Bytes}
      {d : Departure} (h : EndsKeys s keys commitment first (.ok (points, encapsulationKeys)))
      (hmade : (encapsulated keys encapsulationKeys).1 = .ok ciphertexts)
      (hlast : EndsCiphertexts s keys points encapsulationKeys ciphertexts last (.error d)) :
      Walk (first ++ last) (.error d)
  | slots {first last : List Exchange} {rows : List (List PadKey)} {d : Departure}
      (h : PadsKnown s keys commitment first rows)
      (hlast : EndsSlots s keys rows last (.error d)) : Walk (first ++ last) (.error d)
  | uncovered {events : List Exchange} {rows : List (List PadKey)} {slots : List Nat}
      {fault : PrimitiveError} (h : SlotsKnown s keys commitment events rows slots)
      (hfault : messageVectors messageSize s.roster.myStart messages slots rows = .error fault) :
      Walk events (.error (.failure (.primitive fault)))
  | messages {first last : List Exchange} {rows : List (List PadKey)} {slots : List Nat}
      {vectors : List SlotVector} {d : Departure}
      (h : SlotsKnown s keys commitment first rows slots)
      (hvectors : messageVectors messageSize s.roster.myStart messages slots rows = .ok vectors)
      (hlast : EndsMessages s vectors last (.error d)) : Walk (first ++ last) (.error d)
  | confirmation {first last : List Exchange} {mix : Bytes} {result : Except Departure Unit}
      (h : MixKnown s keys messages commitment first mix) (hlast : Confirmation s mix last result) :
      Walk (first ++ last) result

variable {s keys messages commitment}

theorem EndsKeys.ne_reveal {events : List Exchange} {blame : Blame}
    (h : EndsKeys s keys commitment events (.error (.reroute (.revealSecrets blame)))) : False := by
  rcases Ends.reroute_cases h with ⟨answer, _, ⟨_, _, _, _, hr⟩ | ⟨hasks, _⟩ | ⟨_, hr⟩⟩
  · cases hr
  · cases hasks.asked
  · exact mapError_failure_ne_reroute _ id _ hr

theorem EndsCiphertexts.ne_reveal {points encapsulationKeys ciphertexts : List Bytes}
    {events : List Exchange} {blame : Blame}
    (h : EndsCiphertexts s keys points encapsulationKeys ciphertexts events
      (.error (.reroute (.revealSecrets blame)))) : False := by
  rcases Ends.reroute_cases h with ⟨answer, _, ⟨_, _, _, _, hr⟩ | ⟨hasks, _⟩ | ⟨_, hr⟩⟩
  · cases hr
  · cases hasks.asked
  · exact mapError_failure_ne_reroute _ .primitive _ hr

theorem walk_of_stages {events : List Exchange} {result : Except Departure Unit}
    (h : Stage.Traces (stages s keys messages commitment) events result) :
    Walk s keys messages commitment events result := by
  rcases Stage.traces_bind h with ⟨d, hkeys, rfl⟩ | ⟨first, known, _, hkeys, hsecond, rfl⟩
  · exact .keys (exchangeKeys_ends hkeys)
  rcases known with ⟨points, encapsulationKeys⟩
  have hknown := exchangeKeys_ends hkeys
  rcases Stage.traces_bind hsecond with ⟨d, hpads, rfl⟩ | ⟨second, rows, _, hpads, hthird, rfl⟩
  · rcases exchangeCiphertexts_cases hpads with ⟨fault, hfault, rfl, hd⟩ | ⟨ciphertexts, hmade, hends⟩
    · cases hd
      rw [List.append_nil]
      exact .unsealed hknown hfault
    · exact .ciphertexts hknown hmade hends
  rcases exchangeCiphertexts_cases hpads with ⟨_, _, _, hrows⟩ | ⟨ciphertexts, hmade, hends⟩
  · cases hrows
  have hpadsKnown : PadsKnown s keys commitment (first ++ second) rows :=
    ⟨first, second, points, encapsulationKeys, ciphertexts, hknown, hmade, hends, rfl⟩
  rw [← List.append_assoc]
  rcases Stage.traces_bind hthird with
    ⟨d, hslots, rfl⟩ | ⟨third, slots, _, hslots, hfourth, rfl⟩
  · exact .slots hpadsKnown (reserveSlots_ends hslots)
  have hslotsKnown : SlotsKnown s keys commitment (first ++ second ++ third) rows slots :=
    ⟨first ++ second, third, hpadsKnown, reserveSlots_ends hslots, rfl⟩
  rw [← List.append_assoc]
  rcases Stage.traces_bind hfourth with ⟨d, hmix, rfl⟩ | ⟨fourth, mix, _, hmix, hfifth, rfl⟩
  · rcases mixMessages_cases hmix with ⟨fault, hfault, rfl, hd⟩ | ⟨vectors, hvectors, hends⟩
    · cases hd
      rw [List.append_nil]
      exact .uncovered hslotsKnown hfault
    · exact .messages hslotsKnown hvectors hends
  rcases mixMessages_cases hmix with ⟨_, _, _, hrows⟩ | ⟨vectors, hvectors, hends⟩
  · cases hrows
  rw [← List.append_assoc]
  have hmixKnown : MixKnown s keys messages commitment (first ++ second ++ third ++ fourth) mix :=
    ⟨first ++ second ++ third, fourth, rows, slots, vectors, hslotsKnown, hvectors, hends, rfl⟩
  exact .confirmation hmixKnown (confirmMix_cases hfifth)

end Walk

/-!
## The key exchange of a walk
-/

def Without (kind : Kind) (events : List Exchange) : Prop :=
  forall e, e ∈ events -> sentKind? e.question ≠ some kind

section Without

variable {s : RunSetting} {other : Kind} {events : List Exchange}

theorem without_append {first last : List Exchange} (hfirst : Without other first)
    (hlast : Without other last) : Without other (first ++ last) := by
  intro e he
  rcases List.mem_append.mp he with he | he
  · exact hfirst e he
  · exact hlast e he

/-- Messages are good in exchanges without the only kind that may be bad. -/
theorem everySend_of_without {good : List Exchange -> (kind : Kind) -> kind.Message -> Prop}
    (hgood : forall past kind (m : kind.Message), kind ≠ other -> good past kind m)
    (h : Without other events) {past : List Exchange} : EverySend good past events := by
  induction events generalizing past with
  | nil => exact trivial
  | cons e events ih =>
      constructor
      · have he := h e List.mem_cons_self
        rcases e with ⟨question, answer⟩
        cases question with
        | send kind m limit => exact hgood past kind m fun heq => he (congrArg some heq)
        | draw | marshal | unmarshal | generate | confirm | receive | awaitRoster | cancelled
        | close => exact trivial
      · exact ih fun other hother => h other (List.mem_cons_of_mem e hother)

theorem Turn.without {kind answerKind : Kind} {m : kind.Message} [Reply answerKind.Message]
    {result : Except Departure answerKind.Message} (h : Turn s kind m answerKind events result)
    (hkind : kind ≠ other) : Without other events := by
  cases h <;> simp [Without, sent, received, sentKind?, hkind]

theorem Ends.without {α : Type} {kind : Kind} {m : kind.Message} {answerKind : Kind}
    [Reply answerKind.Message] {accept : answerKind.Message -> Except Departure α}
    {result : Except Departure α} (h : Ends s kind m answerKind accept events result)
    (hkind : kind ≠ other) : Without other events := by
  rcases h with ⟨_, hturn, _⟩
  exact hturn.without hkind

theorem Confirmation.without {mix : Bytes} {result : Except Departure Unit}
    (h : Confirmation s mix events result) (hkind : .confirmMix ≠ other) :
    Without other events := by
  cases h with
  | unreadable => simp [Without, sentKind?]
  | unconfirmed => simp [Without, sentKind?]
  | unwritten => simp [Without, sentKind?]
  | left confirmed events d hturn =>
      refine without_append ?_ (hturn.without hkind)
      simp [Without, sentKind?]
  | ended confirmed events answer hturn taken =>
      refine without_append (without_append ?_ (hturn.without hkind)) ?_
      · simp [Without, sentKind?]
      · simp [Without, sentKind?]

end Without

section Keyed

variable {s : RunSetting} {keys : RunKeys} {messages : List Bytes} {commitment : Bytes}
  {events : List Exchange}

/-- The exchanges begin with the only key exchange in them. -/
def Keyed (s : RunSetting) (keys : RunKeys) (commitment : Bytes) (events : List Exchange) : Prop :=
  exists rest, events = sent s .keyExchange (ownKeys s keys commitment) :: rest ∧ Without .keyExchange rest

theorem Keyed.append {first last : List Exchange} (h : Keyed s keys commitment first)
    (hlast : Without .keyExchange last) : Keyed s keys commitment (first ++ last) := by
  rcases h with ⟨rest, rfl, hrest⟩
  exact ⟨rest ++ last, rfl, without_append hrest hlast⟩

theorem keyed_answered (answer : KeyExchanges) :
    Keyed s keys commitment [sent s .keyExchange (ownKeys s keys commitment),
      received s .keyExchanges answer] :=
  ⟨_, rfl, by simp [Without, received, sentKind?]⟩

theorem EndsKeys.keyed {known : List Bytes × List Bytes}
    (h : EndsKeys s keys commitment events (.ok known)) : Keyed s keys commitment events := by
  rcases Ends.ok_cases h with ⟨answer, _, rfl, _⟩
  exact keyed_answered answer

theorem PadsKnown.keyed {rows : List (List PadKey)}
    (h : PadsKnown s keys commitment events rows) : Keyed s keys commitment events := by
  rcases h with ⟨first, last, _, _, _, hkeys, _, hciphertexts, rfl⟩
  exact hkeys.keyed.append (Ends.without hciphertexts (by decide))

theorem SlotsKnown.keyed {rows : List (List PadKey)} {slots : List Nat}
    (h : SlotsKnown s keys commitment events rows slots) : Keyed s keys commitment events := by
  rcases h with ⟨first, last, hpads, hslots, rfl⟩
  exact hpads.keyed.append (Ends.without hslots (by decide))

theorem MixKnown.keyed {mix : Bytes} (h : MixKnown s keys messages commitment events mix) :
    Keyed s keys commitment events := by
  rcases h with ⟨first, last, _, _, _, hslots, _, hmix, rfl⟩
  exact hslots.keyed.append (Ends.without hmix (by decide))

theorem Walk.keyed {result : Except Departure Unit}
    (h : Walk s keys messages commitment events result)
    (hresult : forall f, result ≠ .error (.failure f)) : Keyed s keys commitment events := by
  cases h with
  | @keys _ d h =>
      cases d with
      | failure f => exact absurd rfl (hresult f)
      | reroute r =>
          rcases Ends.reroute_cases h with ⟨answer, rfl, _⟩
          exact keyed_answered answer
  | unsealed h => exact absurd rfl (hresult _)
  | ciphertexts h hmade hlast => exact h.keyed.append (Ends.without hlast (by decide))
  | slots h hlast => exact h.keyed.append (Ends.without hlast (by decide))
  | uncovered h => exact absurd rfl (hresult _)
  | messages h hvectors hlast => exact h.keyed.append (Ends.without hlast (by decide))
  | confirmation h hlast => exact h.keyed.append (hlast.without (by decide))

end Keyed

end Session
end PeerMix
