import PeerMix.Proofs.Session.Traces

/-!
# Turns

Every stage has one turn: a message is sent and answered.  This module says once
what a turn can do and what each stage makes of it, so that a trace of a run can
be read without the stages.
-/

namespace PeerMix
namespace Session

open Wire DcNet Dialogue

/-!
## Results
-/

theorem bind_eq_ok {ε α β : Type} {x : Except ε α} {f : α -> Except ε β} {b : β}
    (h : x >>= f = .ok b) : exists a, x = .ok a ∧ f a = .ok b := by
  cases x with
  | error e => cases h
  | ok a => exact ⟨a, rfl, h⟩

theorem mapError_eq_ok {ε ε' α : Type} {x : Except ε α} {f : ε -> ε'} {a : α}
    (h : x.mapError f = .ok a) : x = .ok a := by
  cases x with
  | error e => cases h
  | ok a' =>
      cases h
      rfl

theorem mapError_failure_ne_reroute {ε α : Type} (x : Except ε α) (failure : ε -> MixFailure)
    (r : Reroute) : (x.mapError fun e => Departure.failure (failure e)) ≠ .error (.reroute r) := by
  cases x <;> exact nofun

/-!
## Answers
-/

section Answers

variable (kind : Kind) [Reply kind.Message] (answer : kind.Message)

/-- The answer carries no error code and no roster with peers. -/
structure Plain : Prop where
  noError : forall code, kind.code? answer = some code -> code = 0
  noPeers : forall br, Reply.roster answer = some br -> br.vk = []

/-- The answer lets the run go on. -/
structure Passes : Prop extends Plain kind answer where
  notAsked : Reply.asksForSecrets answer = false

/-- The answer asks for the secrets of the run. -/
structure Asks : Prop extends Plain kind answer where
  asked : Reply.asksForSecrets answer = true

end Answers

theorem code_of_serverError? {kind : Kind} {m : kind.Message} (h : kind.serverError? m = none)
    (code : UInt32) (hcode : kind.code? m = some code) : code = 0 := by
  rw [Kind.serverError?, hcode] at h
  by_cases hzero : code = 0
  · exact hzero
  · have hsome : ServerError.ofCode? code = none := h
    rw [ServerError.ofCode?, if_neg hzero] at hsome
    split at hsome
    · cases hsome
    · split at hsome
      · cases hsome
      · split at hsome <;> cases hsome

theorem deliverMessage_eq_ok {kind : Kind} {received : Except FrameError kind.Message}
    {m : kind.Message} (h : deliverMessage kind received = .ok m) :
    received = .ok m ∧ kind.serverError? m = none := by
  cases received with
  | error fault => cases h
  | ok answer =>
      rw [deliverMessage] at h
      cases herror : kind.serverError? answer with
      | none =>
          rw [herror] at h
          cases h
          exact ⟨rfl, herror⟩
      | some fault =>
          rw [herror] at h
          cases h

theorem vk_of_filter_eq_none {roster : Option BeginRun}
    (h : roster.filter (fun br => !br.vk.isEmpty) = none) (br : BeginRun) (hbr : roster = some br) :
    br.vk = [] := by
  subst hbr
  by_cases hempty : br.vk.isEmpty = true
  · exact List.isEmpty_iff.mp hempty
  · rw [Option.filter_some, if_pos (by simpa using hempty)] at h
    cases h

/-!
## A turn
-/

def sent (s : RunSetting) (kind : Kind) (m : kind.Message) : Exchange :=
  ⟨.send kind m s.settings.sendLimit, .ok ()⟩

def received (s : RunSetting) (kind : Kind) (answer : kind.Message) : Exchange :=
  ⟨.receive kind s.settings.receiveLimit, .ok answer⟩

/-- What can come of sending `m` and waiting for an answer. -/
inductive Turn (s : RunSetting) (kind : Kind) (m : kind.Message) (answerKind : Kind)
    [Reply answerKind.Message] : List Exchange → Except Departure answerKind.Message → Prop
  | unsent (fault : FrameError) :
      Turn s kind m answerKind [⟨.send kind m s.settings.sendLimit, .error fault⟩]
        (.error (.failure (.transport (.send kind fault))))
  | refused (answer : Except FrameError answerKind.Message) (fault : TransportError)
      (h : deliverMessage answerKind answer = .error fault) :
      Turn s kind m answerKind
        [sent s kind m, ⟨.receive answerKind s.settings.receiveLimit, answer⟩]
        (.error (.failure (.transport fault)))
  | replaced (answer : answerKind.Message) (br : BeginRun)
      (hroster : Reply.roster answer = some br) (hpeers : br.vk ≠ [])
      (herror : answerKind.serverError? answer = none) :
      Turn s kind m answerKind [sent s kind m, received s answerKind answer]
        (.error (.reroute (.beginRun br)))
  | asked (answer : answerKind.Message) (h : Asks answerKind answer) :
      Turn s kind m answerKind [sent s kind m, received s answerKind answer]
        (.error (.reroute (.revealSecrets .server)))
  | passed (answer : answerKind.Message) (h : Passes answerKind answer) :
      Turn s kind m answerKind [sent s kind m, received s answerKind answer]
        (.ok (Reply.withoutRoster answer))

section Turn

variable {s : RunSetting} {kind answerKind : Kind} {m : kind.Message} {events : List Exchange}

theorem send_cases {result : Except Departure Unit}
    (h : Stage.Traces (s.send kind m) events result) :
    (exists fault, events = [⟨.send kind m s.settings.sendLimit, .error fault⟩] ∧
      result = .error (.failure (.transport (.send kind fault)))) ∨
    (events = [sent s kind m] ∧ result = .ok ()) := by
  rcases Stage.traces_question_bind h with ⟨answer, _, rfl, hcheck⟩
  rcases Stage.traces_check hcheck with ⟨rfl, rfl⟩
  cases answer with
  | error fault => exact .inl ⟨fault, rfl, rfl⟩
  | ok => exact .inr ⟨rfl, rfl⟩

variable [Reply answerKind.Message]

theorem turn_of_answer {answer : answerKind.Message} {result : Except Departure answerKind.Message}
    (herror : answerKind.serverError? answer = none)
    (h : Stage.Traces (match reroute? answer with
      | (some r, _) => throw (.reroute r)
      | (none, rest) => (pure rest : Stage answerKind.Message)) events result) :
    events = [] ∧
      Turn s kind m answerKind [sent s kind m, received s answerKind answer] result := by
  unfold reroute? at h
  dsimp only at h
  cases hroster : (Reply.roster answer).filter fun br => !br.vk.isEmpty with
  | some br =>
      rw [hroster] at h
      rcases Stage.traces_throw h with ⟨rfl, rfl⟩
      rcases Option.filter_eq_some_iff.mp hroster with ⟨hsome, hnonempty⟩
      refine ⟨rfl, .replaced answer br hsome ?_ herror⟩
      intro hnil
      rw [hnil] at hnonempty
      cases hnonempty
  | none =>
      have hplain : Plain answerKind answer :=
        ⟨code_of_serverError? herror, vk_of_filter_eq_none hroster⟩
      rw [hroster] at h
      dsimp only at h
      by_cases hasked : Reply.asksForSecrets answer = true
      · rw [if_pos hasked] at h
        rcases Stage.traces_throw h with ⟨rfl, rfl⟩
        exact ⟨rfl, .asked answer ⟨hplain, hasked⟩⟩
      · rw [if_neg hasked] at h
        rcases Stage.traces_pure h with ⟨rfl, rfl⟩
        exact ⟨rfl, .passed answer ⟨hplain, by simpa using hasked⟩⟩

theorem turn_of_reply {result : Except Departure answerKind.Message}
    (h : Stage.Traces (s.reply answerKind) events result) :
    Turn s kind m answerKind (sent s kind m :: events) result := by
  rcases Stage.traces_question_bind h with ⟨answer, _, rfl, hanswer⟩
  rcases Stage.traces_check_bind hanswer with ⟨fault, hdeliver, rfl, rfl⟩ | ⟨m, hdeliver, hlast⟩
  · exact .refused answer fault hdeliver
  · rcases deliverMessage_eq_ok hdeliver with ⟨rfl, herror⟩
    rcases turn_of_answer herror hlast with ⟨rfl, hturn⟩
    exact hturn

theorem turn_cases {α : Type} {next : answerKind.Message -> Stage α}
    {result : Except Departure α}
    (h : Stage.Traces (do
      s.send kind m
      let answer ← s.reply answerKind
      next answer) events result) :
    (exists d, Turn s kind m answerKind events (.error d) ∧ result = .error d) ∨
      exists before answer after, Turn s kind m answerKind before (.ok answer) ∧
        Stage.Traces (next answer) after result ∧ events = before ++ after := by
  rcases Stage.traces_bind h with ⟨d, hsend, rfl⟩ | ⟨before, _, after, hsend, hrest, rfl⟩
  · rcases send_cases hsend with ⟨fault, rfl, hd⟩ | ⟨_, hd⟩
    · cases hd
      exact .inl ⟨_, .unsent fault, rfl⟩
    · cases hd
  · rcases send_cases hsend with ⟨_, _, hok⟩ | ⟨rfl, _⟩
    · cases hok
    · rcases Stage.traces_bind hrest with ⟨d, hreply, rfl⟩ | ⟨between, answer, rest, hreply, hnext, rfl⟩
      · exact .inl ⟨d, turn_of_reply hreply, rfl⟩
      · exact .inr ⟨sent s kind m :: between, answer, rest, turn_of_reply hreply, hnext, rfl⟩

end Turn

/-!
## The stages
-/

section Stages

variable {s : RunSetting} {keys : RunKeys} {events : List Exchange}

/-- What a peer makes of the key exchanges. -/
def acceptKeys (s : RunSetting) (answer : KeyExchanges) :
    Except MixFailure (List Bytes × List Bytes) :=
  let present := answer.kes.filterMap id
  if present.length ≠ s.roster.peerCount then
    .error (.keyExchangeCount s.roster.peerCount present.length)
  else
    (readPoints present).map fun points => (points, present.map (·.pqpk))

/-- Key exchanges are refused for their number or for a point; otherwise there is
one of each peer. -/
theorem acceptKeys_cases (s : RunSetting) (answer : KeyExchanges) :
    (exists f, acceptKeys s answer = .error f ∧
      forall fault, f = .primitive fault -> readPoints (answer.kes.filterMap id) = .error f) ∨
    ((answer.kes.filterMap id).length = s.roster.peerCount ∧
      exists points, readPoints (answer.kes.filterMap id) = .ok points ∧
        acceptKeys s answer = .ok (points, (answer.kes.filterMap id).map (·.pqpk))) := by
  unfold acceptKeys
  dsimp only
  by_cases hcount : (answer.kes.filterMap id).length ≠ s.roster.peerCount
  · rw [if_pos hcount]
    exact .inl ⟨_, rfl, nofun⟩
  · rw [if_neg hcount]
    cases hpoints : readPoints (answer.kes.filterMap id) with
    | error f => exact .inl ⟨f, rfl, fun _ _ => rfl⟩
    | ok points => exact .inr ⟨Decidable.of_not_not hcount, points, rfl, rfl⟩

theorem acceptKeys_eq_ok {answer : KeyExchanges} {points encapsulationKeys : List Bytes}
    (h : acceptKeys s answer = .ok (points, encapsulationKeys)) :
    (answer.kes.filterMap id).length = s.roster.peerCount ∧
      readPoints (answer.kes.filterMap id) = .ok points ∧
        encapsulationKeys = (answer.kes.filterMap id).map (·.pqpk) := by
  rcases acceptKeys_cases s answer with ⟨f, hf, _⟩ | ⟨hcount, points, hpoints, haccept⟩
  · cases hf.symm.trans h
  · cases haccept.symm.trans h
    exact ⟨hcount, hpoints, rfl⟩

def ownKeys (s : RunSetting) (keys : RunKeys) (commitment : Bytes) : KeyExchange :=
  KeyExchange.make s.identity s.scope.run keys.key.point keys.key.encapsulationKey commitment

/-- A stage ends with its turn, or with what it makes of the answer. -/
def Ends {α : Type} (s : RunSetting) (kind : Kind) (m : kind.Message) (answerKind : Kind)
    [Reply answerKind.Message] (accept : answerKind.Message -> Except Departure α)
    (events : List Exchange) (result : Except Departure α) : Prop :=
  exists turned, Turn s kind m answerKind events turned ∧ result = turned.bind accept

theorem Ends.ok_cases {α : Type} {kind : Kind} {m : kind.Message} {answerKind : Kind}
    [Reply answerKind.Message] {accept : answerKind.Message -> Except Departure α} {a : α}
    (h : Ends s kind m answerKind accept events (.ok a)) :
    exists answer, Passes answerKind answer ∧
      events = [sent s kind m, received s answerKind answer] ∧
        accept (Reply.withoutRoster answer) = .ok a := by
  rcases h with ⟨turned, hturn, hresult⟩
  cases hturn with
  | unsent => cases hresult
  | refused => cases hresult
  | replaced => cases hresult
  | asked => cases hresult
  | passed answer hpasses => exact ⟨answer, hpasses, rfl, hresult.symm⟩

theorem Ends.reroute_cases {α : Type} {kind : Kind} {m : kind.Message} {answerKind : Kind}
    [Reply answerKind.Message] {accept : answerKind.Message -> Except Departure α} {r : Reroute}
    (h : Ends s kind m answerKind accept events (.error (.reroute r))) :
    exists answer, events = [sent s kind m, received s answerKind answer] ∧
      ((exists br, Reply.roster answer = some br ∧ br.vk ≠ [] ∧
          answerKind.serverError? answer = none ∧ r = .beginRun br) ∨
        (Asks answerKind answer ∧ r = .revealSecrets .server) ∨
        (Passes answerKind answer ∧
          accept (Reply.withoutRoster answer) = .error (.reroute r))) := by
  rcases h with ⟨turned, hturn, hresult⟩
  cases hturn with
  | unsent => cases hresult
  | refused => cases hresult
  | replaced answer br hroster hpeers herror =>
      cases hresult
      exact ⟨answer, rfl, .inl ⟨br, hroster, hpeers, herror, rfl⟩⟩
  | asked answer hasks =>
      cases hresult
      exact ⟨answer, rfl, .inr (.inl ⟨hasks, rfl⟩)⟩
  | passed answer hpasses => exact ⟨answer, rfl, .inr (.inr ⟨hpasses, hresult.symm⟩)⟩

theorem Ends.replaced {α : Type} {kind : Kind} {m : kind.Message} {answerKind : Kind}
    [Reply answerKind.Message] {accept : answerKind.Message -> Except Departure α} {br : BeginRun}
    (h : Ends s kind m answerKind accept events (.error (.reroute (.beginRun br))))
    (haccept : forall answer, accept answer ≠ .error (.reroute (.beginRun br))) :
    exists answer, events = [sent s kind m, received s answerKind answer] ∧
      Reply.roster answer = some br ∧ br.vk ≠ [] := by
  rcases h.reroute_cases with ⟨answer, hevents, ⟨_, hbr, hpeers, _, hr⟩ | ⟨_, hr⟩ | ⟨_, hr⟩⟩
  · cases hr
    exact ⟨answer, hevents, hbr, hpeers⟩
  · cases hr
  · exact absurd hr (haccept _)

theorem exchangeKeys_ends {commitment : Bytes} {result : Except Departure (List Bytes × List Bytes)}
    (h : Stage.Traces (exchangeKeys s keys commitment) events result) :
    Ends s .keyExchange (ownKeys s keys commitment) .keyExchanges
      (fun answer => (acceptKeys s answer).mapError .failure) events result := by
  rcases turn_cases h with ⟨d, hturn, rfl⟩ | ⟨before, answer, after, hturn, hrest, rfl⟩
  · exact ⟨_, hturn, rfl⟩
  · have haccept : after = [] ∧ result = (acceptKeys s answer).mapError .failure := by
      unfold acceptKeys
      rcases Stage.traces_guard hrest with ⟨hcount, rfl, rfl⟩ | ⟨hcount, hrest⟩
      · rw [if_pos hcount]
        exact ⟨rfl, rfl⟩
      · rw [if_neg hcount]
        rcases Stage.traces_check_bind hrest with ⟨f, hpoints, rfl, rfl⟩ | ⟨points, hpoints, hpure⟩
        · rw [hpoints]
          exact ⟨rfl, rfl⟩
        · rw [hpoints]
          exact Stage.traces_pure hpure
    rcases haccept with ⟨rfl, rfl⟩
    rw [List.append_nil]
    exact ⟨_, hturn, rfl⟩

/-- The ciphertexts for all peers, and the key material with the secrets in them. -/
def encapsulated (keys : RunKeys) (encapsulationKeys : List Bytes) :
    Except PrimitiveError (List Bytes) × HybridKey :=
  let made := keys.key.encapsulate keys.encapsulation encapsulationKeys
  (made.1, made.2.1)

theorem exchangeCiphertexts_cases {points encapsulationKeys : List Bytes}
    {result : Except Departure (List (List PadKey))}
    (h : Stage.Traces (exchangeCiphertexts s keys points encapsulationKeys) events result) :
    (exists fault, (encapsulated keys encapsulationKeys).1 = .error fault ∧ events = [] ∧
      result = .error (.failure (.primitive fault))) ∨
    exists ciphertexts, (encapsulated keys encapsulationKeys).1 = .ok ciphertexts ∧
      Ends s .ciphertexts (Ciphertexts.make s.identity ciphertexts) .ciphertextsReply
        (fun answer => (padKeys (encapsulated keys encapsulationKeys).2 points answer.ciphertexts
          (padScope s)).mapError fun fault => .failure (.primitive fault)) events result := by
  rcases Stage.traces_check_bind h with ⟨fault, hmade, rfl, rfl⟩ | ⟨ciphertexts, hmade, hstage⟩
  · exact .inl ⟨fault, hmade, rfl, rfl⟩
  · refine .inr ⟨ciphertexts, hmade, ?_⟩
    rcases turn_cases hstage with ⟨d, hturn, rfl⟩ | ⟨before, answer, after, hturn, hrest, rfl⟩
    · exact ⟨_, hturn, rfl⟩
    · rcases Stage.traces_check hrest with ⟨rfl, rfl⟩
      rw [List.append_nil]
      exact ⟨_, hturn, rfl⟩

/-- What a peer makes of the roots. -/
def acceptRoots (s : RunSetting) (reservations : List Nat) (answer : RecoveredMessages) :
    Except Departure (List Nat) :=
  if s.roster.total < answer.roots.length then
    .error (.failure (.malformed (.tooManyRoots answer.roots.length s.roster.total)))
  else
    match Slots.sortRoots answer.roots with
    | .error root => .error (.failure (.rootNotInField root))
    | .ok roots =>
        match Slots.resolve? reservations roots with
        | none => .error (.reroute (.revealSecrets .client))
        | some slots => .ok slots

/-- Roots are refused for what is wrong with them; otherwise there are no more of
them than messages, and they give slots or lead to blame. -/
theorem acceptRoots_cases (s : RunSetting) (reservations : List Nat) (answer : RecoveredMessages) :
    (exists f, acceptRoots s reservations answer = .error (.failure f) ∧
      forall fault, f ≠ .primitive fault) ∨
    (answer.roots.length ≤ s.roster.total ∧
      exists order, Slots.sortRoots answer.roots = .ok order ∧
        ((Slots.resolve? reservations order = none ∧
            acceptRoots s reservations answer = .error (.reroute (.revealSecrets .client))) ∨
          exists slots, Slots.resolve? reservations order = some slots ∧
            acceptRoots s reservations answer = .ok slots)) := by
  unfold acceptRoots
  by_cases hcount : s.roster.total < answer.roots.length
  · rw [if_pos hcount]
    exact .inl ⟨_, rfl, nofun⟩
  · rw [if_neg hcount]
    cases horder : Slots.sortRoots answer.roots with
    | error root => exact .inl ⟨_, rfl, nofun⟩
    | ok order =>
        refine .inr ⟨Nat.le_of_not_lt hcount, order, rfl, ?_⟩
        dsimp only
        cases hresolve : Slots.resolve? reservations order with
        | none => exact .inl ⟨rfl, rfl⟩
        | some slots => exact .inr ⟨slots, rfl, rfl⟩

theorem acceptRoots_eq_reroute {reservations : List Nat} {answer : RecoveredMessages} {r : Reroute}
    (h : acceptRoots s reservations answer = .error (.reroute r)) :
    (exists order, Slots.sortRoots answer.roots = .ok order ∧
      Slots.resolve? reservations order = none) ∧ r = .revealSecrets .client := by
  rcases acceptRoots_cases s reservations answer with
    ⟨f, hf, _⟩ | ⟨_, order, horder, ⟨hresolve, hr⟩ | ⟨slots, _, hslots⟩⟩
  · cases hf.symm.trans h
  · cases hr.symm.trans h
    exact ⟨⟨order, horder, hresolve⟩, rfl⟩
  · cases hslots.symm.trans h

theorem acceptRoots_eq_ok {reservations slots : List Nat} {answer : RecoveredMessages}
    (h : acceptRoots s reservations answer = .ok slots) :
    answer.roots.length ≤ s.roster.total ∧
      exists order, Slots.sortRoots answer.roots = .ok order ∧
        Slots.resolve? reservations order = some slots := by
  rcases acceptRoots_cases s reservations answer with
    ⟨f, hf, _⟩ | ⟨hcount, order, horder, ⟨_, hr⟩ | ⟨found, hresolve, hfound⟩⟩
  · cases hf.symm.trans h
  · cases hr.symm.trans h
  · cases hfound.symm.trans h
    exact ⟨hcount, order, horder, hresolve⟩

def ownReservation (s : RunSetting) (reservations : List Nat) (rows : List (List PadKey)) :
    SlotReserve :=
  SlotReserve.make s.identity s.scope.run (reservationVectors s.roster.myStart reservations rows)

theorem reserveSlots_ends {reservations : List Nat} {rows : List (List PadKey)}
    {result : Except Departure (List Nat)}
    (h : Stage.Traces (reserveSlots s reservations rows) events result) :
    Ends s .slotReserve (ownReservation s reservations rows) .recoveredMessages
      (acceptRoots s reservations) events result := by
  rcases turn_cases h with ⟨d, hturn, rfl⟩ | ⟨before, answer, after, hturn, hrest, rfl⟩
  · exact ⟨_, hturn, rfl⟩
  · have haccept : after = [] ∧ result = acceptRoots s reservations answer := by
      unfold acceptRoots
      rcases Stage.traces_guard hrest with ⟨hcount, rfl, rfl⟩ | ⟨hcount, hrest⟩
      · rw [if_pos hcount]
        exact ⟨rfl, rfl⟩
      · rw [if_neg hcount]
        rcases Stage.traces_check_bind hrest with ⟨root, hroots, rfl, rfl⟩ | ⟨roots, hroots, hrest⟩
        · rw [hroots]
          exact ⟨rfl, rfl⟩
        · rw [hroots]
          dsimp only
          cases hresolve : Slots.resolve? reservations roots with
          | none =>
              rw [hresolve] at hrest
              exact Stage.traces_throw hrest
          | some slots =>
              rw [hresolve] at hrest
              exact Stage.traces_pure hrest
    rcases haccept with ⟨rfl, rfl⟩
    rw [List.append_nil]
    exact ⟨_, hturn, rfl⟩

theorem mixMessages_cases {messages : List Bytes} {slots : List Nat} {rows : List (List PadKey)}
    {result : Except Departure Bytes}
    (h : Stage.Traces (mixMessages s messages slots rows) events result) :
    (exists fault, messageVectors messageSize s.roster.myStart messages slots rows = .error fault ∧
      events = [] ∧ result = .error (.failure (.primitive fault))) ∨
    exists vectors, messageVectors messageSize s.roster.myStart messages slots rows = .ok vectors ∧
      Ends s .dcNet (DcNet.make s.identity s.scope.run vectors) .confirmMix
        (fun answer => .ok answer.mix) events result := by
  rcases Stage.traces_check_bind h with ⟨fault, hvectors, rfl, rfl⟩ | ⟨vectors, hvectors, hstage⟩
  · exact .inl ⟨fault, hvectors, rfl, rfl⟩
  · refine .inr ⟨vectors, hvectors, ?_⟩
    rcases turn_cases hstage with ⟨d, hturn, rfl⟩ | ⟨before, answer, after, hturn, hrest, rfl⟩
    · exact ⟨_, hturn, rfl⟩
    · rcases Stage.traces_pure hrest with ⟨rfl, rfl⟩
      rw [List.append_nil]
      exact ⟨_, hturn, rfl⟩

/-- Where a failure of the owner of the payload leads. -/
def judgement (e : PayloadError) : Departure :=
  if e.isMissingMessage then .reroute (.revealSecrets .client) else .failure (.confirm e)

theorem judgement_eq_reroute {e : PayloadError} {r : Reroute} (h : judgement e = .reroute r) :
    (exists text, e = .missingMessage text) ∧ r = .revealSecrets .client := by
  cases e with
  | missingMessage text =>
      cases h
      exact ⟨⟨text, rfl⟩, rfl⟩
  | invalid text => cases h
  | other text => cases h

theorem judge_cases {α : Type} {x : Except PayloadError Unit} {next : Stage α}
    {result : Except Departure α} (h : Stage.Traces (do judge x; next) events result) :
    (exists e, x = .error e ∧ events = [] ∧ result = .error (judgement e)) ∨
      (x = .ok () ∧ Stage.Traces next events result) := by
  cases x with
  | ok => exact .inr ⟨rfl, h⟩
  | error e =>
      refine .inl ⟨e, rfl, ?_⟩
      unfold judge at h
      unfold judgement
      dsimp only at h
      by_cases hmissing : e.isMissingMessage = true
      · rw [if_pos hmissing] at h ⊢
        rcases Stage.traces_bind h with ⟨d, hthrow, rfl⟩ | ⟨_, _, _, hthrow, _, _⟩
        · rcases Stage.traces_throw hthrow with ⟨hevents, hd⟩
          cases hd
          exact ⟨hevents, rfl⟩
        · rcases Stage.traces_throw hthrow with ⟨_, hd⟩
          cases hd
      · rw [if_neg hmissing] at h ⊢
        rcases Stage.traces_bind h with ⟨d, hfail, rfl⟩ | ⟨_, _, _, hfail, _, _⟩
        · rcases Stage.traces_fail hfail with ⟨hevents, hd⟩
          cases hd
          exact ⟨hevents, rfl⟩
        · rcases Stage.traces_fail hfail with ⟨_, hd⟩
          cases hd

/-- What can come of confirming a merged payload. -/
inductive Confirmation (s : RunSetting) (mix : Bytes) :
    List Exchange → Except Departure Unit → Prop
  | unreadable (e : PayloadError) :
      Confirmation s mix [⟨.unmarshal mix, .error e⟩] (.error (judgement e))
  | unconfirmed (e : PayloadError) :
      Confirmation s mix [⟨.unmarshal mix, .ok ()⟩, ⟨.confirm, .error e⟩] (.error (judgement e))
  | unwritten (e : PayloadError) :
      Confirmation s mix [⟨.unmarshal mix, .ok ()⟩, ⟨.confirm, .ok ()⟩, ⟨.marshal, .error e⟩]
        (.error (.failure (.payload e)))
  | left (confirmed : Bytes) (events : List Exchange) (d : Departure)
      (h : Turn s .confirmMix (ConfirmMix.make s.identity confirmed) .confirmMix events (.error d)) :
      Confirmation s mix
        ([⟨.unmarshal mix, .ok ()⟩, ⟨.confirm, .ok ()⟩, ⟨.marshal, .ok confirmed⟩] ++ events)
        (.error d)
  | ended (confirmed : Bytes) (events : List Exchange) (answer : ConfirmMix)
      (h : Turn s .confirmMix (ConfirmMix.make s.identity confirmed) .confirmMix events (.ok answer))
      (taken : Except PayloadError Unit) :
      Confirmation s mix
        ([⟨.unmarshal mix, .ok ()⟩, ⟨.confirm, .ok ()⟩, ⟨.marshal, .ok confirmed⟩] ++ events ++
          [⟨.unmarshal answer.mix, taken⟩])
        (taken.mapError fun e => .failure (.payload e))

theorem confirmMix_cases {mix : Bytes} {result : Except Departure Unit}
    (h : Stage.Traces (confirmMix s mix) events result) : Confirmation s mix events result := by
  rcases Stage.traces_question_bind h with ⟨read, afterRead, rfl, hread⟩
  rcases judge_cases hread with ⟨e, rfl, rfl, rfl⟩ | ⟨rfl, hread⟩
  · exact .unreadable e
  rcases Stage.traces_question_bind hread with ⟨settled, afterSettled, rfl, hsettled⟩
  rcases judge_cases hsettled with ⟨e, rfl, rfl, rfl⟩ | ⟨rfl, hsettled⟩
  · exact .unconfirmed e
  rcases Stage.traces_question_bind hsettled with ⟨written, afterWritten, rfl, hwritten⟩
  rcases Stage.traces_check_bind hwritten with ⟨e, rfl, rfl, rfl⟩ | ⟨confirmed, rfl, hturns⟩
  · exact .unwritten e
  rcases turn_cases hturns with ⟨d, hturn, rfl⟩ | ⟨before, answer, after, hturn, hlast, rfl⟩
  · exact .left confirmed _ d hturn
  · rcases Stage.traces_question_bind hlast with ⟨taken, rest, rfl, hcheck⟩
    rcases Stage.traces_check hcheck with ⟨rfl, rfl⟩
    exact .ended confirmed before answer hturn taken

end Stages

end Session
end PeerMix
