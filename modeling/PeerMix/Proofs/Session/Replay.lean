import PeerMix.Proofs.Session.LonePeer

/-!
# Replaying a run

Revealed secrets are of use for blame only if they bring back what their peer
has shown in the run.  Anyone who holds them and the answers of the coordinator
recomputes every message of the stages.
-/

namespace PeerMix
namespace Session

open Wire DcNet Dialogue

/-!
## The latest roster
-/

def withPeers (roster : Option BeginRun) : Option BeginRun :=
  roster.filter fun br => !br.vk.isEmpty

/-- The roster that arrives with an exchange. -/
def rosterOf? : Exchange -> Option BeginRun
  | ⟨.awaitRoster _, some (.ok br)⟩ => some br
  | ⟨.receive .keyExchanges _, .ok m⟩ => withPeers m.br
  | ⟨.receive .ciphertextsReply _, .ok m⟩ => withPeers m.br
  | ⟨.receive .recoveredMessages _, .ok m⟩ => withPeers m.br
  | ⟨.receive .confirmMix _, .ok m⟩ => withPeers m.br
  | _ => none

def latestRoster (events : List Exchange) : Option BeginRun :=
  (events.filterMap rosterOf?).getLast?

theorem withPeers_eq_some {roster : Option BeginRun} {br : BeginRun} (h : roster = some br)
    (hpeers : br.vk ≠ []) : withPeers roster = some br := by
  rw [h, withPeers, Option.filter_some, if_pos]
  simpa using hpeers

theorem withPeers_eq_none {roster : Option BeginRun}
    (h : forall br, roster = some br -> br.vk = []) : withPeers roster = none := by
  cases roster with
  | none => rfl
  | some br => simp [withPeers, h br rfl]

theorem latestRoster_concat {e : Exchange} {br : BeginRun} (events : List Exchange)
    (h : rosterOf? e = some br) : latestRoster (events ++ [e]) = some br := by
  rw [latestRoster, List.filterMap_append, List.filterMap_cons_some h, List.filterMap_nil,
    List.getLast?_concat]

theorem latestRoster_append {first last : List Exchange}
    (h : forall e, e ∈ last -> rosterOf? e = none) :
    latestRoster (first ++ last) = latestRoster first := by
  rw [latestRoster, List.filterMap_append, List.filterMap_eq_nil_iff.mpr h, List.append_nil,
    latestRoster]

/-!
## What secrets bring back
-/

/-- What a peer has sent and received in a run up to the recovered roots. -/
structure Shown where
  ke : KeyExchange
  kes : KeyExchanges
  ct : Ciphertexts
  cts : CiphertextsReply
  sr : SlotReserve
  roots : RecoveredMessages

namespace Shown

def exchanges (t : Shown) (sendLimit receiveLimit : Nat) : List Exchange :=
  [⟨.send .keyExchange t.ke sendLimit, .ok ()⟩, ⟨.receive .keyExchanges receiveLimit, .ok t.kes⟩,
    ⟨.send .ciphertexts t.ct sendLimit, .ok ()⟩,
    ⟨.receive .ciphertextsReply receiveLimit, .ok t.cts⟩,
    ⟨.send .slotReserve t.sr sendLimit, .ok ()⟩,
    ⟨.receive .recoveredMessages receiveLimit, .ok t.roots⟩]

/-- The key exchanges of all peers that have one. -/
def present (t : Shown) : List KeyExchange :=
  t.kes.kes.filterMap id

end Shown

def replayedKeys (rs : RevealSecrets) (run : UInt32) (count : UInt32) : RunKeys :=
  RunKeys.derive rs.seed rs.seedRun run count.toNat

/-- The keys with the secrets that the run has encapsulated to all peers, and the
ciphertexts of these. -/
def replayedCiphertexts (t : Shown) (rs : RevealSecrets) (count : UInt32) :
    Except PrimitiveError (List Bytes) × HybridKey :=
  encapsulated (replayedKeys rs t.ke.run count) (t.present.map (·.pqpk))

/-- The pad keys that the secrets give with the answers of the coordinator. -/
def replayedRows (t : Shown) (roster : Roster) (rs : RevealSecrets) (count : UInt32) :
    Except MixFailure (List (List PadKey)) := do
  let points ← readPoints t.present
  (padKeys (replayedCiphertexts t rs count).2 points t.cts.ciphertexts
    { sid := roster.sid, run := t.ke.run, size := messageSize, my := roster.my,
      counts := roster.counts }).mapError .primitive

/-- The secrets bring back all that has been shown, and the messages sent later. -/
structure Replays (roster : Roster) (count : UInt32) (rs : RevealSecrets) (t : Shown)
    (later : List Exchange) : Prop where
  commitment :
    t.ke.commitment = rs.commitment { sid := roster.sid, run := t.ke.run, vk := roster.vk }
  reservations : (replayedKeys rs t.ke.run count).reservations = rs.sr
  point : (replayedKeys rs t.ke.run count).key.point = t.ke.ecdh
  encapsulationKey : (replayedKeys rs t.ke.run count).key.encapsulationKey = t.ke.pqpk
  ciphertexts : (replayedCiphertexts t rs count).1 = .ok t.ct.ciphertexts
  slots : exists rows, replayedRows t roster rs count = .ok rows ∧ t.sr.run = t.ke.run ∧
    t.sr.dcMix = reservationVectors roster.myStart rs.sr rows ∧
      forall dc limit answer, ⟨.send .dcNet dc limit, answer⟩ ∈ later ->
        exists order slots vectors, Slots.sortRoots t.roots.roots = .ok order ∧
          Slots.resolve? rs.sr order = some slots ∧
            messageVectors messageSize roster.myStart rs.m slots rows = .ok vectors ∧
              dc.run = t.ke.run ∧ dc.dcNet = vectors.map MixVector.ofSlotVector

/-- The secrets bring back the latest run, which has been held with the latest
roster before it. -/
def Replayable (own : Bytes) (count : UInt32) (past : List Exchange) (rs : RevealSecrets) : Prop :=
  exists before t sendLimit receiveLimit later br roster,
    past = before ++ t.exchanges sendLimit receiveLimit ++ later ∧ Without .keyExchange later ∧
      latestRoster before = some br ∧ Roster.ofBeginRun br own count = .ok roster ∧
        Replays roster count rs t later

theorem Replays.append {roster : Roster} {count : UInt32} {rs : RevealSecrets} {t : Shown}
    {later more : List Exchange} (h : Replays roster count rs t later)
    (hmore : Without .dcNet more) : Replays roster count rs t (later ++ more) := by
  rcases h with ⟨hcommitment, hreservations, hpoint, hkey, hciphertexts, rows, hrows, hrun, hslots,
    hmessages⟩
  refine ⟨hcommitment, hreservations, hpoint, hkey, hciphertexts, rows, hrows, hrun, hslots, ?_⟩
  intro dc limit answer hmem
  rcases List.mem_append.mp hmem with hmem | hmem
  · exact hmessages dc limit answer hmem
  · exact absurd rfl (hmore _ hmem)

theorem Replayable.append {own : Bytes} {count : UInt32} {past more : List Exchange}
    {rs : RevealSecrets} (h : Replayable own count past rs) (hkeys : Without .keyExchange more)
    (hmessages : Without .dcNet more) : Replayable own count (past ++ more) rs := by
  rcases h with ⟨before, t, sendLimit, receiveLimit, later, br, roster, rfl, hlater, hbr, hroster,
    hreplays⟩
  refine ⟨before, t, sendLimit, receiveLimit, later ++ more, br, roster, ?_,
    without_append hlater hkeys, hbr, hroster, hreplays.append hmessages⟩
  rw [List.append_assoc]

/-!
## Walks that lead to the secrets
-/

section Walk

variable {s : RunSetting} {keys : RunKeys} {messages : List Bytes} {commitment : Bytes}
  {events : List Exchange}

def shownOf (s : RunSetting) (keys : RunKeys) (commitment : Bytes) (kes : KeyExchanges)
    (ciphertexts : List Bytes) (cts : CiphertextsReply) (rows : List (List PadKey))
    (roots : RecoveredMessages) : Shown :=
  { ke := ownKeys s keys commitment
    kes
    ct := Ciphertexts.make s.identity ciphertexts
    cts
    sr := ownReservation s keys.reservations rows
    roots }

/-- The messages sent later are those that the roots call for. -/
def Follows (s : RunSetting) (keys : RunKeys) (messages : List Bytes) (rows : List (List PadKey))
    (roots : RecoveredMessages) (later : List Exchange) : Prop :=
  Without .keyExchange later ∧ forall dc limit answer, ⟨.send .dcNet dc limit, answer⟩ ∈ later ->
    exists slots vectors, acceptRoots s keys.reservations roots = .ok slots ∧
      messageVectors messageSize s.roster.myStart messages slots rows = .ok vectors ∧
        dc = DcNet.make s.identity s.scope.run vectors

theorem follows_nil (rows : List (List PadKey)) (roots : RecoveredMessages) :
    Follows s keys messages rows roots [] := by
  constructor
  · simp [Without]
  · simp

theorem Follows.append {rows : List (List PadKey)} {roots : RecoveredMessages}
    {later more : List Exchange} (h : Follows s keys messages rows roots later)
    (hkeys : Without .keyExchange more) (hmessages : Without .dcNet more) :
    Follows s keys messages rows roots (later ++ more) := by
  constructor
  · exact without_append h.left hkeys
  · intro dc limit answer hmem
    rcases List.mem_append.mp hmem with hmem | hmem
    · exact h.right dc limit answer hmem
    · exact absurd rfl (hmessages _ hmem)

theorem Turn.message_eq {kind answerKind : Kind} {m sent : kind.Message} [Reply answerKind.Message]
    {result : Except Departure answerKind.Message} (h : Turn s kind m answerKind events result)
    {limit : Nat} {answer : Except FrameError Unit}
    (hmem : ⟨.send kind sent limit, answer⟩ ∈ events) : sent = m := by
  cases h <;> simp_all [Session.sent, received]

theorem EndsMessages.follows {rows : List (List PadKey)} {roots : RecoveredMessages}
    {slots : List Nat} {vectors : List SlotVector} {result : Except Departure Bytes}
    (h : EndsMessages s vectors events result)
    (hroots : acceptRoots s keys.reservations roots = .ok slots)
    (hvectors : messageVectors messageSize s.roster.myStart messages slots rows = .ok vectors) :
    Follows s keys messages rows roots events := by
  constructor
  · exact Ends.without h (by decide)
  · rcases h with ⟨_, hturn, _⟩
    intro dc limit answer hmem
    refine ⟨slots, vectors, hroots, hvectors, ?_⟩
    exact hturn.message_eq hmem

def RootsShown (s : RunSetting) (keys : RunKeys) (commitment : Bytes) (events : List Exchange)
    (rows : List (List PadKey)) (roots : RecoveredMessages) : Prop :=
  exists kes points ciphertexts cts,
    events = (shownOf s keys commitment kes ciphertexts cts rows roots).exchanges
      s.settings.sendLimit s.settings.receiveLimit ∧
    readPoints (kes.kes.filterMap id) = .ok points ∧
      (encapsulated keys ((kes.kes.filterMap id).map (·.pqpk))).1 = .ok ciphertexts ∧
        padKeys (encapsulated keys ((kes.kes.filterMap id).map (·.pqpk))).2 points cts.ciphertexts
          (padScope s) = .ok rows

theorem PadsKnown.rootsShown {rows : List (List PadKey)}
    (h : PadsKnown s keys commitment events rows) (roots : RecoveredMessages) :
    RootsShown s keys commitment (events ++
      [sent s .slotReserve (ownReservation s keys.reservations rows),
        received s .recoveredMessages roots]) rows roots := by
  rcases h with ⟨first, last, points, encapsulationKeys, ciphertexts, hkeys, hmade, hpads, rfl⟩
  rcases Ends.ok_cases hkeys with ⟨kes, _, rfl, haccept⟩
  rcases Ends.ok_cases hpads with ⟨cts, _, rfl, hrows⟩
  rcases acceptKeys_eq_ok (mapError_eq_ok haccept) with ⟨_, hpoints, rfl⟩
  exact ⟨kes, points, ciphertexts, cts, rfl, hpoints, hmade, mapError_eq_ok hrows⟩

theorem SlotsKnown.rootsShown {rows : List (List PadKey)} {slots : List Nat}
    (h : SlotsKnown s keys commitment events rows slots) :
    exists roots, RootsShown s keys commitment events rows roots ∧
      acceptRoots s keys.reservations roots = .ok slots := by
  rcases h with ⟨first, last, hpads, hslots, rfl⟩
  rcases Ends.ok_cases hslots with ⟨roots, _, rfl, haccept⟩
  exact ⟨roots, hpads.rootsShown roots, haccept⟩

theorem Walk.rootsShown {blame : Blame}
    (h : Walk s keys messages commitment events (.error (.reroute (.revealSecrets blame)))) :
    exists first rows roots later, events = first ++ later ∧
      RootsShown s keys commitment first rows roots ∧
        Follows s keys messages rows roots later := by
  generalize hresult : Except.error (Departure.reroute (.revealSecrets blame)) = result at h
  cases h with
  | keys h =>
      cases hresult
      cases h.ne_reveal
  | unsealed => cases hresult
  | ciphertexts h hmade hlast =>
      cases hresult
      cases hlast.ne_reveal
  | @slots first last rows d h hlast =>
      cases hresult
      rcases Ends.reroute_cases hlast with ⟨roots, rfl, _⟩
      refine ⟨_, rows, roots, [], ?_, h.rootsShown roots, follows_nil rows roots⟩
      rw [List.append_nil]
  | uncovered => cases hresult
  | @messages first last rows slots vectors d h hvectors hlast =>
      rcases h.rootsShown with ⟨roots, hshown, hroots⟩
      exact ⟨first, rows, roots, last, rfl, hshown, hlast.follows hroots hvectors⟩
  | @confirmation first last mix _ h hlast =>
      rcases h with ⟨before, mixing, rows, slots, vectors, hslots, hvectors, hmix, rfl⟩
      rcases hslots.rootsShown with ⟨roots, hshown, hroots⟩
      refine ⟨before, rows, roots, mixing ++ last, ?_, hshown, ?_⟩
      · rw [List.append_assoc]
      · exact (hmix.follows hroots hvectors).append (hlast.without (by decide))
          (hlast.without (by decide))

theorem latestRoster_exchanged {m e : Exchange} {br : BeginRun} (past first : List Exchange)
    (h : rosterOf? e = some br) : latestRoster (past ++ (first ++ [m, e])) = some br := by
  have hsplit : past ++ (first ++ [m, e]) = (past ++ first ++ [m]) ++ [e] := by simp
  rw [hsplit]
  exact latestRoster_concat _ h

theorem Confirmation.replaced {mix : Bytes} {br : BeginRun}
    (h : Confirmation s mix events (.error (.reroute (.beginRun br)))) (past : List Exchange) :
    latestRoster (past ++ events) = some br := by
  generalize hresult : Except.error (Departure.reroute (.beginRun br)) = result at h
  cases h with
  | unreadable e =>
      rcases judgement_eq_reroute (Except.error.inj hresult.symm) with ⟨_, hblame⟩
      cases hblame
  | unconfirmed e =>
      rcases judgement_eq_reroute (Except.error.inj hresult.symm) with ⟨_, hblame⟩
      cases hblame
  | unwritten => cases hresult
  | left confirmed events d hturn =>
      cases hresult
      cases hturn with
      | replaced answer _ hbr hpeers =>
          exact latestRoster_exchanged past _ (withPeers_eq_some hbr hpeers)
  | ended confirmed events answer hturn taken => cases taken <;> cases hresult

/-- The roster that replaces a run arrives with the last exchange of its walk. -/
theorem Walk.replaced {br : BeginRun}
    (h : Walk s keys messages commitment events (.error (.reroute (.beginRun br))))
    (past : List Exchange) : latestRoster (past ++ events) = some br := by
  generalize hresult : Except.error (Departure.reroute (.beginRun br)) = result at h
  cases h with
  | keys h =>
      cases hresult
      rcases Ends.replaced h fun _ => mapError_failure_ne_reroute _ id _ with
        ⟨answer, rfl, hbr, hpeers⟩
      exact latestRoster_exchanged past [] (withPeers_eq_some hbr hpeers)
  | unsealed => cases hresult
  | ciphertexts h hmade hlast =>
      cases hresult
      rcases Ends.replaced hlast fun _ => mapError_failure_ne_reroute _ .primitive _ with
        ⟨answer, rfl, hbr, hpeers⟩
      exact latestRoster_exchanged past _ (withPeers_eq_some hbr hpeers)
  | slots h hlast =>
      cases hresult
      have haccept (answer : RecoveredMessages) :
          acceptRoots s keys.reservations answer ≠ .error (.reroute (.beginRun br)) := by
        intro hr
        cases (acceptRoots_eq_reroute hr).right
      rcases Ends.replaced hlast haccept with ⟨answer, rfl, hbr, hpeers⟩
      exact latestRoster_exchanged past _ (withPeers_eq_some hbr hpeers)
  | uncovered => cases hresult
  | messages h hvectors hlast =>
      cases hresult
      rcases Ends.replaced hlast nofun with ⟨answer, rfl, hbr, hpeers⟩
      exact latestRoster_exchanged past _ (withPeers_eq_some hbr hpeers)
  | @confirmation first last mix _ h hlast =>
      cases hresult
      rw [← List.append_assoc]
      exact hlast.replaced (past ++ first)

theorem PadsKnown.without_reveal {rows : List (List PadKey)}
    (h : PadsKnown s keys commitment events rows) : Without .revealSecrets events := by
  rcases h with ⟨first, last, _, _, _, hkeys, _, hciphertexts, rfl⟩
  exact without_append (Ends.without hkeys (by decide)) (Ends.without hciphertexts (by decide))

theorem SlotsKnown.without_reveal {rows : List (List PadKey)} {slots : List Nat}
    (h : SlotsKnown s keys commitment events rows slots) : Without .revealSecrets events := by
  rcases h with ⟨first, last, hpads, hslots, rfl⟩
  exact without_append hpads.without_reveal (Ends.without hslots (by decide))

theorem MixKnown.without_reveal {mix : Bytes}
    (h : MixKnown s keys messages commitment events mix) : Without .revealSecrets events := by
  rcases h with ⟨first, last, _, _, _, hslots, _, hmix, rfl⟩
  exact without_append hslots.without_reveal (Ends.without hmix (by decide))

theorem Walk.without_reveal {result : Except Departure Unit}
    (h : Walk s keys messages commitment events result) : Without .revealSecrets events := by
  cases h with
  | keys h => exact Ends.without h (by decide)
  | unsealed h => exact Ends.without h (by decide)
  | ciphertexts h hmade hlast =>
      exact without_append (Ends.without h (by decide)) (Ends.without hlast (by decide))
  | slots h hlast => exact without_append h.without_reveal (Ends.without hlast (by decide))
  | uncovered h => exact h.without_reveal
  | messages h hvectors hlast =>
      exact without_append h.without_reveal (Ends.without hlast (by decide))
  | confirmation h hlast => exact without_append h.without_reveal (hlast.without (by decide))

end Walk

/-!
## Runs
-/

section Runs

variable {s s' : Session} {run : UInt32} {carried : Option BeginRun} {events : List Exchange}
  {past : List Exchange}

/-- Revealed secrets are judged by the past, all other messages are good. -/
def ReplayableAfter (own : Bytes) (count : UInt32) (past : List Exchange) :
    (kind : Kind) -> kind.Message -> Prop
  | .revealSecrets, rs => Replayable own count past rs
  | _, _ => True

theorem replayable_of_without {own : Bytes} {count : UInt32} (h : Without .revealSecrets events) :
    EverySend (ReplayableAfter own count) past events := by
  apply everySend_of_without _ h
  intro past kind m hkind
  cases kind with
  | revealSecrets => exact absurd rfl hkind
  | _ => exact trivial

theorem Revealing.replayable {rs : RevealSecrets} {blame : Blame} {result : Except MixFailure Unit}
    {own : Bytes} {count : UInt32} (h : Revealing s rs blame events result s')
    (hpast : Replayable own count past rs) :
    EverySend (ReplayableAfter own count) past events := by
  cases h with
  | cancelled => exact ⟨trivial, trivial⟩
  | asked =>
      refine ⟨trivial, ?_, trivial⟩
      exact hpast.append (by simp [Without, sentKind?]) (by simp [Without, sentKind?])
  | unannounced => exact ⟨trivial, trivial, trivial⟩
  | announced =>
      refine ⟨trivial, trivial, ?_, trivial⟩
      rw [List.append_assoc]
      exact hpast.append (by simp [Without, sentKind?]) (by simp [Without, sentKind?])

theorem Settled.replayable {rs : RevealSecrets} {walk : Except Departure Unit}
    {result : Except MixFailure Outcome} {own : Bytes} {count : UInt32}
    (h : Settled s rs walk events result s')
    (hpast : forall blame, walk = .error (.reroute (.revealSecrets blame)) ->
      Replayable own count past rs) : EverySend (ReplayableAfter own count) past events := by
  cases h with
  | confirmed => exact trivial
  | failed => exact trivial
  | replaced => exact trivial
  | unrevealed h => exact h.replayable (hpast _ rfl)
  | revealed h => exact h.replayable (hpast _ rfl)

/-- The secrets of a run bring back what its walk has shown. -/
theorem Walk.replayable {roster : Roster} {secrets : Secrets} {br : BeginRun} {blame : Blame}
    (h : Walk (settingOf s run roster) (keysFor s run secrets) secrets.messages
      ((revelation secrets (keysFor s run secrets)).commitment (settingOf s run roster).scope)
      events (.error (.reroute (.revealSecrets blame))))
    (hbr : latestRoster past = some br)
    (hroster : Roster.ofBeginRun br s.identity.publicKey s.messageCount = .ok roster) :
    Replayable s.identity.publicKey s.messageCount (past ++ events)
      (revelation secrets (keysFor s run secrets)) := by
  rcases h.rootsShown with ⟨first, rows, roots, later, rfl, hshown, hunkeyed, hfollows⟩
  rcases hshown with ⟨kes, points, ciphertexts, cts, rfl, hpoints, hmade, hrows⟩
  have hkeys : replayedKeys (revelation secrets (keysFor s run secrets)) run s.messageCount =
      keysFor s run secrets := rfl
  refine ⟨past, shownOf (settingOf s run roster) (keysFor s run secrets) _ kes ciphertexts cts rows
    roots, _, _, later, br, roster, (List.append_assoc _ _ _).symm, hunkeyed, hbr, hroster, ?_⟩
  generalize keysFor s run secrets = keys at *
  constructor
  case commitment => rfl
  case reservations => exact congrArg RunKeys.reservations hkeys
  case point => exact congrArg (fun keys => keys.key.point) hkeys
  case encapsulationKey => exact congrArg (fun keys => keys.key.encapsulationKey) hkeys
  case ciphertexts =>
    rw [← hkeys] at hmade
    exact hmade
  case slots =>
    refine ⟨rows, ?_, rfl, rfl, ?_⟩
    · show (readPoints (kes.kes.filterMap id) >>= fun points =>
        (padKeys (encapsulated (replayedKeys (revelation secrets keys) run s.messageCount) _).2
          points cts.ciphertexts (padScope (settingOf s run roster))).mapError
            MixFailure.primitive) = .ok rows
      rw [hpoints, hkeys]
      exact congrArg (Except.mapError MixFailure.primitive) hrows
    · intro dc limit answer hmem
      rcases hfollows dc limit answer hmem with ⟨slots, vectors, haccept, hvectors, rfl⟩
      rcases acceptRoots_eq_ok haccept with ⟨_, order, horder, hslots⟩
      exact ⟨order, slots, vectors, horder, hslots, hvectors, rfl, rfl⟩

theorem Preparing.rosterless {result : Except MixFailure Secrets}
    (h : Preparing run s events result s') : forall e, e ∈ events -> rosterOf? e = none := by
  cases h with
  | kept => simp
  | failed _ _ _ hdrawing => cases hdrawing <;> simp [rosterOf?]
  | drawn _ _ _ hdrawing =>
      cases hdrawing
      simp [rosterOf?]

theorem Announced.latest {br : BeginRun} (h : Announced carried events br)
    (hcarried : forall br, carried = some br -> latestRoster past = some br) :
    latestRoster (past ++ events) = some br := by
  cases h with
  | carried =>
      rw [List.append_nil]
      exact hcarried br rfl
  | awaited => exact latestRoster_concat past rfl

/-- What a session keeps through its runs. -/
def Same (s s' : Session) : Prop :=
  s'.identity = s.identity ∧ s'.messageCount = s.messageCount

theorem Preparing.same {result : Except MixFailure Secrets}
    (h : Preparing run s events result s') : Same s s' := by
  cases h <;> exact ⟨rfl, rfl⟩

theorem Revealing.same {rs : RevealSecrets} {blame : Blame} {result : Except MixFailure Unit}
    (h : Revealing s rs blame events result s') : Same s s' := by
  cases h <;> exact ⟨rfl, rfl⟩

theorem Settled.same {rs : RevealSecrets} {walk : Except Departure Unit}
    {result : Except MixFailure Outcome} (h : Settled s rs walk events result s') :
    Same s s' := by
  cases h with
  | confirmed => exact ⟨rfl, rfl⟩
  | failed => exact ⟨rfl, rfl⟩
  | replaced => exact ⟨rfl, rfl⟩
  | unrevealed h => exact h.same
  | revealed h => exact h.same

theorem RunTrace.same {result : Except MixFailure Outcome}
    (h : RunTrace s run carried events result s') : Same s s' := by
  cases h with
  | unannounced => exact ⟨rfl, rfl⟩
  | rejected => exact ⟨rfl, rfl⟩
  | unprepared _ _ hprepared => exact hprepared.same
  | walked _ _ hprepared _ hsettled =>
      rcases hprepared.same with ⟨hidentity, hcount⟩
      rcases hsettled.same with ⟨hidentity', hcount'⟩
      exact ⟨hidentity'.trans hidentity, hcount'.trans hcount⟩

/-- A run reveals nothing but what brings it back, if the roster that it starts
with is the latest one. -/
theorem RunTrace.replayable {result : Except MixFailure Outcome}
    (h : RunTrace s run carried events result s')
    (hcarried : forall br, carried = some br -> latestRoster past = some br) :
    EverySend (ReplayableAfter s.identity.publicKey s.messageCount) past events := by
  cases h with
  | unannounced => exact ⟨trivial, trivial⟩
  | rejected hannounced => exact everySend_of_unsent hannounced.unsent
  | unprepared hannounced hroster hprepared =>
      exact (everySend_of_unsent hannounced.unsent).append (everySend_of_unsent hprepared.unsent)
  | walked hannounced hroster hprepared hwalk hsettled =>
      refine (((everySend_of_unsent hannounced.unsent).append
        (everySend_of_unsent hprepared.unsent)).append
          (replayable_of_without hwalk.without_reveal)).append (hsettled.replayable ?_)
      rintro blame rfl
      rw [← List.append_assoc]
      apply hwalk.replayable _ hroster
      rw [← List.append_assoc, latestRoster_append hprepared.rosterless]
      exact hannounced.latest hcarried

theorem RunTrace.leaves {roster : Option BeginRun}
    (h : RunTrace s run carried events (.ok (.rerun roster)) s') :
    forall br, roster = some br -> latestRoster (past ++ events) = some br := by
  rintro br rfl
  generalize hresult : Except.ok (Outcome.rerun (some br)) = result at h
  cases h with
  | unannounced => cases hresult
  | rejected => cases hresult
  | unprepared => cases hresult
  | walked hannounced hroster hprepared hwalk hsettled =>
      cases hsettled with
      | confirmed => cases hresult
      | failed => cases hresult
      | unrevealed => cases hresult
      | revealed => cases hresult
      | replaced =>
          cases hresult
          rw [List.append_nil, ← List.append_assoc]
          exact hwalk.replaced _

theorem latest_uncarried (past : List Exchange) :
    forall br, none = some br -> latestRoster past = some br := by
  intro br hbr
  cases hbr

theorem latest_uncancelled
    (hcarried : forall br, carried = some br -> latestRoster past = some br) :
    forall br, carried = some br -> latestRoster (past ++ [⟨.cancelled, false⟩]) = some br := by
  intro br hbr
  rw [latestRoster_append (by simp [rosterOf?])]
  exact hcarried br hbr

theorem Chain.replayable {left : Nat} {result : Except MixFailure Unit}
    (h : Chain left s carried events result s')
    (hcarried : forall br, carried = some br -> latestRoster past = some br) :
    EverySend (ReplayableAfter s.identity.publicKey s.messageCount) past events := by
  induction h generalizing past with
  | cancelled => exact ⟨trivial, trivial⟩
  | confirmed h => exact ⟨trivial, h.replayable (latest_uncancelled hcarried)⟩
  | failed h => exact ⟨trivial, h.replayable (latest_uncancelled hcarried)⟩
  | exhausted h => exact ⟨trivial, h.replayable (latest_uncancelled hcarried)⟩
  | @rerun left s between s' carried roster events rest result h hrest ih =>
      refine EverySend.append ⟨trivial, h.replayable (latest_uncancelled hcarried)⟩ ?_
      rcases h.same with ⟨hidentity, hcount⟩
      rw [← hidentity, ← hcount]
      apply ih
      intro br hbr
      have hleaves : latestRoster ((past ++ [⟨.cancelled, false⟩]) ++ events) = some br :=
        h.leaves br hbr
      rw [List.append_assoc] at hleaves
      exact hleaves

theorem Conversation.replayable {result : Except MixFailure Unit}
    (h : Conversation s events result s') :
    EverySend (ReplayableAfter s.identity.publicKey s.messageCount) [] events := by
  cases h with
  | unread => exact ⟨trivial, trivial, trivial⟩
  | unsent => exact ⟨trivial, trivial, trivial, trivial⟩
  | ran unmixed h =>
      refine EverySend.append (EverySend.append ?_ (h.replayable (latest_uncarried _))) ?_
      · exact ⟨trivial, trivial, trivial⟩
      · exact ⟨trivial, trivial⟩

/-- Whatever a session is answered, the secrets that it reveals bring back its
latest run: the commitment and the keys in the key exchange, the ciphertexts, the
slot reservation and the messages. -/
theorem revealed_secrets_replay_run (s s' : Session) (events : List Exchange)
    (result : Except MixFailure Unit) (h : Traces s.perform events (result, s')) :
    forall before rs limit answer after,
      events = before ++ ⟨.send .revealSecrets rs limit, answer⟩ :: after ->
        Replayable s.identity.publicKey s.messageCount before rs := by
  intro before rs limit answer after hevents
  exact (conversation_of_traces h).replayable.send hevents

end Runs

/-- A lone peer that has sent its message and reveals its secrets. -/
theorem revealed_secrets_replay_run_of_lone_peer :
    exists ciphertext vectors,
      Traces (loneSession ⟨Bytes.zeros 32⟩ Settings.default).perform
        (loneExchanges ⟨Bytes.zeros 32⟩ Settings.default (Bytes.zeros 32) (Bytes.zeros 20)
            ciphertext vectors ++
          loneReveal ⟨Bytes.zeros 32⟩ Settings.default (Bytes.zeros 32) (Bytes.zeros 20) ::
            [⟨.cancelled, true⟩, ⟨.close, ()⟩])
        (.error .cancelled,
          lonePrepared ⟨Bytes.zeros 32⟩ Settings.default (Bytes.zeros 32) (Bytes.zeros 20) true) ∧
      Replayable (Identity.publicKey ⟨Bytes.zeros 32⟩) 1
        (loneExchanges ⟨Bytes.zeros 32⟩ Settings.default (Bytes.zeros 32) (Bytes.zeros 20)
          ciphertext vectors)
        (loneRevelation ⟨Bytes.zeros 32⟩ Settings.default (Bytes.zeros 32) (Bytes.zeros 20)) := by
  have hmessage : (Bytes.zeros 20).length = messageSize := List.length_replicate
  rcases traces_perform ⟨Bytes.zeros 32⟩ Settings.default (Bytes.zeros 32) hmessage with
    ⟨ciphertext, vectors, htraces⟩
  refine ⟨ciphertext, vectors, htraces, ?_⟩
  exact revealed_secrets_replay_run _ _ _ _ htraces _ _ _ _ _ rfl

end Session
end PeerMix
