import PeerMix.Proofs.DcNet.Shapes
import PeerMix.Proofs.Session.Lifecycle
import PeerMix.Proofs.Session.Replay
import PeerMix.Proofs.Session.Rosters
import PeerMix.Proofs.Session.Warrants

/-!
# Sessions that no coordinator breaks

A roster, a number of key exchanges, of ciphertexts and of roots are all that the
coordinator determines of the sizes in a run.  Each is checked once, where it
arrives; after that a run only fails because of what came from outside, and what
it publishes has the dimensions that its roster calls for.
-/

namespace PeerMix
namespace Session

open Wire DcNet Dialogue

/-!
## Walks on firm ground
-/

/-- What a run with `count` own messages starts with. -/
structure Equipped (s : RunSetting) (keys : RunKeys) (messages : List Bytes) (count : Nat) :
    Prop where
  roster : s.roster.Sound count
  reserved : keys.reservations.length = count
  generated : messages.length = count
  sizes : forall m, m ∈ messages -> m.length = messageSize

section Walk

variable {s : RunSetting} {keys : RunKeys} {messages : List Bytes} {commitment : Bytes}
  {events : List Exchange} {count : Nat}

theorem total_padScope (h : s.roster.Sound count) : (padScope s).total = s.roster.total :=
  h.numbering.symm

theorem encapsulated_cases (keys : RunKeys) (encapsulationKeys : List Bytes) :
    (exists fault, (encapsulated keys encapsulationKeys).1 = .error fault ∧
      fault.isInternal = false) ∨
      ((exists made, (encapsulated keys encapsulationKeys).1 = .ok made) ∧
        (encapsulated keys encapsulationKeys).2.sent.length = encapsulationKeys.length) :=
  HybridKey.encapsulateEach_cases encapsulationKeys keys.encapsulation

theorem EndsKeys.lengths {points encapsulationKeys : List Bytes}
    (h : EndsKeys s keys commitment events (.ok (points, encapsulationKeys))) :
    points.length = s.roster.vk.length ∧ encapsulationKeys.length = s.roster.vk.length := by
  rcases Ends.ok_cases h with ⟨answer, _, _, haccept⟩
  rcases acceptKeys_eq_ok (mapError_eq_ok haccept) with ⟨hcount, hpoints, rfl⟩
  constructor
  · rw [length_of_mapM_eq_ok hpoints]
    exact hcount
  · rw [List.length_map]
    exact hcount

/-- Once the keys are there, pad keys fail only because of ciphertexts. -/
theorem EndsKeys.padKeys_cases {points encapsulationKeys made : List Bytes}
    (h : EndsKeys s keys commitment events (.ok (points, encapsulationKeys)))
    (hmade : (encapsulated keys encapsulationKeys).1 = .ok made) (hroster : s.roster.Sound count)
    (ciphertexts : List Bytes) :
    (exists fault, padKeys (encapsulated keys encapsulationKeys).2 points ciphertexts (padScope s) =
      .error fault ∧ fault.isInternal = false) ∨
    exists rows, padKeys (encapsulated keys encapsulationKeys).2 points ciphertexts (padScope s) =
      .ok rows ∧ PadTable (padScope s) count rows := by
  rcases h.lengths with ⟨hpoints, hkeys⟩
  have hpeers : (padScope s).counts.length = s.roster.vk.length := hroster.peers
  apply DcNet.padKeys_cases hroster.ownCount hroster.positive
  · rcases encapsulated_cases keys encapsulationKeys with ⟨_, hfault, _⟩ | ⟨_, hsent⟩
    · cases hfault.symm.trans hmade
    · rw [hsent, hkeys, hpeers]
  · rw [hpoints, hpeers]

theorem PadsKnown.padTable {rows : List (List PadKey)}
    (h : PadsKnown s keys commitment events rows) (hroster : s.roster.Sound count) :
    PadTable (padScope s) count rows := by
  rcases h with ⟨_, _, _, _, _, hkeys, hmade, hpads, _⟩
  rcases Ends.ok_cases hpads with ⟨answer, _, _, haccept⟩
  have hrows := mapError_eq_ok haccept
  rcases hkeys.padKeys_cases hmade hroster _ with ⟨_, hfault, _⟩ | ⟨_, hmade, htable⟩
  · cases hfault.symm.trans hrows
  · cases hmade.symm.trans hrows
    exact htable

/-- One slot of the mix is used for each own message, and no two are the same. -/
structure Placed (total count : Nat) (slots : List Nat) : Prop where
  length : slots.length = count
  nodup : slots.Nodup
  range : forall slot, slot ∈ slots -> slot < total

theorem acceptRoots_placed {slots : List Nat} {answer : RecoveredMessages}
    (h : acceptRoots s keys.reservations answer = .ok slots)
    (he : Equipped s keys messages count) : Placed s.roster.total count slots := by
  rcases acceptRoots_eq_ok h with ⟨hcount, order, horder, hresolve⟩
  have husable := Slots.resolve?_usable hresolve
  constructor
  case length => rw [husable.length, he.reserved]
  case nodup => exact husable.nodup
  case range =>
    intro slot hslot
    have hslots := husable.range slot hslot
    rw [Slots.length_of_sortRoots horder] at hslots
    exact Nat.lt_of_lt_of_le hslots hcount

theorem SlotsKnown.placed {rows : List (List PadKey)} {slots : List Nat}
    (h : SlotsKnown s keys commitment events rows slots) (he : Equipped s keys messages count) :
    PadTable (padScope s) count rows ∧ Placed s.roster.total count slots := by
  rcases h with ⟨_, _, hpads, hslots, _⟩
  rcases Ends.ok_cases hslots with ⟨answer, _, _, haccept⟩
  exact ⟨hpads.padTable he.roster, acceptRoots_placed haccept he⟩

/-- Once the slots are there, the own messages can be published. -/
theorem SlotsKnown.vectors {rows : List (List PadKey)} {slots : List Nat}
    (h : SlotsKnown s keys commitment events rows slots) (he : Equipped s keys messages count) :
    exists vectors, messageVectors messageSize s.roster.myStart messages slots rows = .ok vectors ∧
      vectors.length = count ∧
        forall v, v ∈ vectors -> v.HasDimensions s.roster.total messageSize := by
  rcases h.placed he with ⟨htable, hplaced⟩
  rw [← total_padScope he.roster]
  apply htable.messageVectors he.generated hplaced.length he.sizes
  rw [total_padScope he.roster]
  exact hplaced.range

/-!
## Failures of walks
-/

/-- A failure that is not one of a primitive with sizes of its own making. -/
def External {α : Type} (result : Except MixFailure α) : Prop :=
  forall fault, result = .error (.primitive fault) -> fault.isInternal = false

def primitive? : MixFailure -> Option PrimitiveError
  | .primitive fault => some fault
  | _ => none

theorem external_ok {α : Type} (a : α) : External (.ok a : Except MixFailure α) := by
  intro fault hfault
  cases hfault

theorem external_error {α : Type} {f : MixFailure} (h : primitive? f = none) :
    External (.error f : Except MixFailure α) := by
  intro fault hfault
  cases hfault
  cases h

theorem Ends.primitive_cases {α : Type} {kind : Kind} {m : kind.Message} {answerKind : Kind}
    [Reply answerKind.Message] {accept : answerKind.Message -> Except Departure α}
    {fault : PrimitiveError}
    (h : Ends s kind m answerKind accept events (.error (.failure (.primitive fault)))) :
    exists answer, accept answer = .error (.failure (.primitive fault)) := by
  rcases h with ⟨turned, hturn, hresult⟩
  cases hturn with
  | unsent => cases hresult
  | refused => cases hresult
  | replaced => cases hresult
  | asked => cases hresult
  | passed answer => exact ⟨_, hresult.symm⟩

theorem readPoints_ne_primitive (kes : List KeyExchange) (fault : PrimitiveError) :
    readPoints kes ≠ .error (.primitive fault) := by
  intro h
  rcases mapM_eq_error h with ⟨ke, _, hke⟩
  by_cases hlength : ke.ecdh.length = 32
  · rw [if_pos hlength] at hke
    cases hke
  · rw [if_neg hlength] at hke
    cases hke

theorem Confirmation.ne_primitive {mix : Bytes} {fault : PrimitiveError}
    (h : Confirmation s mix events (.error (.failure (.primitive fault)))) : False := by
  generalize hresult : Except.error (Departure.failure (.primitive fault)) = result at h
  have hjudged (e : PayloadError) : judgement e ≠ .failure (.primitive fault) := by
    cases e <;> exact nofun
  cases h with
  | unreadable e => exact hjudged e (Except.error.inj hresult.symm)
  | unconfirmed e => exact hjudged e (Except.error.inj hresult.symm)
  | unwritten => cases hresult
  | left confirmed events d hturn =>
      cases hresult
      cases hturn
  | ended confirmed events answer hturn taken => cases taken <;> cases hresult

theorem Walk.external {f : MixFailure}
    (h : Walk s keys messages commitment events (.error (.failure f)))
    (he : Equipped s keys messages count) : External (.error f : Except MixFailure Unit) := by
  intro fault hf
  cases hf
  generalize hresult : Except.error (Departure.failure (.primitive fault)) = result at h
  cases h with
  | keys h =>
      cases hresult
      rcases Ends.primitive_cases h with ⟨answer, haccept⟩
      rcases acceptKeys_cases s answer with ⟨f, hf, hpoints⟩ | ⟨_, points, _, hkeys⟩
      · rw [hf] at haccept
        cases haccept
        exact absurd (hpoints fault rfl) (readPoints_ne_primitive _ fault)
      · rw [hkeys] at haccept
        cases haccept
  | unsealed h hfault =>
      cases hresult
      rcases encapsulated_cases keys _ with ⟨other, hother, hexternal⟩ | ⟨⟨made, hmade⟩, _⟩
      · cases hother.symm.trans hfault
        exact hexternal
      · cases hmade.symm.trans hfault
  | ciphertexts h hmade hlast =>
      cases hresult
      rcases Ends.primitive_cases hlast with ⟨answer, haccept⟩
      rcases h.padKeys_cases hmade he.roster answer.ciphertexts with
        ⟨other, hother, hexternal⟩ | ⟨rows, hrows, _⟩
      · rw [hother] at haccept
        cases haccept
        exact hexternal
      · rw [hrows] at haccept
        cases haccept
  | slots h hlast =>
      cases hresult
      rcases Ends.primitive_cases hlast with ⟨answer, haccept⟩
      rcases acceptRoots_cases s keys.reservations answer with
        ⟨f, hf, hfault⟩ | ⟨_, order, _, ⟨_, hr⟩ | ⟨slots, _, hslots⟩⟩
      · cases hf.symm.trans haccept
        exact absurd rfl (hfault fault)
      · cases hr.symm.trans haccept
      · cases hslots.symm.trans haccept
  | uncovered h hfault =>
      -- Known slots are enough to publish the messages, so no walk ends here.
      rcases h.vectors he with ⟨vectors, hvectors, _⟩
      cases hfault.symm.trans hvectors
  | messages h hvectors hlast =>
      cases hresult
      rcases Ends.primitive_cases hlast with ⟨answer, haccept⟩
      cases haccept
  | confirmation h hlast =>
      cases hresult
      cases hlast.ne_primitive

end Walk

/-!
## What a session publishes
-/

/-- The latest announcement has been accepted as this roster, whose counts, indices
and octets stay far below the end of a machine word. -/
structure InForce (own : Bytes) (count : UInt32) (past : List Exchange) (roster : Roster) :
    Prop where
  accepted : exists br, latestRoster past = some br ∧ Roster.ofBeginRun br own count = .ok roster
  sound : roster.Sound count.toNat

/-- Each own message has a field element for every message of the run. -/
structure Reserves (roster : Roster) (count : Nat) (dcMix : List (List Nat)) : Prop where
  vectors : dcMix.length = count
  elements : forall v, v ∈ dcMix -> v.length = roster.total
  reduced : forall v x, v ∈ dcMix -> x ∈ v -> x < Field.prime

/-- Each own message has a slot for every message of the run. -/
structure Covers (roster : Roster) (count : Nat) (dcNet : List MixVector) : Prop where
  vectors : dcNet.length = count
  slots : forall v, v ∈ dcNet -> v.n.toNat = roster.total
  sizes : forall v, v ∈ dcNet -> v.msize.toNat = messageSize
  octets : forall v, v ∈ dcNet -> v.data.length = roster.total * messageSize

/-- What the pad keys of a run are bound to. -/
def scopeOf (roster : Roster) (run : UInt32) : PadScope :=
  { sid := roster.sid, run, size := messageSize, my := roster.my, counts := roster.counts }

/-- The messages of the last draw are published in these slots, which its values
have among the roots that have just been recovered. -/
def Uses (count : Nat) (past : List Exchange) (roster : Roster) (dc : DcNet)
    (slots : List Nat) : Prop :=
  exists before limit answer order secrets rows vectors,
    past = before ++ [⟨.receive .recoveredMessages limit, .ok answer⟩] ∧
      (forall run, LastDraw count (ledger count past) run secrets) ∧
        Slots.sortRoots answer.roots = .ok order ∧
          Slots.resolve? (drawnKeys count secrets).reservations order = some slots ∧
            PadTable (scopeOf roster dc.run) count rows ∧
              messageVectors messageSize roster.myStart secrets.messages slots rows = .ok vectors ∧
                dc.dcNet = vectors.map MixVector.ofSlotVector

/-- What a message of a stage looks like after the past. -/
def Shaped (own : Bytes) (count : UInt32) (past : List Exchange) :
    (kind : Kind) -> kind.Message -> Prop
  | .keyExchange, _ => exists roster, InForce own count past roster
  | .ciphertexts, _ => exists roster, InForce own count past roster
  | .slotReserve, sr => exists roster, InForce own count past roster ∧
      Reserves roster count.toNat sr.dcMix
  | .dcNet, dc => exists roster slots, InForce own count past roster ∧
      Covers roster count.toNat dc.dcNet ∧ Uses count.toNat past roster dc slots ∧
        Placed roster.total count.toNat slots
  | _, _ => True

section Published

variable {own : Bytes} {count : UInt32} {roster : Roster} {past events : List Exchange}

theorem InForce.append (h : InForce own count past roster)
    (hevents : forall e, e ∈ events -> rosterOf? e = none) :
    InForce own count (past ++ events) roster := by
  rcases h with ⟨⟨br, hbr, haccepted⟩, hsound⟩
  refine ⟨⟨br, ?_, haccepted⟩, hsound⟩
  rw [latestRoster_append hevents, hbr]

theorem covers_of_dimensions {vectors : List SlotVector} (hroster : roster.Sound count.toNat)
    (hlength : vectors.length = count.toNat)
    (h : forall v, v ∈ vectors -> v.HasDimensions roster.total messageSize) :
    Covers roster count.toNat (vectors.map MixVector.ofSlotVector) := by
  -- Dimensions are machine words on the wire; the limit on pads keeps them exact.
  have htotal : roster.total % UInt64.size = roster.total := Nat.mod_eq_of_lt hroster.total_lt
  have hwritten : forall mixed, mixed ∈ vectors.map MixVector.ofSlotVector ->
      mixed.n.toNat = roster.total ∧ mixed.msize.toNat = messageSize ∧
        mixed.data.length = roster.total * messageSize := by
    intro mixed hmixed
    rcases List.mem_map.mp hmixed with ⟨v, hv, rfl⟩
    rcases h v hv with ⟨hslots, hsize, hdata⟩
    rw [MixVector.ofSlotVector, hslots, hsize]
    exact ⟨htotal, rfl, hdata⟩
  constructor
  case vectors => rw [List.length_map, hlength]
  case slots => exact fun mixed hmixed => (hwritten mixed hmixed).left
  case sizes => exact fun mixed hmixed => (hwritten mixed hmixed).right.left
  case octets => exact fun mixed hmixed => (hwritten mixed hmixed).right.right

end Published

/-!
## Walks with the roster in force
-/

/-- A run is about to be walked through with the latest roster and secrets of the
last draw. -/
structure Prepared (t between : Session) (run : UInt32) (roster : Roster) (secrets : Secrets)
    (past : List Exchange) : Prop where
  inForce : InForce t.identity.publicKey t.messageCount past roster
  ready : Ready t.messageCount.toNat run secrets between (ledger t.messageCount.toNat past)

section Prepared

variable {s : RunSetting} {keys : RunKeys} {t between : Session} {run : UInt32} {roster : Roster}
  {secrets : Secrets} {commitment : Bytes} {past events : List Exchange}

theorem Prepared.equipped (h : Prepared t between run roster secrets past) :
    Equipped (settingOf t run roster) (keysFor t run secrets) secrets.messages
      t.messageCount.toNat := by
  have hchecked := checked_ledger _ past _ _ h.ready.last.completed
  rcases checkMessages_eq_ok hchecked with ⟨hcount, hsizes⟩
  constructor
  case roster => exact h.inForce.sound
  case reserved => exact Field.length_sampleMany _ _
  case generated => exact hcount
  case sizes => exact hsizes

theorem Ends.rosterless {α : Type} {kind : Kind} {m : kind.Message} {answerKind : Kind}
    [Reply answerKind.Message] {accept : answerKind.Message -> Except Departure α} {a : α}
    (h : Ends s kind m answerKind accept events (.ok a))
    (hroster : forall answer,
      rosterOf? (received s answerKind answer) = withPeers (Reply.roster answer)) :
    forall e, e ∈ events -> rosterOf? e = none := by
  rcases h.ok_cases with ⟨answer, hpasses, rfl, _⟩
  intro e he
  rcases List.mem_cons.mp he with rfl | he
  · rfl
  · rw [List.mem_singleton.mp he, hroster]
    exact withPeers_eq_none hpasses.noPeers

theorem EndsKeys.shaped {result : Except Departure (List Bytes × List Bytes)}
    (h : EndsKeys (settingOf t run roster) keys commitment events result)
    (hp : Prepared t between run roster secrets past) :
    EverySend (Shaped t.identity.publicKey t.messageCount) past events :=
  Ends.everySend h ⟨roster, hp.inForce⟩

theorem EndsKeys.inForce {known : List Bytes × List Bytes}
    (h : EndsKeys (settingOf t run roster) keys commitment events (.ok known))
    (hp : Prepared t between run roster secrets past) :
    InForce t.identity.publicKey t.messageCount (past ++ events) roster :=
  hp.inForce.append (Ends.rosterless h fun _ => rfl)

theorem PadsKnown.shaped {rows : List (List PadKey)}
    (h : PadsKnown (settingOf t run roster) keys commitment events rows)
    (hp : Prepared t between run roster secrets past) :
    EverySend (Shaped t.identity.publicKey t.messageCount) past events ∧
      InForce t.identity.publicKey t.messageCount (past ++ events) roster := by
  rcases h with ⟨first, last, _, _, _, hkeys, _, hciphertexts, rfl⟩
  have hknown := hkeys.inForce hp
  constructor
  · exact (hkeys.shaped hp).append (Ends.everySend hciphertexts ⟨roster, hknown⟩)
  · rw [← List.append_assoc]
    exact hknown.append (Ends.rosterless hciphertexts fun _ => rfl)

theorem PadsKnown.reserves {rows : List (List PadKey)}
    (h : PadsKnown (settingOf t run roster) (keysFor t run secrets) commitment events rows)
    (hp : Prepared t between run roster secrets past) :
    Shaped t.identity.publicKey t.messageCount (past ++ events) .slotReserve
      (ownReservation (settingOf t run roster) (keysFor t run secrets).reservations rows) := by
  have he := hp.equipped
  rcases (h.padTable he.roster).reservationVectors he.reserved roster.myStart with
    ⟨hlength, hvectors⟩
  rw [total_padScope he.roster] at hvectors
  refine ⟨roster, (h.shaped hp).right, ?_⟩
  constructor
  case vectors => exact hlength
  case elements => exact fun v hv => (hvectors v hv).left
  case reduced => exact fun v x hv hx => (hvectors v hv).right x hx

theorem SlotsKnown.shaped {rows : List (List PadKey)} {slots : List Nat}
    (h : SlotsKnown (settingOf t run roster) (keysFor t run secrets) commitment events rows slots)
    (hp : Prepared t between run roster secrets past) :
    EverySend (Shaped t.identity.publicKey t.messageCount) past events ∧
      InForce t.identity.publicKey t.messageCount (past ++ events) roster := by
  rcases h with ⟨first, last, hpads, hslots, rfl⟩
  rcases hpads.shaped hp with ⟨hsends, hknown⟩
  constructor
  · exact hsends.append (Ends.everySend hslots (hpads.reserves hp))
  · rw [← List.append_assoc]
    exact hknown.append (Ends.rosterless hslots fun _ => rfl)

theorem SlotsKnown.found {rows : List (List PadKey)} {slots : List Nat}
    (h : SlotsKnown s keys commitment events rows slots) :
    exists before answer order, events = before ++ [received s .recoveredMessages answer] ∧
      Slots.sortRoots answer.roots = .ok order ∧
        Slots.resolve? keys.reservations order = some slots := by
  rcases h with ⟨first, last, _, hslots, rfl⟩
  rcases Ends.ok_cases hslots with ⟨answer, _, rfl, haccept⟩
  rcases acceptRoots_eq_ok haccept with ⟨_, order, horder, hresolve⟩
  exact ⟨first ++ [_], answer, order, List.append_cons first _ _, horder, hresolve⟩

theorem SlotsKnown.covers {rows : List (List PadKey)} {slots : List Nat}
    {vectors : List SlotVector}
    (h : SlotsKnown (settingOf t run roster) (keysFor t run secrets) commitment events rows slots)
    (hvectors : messageVectors messageSize roster.myStart secrets.messages slots rows = .ok vectors)
    (hp : Prepared t between run roster secrets past) :
    Shaped t.identity.publicKey t.messageCount (past ++ events) .dcNet
      (DcNet.make t.identity run vectors) := by
  have he := hp.equipped
  rcases h.placed he with ⟨htable, hplaced⟩
  rcases h.vectors he with ⟨made, hmade, hlength, hdimensions⟩
  cases hmade.symm.trans hvectors
  refine ⟨roster, slots, (h.shaped hp).right, covers_of_dimensions he.roster hlength hdimensions,
    ?_, hplaced⟩
  -- The key exchange of this walk is on record, so no run decides any more which
  -- draw is the last one.
  have hlast := (h.showsKeys.lawful rfl hp.ready).right.kept _ hp.ready.kept hp.ready.unknown
  rcases h.found with ⟨before, answer, order, rfl, horder, hresolve⟩
  exact ⟨past ++ before, _, answer, order, secrets, rows, vectors,
    (List.append_assoc _ _ _).symm, hlast, horder, hresolve, htable, hvectors, rfl⟩

/-- A confirmed mix is all that is sent in a confirmation. -/
theorem Confirmation.everySend {good : List Exchange -> (kind : Kind) -> kind.Message -> Prop}
    {mix : Bytes} {result : Except Departure Unit} (h : Confirmation s mix events result)
    (hgood : forall past m, good past .confirmMix m) : EverySend good past events := by
  cases h with
  | unreadable => exact ⟨trivial, trivial⟩
  | unconfirmed => exact ⟨trivial, trivial, trivial⟩
  | unwritten => exact ⟨trivial, trivial, trivial, trivial⟩
  | left confirmed events d hturn =>
      exact EverySend.append ⟨trivial, trivial, trivial, trivial⟩ (hturn.everySend (hgood _ _))
  | ended confirmed events answer hturn taken =>
      refine EverySend.append (EverySend.append ?_ (hturn.everySend (hgood _ _))) ⟨trivial, trivial⟩
      exact ⟨trivial, trivial, trivial, trivial⟩

theorem Confirmation.shaped {own mix : Bytes} {count : UInt32} {result : Except Departure Unit}
    (h : Confirmation s mix events result) : EverySend (Shaped own count) past events :=
  h.everySend fun _ _ => trivial

theorem Walk.shaped {result : Except Departure Unit}
    (h : Walk (settingOf t run roster) (keysFor t run secrets) secrets.messages commitment events
      result) (hp : Prepared t between run roster secrets past) :
    EverySend (Shaped t.identity.publicKey t.messageCount) past events := by
  cases h with
  | keys h => exact h.shaped hp
  | unsealed h => exact h.shaped hp
  | ciphertexts h hmade hlast =>
      exact (h.shaped hp).append (Ends.everySend hlast ⟨roster, h.inForce hp⟩)
  | slots h hlast => exact (h.shaped hp).left.append (Ends.everySend hlast (h.reserves hp))
  | uncovered h => exact (h.shaped hp).left
  | messages h hvectors hlast =>
      exact (h.shaped hp).left.append (Ends.everySend hlast (h.covers hvectors hp))
  | confirmation h hlast =>
      rcases h with ⟨first, last, rows, slots, vectors, hslots, hvectors, hmix, rfl⟩
      have hsends := (hslots.shaped hp).left.append
        (Ends.everySend hmix (hslots.covers hvectors hp))
      exact hsends.append hlast.shaped

end Prepared

/-!
## Runs
-/

section Runs

variable {s s' : Session} {run : UInt32} {carried : Option BeginRun} {secrets : Secrets}
  {events past : List Exchange}

/-- What is revealed, and perhaps that it will be, is all that is sent after a walk. -/
theorem Revealing.everySend {good : List Exchange -> (kind : Kind) -> kind.Message -> Prop}
    {rs : RevealSecrets} {blame : Blame} {result : Except MixFailure Unit}
    (h : Revealing s rs blame events result s')
    (hnotice : forall past, good past .clientFailure ClientFailure.notice)
    (hreveal : forall past, good past .revealSecrets rs) : EverySend good past events := by
  cases h with
  | cancelled => exact ⟨trivial, trivial⟩
  | asked => exact ⟨trivial, hreveal _, trivial⟩
  | unannounced => exact ⟨trivial, hnotice _, trivial⟩
  | announced => exact ⟨trivial, hnotice _, hreveal _, trivial⟩

theorem Settled.everySend {good : List Exchange -> (kind : Kind) -> kind.Message -> Prop}
    {rs : RevealSecrets} {walk : Except Departure Unit} {result : Except MixFailure Outcome}
    (h : Settled s rs walk events result s')
    (hnotice : forall past, good past .clientFailure ClientFailure.notice)
    (hreveal : forall past, good past .revealSecrets rs) : EverySend good past events := by
  cases h with
  | confirmed => exact trivial
  | failed => exact trivial
  | replaced => exact trivial
  | unrevealed h => exact h.everySend hnotice hreveal
  | revealed h => exact h.everySend hnotice hreveal

theorem Settled.shaped {own : Bytes} {count : UInt32} {rs : RevealSecrets}
    {walk : Except Departure Unit} {result : Except MixFailure Outcome}
    (h : Settled s rs walk events result s') : EverySend (Shaped own count) past events :=
  h.everySend (fun _ => trivial) fun _ => trivial

theorem Drawing.external {count : Nat} {result : Except MixFailure Secrets}
    (h : Drawing run count events result) : External result := by
  intro fault hfault
  cases h with
  | undrawn =>
      cases hfault
      rfl
  | ungenerated => cases hfault
  | rejected seed messages f hcheck =>
      cases hfault
      unfold checkMessages at hcheck
      split at hcheck
      · cases hcheck
      · split at hcheck <;> cases hcheck
  | drawn => cases hfault

theorem Preparing.external {f : MixFailure} (h : Preparing run s events (.error f) s') :
    External (.error f : Except MixFailure Outcome) := by
  intro fault hfault
  cases hfault
  cases h with
  | failed _ _ _ hdrawing => exact hdrawing.external fault rfl

theorem Revealing.external {rs : RevealSecrets} {blame : Blame} {f : MixFailure}
    (h : Revealing s rs blame events (.error f) s') :
    External (.error f : Except MixFailure Outcome) := by
  intro fault hfault
  cases hfault
  generalize hresult : Except.error (MixFailure.primitive fault) = result at h
  cases h with
  | cancelled => cases hresult
  | asked answer => cases answer <;> cases hresult
  | unannounced => cases hresult
  | announced answer => cases answer <;> cases hresult

theorem Settled.external {rs : RevealSecrets} {walk : Except Departure Unit}
    {result : Except MixFailure Outcome} (h : Settled s rs walk events result s')
    (hwalk : forall f, walk = .error (.failure f) -> External (.error f : Except MixFailure Unit)) :
    External result := by
  cases h with
  | confirmed => exact external_ok _
  | failed f =>
      intro fault hfault
      cases hfault
      exact hwalk _ rfl fault rfl
  | replaced => exact external_ok _
  | unrevealed h => exact h.external
  | revealed => exact external_ok _

/-- A run that starts with the latest roster publishes what this calls for, and
fails only because of what came from outside. -/
theorem RunTrace.safe {result : Except MixFailure Outcome}
    (h : RunTrace s run carried events result s')
    (hcarried : forall br, carried = some br -> latestRoster past = some br)
    (hs : Matches s.messageCount.toNat s (ledger s.messageCount.toNat past)) :
    EverySend (Shaped s.identity.publicKey s.messageCount) past events ∧ External result := by
  cases h with
  | unannounced limit answer f _ hf =>
      refine ⟨⟨trivial, trivial⟩, ?_⟩
      rcases hf with rfl | ⟨fault, rfl⟩
      · exact external_error rfl
      · exact external_error rfl
  | rejected hannounced => exact ⟨everySend_of_unsent hannounced.unsent, external_error rfl⟩
  | unprepared hannounced hroster hprepared =>
      constructor
      · exact (everySend_of_unsent hannounced.unsent).append (everySend_of_unsent hprepared.unsent)
      · exact hprepared.external
  | @walked opening preparing walking closing br roster secrets between _ walk _ hannounced hroster
      hprepared hwalk hsettled =>
      have hp : Prepared s between run roster secrets (past ++ opening ++ preparing) := by
        constructor
        case inForce =>
          refine ⟨⟨br, ?_, hroster⟩, Roster.sound_of_ofBeginRun hroster⟩
          rw [latestRoster_append hprepared.rosterless]
          exact hannounced.latest hcarried
        case ready => exact hprepared.ready ((hs.idle hannounced.idle).withRoster roster)
      constructor
      · refine EverySend.append (((everySend_of_unsent hannounced.unsent).append
          (everySend_of_unsent hprepared.unsent)).append ?_) hsettled.shaped
        rw [← List.append_assoc]
        exact hwalk.shaped hp
      · apply hsettled.external
        rintro f rfl
        exact hwalk.external hp.equipped

/-!
## Calls
-/

theorem RunTrace.safe_uncancelled {result : Except MixFailure Outcome}
    (h : RunTrace s run carried events result s')
    (hcarried : forall br, carried = some br -> latestRoster past = some br)
    (hs : Matches s.messageCount.toNat s (ledger s.messageCount.toNat past)) :
    EverySend (Shaped s.identity.publicKey s.messageCount) past (⟨.cancelled, false⟩ :: events) ∧
      External result := by
  rcases h.safe (latest_uncancelled hcarried) (hs.idle (idle_cancelled false)) with
    ⟨hsends, hexternal⟩
  exact ⟨⟨trivial, hsends⟩, hexternal⟩

theorem Chain.safe {left : Nat} {result : Except MixFailure Unit}
    (h : Chain left s carried events result s')
    (hcarried : forall br, carried = some br -> latestRoster past = some br)
    (hs : Matches s.messageCount.toNat s (ledger s.messageCount.toNat past)) :
    EverySend (Shaped s.identity.publicKey s.messageCount) past events ∧ External result := by
  induction h generalizing past with
  | cancelled => exact ⟨⟨trivial, trivial⟩, external_error rfl⟩
  | confirmed h => exact ⟨(h.safe_uncancelled hcarried hs).left, external_ok ()⟩
  | failed h =>
      rcases h.safe_uncancelled hcarried hs with ⟨hsends, hexternal⟩
      refine ⟨hsends, ?_⟩
      intro fault hfault
      cases hfault
      exact hexternal fault rfl
  | exhausted h => exact ⟨(h.safe_uncancelled hcarried hs).left, external_error rfl⟩
  | @rerun left s between s' carried roster events rest result h hrest ih =>
      -- The next run starts with what this one has left: its roster and its draws.
      have hmatches := (h.lawful_uncancelled hs).right
      have hleaves : forall br, roster = some br ->
          latestRoster ((past ++ [⟨.cancelled, false⟩]) ++ events) = some br := h.leaves
      rw [List.append_assoc] at hleaves
      rcases h.same with ⟨hidentity, hcount⟩
      rw [← hcount] at hmatches
      rcases ih hleaves hmatches with ⟨hlast, hexternal⟩
      rw [hidentity, hcount] at hlast
      exact ⟨(h.safe_uncancelled hcarried hs).left.append hlast, hexternal⟩

theorem Conversation.safe {result : Except MixFailure Unit} (h : Conversation s events result s')
    (hs : Matches s.messageCount.toNat s (ledger s.messageCount.toNat past)) :
    EverySend (Shaped s.identity.publicKey s.messageCount) past events ∧ External result := by
  cases h with
  | unread => exact ⟨⟨trivial, trivial, trivial⟩, external_error rfl⟩
  | unsent => exact ⟨⟨trivial, trivial, trivial, trivial⟩, external_error rfl⟩
  | ran unmixed hchain =>
      rcases hchain.safe (latest_uncarried _) (hs.idle (idle_requested s unmixed)) with
        ⟨hsends, hexternal⟩
      refine ⟨EverySend.append (EverySend.append ?_ hsends) ?_, hexternal⟩
      · exact ⟨trivial, trivial, trivial⟩
      · exact ⟨trivial, trivial⟩

theorem Same.trans {between : Session} (h : Same s between) (h' : Same between s') : Same s s' :=
  ⟨h'.left.trans h.left, h'.right.trans h.right⟩

theorem Chain.same {left : Nat} {result : Except MixFailure Unit}
    (h : Chain left s carried events result s') : Same s s' := by
  induction h with
  | cancelled => exact ⟨rfl, rfl⟩
  | confirmed h => exact h.same
  | failed h => exact h.same
  | exhausted h => exact h.same
  | rerun h _ ih => exact h.same.trans ih

theorem Conversation.same {result : Except MixFailure Unit}
    (h : Conversation s events result s') : Same s s' := by
  cases h with
  | unread => exact ⟨rfl, rfl⟩
  | unsent => exact ⟨rfl, rfl⟩
  | ran unmixed h => exact h.same

theorem Calls.same (h : Calls s events s') : Same s s' := by
  induction h with
  | none => exact ⟨rfl, rfl⟩
  | more _ hlast ih => exact ih.trans (conversation_of_traces hlast).same

end Runs

/-- Whatever is answered to a session in however many calls, over a link or by
anyone else, it never fails because of sizes of its own making.  Its slot
reservation has a reduced element of the field, and its mix a slot of twenty
octets, for every message of the roster in force, and its own messages are in
different slots of the mix. -/
theorem no_answer_breaks_session {σ : Type} (draw : Draw σ) (source : σ) (commitment : Bytes)
    (messageCount : UInt32) (settings : Settings) (s t : Session) (past : List Exchange)
    (hs : (Session.create draw source commitment messageCount settings).1 = .ok s)
    (hcalls : Calls s past t) :
    (forall events result t', Traces t.perform events (result, t') ->
      External result ∧
        forall before kind m limit answer after,
          events = before ++ ⟨.send kind m limit, answer⟩ :: after ->
            Shaped s.identity.publicKey s.messageCount (past ++ before) kind m) ∧
    forall r : Rehearsal, External (rehearse t r).1 := by
  have hmatches := (hcalls.lawful (matches_of_create hs)).right
  have hsafe {events : List Exchange} {result : Except MixFailure Unit} {t' : Session}
      (h : Traces t.perform events (result, t')) :
      EverySend (Shaped s.identity.publicKey s.messageCount) past events ∧ External result := by
    -- What is published goes by the identity and the count of the session as created.
    rcases hcalls.same with ⟨hidentity, hcount⟩
    rw [← hcount] at hmatches
    rw [← hidentity, ← hcount]
    exact (conversation_of_traces h).safe hmatches
  constructor
  · intro events result t' h
    rcases hsafe h with ⟨hsends, hexternal⟩
    refine ⟨hexternal, ?_⟩
    intro before kind m limit answer after hevents
    exact hsends.send hevents
  · intro r
    rcases exists_traces_run Rehearsal.partner t.perform r with ⟨events, h⟩
    exact (hsafe h).right

/-- A lone peer publishes one message in a slot of its own. -/
theorem no_answer_breaks_session_of_lone_peer :
    (Session.create Draw.bytes (Bytes.zeros 32) [] 1 Settings.default).1 =
        .ok (loneSession ⟨Bytes.zeros 32⟩ Settings.default) ∧
      Calls (loneSession ⟨Bytes.zeros 32⟩ Settings.default) []
        (loneSession ⟨Bytes.zeros 32⟩ Settings.default) ∧
      exists ciphertext vectors,
        Traces (loneSession ⟨Bytes.zeros 32⟩ Settings.default).perform
          (loneExchanges ⟨Bytes.zeros 32⟩ Settings.default (Bytes.zeros 32) (Bytes.zeros 20)
              ciphertext vectors ++
            loneReveal ⟨Bytes.zeros 32⟩ Settings.default (Bytes.zeros 32) (Bytes.zeros 20) ::
              [⟨.cancelled, true⟩, ⟨.close, ()⟩])
          (.error .cancelled,
            lonePrepared ⟨Bytes.zeros 32⟩ Settings.default (Bytes.zeros 32) (Bytes.zeros 20)
              true) ∧
        exists roster slots, Covers roster 1 (vectors.map MixVector.ofSlotVector) ∧
          Placed roster.total 1 slots := by
  have hcreate : (Session.create Draw.bytes (Bytes.zeros 32) [] 1 Settings.default).1 =
      .ok (loneSession ⟨Bytes.zeros 32⟩ Settings.default) := rfl
  have hmessage : (Bytes.zeros 20).length = messageSize := List.length_replicate
  rcases traces_perform ⟨Bytes.zeros 32⟩ Settings.default (Bytes.zeros 32) hmessage with
    ⟨ciphertext, vectors, htraces⟩
  refine ⟨hcreate, .none, ciphertext, vectors, htraces, ?_⟩
  have hsent : sent (loneSetting ⟨Bytes.zeros 32⟩ Settings.default) .dcNet
      (DcNet.make ⟨Bytes.zeros 32⟩ 0 vectors) ∈
        loneExchanges ⟨Bytes.zeros 32⟩ Settings.default (Bytes.zeros 32) (Bytes.zeros 20)
          ciphertext vectors := by
    simp only [loneExchanges, loneStages, List.mem_append, List.mem_cons]
    exact .inl (.inr (.inr (.inr (.inr (.inr (.inr (.inr (.inl rfl))))))))
  rcases List.append_of_mem (List.mem_append_left _ hsent) with ⟨before, after, hevents⟩
  rcases ((no_answer_breaks_session _ _ _ _ _ _ _ _ hcreate .none).left _ _ _ htraces).right
    before _ _ _ _ after hevents with ⟨roster, slots, _, hcovers, _, hplaced⟩
  exact ⟨roster, slots, hcovers, hplaced⟩

end Session
end PeerMix
