import PeerMix.Proofs.Roster.Acceptance
import PeerMix.Proofs.Roster.Limits
import PeerMix.Proofs.Session.Safety

/-!
# Messages that fit on a line

All that a peer says in a run has a size that its roster bounds, so it fits on a line
whatever the coordinator answers.  A source of randomness is relied on only for giving
as many octets as it is asked for.
-/

namespace PeerMix
namespace Session

open Wire DcNet Dialogue

/-!
## Sizes of what a peer makes
-/

section Sizes

variable {t : Session} {run : UInt32} {roster : Roster} {secrets : Secrets} {commitment : Bytes}

theorem length_signatureOf {α : Type} [Signed α] (id : Identity) (m : α) :
    (signatureOf id m).length = 64 := by
  rw [signatureOf, Identity.sign, Ed25519.sign, List.length_append, Ed25519.Point.encode,
    Curve.encode, Curve.encode, Bytes.length_littleEndian, Bytes.length_littleEndian]

theorem length_commitment (rs : RevealSecrets) (scope : RunScope) :
    (rs.commitment scope).length = 32 :=
  length_sha256 _

theorem sized_ownKeys (hcommitment : commitment.length = 32) :
    (ownKeys (settingOf t run roster) (keysFor t run secrets) commitment).Sized where
  ecdh := Bytes.length_littleEndian 32 _
  pqpk := (Lattice.isFull_generate _ _).length_toBytes
  commitment := hcommitment
  signature := length_signatureOf _ _

theorem sizes_encapsulated {keys : RunKeys} {encapsulationKeys ciphertexts : List Bytes}
    (h : (encapsulated keys encapsulationKeys).1 = .ok ciphertexts) :
    ciphertexts.length = encapsulationKeys.length ∧
      forall ct, ct ∈ ciphertexts -> ct.length = Lattice.ciphertextSize := by
  have hkeys := HybridKey.keys_sizes_of_encapsulateEach h
  rcases HybridKey.encapsulateEach_eq_ok encapsulationKeys keys.encapsulation hkeys with
    ⟨made, hmade, hlength, _, hsizes⟩
  cases hmade.symm.trans h
  exact ⟨hlength, hsizes⟩

end Sizes

/-!
## Secrets at hand
-/

/-- A draw that succeeds gives as many octets as it is asked for. -/
def FullDraw : Exchange -> Prop
  | ⟨.draw n, .ok seed⟩ => seed.length = n
  | _ => True

def FullDraws (events : List Exchange) : Prop :=
  forall e, e ∈ events -> FullDraw e

theorem FullDraws.append {first last : List Exchange} (h : FullDraws (first ++ last)) :
    FullDraws first ∧ FullDraws last :=
  List.forall_mem_append.mp h

theorem FullDraws.tail {e : Exchange} {events : List Exchange} (h : FullDraws (e :: events)) :
    FullDraws events :=
  (List.forall_mem_cons.mp h).right

/-- Secrets from a full draw with messages that have been checked. -/
structure Whole (count : Nat) (secrets : Secrets) : Prop where
  seed : secrets.seed.length = 32
  messages : checkMessages count secrets.messages = .ok ()

/-- The secrets of the session, if it has any, are whole. -/
def Stocked (s : Session) : Prop :=
  forall secrets, s.secrets = some secrets -> Whole s.messageCount.toNat secrets

section Stocked

variable {s s' : Session} {run : UInt32} {events : List Exchange}

theorem Drawing.whole {count : Nat} {secrets : Secrets}
    (h : Drawing run count events (.ok secrets)) (hfull : FullDraws events) :
    Whole count secrets := by
  cases h with
  | drawn seed messages hchecked => exact ⟨hfull _ List.mem_cons_self, hchecked⟩

theorem Preparing.stocked {result : Except MixFailure Secrets}
    (h : Preparing run s events result s') (hs : Stocked s) (hfull : FullDraws events) :
    Stocked s' := by
  intro secrets hsecrets
  cases h with
  | kept kept hkept =>
      cases hsecrets
      exact hs _ hkept
  | failed => cases hsecrets
  | drawn _ _ _ hdrawing =>
      cases hsecrets
      exact hdrawing.whole hfull

theorem Preparing.whole {secrets : Secrets} (h : Preparing run s events (.ok secrets) s')
    (hs : Stocked s) (hfull : FullDraws events) : Whole s.messageCount.toNat secrets := by
  cases h with
  | kept _ hkept => exact hs _ hkept
  | drawn _ _ _ hdrawing => exact hdrawing.whole hfull

theorem Revealing.stocked {rs : RevealSecrets} {blame : Blame} {result : Except MixFailure Unit}
    (h : Revealing s rs blame events result s') (hs : Stocked s) : Stocked s' := by
  cases h with
  | cancelled => exact hs
  | asked => exact hs
  | unannounced => exact hs
  | announced => exact hs

theorem Settled.stocked {rs : RevealSecrets} {walk : Except Departure Unit}
    {result : Except MixFailure Outcome} (h : Settled s rs walk events result s')
    (hs : Stocked s) : Stocked s' := by
  cases h with
  | confirmed => exact hs
  | failed => exact hs
  | replaced => exact hs
  | unrevealed h => exact h.stocked hs
  | revealed h => exact h.stocked hs

end Stocked

/-!
## Walks
-/

/-- The kinds of messages that a peer makes in a run before there is a mix. -/
def isOfRun : Kind -> Bool
  | .keyExchange => true
  | .ciphertexts => true
  | .slotReserve => true
  | .dcNet => true
  | .revealSecrets => true
  | _ => false

/-- A message of a run fits on a line, whatever has been said before. -/
def WithinLine (_past : List Exchange) (kind : Kind) (m : kind.Message) : Prop :=
  isOfRun kind = true -> (Link.frame kind m).length ≤ Link.maxLine

section Walk

variable {t : Session} {run : UInt32} {roster : Roster} {secrets : Secrets} {commitment : Bytes}
  {past events : List Exchange}

/-- What bounds the messages of a run. -/
structure Provided (t : Session) (run : UInt32) (roster : Roster) (secrets : Secrets) : Prop where
  equipped : Equipped (settingOf t run roster) (keysFor t run secrets) secrets.messages
    t.messageCount.toNat
  limited : roster.Limited t.messageCount.toNat
  seed : secrets.seed.length = 32

theorem provided_of_ofBeginRun {br : BeginRun}
    (hroster : Roster.ofBeginRun br t.identity.publicKey t.messageCount = .ok roster)
    (h : Whole t.messageCount.toNat secrets) : Provided t run roster secrets := by
  rcases checkMessages_eq_ok h.messages with ⟨hcount, hsizes⟩
  constructor
  case equipped =>
    exact ⟨Roster.sound_of_ofBeginRun hroster, Field.length_sampleMany _ _, hcount, hsizes⟩
  case limited => exact Roster.limited_of_ofBeginRun hroster
  case seed => exact h.seed

theorem EndsKeys.withinLine {result : Except Departure (List Bytes × List Bytes)}
    (h : EndsKeys (settingOf t run roster) (keysFor t run secrets) commitment events result)
    (hcommitment : commitment.length = 32) : EverySend WithinLine past events :=
  Ends.everySend h fun _ =>
    Link.length_frame_le (sized_ownKeys hcommitment).width_le (by decide)

theorem EndsCiphertexts.withinLine {points encapsulationKeys ciphertexts : List Bytes}
    {first : List Exchange} {result : Except Departure (List (List PadKey))}
    (h : EndsCiphertexts (settingOf t run roster) (keysFor t run secrets) points encapsulationKeys
      ciphertexts events result)
    (hkeys : EndsKeys (settingOf t run roster) (keysFor t run secrets) commitment first
      (.ok (points, encapsulationKeys)))
    (hmade : (encapsulated (keysFor t run secrets) encapsulationKeys).1 = .ok ciphertexts)
    (hp : Provided t run roster secrets) : EverySend WithinLine past events := by
  rcases sizes_encapsulated hmade with ⟨hlength, hsizes⟩
  exact Ends.everySend h fun _ => hp.limited.frame_ciphertexts
    (hlength.trans hkeys.lengths.right) hsizes (length_signatureOf _ _)

theorem PadsKnown.withinLine {rows : List (List PadKey)}
    (h : PadsKnown (settingOf t run roster) (keysFor t run secrets) commitment events rows)
    (hcommitment : commitment.length = 32) (hp : Provided t run roster secrets) :
    EverySend WithinLine past events := by
  rcases h with ⟨first, last, _, _, _, hkeys, hmade, hciphertexts, rfl⟩
  exact (hkeys.withinLine hcommitment).append (hciphertexts.withinLine hkeys hmade hp)

theorem EndsSlots.withinLine {rows : List (List PadKey)} {result : Except Departure (List Nat)}
    (h : EndsSlots (settingOf t run roster) (keysFor t run secrets) rows events result)
    (htable : PadTable (padScope (settingOf t run roster)) t.messageCount.toNat rows)
    (hp : Provided t run roster secrets) : EverySend WithinLine past events := by
  rcases htable.reservationVectors hp.equipped.reserved roster.myStart with ⟨hlength, hvectors⟩
  rw [total_padScope hp.equipped.roster] at hvectors
  exact Ends.everySend h fun _ => hp.limited.frame_slotReserve hlength
    (fun v hv => (hvectors v hv).left) (fun v hv => (hvectors v hv).right) (length_signatureOf _ _)

theorem SlotsKnown.withinLine {rows : List (List PadKey)} {slots : List Nat}
    (h : SlotsKnown (settingOf t run roster) (keysFor t run secrets) commitment events rows slots)
    (hcommitment : commitment.length = 32) (hp : Provided t run roster secrets) :
    EverySend WithinLine past events := by
  rcases h with ⟨first, last, hpads, hslots, rfl⟩
  exact (hpads.withinLine hcommitment hp).append
    (hslots.withinLine (hpads.padTable hp.equipped.roster) hp)

theorem EndsMessages.withinLine {rows : List (List PadKey)} {slots : List Nat}
    {vectors : List SlotVector} {first : List Exchange} {result : Except Departure Bytes}
    (h : EndsMessages (settingOf t run roster) vectors events result)
    (hslots : SlotsKnown (settingOf t run roster) (keysFor t run secrets) commitment first rows
      slots)
    (hvectors : messageVectors messageSize roster.myStart secrets.messages slots rows = .ok vectors)
    (hp : Provided t run roster secrets) : EverySend WithinLine past events := by
  rcases hslots.vectors hp.equipped with ⟨made, hmade, hlength, hdimensions⟩
  cases hmade.symm.trans hvectors
  have hcovers := covers_of_dimensions hp.equipped.roster hlength hdimensions
  exact Ends.everySend h fun _ => hp.limited.frame_dcNet hcovers.vectors hcovers.octets
    (length_signatureOf _ _)

theorem Walk.withinLine {result : Except Departure Unit}
    (h : Walk (settingOf t run roster) (keysFor t run secrets) secrets.messages commitment events
      result) (hcommitment : commitment.length = 32) (hp : Provided t run roster secrets) :
    EverySend WithinLine past events := by
  cases h with
  | keys h => exact h.withinLine hcommitment
  | unsealed h => exact h.withinLine hcommitment
  | ciphertexts h hmade hlast =>
      exact (h.withinLine hcommitment).append (hlast.withinLine h hmade hp)
  | slots h hlast =>
      exact (h.withinLine hcommitment hp).append
        (hlast.withinLine (h.padTable hp.equipped.roster) hp)
  | uncovered h => exact h.withinLine hcommitment hp
  | messages h hvectors hlast =>
      exact (h.withinLine hcommitment hp).append (hlast.withinLine h hvectors hp)
  | confirmation h hlast =>
      rcases h with ⟨first, last, rows, slots, vectors, hslots, hvectors, hmix, rfl⟩
      exact ((hslots.withinLine hcommitment hp).append (hmix.withinLine hslots hvectors hp)).append
        (hlast.everySend nofun)

end Walk

/-!
## Runs and calls
-/

section Runs

variable {s s' : Session} {run : UInt32} {carried : Option BeginRun} {events past : List Exchange}

theorem Provided.revelation {roster : Roster} {secrets : Secrets}
    (hp : Provided s run roster secrets) :
    (Link.frame .revealSecrets (revelation secrets (keysFor s run secrets))).length ≤
      Link.maxLine :=
  hp.limited.frame_revealSecrets hp.seed hp.equipped.reserved
    (fun _ hx => Field.lt_of_mem_sampleMany hx) hp.equipped.generated hp.equipped.sizes

/-- A run that starts with whole secrets or none leaves none but whole ones, and its
messages fit on lines. -/
theorem RunTrace.withinLine {result : Except MixFailure Outcome}
    (h : RunTrace s run carried events result s') (hs : Stocked s) (hfull : FullDraws events) :
    EverySend WithinLine past events ∧ Stocked s' := by
  cases h with
  | unannounced => exact ⟨⟨trivial, trivial⟩, hs⟩
  | rejected hannounced => exact ⟨everySend_of_unsent hannounced.unsent, hs⟩
  | unprepared hannounced hroster hprepared =>
      constructor
      · exact (everySend_of_unsent hannounced.unsent).append (everySend_of_unsent hprepared.unsent)
      · exact hprepared.stocked hs hfull.append.right
  | walked hannounced hroster hprepared hwalk hsettled =>
      have hpreparing := hfull.append.left.append.left.append.right
      have hp : Provided s run _ _ := provided_of_ofBeginRun hroster (hprepared.whole hs hpreparing)
      constructor
      · refine (((everySend_of_unsent hannounced.unsent).append
          (everySend_of_unsent hprepared.unsent)).append ?_).append ?_
        · exact hwalk.withinLine (length_commitment _ _) hp
        · exact hsettled.everySend nofun fun _ _ => hp.revelation
      · exact hsettled.stocked (hprepared.stocked hs hpreparing)

theorem Chain.withinLine {left : Nat} {result : Except MixFailure Unit}
    (h : Chain left s carried events result s') (hs : Stocked s) (hfull : FullDraws events) :
    EverySend WithinLine past events ∧ Stocked s' := by
  induction h generalizing past with
  | cancelled => exact ⟨⟨trivial, trivial⟩, hs⟩
  | confirmed h =>
      rcases h.withinLine hs hfull.tail with ⟨hsends, hs'⟩
      exact ⟨⟨trivial, hsends⟩, hs'⟩
  | failed h =>
      rcases h.withinLine hs hfull.tail with ⟨hsends, hs'⟩
      exact ⟨⟨trivial, hsends⟩, hs'⟩
  | exhausted h =>
      rcases h.withinLine hs hfull.tail with ⟨hsends, hs'⟩
      exact ⟨⟨trivial, hsends⟩, hs'⟩
  | rerun h _ ih =>
      rcases h.withinLine hs hfull.append.left.tail with ⟨hsends, hbetween⟩
      rcases ih hbetween hfull.append.right with ⟨hrest, hs'⟩
      exact ⟨EverySend.append ⟨trivial, hsends⟩ hrest, hs'⟩

theorem Conversation.withinLine {result : Except MixFailure Unit}
    (h : Conversation s events result s') (hs : Stocked s) (hfull : FullDraws events) :
    EverySend WithinLine past events ∧ Stocked s' := by
  cases h with
  | unread => exact ⟨⟨trivial, trivial, trivial⟩, hs⟩
  | unsent => exact ⟨⟨trivial, nofun, trivial, trivial⟩, hs⟩
  | ran unmixed hchain =>
      rcases hchain.withinLine hs hfull.append.left.append.right with ⟨hsends, hs'⟩
      refine ⟨EverySend.append (EverySend.append ?_ hsends) ?_, hs'⟩
      · exact ⟨trivial, nofun, trivial⟩
      · exact ⟨trivial, trivial⟩

theorem Calls.withinLine (h : Calls s events s') (hs : Stocked s) (hfull : FullDraws events) :
    EverySend WithinLine [] events ∧ Stocked s' := by
  induction h with
  | none => exact ⟨trivial, hs⟩
  | more _ hlast ih =>
      rcases ih hfull.append.left with ⟨hsends, hbetween⟩
      rcases (conversation_of_traces hlast).withinLine hbetween hfull.append.right with
        ⟨hrest, hs'⟩
      exact ⟨hsends.append hrest, hs'⟩

theorem stocked_of_create {σ : Type} {draw : Draw σ} {source : σ} {commitment : Bytes}
    {messageCount : UInt32} {settings : Settings}
    (h : (Session.create draw source commitment messageCount settings).1 = .ok s) :
    Stocked s := by
  intro secrets hsecrets
  cases (secrets_of_create h).symm.trans hsecrets

end Runs

/-!
## Pads of a run
-/

section Pads

variable {roster : Roster} {count : Nat} {run : UInt32} {key : HybridKey}
  {points ciphertexts : List Bytes} {rows : List (List PadKey)}

theorem padOctets_scopeOf (h : roster.Sound count)
    (hrows : padKeys key points ciphertexts (scopeOf roster run) = .ok rows) :
    padOctets rows = count * roster.total ^ 2 * messageSize := by
  have htable : PadTable (scopeOf roster run) count rows :=
    padTable_of_padKeys h.ownCount h.positive hrows
  have htotal : (scopeOf roster run).total = roster.total := h.numbering.symm
  rw [htable.padOctets_eq, htotal]
  show count * (roster.total * (roster.total * messageSize)) = _
  rw [Nat.pow_two, Nat.mul_assoc, Nat.mul_assoc]

theorem padOctets_le (h : roster.Sound count)
    (hrows : padKeys key points ciphertexts (scopeOf roster run) = .ok rows) :
    padOctets rows ≤ maxPadOctets := by
  rw [padOctets_scopeOf h hrows, Nat.pow_two, Nat.mul_comm count]
  exact h.pads

/-- A secret for every peer and a ciphertext of every peer give pads. -/
theorem exists_padKeys (h : roster.Sound count) (hsent : key.sent.length = roster.vk.length)
    (hpoints : points.length = roster.vk.length)
    (hciphertexts : ciphertexts.length = roster.vk.length)
    (hsized : forall ct, ct ∈ ciphertexts -> ct.length = Lattice.ciphertextSize) :
    exists rows, padKeys key points ciphertexts (scopeOf roster run) = .ok rows := by
  have hpeers : (scopeOf roster run).counts.length = roster.vk.length := h.peers
  have hsupplied : Supplied (scopeOf roster run) count key points ciphertexts := by
    constructor
    case ownCount => exact h.ownCount
    case lengthSent => exact hsent.trans hpeers.symm
    case lengthPoints => exact hpoints.trans hpeers.symm
    case lengthCiphertexts => exact hciphertexts.trans hpeers.symm
    case sizes => exact hsized
  exact ⟨_, hsupplied.padKeys_eq_ok⟩

end Pads

/-- The limit on pads and the limit on lines fit together.  With a roster that is
accepted, the pads of a run have as many octets as the limit has been checked for, and
a line takes every answer with one key exchange or ciphertext for each peer or a root for
each message.  Whatever the coordinator answers, a line takes every message that a
session makes of its keys, values and secrets, if each draw gives as many octets as it is
asked for. -/
theorem roster_bounds_pads_and_lines :
    (forall (br : BeginRun) (own : Bytes) (messageCount : UInt32) (roster : Roster),
      Roster.ofBeginRun br own messageCount = .ok roster ->
        (forall key points ciphertexts run rows,
          padKeys key points ciphertexts (scopeOf roster run) = .ok rows ->
            padOctets rows = messageCount.toNat * roster.total ^ 2 * 20 ∧
              padOctets rows ≤ maxPadOctets) ∧
        (forall (key : HybridKey) (points ciphertexts : List Bytes) (run : UInt32),
          key.sent.length = roster.vk.length -> points.length = roster.vk.length ->
          ciphertexts.length = roster.vk.length ->
          (forall ct, ct ∈ ciphertexts -> ct.length = 1088) ->
            exists rows, padKeys key points ciphertexts (scopeOf roster run) = .ok rows) ∧
        (forall m : KeyExchanges, m.br = none -> m.kes.length = roster.vk.length ->
          (forall entry, entry ∈ m.kes -> exists ke, entry = some ke ∧ ke.Sized) ->
            (Link.frame .keyExchanges m).length ≤ Link.maxLine) ∧
        (forall m : CiphertextsReply, m.br = none -> m.ciphertexts.length = roster.vk.length ->
          (forall ct, ct ∈ m.ciphertexts -> ct.length = 1088) ->
            (Link.frame .ciphertextsReply m).length ≤ Link.maxLine) ∧
        forall m : RecoveredMessages, m.br = none -> m.roots.length ≤ roster.total ->
          (forall root, root ∈ m.roots -> root < Field.prime) ->
            (Link.frame .recoveredMessages m).length ≤ Link.maxLine) ∧
    forall {σ : Type} (draw : Draw σ) (source : σ) (commitment : Bytes) (messageCount : UInt32)
      (settings : Settings) (s t : Session) (events : List Exchange),
      (Session.create draw source commitment messageCount settings).1 = .ok s ->
      Calls s events t -> FullDraws events ->
        forall (kind : Kind) (m : kind.Message) (limit : Nat) (answer : Except FrameError Unit),
          ⟨.send kind m limit, answer⟩ ∈ events -> isOfRun kind = true ->
            (Link.frame kind m).length ≤ Link.maxLine := by
  constructor
  · intro br own messageCount roster haccepted
    have hsound := Roster.sound_of_ofBeginRun haccepted
    have hlimited := Roster.limited_of_ofBeginRun haccepted
    refine ⟨?_, ?_, ?_, ?_, ?_⟩
    · intro key points ciphertexts run rows hrows
      exact ⟨padOctets_scopeOf hsound hrows, padOctets_le hsound hrows⟩
    · intro key points ciphertexts run hsent hpoints hciphertexts hsized
      exact exists_padKeys hsound hsent hpoints hciphertexts hsized
    · intro m hbr hpeers hsized
      exact hlimited.frame_keyExchanges hbr hpeers hsized
    · intro m hbr hpeers hsized
      exact hlimited.frame_ciphertextsReply hbr hpeers hsized
    · intro m hbr hroots hreduced
      exact hlimited.frame_recoveredMessages hbr hroots hreduced
  · intro σ draw source commitment messageCount settings s t events hs hcalls hfull kind m limit
      answer hmem hkind
    rcases List.append_of_mem hmem with ⟨before, after, hevents⟩
    exact (hcalls.withinLine (stocked_of_create hs) hfull).left.send hevents hkind

theorem fullDraws_lone (id : Identity) (settings : Settings) {seed : Bytes}
    (hseed : seed.length = 32) (message ciphertext : Bytes) (vectors : List SlotVector) :
    FullDraws (loneExchanges id settings seed message ciphertext vectors ++
      loneReveal id settings seed message :: [⟨.cancelled, true⟩, ⟨.close, ()⟩]) := by
  simp [FullDraws, FullDraw, loneExchanges, loneStages, loneReveal, sent, received, hseed]

/-- Two peers with two and three messages, of which the first has pads of a thousand
octets, and a lone peer that reveals its secrets. -/
theorem roster_bounds_pads_and_lines_of_few_peers :
    Roster.ofBeginRun Roster.twoPeers (Bytes.zeros 32) 2 = .ok (Roster.announced Roster.twoPeers 0) ∧
      (exists key points ciphertexts rows,
        padKeys key points ciphertexts (scopeOf (Roster.announced Roster.twoPeers 0) 0) =
            .ok rows ∧
          padOctets rows = 1000) ∧
      (exists m : KeyExchanges, m.kes.length = 2 ∧
        (Link.frame .keyExchanges m).length ≤ Link.maxLine) ∧
      (exists m : CiphertextsReply, m.ciphertexts.length = 2 ∧
        (Link.frame .ciphertextsReply m).length ≤ Link.maxLine) ∧
      (exists m : RecoveredMessages, m.roots.length = 5 ∧
        (Link.frame .recoveredMessages m).length ≤ Link.maxLine) ∧
      exists events t, Calls (loneSession ⟨Bytes.zeros 32⟩ Settings.default) events t ∧
        loneReveal ⟨Bytes.zeros 32⟩ Settings.default (Bytes.zeros 32) (Bytes.zeros 20) ∈ events ∧
        (Link.frame .revealSecrets (loneRevelation ⟨Bytes.zeros 32⟩ Settings.default
          (Bytes.zeros 32) (Bytes.zeros 20))).length ≤ Link.maxLine := by
  have haccepted : Roster.ofBeginRun Roster.twoPeers (Bytes.zeros 32) 2 =
      .ok (Roster.announced Roster.twoPeers 0) := Roster.acceptedByAll_twoPeers 0 _ rfl
  rcases roster_bounds_pads_and_lines with ⟨hroster, hsession⟩
  rcases hroster _ _ _ _ haccepted with ⟨hpads, hexists, hkeys, hciphertexts, hroots⟩
  have hct : (Bytes.zeros 1088).length = 1088 := List.length_replicate
  refine ⟨haccepted, ?_, ?_, ?_, ?_, ?_⟩
  · let key : HybridKey :=
      { (HybridKey.generate (Reader.forKeys (Bytes.zeros 32) 0)).1 with sent := [[], []] }
    rcases hexists key [[], []] [Bytes.zeros 1088, Bytes.zeros 1088] 0 rfl rfl rfl (by simp [hct])
      with ⟨rows, hrows⟩
    exact ⟨key, _, _, rows, hrows, (hpads _ _ _ _ _ hrows).left⟩
  · let ke : KeyExchange :=
      { run := 0, ecdh := Bytes.zeros 32, pqpk := Bytes.zeros 1184, commitment := Bytes.zeros 32,
        signature := Bytes.zeros 64 }
    have hke : ke.Sized := by
      constructor <;> exact List.length_replicate
    refine ⟨{ kes := [some ke, some ke], br := none, err := 0 }, rfl, hkeys _ rfl rfl ?_⟩
    intro entry hentry
    have hentry : entry = some ke := List.eq_of_mem_replicate (n := 2) hentry
    exact ⟨ke, hentry, hke⟩
  · exact ⟨{ ciphertexts := [Bytes.zeros 1088, Bytes.zeros 1088], br := none, err := 0 }, rfl,
      hciphertexts _ rfl rfl (by simp [hct])⟩
  · exact ⟨{ run := 0, roots := [1, 2, 3, 4, 5], revealSecrets := false, br := none, err := 0 }, rfl,
      hroots _ rfl (Nat.le_refl 5) (by decide)⟩
  · have hmessage : (Bytes.zeros 20).length = messageSize := List.length_replicate
    have hseed : (Bytes.zeros 32).length = 32 := List.length_replicate
    rcases traces_perform ⟨Bytes.zeros 32⟩ Settings.default (Bytes.zeros 32) hmessage with
      ⟨ciphertext, vectors, htraces⟩
    have hcreate : (Session.create Draw.bytes (Bytes.zeros 32) [] 1 Settings.default).1 =
        .ok (loneSession ⟨Bytes.zeros 32⟩ Settings.default) := rfl
    have hcalls := Calls.more .none htraces
    have hfull := fullDraws_lone ⟨Bytes.zeros 32⟩ Settings.default hseed (Bytes.zeros 20) ciphertext
      vectors
    have hmem := List.mem_append_right
      (loneExchanges ⟨Bytes.zeros 32⟩ Settings.default (Bytes.zeros 32) (Bytes.zeros 20) ciphertext
        vectors)
      (List.mem_cons_self (a := loneReveal ⟨Bytes.zeros 32⟩ Settings.default (Bytes.zeros 32)
        (Bytes.zeros 20)) (l := [⟨.cancelled, true⟩, ⟨.close, ()⟩]))
    exact ⟨_, _, hcalls, hmem, hsession _ _ _ _ _ _ _ _ hcreate hcalls hfull _ _ _ _ hmem rfl⟩

end Session
end PeerMix
