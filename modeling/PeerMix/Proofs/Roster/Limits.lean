import PeerMix.Proofs.DcNet.Shapes
import PeerMix.Proofs.Link.Framing
import PeerMix.Proofs.Session.Rosters

/-!
# What the limit on pads leaves

The pads of a peer grow with the square of the number of all messages.  So the limit
on their octets leaves a few thousand messages and no more peers, and whatever the
coordinator answers about so many of them stands on a line.
-/

namespace PeerMix

open Wire DcNet

/-!
## Messages and peers
-/

namespace Roster

theorem length_le_total {counts : List Nat} (h : forall count, count ∈ counts -> 0 < count) :
    counts.length ≤ Counts.total counts := by
  induction counts with
  | nil => exact Nat.le_refl 0
  | cons count counts ih =>
      have hcount := h count List.mem_cons_self
      have hcounts := ih fun other hother => h other (List.mem_cons_of_mem count hother)
      rw [List.length_cons, Counts.total_cons]
      omega

/-- How many messages and peers there can be in a run with `own` messages. -/
structure Limited (r : Roster) (own : Nat) : Prop where
  messages : own ≤ 3663
  total : r.total ≤ 3663
  peers : r.vk.length ≤ 3663
  /-- The places of the own messages among those of all. -/
  places : own * r.total ≤ 56394

section Limited

variable {r : Roster} {own : Nat}

/-- One message more on the wire would already need too many pads. -/
theorem Sound.total_le (h : r.Sound own) : r.total ≤ 3663 := by
  apply Nat.le_of_not_lt
  intro hlarge
  have hsquare : 3664 * 3664 ≤ r.total * r.total := Nat.mul_le_mul hlarge hlarge
  have hproduct : 3664 * 3664 * 1 ≤ r.total * r.total * own := Nat.mul_le_mul hsquare h.positive
  have hpads := Nat.le_trans (Nat.mul_le_mul_right messageSize hproduct) h.pads
  exact absurd hpads (by decide)

theorem Sound.own_le (h : r.Sound own) : own ≤ r.total :=
  Nat.le_trans (Nat.le_add_left own r.myStart) h.ownRange

/-- Few messages make few pairs, and of many messages only few can be own ones. -/
theorem Sound.own_mul_total_le (h : r.Sound own) : own * r.total ≤ 56394 := by
  have hown := h.own_le
  rcases Nat.lt_or_ge r.total 238 with hfew | hmany
  · have hproduct : own * r.total ≤ 237 * 237 := Nat.mul_le_mul (by omega) (by omega)
    exact Nat.le_trans hproduct (by decide)
  · have hpairs : 238 * (own * r.total) ≤ r.total * (own * r.total) := Nat.mul_le_mul_right _ hmany
    have hsame : r.total * (own * r.total) = r.total * r.total * own := by
      rw [Nat.mul_comm own r.total, Nat.mul_assoc]
    have hpads : r.total * r.total * own * 20 ≤ 268435456 := h.pads
    omega

/-- No peer is without messages. -/
theorem peers_le_total {br : BeginRun} {key : Bytes} {messageCount : UInt32}
    (h : ofBeginRun br key messageCount = .ok r) : r.vk.length ≤ r.total := by
  rcases ofBeginRun_eq_ok h with ⟨my, counts, hlengths, _, _, _, hcounts, _, rfl⟩
  rcases readCounts_eq_ok hcounts with ⟨rfl, hpositive⟩
  have hread : forall count, count ∈ (br.messageCounts.map Int64.toInt).map Int.toNat ->
      0 < count := by
    intro count hcount
    rcases List.mem_map.mp hcount with ⟨announced, hannounced, rfl⟩
    have hpos := hpositive announced hannounced
    omega
  have hpeers := length_le_total hread
  rw [List.length_map, List.length_map, ← hlengths] at hpeers
  exact hpeers

theorem limited_of_ofBeginRun {br : BeginRun} {key : Bytes} {messageCount : UInt32}
    (h : ofBeginRun br key messageCount = .ok r) : r.Limited messageCount.toNat := by
  have hsound := sound_of_ofBeginRun h
  constructor
  case messages => exact Nat.le_trans hsound.own_le hsound.total_le
  case total => exact hsound.total_le
  case peers => exact Nat.le_trans (peers_le_total h) hsound.total_le
  case places => exact hsound.own_mul_total_le

end Limited

end Roster

/-!
## Pads
-/

namespace DcNet

/-- The octets of the pads for messages. -/
def padOctets (rows : List (List PadKey)) : Nat :=
  (rows.map fun row => (row.map fun key => key.message.data.length).sum).sum

theorem sum_map_eq {α : Type} {f : α -> Nat} {xs : List α} {n : Nat}
    (h : forall x, x ∈ xs -> f x = n) : (xs.map f).sum = xs.length * n := by
  rw [List.map_congr_left h, List.map_const', List.sum_replicate_nat]

section PadOctets

variable {scope : PadScope} {own : Nat} {key : HybridKey} {points ciphertexts : List Bytes}
  {rows : List (List PadKey)}

/-- Each own message has for every message a pad as long as all of them. -/
theorem PadTable.padOctets_eq (h : PadTable scope own rows) :
    padOctets rows = own * (scope.total * (scope.total * scope.size)) := by
  have hrow : forall row, row ∈ rows ->
      (row.map fun key => key.message.data.length).sum =
        scope.total * (scope.total * scope.size) := by
    intro row hrow
    have hkey : forall key, key ∈ row -> key.message.data.length = scope.total * scope.size :=
      fun key hkey => (h.fits row key hrow hkey).message.right.right
    rw [sum_map_eq hkey, h.lengthRow row hrow]
  rw [padOctets, sum_map_eq hrow, h.lengthRows]

/-- Whatever the keys of a pair come from, there is one for every pair of messages. -/
theorem padTable_of_padKeys (hown : scope.counts[scope.my]? = some own) (hpos : 0 < own)
    (h : padKeys key points ciphertexts scope = .ok rows) : PadTable scope own rows := by
  unfold padKeys at h
  dsimp only at h
  by_cases hpoints : points.length ≠ scope.counts.length
  · rw [if_pos hpoints] at h
    cases h
  by_cases hciphertexts : ciphertexts.length ≠ scope.counts.length
  · rw [if_neg hpoints, if_pos hciphertexts] at h
    cases h
  rw [if_neg hpoints, if_neg hciphertexts, hown] at h
  cases own with
  | zero => cases hpos
  | succ own =>
      have hmade : (pairSecrets scope (own + 1) key points ciphertexts >>= fun secrets =>
          (List.range (own + 1)).mapM (padRow scope secrets)) = .ok rows := h
      rcases Session.bind_eq_ok hmade with ⟨secrets, hsecrets, hrows⟩
      cases (padRows_eq_ok scope (own + 1) secrets).symm.trans hrows
      have hlength : secrets.length = scope.counts.length := by
        rw [length_of_mapM_eq_ok hsecrets, List.length_zipIdx, List.length_zip,
          Decidable.of_not_not hpoints, Decidable.of_not_not hciphertexts, Nat.min_self]
      exact padTable_padRows hown hlength

end PadOctets

end DcNet

/-!
## Answers of the coordinator
-/

namespace Roster

section Answers

variable {r : Roster} {own : Nat}

/-- A key exchange of every peer fits on a line. -/
theorem Limited.frame_keyExchanges (h : r.Limited own) {m : KeyExchanges} (hbr : m.br = none)
    (hpeers : m.kes.length = r.vk.length)
    (hsized : forall entry, entry ∈ m.kes -> exists ke, entry = some ke ∧ ke.Sized) :
    (Link.frame .keyExchanges m).length ≤ Link.maxLine := by
  have hentries : forall entry, entry ∈ m.kes ->
      KeyExchange.codec.nullable.width entry ≤ 2694 := by
    intro entry hentry
    rcases hsized entry hentry with ⟨ke, rfl, hke⟩
    exact hke.width_le
  have hwidth := KeyExchanges.width_le hbr hentries
  rw [hpeers] at hwidth
  have hcount : r.vk.length * 2695 + 28 ≤ 3663 * 2695 + 28 :=
    Nat.add_le_add_right (Nat.mul_le_mul_right 2695 h.peers) 28
  exact Link.length_frame_le (Nat.le_trans hwidth hcount) (by decide)

/-- A ciphertext of every peer fits on a line. -/
theorem Limited.frame_ciphertextsReply (h : r.Limited own) {m : CiphertextsReply}
    (hbr : m.br = none) (hpeers : m.ciphertexts.length = r.vk.length)
    (hsized : forall ct, ct ∈ m.ciphertexts -> ct.length = Lattice.ciphertextSize) :
    (Link.frame .ciphertextsReply m).length ≤ Link.maxLine := by
  have hwidth := CiphertextsReply.width_le hbr fun ct hct => Nat.le_of_eq (hsized ct hct)
  rw [hpeers] at hwidth
  have hcount : r.vk.length * 2179 + 36 ≤ 3663 * 2179 + 36 :=
    Nat.add_le_add_right (Nat.mul_le_mul_right 2179 h.peers) 36
  exact Link.length_frame_le (Nat.le_trans hwidth hcount) (by decide)

/-- A root of every message fits on a line. -/
theorem Limited.frame_recoveredMessages (h : r.Limited own) {m : RecoveredMessages}
    (hbr : m.br = none) (hroots : m.roots.length ≤ r.total)
    (hreduced : forall root, root ∈ m.roots -> root < Field.prime) :
    (Link.frame .recoveredMessages m).length ≤ Link.maxLine := by
  have hwidth := RecoveredMessages.width_le hbr hreduced
  have hcount : m.roots.length * 35 + 70 ≤ 3663 * 35 + 70 :=
    Nat.add_le_add_right (Nat.mul_le_mul_right 35 (Nat.le_trans hroots h.total)) 70
  exact Link.length_frame_le (Nat.le_trans hwidth hcount) (by decide)

end Answers

/-!
## Messages of a peer
-/

section Messages

variable {r : Roster} {own : Nat}

/-- A ciphertext for every peer fits on a line. -/
theorem Limited.frame_ciphertexts (h : r.Limited own) {m : Ciphertexts}
    (hpeers : m.ciphertexts.length = r.vk.length)
    (hsized : forall ct, ct ∈ m.ciphertexts -> ct.length = Lattice.ciphertextSize)
    (hsignature : m.signature.length = 64) :
    (Link.frame .ciphertexts m).length ≤ Link.maxLine := by
  have hwidth := Ciphertexts.width_le fun ct hct => Nat.le_of_eq (hsized ct hct)
  rw [hpeers, hsignature] at hwidth
  have hcount : r.vk.length * 2179 + 128 + 34 ≤ 3663 * 2179 + 128 + 34 :=
    Nat.add_le_add_right (Nat.mul_le_mul_right 2179 h.peers) 162
  exact Link.length_frame_le (Nat.le_trans hwidth hcount) (by decide)

/-- A field element of every own message for every message fits on a line. -/
theorem Limited.frame_slotReserve (h : r.Limited own) {m : SlotReserve}
    (hvectors : m.dcMix.length = own)
    (helements : forall v, v ∈ m.dcMix -> v.length = r.total)
    (hreduced : forall v, v ∈ m.dcMix -> forall x, x ∈ v -> x < Field.prime)
    (hsignature : m.signature.length = 64) :
    (Link.frame .slotReserve m).length ≤ Link.maxLine := by
  have hwidth := SlotReserve.width_le hreduced fun v hv => Nat.le_of_eq (helements v hv)
  rw [hvectors, hsignature] at hwidth
  have hmessages := h.messages
  have hplaces := h.places
  have hsplit : own * (r.total * 35 + 3) = own * r.total * 35 + own * 3 := by
    rw [Nat.mul_add, Nat.mul_assoc]
  exact Link.length_frame_le hwidth (by rw [hsplit, Link.maxLine]; omega)

/-- A slot of every own message for every message fits on a line. -/
theorem Limited.frame_dcNet (h : r.Limited own) {m : DcNet} (hvectors : m.dcNet.length = own)
    (hoctets : forall v, v ∈ m.dcNet -> v.data.length = r.total * messageSize)
    (hsignature : m.signature.length = 64) :
    (Link.frame .dcNet m).length ≤ Link.maxLine := by
  have hwidth := DcNet.width_le fun v hv => Nat.le_of_eq (hoctets v hv)
  rw [hvectors, hsignature] at hwidth
  have hmessages := h.messages
  have hplaces := h.places
  have hsplit : own * (2 * (r.total * messageSize) + 67) = own * r.total * 40 + own * 67 := by
    rw [messageSize, Nat.mul_add, Nat.mul_left_comm 2, Nat.mul_assoc]
  exact Link.length_frame_le hwidth (by rw [hsplit, Link.maxLine]; omega)

/-- The secrets of all own messages fit on a line. -/
theorem Limited.frame_revealSecrets (h : r.Limited own) {m : RevealSecrets}
    (hseed : m.seed.length = 32) (hreservations : m.sr.length = own)
    (hreduced : forall x, x ∈ m.sr -> x < Field.prime) (hmessages : m.m.length = own)
    (hsized : forall message, message ∈ m.m -> message.length = messageSize) :
    (Link.frame .revealSecrets m).length ≤ Link.maxLine := by
  have hwidth := RevealSecrets.width_le hreduced fun message hm => Nat.le_of_eq (hsized message hm)
  rw [hseed, hreservations, hmessages] at hwidth
  have hcount : own * 35 + own * 43 + 2 * 32 + 50 ≤ 3663 * 35 + 3663 * 43 + 2 * 32 + 50 :=
    Nat.add_le_add_right (Nat.add_le_add (Nat.mul_le_mul_right 35 h.messages)
      (Nat.mul_le_mul_right 43 h.messages)) 114
  exact Link.length_frame_le (Nat.le_trans hwidth hcount) (by decide)

end Messages

end Roster
end PeerMix
