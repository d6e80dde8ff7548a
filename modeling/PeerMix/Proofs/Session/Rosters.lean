import PeerMix.Proofs.Counts.Numbering
import PeerMix.Proofs.Session.Turns

/-!
# What an accepted roster promises

The stages of a run index lists by peers and messages and multiply counts.  All
that they rely on has been checked with the roster: the own place, the numbering
of the messages, and a limit on the octets of all pads that is far from the end
of a machine word.
-/

namespace PeerMix
namespace Roster

open Session

/-- What the stages of a run with `own` messages rely on. -/
structure Sound (r : Roster) (own : Nat) : Prop where
  positive : 0 < own
  peers : r.counts.length = r.vk.length
  ownCount : r.counts[r.my]? = some own
  numbering : r.total = Counts.total r.counts
  ownRange : r.myStart + own ≤ r.total
  pads : r.total * r.total * own * messageSize ≤ maxPadOctets

section Sound

variable {r : Roster} {own : Nat}

theorem Sound.octets (h : r.Sound own) : r.total * messageSize ≤ maxPadOctets := by
  -- The limit is on a product with two more factors, neither of them zero.
  have hown : 1 ≤ own := h.positive
  have htotal : 1 ≤ r.total := by
    have hrange := h.ownRange
    omega
  have hpads : r.total ≤ r.total * r.total * own :=
    Nat.le_trans (Nat.le_mul_of_pos_left r.total htotal) (Nat.le_mul_of_pos_right _ hown)
  exact Nat.le_trans (Nat.mul_le_mul_right messageSize hpads) h.pads

theorem Sound.total_lt (h : r.Sound own) : r.total < UInt64.size := by
  have hmessage : r.total ≤ r.total * messageSize := Nat.le_mul_of_pos_right _ (by decide)
  have hlimit : maxPadOctets < UInt64.size := by decide
  exact Nat.lt_of_le_of_lt (Nat.le_trans hmessage h.octets) hlimit

end Sound

theorem readCounts_eq_ok {index : Nat} {counts : List Int} {read : List Nat}
    (h : readCounts index counts = .ok read) :
    read = counts.map Int.toNat ∧ forall count, count ∈ counts -> 0 < count := by
  induction counts generalizing index read with
  | nil =>
      cases h
      exact ⟨rfl, nofun⟩
  | cons count counts ih =>
      rw [readCounts] at h
      by_cases hcount : count ≤ 0
      · rw [if_pos hcount] at h
        cases h
      · rw [if_neg hcount] at h
        cases hrest : readCounts (index + 1) counts with
        | error fault =>
            rw [hrest] at h
            cases h
        | ok rest =>
            rw [hrest] at h
            cases h
            rcases ih hrest with ⟨rfl, hpositive⟩
            refine ⟨rfl, ?_⟩
            intro other hother
            rcases List.mem_cons.mp hother with rfl | hother
            · omega
            · exact hpositive other hother

theorem start_add_le {counts : List Nat} {p count : Nat} (hp : counts[p]? = some count)
    (hpos : 0 < count) : Counts.start counts p + count ≤ Counts.total counts := by
  have hlast := Counts.start_add_lt hp (i := count - 1) (by omega)
  omega

/-- What has been checked of an announcement that is accepted. -/
theorem ofBeginRun_eq_ok {br : Wire.BeginRun} {own : Bytes} {messageCount : UInt32} {r : Roster}
    (h : ofBeginRun br own messageCount = .ok r) :
    exists my counts, br.vk.length = br.messageCounts.length ∧
      checkKeys 0 [] br.vk = .ok () ∧
      br.vk.findIdx? (· = own) = some my ∧
      (br.messageCounts.map Int64.toInt).getD my 0 = messageCount.toNat ∧
      readCounts 0 (br.messageCounts.map Int64.toInt) = .ok counts ∧
      Counts.total counts * Counts.total counts * messageCount.toNat * messageSize ≤
        maxPadOctets ∧
      r = { sid := br.sid, vk := br.vk, counts, my, myStart := Counts.start counts my,
            total := Counts.total counts } := by
  unfold ofBeginRun at h
  dsimp only at h
  split at h
  · cases h
  rename_i hlengths
  rcases bind_eq_ok h with ⟨_, hkeys, hopened⟩
  split at hopened
  case h_2 => cases hopened
  rename_i my hmy
  split at hopened
  · cases hopened
  rename_i hown
  rcases bind_eq_ok hopened with ⟨counts, hcounts, hcounted⟩
  split at hcounted
  · cases hcounted
  split at hcounted
  · cases hcounted
  rename_i hpads
  cases hcounted
  refine ⟨my, counts, ?_, hkeys, hmy, Decidable.of_not_not hown, hcounts,
    Nat.le_of_not_lt hpads, rfl⟩
  have hsame := Decidable.of_not_not hlengths
  rw [List.length_map] at hsame
  exact hsame

/-- The own key has a count, also in announcements that are rejected later. -/
theorem ownIndex_lt {br : Wire.BeginRun} {own : Bytes} {my : Nat}
    (hlengths : br.vk.length = br.messageCounts.length)
    (hmy : br.vk.findIdx? (· = own) = some my) : my < br.messageCounts.length := by
  rcases List.findIdx?_eq_some_iff_getElem.mp hmy with ⟨hlt, _⟩
  rw [← hlengths]
  exact hlt

theorem sound_of_ofBeginRun {br : Wire.BeginRun} {own : Bytes} {messageCount : UInt32}
    {r : Roster} (h : ofBeginRun br own messageCount = .ok r) : r.Sound messageCount.toNat := by
  rcases ofBeginRun_eq_ok h with ⟨my, counts, hlengths, _, hmy, hown, hcounts, hpads, rfl⟩
  rcases readCounts_eq_ok hcounts with ⟨rfl, hpositive⟩
  have hlt : my < (br.messageCounts.map Int64.toInt).length := by
    rw [List.length_map]
    exact ownIndex_lt hlengths hmy
  have hget := List.getElem?_eq_getElem hlt
  have hvalue : (br.messageCounts.map Int64.toInt)[my] = messageCount.toNat := by
    rw [List.getD_eq_getElem?_getD, hget] at hown
    exact hown
  have hpos : 0 < messageCount.toNat := by
    have hcount := hpositive _ (List.getElem_mem hlt)
    omega
  have hcount : ((br.messageCounts.map Int64.toInt).map Int.toNat)[my]? =
      some messageCount.toNat := by
    rw [List.getElem?_map, hget, hvalue]
    rfl
  constructor
  case positive => exact hpos
  case peers => simp [hlengths]
  case ownCount => exact hcount
  case numbering => rfl
  case ownRange => exact start_add_le hcount hpos
  case pads => exact hpads

end Roster
end PeerMix
