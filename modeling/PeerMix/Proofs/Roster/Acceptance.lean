import Mathlib.Algebra.BigOperators.Group.List.Basic
import Mathlib.Algebra.Order.Ring.Int
import Mathlib.Data.List.Nodup
import Mathlib.Data.Set.Lattice
import Mathlib.Order.CompletePartialOrder
import Mathlib.Order.Interval.Set.Defs
import Mathlib.Tactic.Ring
import PeerMix.Proofs.Session.Rosters

/-!
# Accepted rosters

A peer accepts an announcement if and only if it is as `Acceptable` says, with
the limit on the pads taken over all integers.  Peers that accept the same
announcement number its messages alike, and each message belongs to one of them.
-/

namespace PeerMix
namespace Roster

open Wire

/-!
## What an announcement has to be
-/

/-- The number of all messages that are announced. -/
def announcedTotal (br : BeginRun) : Int :=
  (br.messageCounts.map Int64.toInt).sum

/-- What an announcement has to be for the peer with key `own` and
`messageCount` messages. -/
structure Acceptable (br : BeginRun) (own : Bytes) (messageCount : UInt32) : Prop where
  lengths : br.vk.length = br.messageCounts.length
  keySizes : forall key, key ∈ br.vk -> key.length = 32
  distinct : br.vk.Nodup
  ownCount : exists (my : Nat) (count : Int64), br.vk[my]? = some own ∧
    br.messageCounts[my]? = some count ∧ count.toInt = messageCount.toNat
  positive : forall count, count ∈ br.messageCounts -> 0 < count.toInt
  pads : messageCount.toNat * announcedTotal br ^ 2 * 20 ≤ 2 ^ 28

/-- The roster holds what is announced and the own place in it; its numbers fit
into a machine word. -/
structure Reflects (r : Roster) (br : BeginRun) (own : Bytes) : Prop where
  sid : r.sid = br.sid
  vk : r.vk = br.vk
  counts : r.counts.map Int.ofNat = br.messageCounts.map Int64.toInt
  own : r.vk[r.my]? = some own
  start : r.myStart = (r.counts.take r.my).sum
  total : r.total = r.counts.sum
  within : r.myStart ≤ r.total ∧ r.total < UInt64.size

/-!
## Keys and counts
-/

theorem checkKeys_eq_ok_iff {index : Nat} {seen keys : List Bytes} :
    checkKeys index seen keys = .ok () ↔
      (forall key, key ∈ keys -> key.length = keySize) ∧ keys.Nodup ∧
        forall key, key ∈ keys -> key ∉ seen := by
  induction keys generalizing index seen with
  | nil => simp [checkKeys]
  | cons key keys ih =>
      rw [checkKeys]
      by_cases hsize : key.length = keySize
      case neg => simp [hsize]
      by_cases hseen : key ∈ seen
      case pos => simp [hsize, hseen]
      rw [if_neg (not_not_intro hsize), if_neg hseen, ih]
      -- A key that comes later is neither this one nor one seen before.
      constructor
      · rintro ⟨hsizes, hdistinct, hfresh⟩
        refine ⟨List.forall_mem_cons.mpr ⟨hsize, hsizes⟩, List.nodup_cons.mpr ⟨?_, hdistinct⟩, ?_⟩
        · exact fun hmem => hfresh key hmem List.mem_cons_self
        · refine List.forall_mem_cons.mpr ⟨hseen, ?_⟩
          exact fun other hother hold => hfresh other hother (List.mem_cons_of_mem key hold)
      · rintro ⟨hsizes, hdistinct, hfresh⟩
        rcases List.nodup_cons.mp hdistinct with ⟨hkey, hdistinct⟩
        refine ⟨fun other hother => hsizes other (List.mem_cons_of_mem key hother), hdistinct, ?_⟩
        intro other hother hold
        rcases List.mem_cons.mp hold with rfl | hold
        · exact hkey hother
        · exact hfresh other (List.mem_cons_of_mem key hother) hold

theorem readCounts_of_positive {counts : List Int} (h : forall count, count ∈ counts -> 0 < count)
    (index : Nat) : readCounts index counts = .ok (counts.map Int.toNat) := by
  induction counts generalizing index with
  | nil => rfl
  | cons count counts ih =>
      rcases List.forall_mem_cons.mp h with ⟨hcount, hcounts⟩
      rw [readCounts, if_neg (by omega), ih hcounts]
      rfl

theorem map_ofNat_toNat {counts : List Int} (h : forall count, count ∈ counts -> 0 < count) :
    (counts.map Int.toNat).map Int.ofNat = counts := by
  induction counts with
  | nil => rfl
  | cons count counts ih =>
      rcases List.forall_mem_cons.mp h with ⟨hcount, hcounts⟩
      rw [List.map_cons, List.map_cons, ih hcounts, Int.ofNat_eq_natCast,
        Int.toNat_of_nonneg hcount.le]

theorem total_eq_sum (counts : List Nat) : Counts.total counts = counts.sum := by
  induction counts with
  | nil => rfl
  | cons count counts ih => rw [Counts.total_cons, List.sum_cons, ih]

theorem cast_total (counts : List Nat) :
    (Counts.total counts : Int) = (counts.map Int.ofNat).sum := by
  induction counts with
  | nil => rfl
  | cons count counts ih =>
      rw [Counts.total_cons, List.map_cons, List.sum_cons, Nat.cast_add, ih]
      rfl

theorem start_le_total (counts : List Nat) (p : Nat) :
    Counts.start counts p ≤ Counts.total counts := by
  induction counts generalizing p with
  | nil => cases p <;> exact Nat.le_refl 0
  | cons count counts ih =>
      cases p with
      | zero => exact Nat.zero_le _
      | succ p =>
          rw [Counts.start_cons_succ, Counts.total_cons]
          exact Nat.add_le_add_left (ih p) count

/-- The limit on the pads, over natural numbers and over all integers. -/
theorem pads_iff {total own : Nat} {announced : Int} (h : (total : Int) = announced) :
    total * total * own * messageSize ≤ maxPadOctets ↔
      (own : Int) * announced ^ 2 * 20 ≤ 2 ^ 28 := by
  have hcast : ((total * total * own * messageSize : Nat) : Int) = own * announced ^ 2 * 20 := by
    rw [← h, messageSize]
    push_cast
    ring
  rw [← hcast]
  exact Int.ofNat_le.symm

theorem total_lt_size {total own : Nat} (hown : 0 < own)
    (h : total * total * own * messageSize ≤ maxPadOctets) : total < UInt64.size := by
  have hsquare : total ≤ total * total * own * messageSize :=
    calc total ≤ total * total := Nat.le_mul_self total
      _ ≤ total * total * own := Nat.le_mul_of_pos_right _ hown
      _ ≤ total * total * own * messageSize := Nat.le_mul_of_pos_right _ (by decide)
  exact Nat.lt_of_le_of_lt (Nat.le_trans hsquare h) (by decide)

/-!
## Exactness
-/

section Exact

variable {br : BeginRun} {own : Bytes} {messageCount : UInt32} {r : Roster}

/-- The roster of an announcement for the peer at `my`. -/
def announced (br : BeginRun) (my : Nat) : Roster :=
  let counts := (br.messageCounts.map Int64.toInt).map Int.toNat
  { sid := br.sid, vk := br.vk, counts, my, myStart := Counts.start counts my,
    total := Counts.total counts }

theorem cast_total_announced (h : forall count, count ∈ br.messageCounts -> 0 < count.toInt)
    (my : Nat) : ((announced br my).total : Int) = announcedTotal br := by
  have hpositive : forall count, count ∈ br.messageCounts.map Int64.toInt -> 0 < count := by
    simpa using h
  rw [announced, cast_total, map_ofNat_toNat hpositive, announcedTotal]

/-- Whatever is accepted is acceptable and gives the roster that is announced. -/
theorem acceptable_of_ofBeginRun (h : ofBeginRun br own messageCount = .ok r) :
    Acceptable br own messageCount ∧ exists my, br.vk[my]? = some own ∧ r = announced br my := by
  rcases ofBeginRun_eq_ok h with ⟨my, counts, hlengths, hkeys, hmy, hown, hcounts, hpads, rfl⟩
  rcases readCounts_eq_ok hcounts with ⟨rfl, hpositive⟩
  rcases checkKeys_eq_ok_iff.mp hkeys with ⟨hsizes, hdistinct, _⟩
  rcases List.findIdx?_eq_some_iff_getElem.mp hmy with ⟨hlt, hkey, _⟩
  have hkey : br.vk[my]? = some own := by
    rw [List.getElem?_eq_getElem hlt]
    simpa using hkey
  have hlt := ownIndex_lt hlengths hmy
  have hpositive : forall count, count ∈ br.messageCounts -> 0 < count.toInt := by
    simpa using hpositive
  refine ⟨?_, my, hkey, rfl⟩
  constructor
  case lengths => exact hlengths
  case keySizes => exact hsizes
  case distinct => exact hdistinct
  case ownCount =>
    refine ⟨my, br.messageCounts[my], hkey, List.getElem?_eq_getElem hlt, ?_⟩
    rw [← hown, List.getD_eq_getElem?_getD, List.getElem?_map, List.getElem?_eq_getElem hlt]
    rfl
  case positive => exact hpositive
  case pads => exact (pads_iff (cast_total_announced hpositive my)).mp hpads

theorem findIdx?_of_distinct {keys : List Bytes} {my : Nat} (hdistinct : keys.Nodup)
    (hkey : keys[my]? = some own) : keys.findIdx? (· = own) = some my := by
  rcases List.getElem?_eq_some_iff.mp hkey with ⟨hlt, rfl⟩
  refine List.findIdx?_eq_some_iff_getElem.mpr ⟨hlt, decide_eq_true rfl, ?_⟩
  intro other hother hsame
  have hindex := (List.Nodup.getElem_inj_iff hdistinct).mp (of_decide_eq_true hsame)
  exact Nat.ne_of_lt hother hindex

/-- Whatever is acceptable is accepted. -/
theorem Acceptable.exists_ofBeginRun (h : Acceptable br own messageCount) :
    exists r, ofBeginRun br own messageCount = .ok r := by
  rcases h.ownCount with ⟨my, count, hkey, hcount, hown⟩
  have hkeys : checkKeys 0 [] br.vk = .ok () :=
    checkKeys_eq_ok_iff.mpr ⟨h.keySizes, h.distinct, by simp⟩
  have hpositive : forall count, count ∈ br.messageCounts.map Int64.toInt -> 0 < count := by
    simpa using h.positive
  have hownCount : (br.messageCounts.map Int64.toInt).getD my 0 = messageCount.toNat := by
    rw [List.getD_eq_getElem?_getD, List.getElem?_map, hcount]
    exact hown
  have hcounted : 0 < messageCount.toNat := by
    have hpos := h.positive count (List.mem_of_getElem? hcount)
    omega
  have hpads := (pads_iff (cast_total_announced h.positive my)).mpr h.pads
  have hword := total_lt_size hcounted hpads
  refine ⟨announced br my, ?_⟩
  unfold ofBeginRun
  dsimp only [announced] at hpads hword ⊢
  rw [if_neg (by simp [h.lengths]), hkeys, findIdx?_of_distinct h.distinct hkey]
  show (if _ then _ else _) = _
  rw [if_neg (not_not_intro hownCount), readCounts_of_positive hpositive]
  show (if _ then _ else _) = _
  rw [if_neg (Nat.not_le_of_lt hword)]
  show (if _ then _ else _) = _
  rw [if_neg (Nat.not_lt_of_le hpads)]
  rfl

theorem reflects_of_ofBeginRun (h : ofBeginRun br own messageCount = .ok r) :
    Reflects r br own := by
  rcases acceptable_of_ofBeginRun h with ⟨haccepted, my, hkey, rfl⟩
  have hsound := sound_of_ofBeginRun h
  have hpositive : forall count, count ∈ br.messageCounts.map Int64.toInt -> 0 < count := by
    simpa using haccepted.positive
  constructor
  case sid => rfl
  case vk => rfl
  case counts => exact map_ofNat_toNat hpositive
  case own => exact hkey
  case start => exact total_eq_sum _
  case total => exact total_eq_sum _
  case within => exact ⟨start_le_total _ _, hsound.total_lt⟩

end Exact

/-!
## Peers of one announcement
-/

/-- The global indices of the messages of a peer. -/
def ownRange (r : Roster) (messageCount : UInt32) : Set Nat :=
  Set.Ico r.myStart (r.myStart + messageCount.toNat)

/-- Every peer accepts the announcement with its own key and its own number of
messages. -/
def AcceptedByAll (br : BeginRun) (messageCount : Nat -> UInt32) (roster : Nat -> Roster) : Prop :=
  forall p own, br.vk[p]? = some own -> ofBeginRun br own (messageCount p) = .ok (roster p)

/-- The peers agree on the roster, and their messages take up all global indices
without overlap. -/
structure Shared (br : BeginRun) (messageCount : Nat -> UInt32) (roster : Nat -> Roster) :
    Prop where
  agree : forall p q, p < br.vk.length -> q < br.vk.length ->
    (roster p).vk = (roster q).vk ∧ (roster p).counts = (roster q).counts ∧
      (roster p).total = (roster q).total
  disjoint : forall p q, p < br.vk.length -> q < br.vk.length -> p ≠ q ->
    Disjoint (ownRange (roster p) (messageCount p)) (ownRange (roster q) (messageCount q))
  cover : forall p, p < br.vk.length ->
    ⋃ q ∈ Set.Iio br.vk.length, ownRange (roster q) (messageCount q) =
      Set.Ico 0 (roster p).total

section Shared

variable {br : BeginRun} {messageCount : Nat -> UInt32} {roster : Nat -> Roster}

theorem AcceptedByAll.eq_announced (h : AcceptedByAll br messageCount roster) {p : Nat}
    (hp : p < br.vk.length) :
    roster p = announced br p ∧ (roster p).counts[p]? = some (messageCount p).toNat := by
  have haccepted := h p br.vk[p] (List.getElem?_eq_getElem hp)
  rcases acceptable_of_ofBeginRun haccepted with ⟨hacceptable, my, hkey, hroster⟩
  have hmy : my = p := by
    have hfound := findIdx?_of_distinct hacceptable.distinct hkey
    rw [findIdx?_of_distinct hacceptable.distinct (List.getElem?_eq_getElem hp)] at hfound
    exact (Option.some.inj hfound).symm
  subst hmy
  have hcount := (sound_of_ofBeginRun haccepted).ownCount
  rw [hroster] at hcount ⊢
  exact ⟨rfl, hcount⟩

theorem AcceptedByAll.shared (h : AcceptedByAll br messageCount roster) :
    Shared br messageCount roster := by
  -- All rosters number the messages by the same counts.
  let counts := (br.messageCounts.map Int64.toInt).map Int.toNat
  have hroster {p : Nat} (hp : p < br.vk.length) : roster p = announced br p :=
    (h.eq_announced hp).left
  have hcount {p : Nat} (hp : p < br.vk.length) : counts[p]? = some (messageCount p).toNat := by
    have hown := (h.eq_announced hp).right
    rw [hroster hp] at hown
    exact hown
  have hmem {p g : Nat} (hp : p < br.vk.length) :
      g ∈ ownRange (roster p) (messageCount p) ↔
        exists i, i < (messageCount p).toNat ∧ g = Counts.start counts p + i := by
    rw [hroster hp]
    constructor
    · rintro ⟨hfirst, hlast⟩
      have hstart : Counts.start counts p ≤ g := hfirst
      have hend : g < Counts.start counts p + (messageCount p).toNat := hlast
      exact ⟨g - Counts.start counts p, by omega, by omega⟩
    · rintro ⟨i, hi, rfl⟩
      exact ⟨Nat.le_add_right _ i, Nat.add_lt_add_left hi _⟩
  constructor
  case agree =>
    intro p q hp hq
    rw [hroster hp, hroster hq]
    exact ⟨rfl, rfl, rfl⟩
  case disjoint =>
    intro p q hp hq hne
    rw [Set.disjoint_left]
    intro g hgp hgq
    rcases (hmem hp).mp hgp with ⟨i, hi, rfl⟩
    rcases (hmem hq).mp hgq with ⟨j, hj, hsame⟩
    exact hne (Counts.position_unique (hcount hp) hi (hcount hq) hj hsame).left
  case cover =>
    intro p hp
    have htotal : (roster p).total = Counts.total counts := by
      rw [hroster hp]
      rfl
    rw [htotal]
    ext g
    simp only [Set.mem_iUnion, Set.mem_Iio, exists_prop, Set.mem_Ico, Nat.zero_le, true_and]
    constructor
    · rintro ⟨q, hq, hg⟩
      rcases (hmem hq).mp hg with ⟨i, hi, rfl⟩
      exact Counts.start_add_lt (hcount hq) hi
    · intro hg
      rcases Counts.exists_position hg with ⟨q, i, count, hq, hi, hstart⟩
      have hpeers : counts.length = br.vk.length := by
        have haccepted := h p br.vk[p] (List.getElem?_eq_getElem hp)
        simp [counts, (acceptable_of_ofBeginRun haccepted).left.lengths]
      have hqlt : q < br.vk.length := by
        rw [← hpeers]
        exact (List.getElem?_eq_some_iff.mp hq).1
      cases hq.symm.trans (hcount hqlt)
      exact ⟨q, hqlt, (hmem hqlt).mpr ⟨i, hi, hstart⟩⟩

end Shared

/-- An announcement is accepted if and only if it is acceptable, and the roster
holds what is announced.  Peers that all accept it agree on the peers and the
counts, and their messages share out all global indices. -/
theorem accepted_iff_acceptable_and_shared (br : BeginRun) :
    (forall own messageCount, (exists r, ofBeginRun br own messageCount = .ok r) ↔
      Acceptable br own messageCount) ∧
    (forall own messageCount r, ofBeginRun br own messageCount = .ok r -> Reflects r br own) ∧
    forall messageCount roster, AcceptedByAll br messageCount roster ->
      Shared br messageCount roster := by
  refine ⟨?_, fun own messageCount r h => reflects_of_ofBeginRun h,
    fun messageCount roster h => h.shared⟩
  intro own messageCount
  constructor
  · rintro ⟨r, h⟩
    exact (acceptable_of_ofBeginRun h).left
  · exact fun h => h.exists_ofBeginRun

def twoPeers : BeginRun :=
  { vk := [Bytes.zeros 32, List.replicate 32 1], messageCounts := [2, 3], sid := [], err := 0 }

theorem acceptedByAll_twoPeers :
    AcceptedByAll twoPeers (fun p => if p = 0 then 2 else 3) (announced twoPeers) := by
  intro p own hown
  match p with
  | 0 =>
      cases hown
      rfl
  | 1 =>
      cases hown
      rfl
  | p + 2 => cases hown

/-- Two peers with two and three messages. -/
theorem accepted_iff_acceptable_and_shared_of_two_peers :
    ofBeginRun twoPeers (Bytes.zeros 32) 2 = .ok (announced twoPeers 0) ∧
      AcceptedByAll twoPeers (fun p => if p = 0 then 2 else 3) (announced twoPeers) ∧
      Reflects (announced twoPeers 0) twoPeers (Bytes.zeros 32) ∧
      Shared twoPeers (fun p => if p = 0 then 2 else 3) (announced twoPeers) := by
  have haccepted : ofBeginRun twoPeers (Bytes.zeros 32) 2 = .ok (announced twoPeers 0) :=
    acceptedByAll_twoPeers 0 _ rfl
  refine ⟨haccepted, acceptedByAll_twoPeers, ?_, ?_⟩
  · exact (accepted_iff_acceptable_and_shared twoPeers).right.left _ _ _ haccepted
  · exact (accepted_iff_acceptable_and_shared twoPeers).right.right _ _ acceptedByAll_twoPeers

end Roster
end PeerMix
