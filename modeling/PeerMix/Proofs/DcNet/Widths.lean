import PeerMix.Proofs.Roster.Limits

/-!
# Pads in machine words

Totals, lengths and exponents are numbers without an end.  Counted in machine words
they start over at the end of a word, but no accepted roster leads there: its pads
have the lengths that words count, and its powers the exponents.
-/

namespace PeerMix
namespace DcNet

/-!
## Totals and lengths
-/

/-- The number of all messages, counted in a machine word. -/
def wordTotal (counts : List Nat) : UInt64 :=
  counts.foldl (fun sum count => sum + UInt64.ofNat count) 0

/-- The octets of a pad, counted in a machine word. -/
def PadScope.wordOctets (scope : PadScope) : UInt64 :=
  wordTotal scope.counts * UInt64.ofNat scope.size

/-- A word that counts on starts over whenever it comes to its end. -/
theorem toNat_foldl_add (counts : List Nat) (sum : UInt64) :
    (counts.foldl (fun sum count => sum + UInt64.ofNat count) sum).toNat =
      (sum.toNat + Counts.total counts) % UInt64.size := by
  induction counts generalizing sum with
  | nil =>
      rw [Counts.total_nil, Nat.add_zero, Nat.mod_eq_of_lt sum.toNat_lt]
      rfl
  | cons count counts ih =>
      rw [List.foldl_cons, ih, UInt64.toNat_add, UInt64.toNat_ofNat', Nat.add_mod_mod,
        Nat.mod_add_mod, Nat.add_assoc, Counts.total_cons]

theorem toNat_wordTotal (counts : List Nat) :
    (wordTotal counts).toNat = Counts.total counts % UInt64.size := by
  rw [wordTotal, toNat_foldl_add, UInt64.toNat_zero, Nat.zero_add]

section Fits

variable {scope : PadScope}

theorem PadScope.Fits.toNat_wordTotal (h : scope.Fits) :
    (wordTotal scope.counts).toNat = scope.total := by
  have hlt : scope.total < UInt64.size :=
    Nat.lt_trans (Nat.lt_of_succ_lt h.right) (by decide)
  rw [DcNet.toNat_wordTotal]
  exact Nat.mod_eq_of_lt hlt

theorem PadScope.Fits.toNat_wordOctets (h : scope.Fits) :
    scope.wordOctets.toNat = scope.total * scope.size := by
  rw [PadScope.wordOctets, UInt64.toNat_mul, h.toNat_wordTotal, UInt64.toNat_ofNat',
    Nat.mul_mod_mod]
  exact Nat.mod_eq_of_lt h.left

end Fits

/-!
## Exponents
-/

/-- Powers of `m` under their pads, with exponents from `k` on that half a machine
word counts. -/
def powersFrom (m : Nat) (k : UInt32) : List Nat -> List Nat
  | [] => []
  | pad :: pads => (Field.pow m k.toNat + pad) % Field.prime :: powersFrom m (k + 1) pads

theorem powersFrom_eq (m : Nat) {pads : List Nat} {k : Nat}
    (h : k + 1 + pads.length < UInt32.size) :
    powersFrom m (UInt32.ofNat (k + 1)) pads =
      (pads.zipIdx k).map fun (pad, k) => (Field.pow m (k + 1) + pad) % Field.prime := by
  induction pads generalizing k with
  | nil => rfl
  | cons pad pads ih =>
      have hrest : k + 1 + 1 + pads.length < UInt32.size := by
        rw [List.length_cons] at h
        omega
      have hk : k + 1 < UInt32.size := Nat.lt_of_le_of_lt (Nat.le_add_right _ _) h
      have hnext : UInt32.ofNat (k + 1) + 1 = UInt32.ofNat (k + 1 + 1) :=
        (UInt32.ofNat_add (k + 1) 1).symm
      rw [powersFrom, hnext, ih hrest, UInt32.toNat_ofNat_of_lt' hk]
      rfl

theorem reservationMix_eq_powersFrom (m : Nat) {pads : List Nat}
    (h : pads.length + 1 < UInt32.size) : reservationMix m pads = powersFrom m 1 pads := by
  have hlength : 0 + 1 + pads.length < UInt32.size := by omega
  exact (powersFrom_eq m hlength).symm

/-- The reservation vectors with exponents that half a machine word counts. -/
def wordReservationVectors (start : Nat) (reservations : List Nat) (rows : List (List PadKey)) :
    List (List Nat) :=
  ((reservations.zip rows).zipIdx start).map fun ((m, row), g) =>
    powersFrom m 1 (reservationPads (row.map (·.reservation)) g)

theorem reservationVectors_eq_words {scope : PadScope} {own : Nat} {rows : List (List PadKey)}
    (h : PadTable scope own rows) (hfits : scope.Fits) (start : Nat) (reservations : List Nat) :
    reservationVectors start reservations rows =
      wordReservationVectors start reservations rows := by
  apply List.map_congr_left
  rintro ⟨⟨m, row⟩, g⟩ hvector
  have hrow : row ∈ rows := (List.of_mem_zip (List.fst_mem_of_mem_zipIdx hvector)).right
  have hlength : (reservationPads (row.map (·.reservation)) g).length = scope.total := by
    rw [reservationPads, length_reservationPadsOf, List.length_map, h.lengthRow row hrow]
  exact reservationMix_eq_powersFrom m (by rw [hlength]; exact hfits.right)

end DcNet

/-!
## Accepted rosters
-/

namespace Session

open DcNet

variable {s : RunSetting} {own : Nat}

/-- The limit on pads keeps every number of a run within its words. -/
theorem padScope_fits (h : s.roster.Sound own) : (padScope s).Fits := by
  have htotal : (padScope s).total ≤ 3663 := by
    have hnumbering : (padScope s).total = s.roster.total := h.numbering.symm
    rw [hnumbering]
    exact h.total_le
  constructor
  · exact Nat.lt_of_le_of_lt (Nat.mul_le_mul_right messageSize htotal) (by decide)
  · exact Nat.lt_of_le_of_lt (Nat.succ_le_succ htotal) (by decide)

/-- What an accepted roster leads to is the same in machine words: the number of all
messages, the octets of a pad, and the reservation vectors under any pad keys. -/
theorem run_stays_in_words {br : Wire.BeginRun} {key : Bytes} {count : UInt32}
    (h : Roster.ofBeginRun br key count = .ok s.roster) :
    (wordTotal (padScope s).counts).toNat = s.roster.total ∧
      (padScope s).wordOctets.toNat = s.roster.total * messageSize ∧
        forall (rows : List (List PadKey)) (reservations : List Nat),
          PadTable (padScope s) count.toNat rows ->
            reservationVectors s.roster.myStart reservations rows =
              wordReservationVectors s.roster.myStart reservations rows := by
  have hsound := Roster.sound_of_ofBeginRun h
  have hfits := padScope_fits (s := s) hsound
  have htotal : (padScope s).total = s.roster.total := hsound.numbering.symm
  refine ⟨?_, ?_, ?_⟩
  · rw [hfits.toNat_wordTotal, htotal]
  · rw [hfits.toNat_wordOctets, htotal]
    rfl
  · intro rows reservations htable
    exact reservationVectors_eq_words htable hfits s.roster.myStart reservations

end Session
end PeerMix
