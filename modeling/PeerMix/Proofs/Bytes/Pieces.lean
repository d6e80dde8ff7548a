import PeerMix.Bytes

/-!
# Pieces of one size

A byte string whose length is a multiple of the size falls apart into whole pieces,
each of which starts where the one before it ends.
-/

namespace PeerMix
namespace Bytes

/-- The bound on the pieces is never what ends the recursion. -/
theorem pieces_cut_eq {n : Nat} (hn : 0 < n) (count bound : Nat) (rest : Bytes) (made : List Bytes)
    (hrest : rest.length = n * count) (hbound : count ≤ bound) :
    pieces.cut n bound rest made =
      made.reverse ++ (List.range count).map fun i => (rest.drop (n * i)).take n := by
  induction count generalizing bound rest made with
  | zero =>
      have hnil : rest = [] := List.eq_nil_of_length_eq_zero hrest
      subst hnil
      cases bound <;> simp [pieces.cut]
  | succ count ih =>
      rw [Nat.mul_succ] at hrest
      cases bound with
      | zero => omega
      | succ bound =>
          have hne : rest ≠ [] := by
            rintro rfl
            rw [List.length_nil] at hrest
            omega
          have hlength : (rest.drop n).length = n * count := by
            rw [List.length_drop, hrest, Nat.add_sub_cancel_right]
          rw [pieces.cut, ih bound _ _ hlength (Nat.le_of_succ_le_succ hbound),
            List.range_succ_eq_map, List.map_cons, List.map_map, List.reverse_cons,
            List.append_assoc]
          · refine congrArg (fun tail => made.reverse ++ rest.take n :: tail)
              (List.map_congr_left fun i _ => ?_)
            rw [List.drop_drop, Nat.add_comm n, ← Nat.mul_succ]
            rfl
          · exact hne

theorem pieces_eq {n count : Nat} {bs : Bytes} (hn : 0 < n) (hbs : bs.length = n * count) :
    bs.pieces n = (List.range count).map fun i => (bs.drop (n * i)).take n := by
  have hcount : count ≤ bs.length := by
    rw [hbs]
    exact Nat.le_mul_of_pos_left count hn
  rw [pieces, pieces_cut_eq hn count bs.length bs [] hbs hcount, List.reverse_nil,
    List.nil_append]

theorem pieces_sizes {n count : Nat} {bs : Bytes} (hn : 0 < n) (hbs : bs.length = n * count) :
    (bs.pieces n).length = count ∧ forall piece, piece ∈ bs.pieces n -> piece.length = n := by
  rw [pieces_eq hn hbs]
  constructor
  · rw [List.length_map, List.length_range]
  · intro piece hpiece
    rcases List.mem_map.mp hpiece with ⟨i, hi, rfl⟩
    have hend : n * (i + 1) ≤ n * count := Nat.mul_le_mul_left n (List.mem_range.mp hi)
    rw [Nat.mul_succ] at hend
    rw [List.length_take, List.length_drop, hbs]
    omega

end Bytes
end PeerMix
