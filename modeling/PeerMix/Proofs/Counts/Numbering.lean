import PeerMix.Counts

/-!
# Numbering of messages

The messages of all peers are numbered through, peer by peer.  This module
relates the global index of a message to its peer and its place among the
messages of that peer, and reads lists that are put together peer by peer at
global indices.
-/

namespace PeerMix
namespace Counts

@[simp] theorem total_nil : total [] = 0 := rfl

@[simp] theorem total_cons (count : Nat) (counts : List Nat) :
    total (count :: counts) = count + total counts := rfl

@[simp] theorem start_zero (counts : List Nat) : start counts 0 = 0 := by
  cases counts <;> rfl

@[simp] theorem start_cons_succ (count : Nat) (counts : List Nat) (p : Nat) :
    start (count :: counts) (p + 1) = count + start counts p := rfl

/-- The number of entries in a list that is put together from `rows`. -/
theorem length_flatten {α : Type} (rows : List (List α)) :
    rows.flatten.length = total (rows.map List.length) := by
  induction rows with
  | nil => rfl
  | cons row rows ih =>
      rw [List.flatten_cons, List.length_append, ih]
      rfl

/-! ## Global indices -/

/-- The entry of `rows` at the place `i` of peer `p` stands at its global index. -/
theorem getElem?_flatten_start {α : Type} {rows : List (List α)} {p i : Nat} {row : List α}
    (hrow : rows[p]? = some row) (hi : i < row.length) :
    rows.flatten[start (rows.map List.length) p + i]? = row[i]? := by
  induction rows generalizing p with
  | nil => cases hrow
  | cons first rows ih =>
      cases p with
      | zero =>
          cases hrow
          rw [start_zero, Nat.zero_add, List.flatten_cons, List.getElem?_append_left hi]
      | succ p =>
          have hp : rows[p]? = some row := hrow
          rw [List.map_cons, start_cons_succ, List.flatten_cons,
            List.getElem?_append_right (by omega),
            Nat.add_assoc, Nat.add_sub_cancel_left, ih hp]

theorem start_add_lt {counts : List Nat} {p i count : Nat} (hp : counts[p]? = some count)
    (hi : i < count) : start counts p + i < total counts := by
  induction counts generalizing p with
  | nil => cases hp
  | cons first counts ih =>
      cases p with
      | zero =>
          cases hp
          rw [start_zero, total_cons]
          omega
      | succ p =>
          have hlt := ih (p := p) hp
          rw [start_cons_succ, total_cons]
          omega

/-- Every global index belongs to a peer. -/
theorem exists_position {counts : List Nat} {g : Nat} (hg : g < total counts) :
    exists p i count, counts[p]? = some count ∧ i < count ∧ g = start counts p + i := by
  induction counts generalizing g with
  | nil => cases hg
  | cons first counts ih =>
      rw [total_cons] at hg
      by_cases hfirst : g < first
      · exact ⟨0, g, first, rfl, hfirst, by rw [start_zero, Nat.zero_add]⟩
      · rcases ih (g := g - first) (by omega) with ⟨p, i, count, hp, hi, hstart⟩
        exact ⟨p + 1, i, count, hp, hi, by rw [start_cons_succ]; omega⟩

/-- Messages with one global index have one peer and one place. -/
theorem position_unique {counts : List Nat} {p q i j countP countQ : Nat}
    (hp : counts[p]? = some countP) (hi : i < countP)
    (hq : counts[q]? = some countQ) (hj : j < countQ)
    (heq : start counts p + i = start counts q + j) : p = q ∧ i = j := by
  induction counts generalizing p q with
  | nil => cases hp
  | cons first counts ih =>
      cases p with
      | zero =>
          cases q with
          | zero =>
              rw [start_zero, Nat.zero_add, Nat.zero_add] at heq
              exact ⟨rfl, heq⟩
          | succ q =>
              cases hp
              rw [start_zero, start_cons_succ] at heq
              omega
      | succ p =>
          cases q with
          | zero =>
              cases hq
              rw [start_zero, start_cons_succ] at heq
              omega
          | succ q =>
              rw [start_cons_succ, start_cons_succ] at heq
              rcases ih hp hq (by omega) with ⟨rfl, rfl⟩
              exact ⟨rfl, rfl⟩

/-- Lists put together peer by peer make one list over all global indices. -/
theorem flatten_eq_map_range {α : Type} {parts : List (List α)} {counts : List Nat} {f : Nat -> α}
    (hlength : parts.map List.length = counts)
    (h : forall p part, parts[p]? = some part ->
      forall i x, part[i]? = some x -> x = f (start counts p + i)) :
    parts.flatten = (List.range (total counts)).map f := by
  have hflat : parts.flatten.length = total counts := by
    rw [length_flatten, hlength]
  apply List.ext_getElem
  · rw [hflat, List.length_map, List.length_range]
  · intro g hg _hg
    rw [hflat] at hg
    rcases exists_position hg with ⟨p, i, count, hcount, hi, rfl⟩
    rw [← hlength, List.getElem?_map, Option.map_eq_some_iff] at hcount
    rcases hcount with ⟨part, hpart, rfl⟩
    have hentry := getElem?_flatten_start hpart hi
    rw [hlength, List.getElem?_eq_getElem hi] at hentry
    rw [List.getElem_map, List.getElem_range, ← h p part hpart i _ (List.getElem?_eq_getElem hi)]
    exact Option.some.inj ((List.getElem?_eq_getElem _).symm.trans hentry)

end Counts
end PeerMix
