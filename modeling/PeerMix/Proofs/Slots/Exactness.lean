import Mathlib.Data.List.Forall2
import Mathlib.Data.List.Nodup
import PeerMix.Proofs.Slots.Resolution

/-!
# Exactly which secrets have slots

The search compares encodings and keeps the last match.  Because encodings tell
all numbers apart from an element of the field, this is the last index of the
element itself, whatever else stands among the roots.  Slots are then the last
indices of all secrets, and different secrets have different ones.
-/

namespace PeerMix
namespace Slots

open PeerMix.Field

/-!
## Last indices
-/

/-- The last index at which `roots` holds `x`. -/
def IsLastIndex (roots : List Nat) (x i : Nat) : Prop :=
  roots[i]? = some x ∧ forall j, i < j -> roots[j]? ≠ some x

section LastIndex

variable {roots : List Nat} {x y i j : Nat}

theorem IsLastIndex.index_unique (hi : IsLastIndex roots x i) (hj : IsLastIndex roots x j) :
    i = j := by
  rcases Nat.lt_trichotomy i j with hlt | heq | hlt
  · exact absurd hj.left (hi.right j hlt)
  · exact heq
  · exact absurd hi.left (hj.right i hlt)

theorem IsLastIndex.value_unique (hx : IsLastIndex roots x i) (hy : IsLastIndex roots y i) :
    x = y :=
  Option.some.inj (hx.left.symm.trans hy.left)

theorem isLastIndex_concat_self : IsLastIndex (roots ++ [x]) x roots.length := by
  constructor
  · exact List.getElem?_concat_length
  · intro j hj
    rw [List.getElem?_eq_none (by rw [List.length_append, List.length_singleton]; omega)]
    exact nofun

theorem isLastIndex_concat_of_ne (hne : y ≠ x) :
    IsLastIndex (roots ++ [y]) x i ↔ IsLastIndex roots x i := by
  have hsame (k : Nat) : (roots ++ [y])[k]? = some x ↔ roots[k]? = some x := by
    rw [List.getElem?_append]
    by_cases hk : k < roots.length
    · rw [if_pos hk]
    · rw [if_neg hk, List.getElem?_eq_none (Nat.le_of_not_lt hk)]
      constructor
      · intro hlast
        exact absurd (List.mem_singleton.mp (List.mem_of_getElem? hlast)).symm hne
      · exact nofun
  rw [IsLastIndex, IsLastIndex, hsame i]
  exact and_congr_right fun _ => forall_congr' fun j => imp_congr_right fun _ => not_congr (hsame j)

theorem exists_isLastIndex (h : x ∈ roots) : exists i, IsLastIndex roots x i := by
  induction roots using List.reverseRecOn with
  | nil => cases h
  | append_singleton roots y ih =>
      by_cases hy : y = x
      · subst hy
        exact ⟨roots.length, isLastIndex_concat_self⟩
      · have hx : x ∈ roots := by
          rcases List.mem_append.mp h with hx | hx
          · exact hx
          · exact absurd (List.mem_singleton.mp hx).symm hy
        rcases ih hx with ⟨i, hi⟩
        exact ⟨i, (isLastIndex_concat_of_ne hy).mpr hi⟩

end LastIndex

/-!
## The search
-/

/-- Encodings tell an element of the field apart from every other number, also from
those that have no encoding. -/
theorem encode?_eq_iff {root secret : Nat} (hsecret : secret < prime) :
    encode? root = some (Bytes.bigEndian width secret) ↔ root = secret := by
  by_cases hroot : root < prime
  · exact encode?_eq_some_iff hroot hsecret
  · rw [encode?, if_neg (mt contains_iff.mp hroot)]
    constructor
    · intro h
      cases h
    · intro h
      exact absurd (h ▸ hsecret) hroot

theorem latest_concat (p : Nat -> Prop) [DecidablePred p] (roots : List Nat) (root offset : Nat)
    (found : Option Nat) :
    latest p (roots ++ [root]) offset found =
      if p root then some (offset + roots.length) else latest p roots offset found := by
  rw [latest, List.zipIdx_append, List.foldl_append]
  rfl

/-- What is found is the last index of the only number for which the test holds. -/
theorem latest_eq_some_iff {p : Nat -> Prop} [DecidablePred p] {x : Nat}
    (hp : forall root, p root ↔ root = x) {roots : List Nat} {i : Nat} :
    latest p roots 0 none = some i ↔ IsLastIndex roots x i := by
  induction roots using List.reverseRecOn with
  | nil =>
      constructor
      · intro h
        cases h
      · intro h
        cases h.left
  | append_singleton roots root ih =>
      rw [latest_concat, Nat.zero_add]
      by_cases hroot : p root
      · rw [if_pos hroot]
        have hlast : IsLastIndex (roots ++ [root]) x roots.length := by
          rw [(hp root).mp hroot]
          exact isLastIndex_concat_self
        constructor
        · intro h
          cases h
          exact hlast
        · intro hi
          rw [hi.index_unique hlast]
      · rw [if_neg hroot, ih, isLastIndex_concat_of_ne (mt (hp root).mpr hroot)]

theorem search?_eq_some_iff {secret i : Nat} {roots : List Nat} :
    search? secret roots = some i ↔ secret < prime ∧ IsLastIndex roots secret i := by
  by_cases hsecret : secret < prime
  · have htest : forall root,
        encode? root = some (Bytes.bigEndian width secret) ↔ root = secret :=
      fun root => encode?_eq_iff hsecret
    rw [search?_eq_latest hsecret]
    exact (latest_eq_some_iff htest).trans (iff_and_self.mpr fun _ => hsecret)
  · rw [search?_of_not_lt hsecret]
    constructor
    · intro h
      cases h
    · intro h
      exact absurd h.left hsecret

/-!
## Resolving
-/

/-- What is added to the slots found so far is the slot of every secret, each of
them new. -/
theorem resolveFrom_eq_some_iff {roots found secrets slots : List Nat} :
    resolveFrom roots found secrets = some slots ↔
      exists added, slots = found ++ added ∧
        List.Forall₂ (fun secret slot => search? secret roots = some slot) secrets added ∧
          added.Nodup ∧ forall slot, slot ∈ added -> slot ∉ found := by
  induction secrets generalizing found with
  | nil =>
      rw [resolveFrom]
      constructor
      · intro h
        cases h
        exact ⟨[], (List.append_nil _).symm, .nil, List.nodup_nil, List.forall_mem_nil _⟩
      · intro h
        rcases h with ⟨added, rfl, hadded, _, _⟩
        cases hadded
        rw [List.append_nil]
  | cons secret secrets ih =>
      rw [resolveFrom]
      cases hsearch : search? secret roots with
      | none =>
          constructor
          · intro h
            cases h
          · intro h
            rcases h with ⟨_, _, hadded, _, _⟩
            cases hadded with
            | cons hslot _ => cases hsearch.symm.trans hslot
      | some slot =>
          dsimp only
          by_cases htaken : slot ∈ found
          · rw [if_pos htaken]
            constructor
            · intro h
              cases h
            · intro h
              rcases h with ⟨_, _, hadded, _, hfresh⟩
              cases hadded with
              | cons hslot _ =>
                  cases hsearch.symm.trans hslot
                  exact absurd htaken (hfresh slot List.mem_cons_self)
          · rw [if_neg htaken, ih]
            constructor
            · intro h
              rcases h with ⟨added, rfl, hadded, hnodup, hfresh⟩
              refine ⟨slot :: added, List.append_assoc _ _ _, .cons hsearch hadded, ?_, ?_⟩
              · refine List.nodup_cons.mpr ⟨?_, hnodup⟩
                intro hslot
                exact hfresh slot hslot (List.mem_append_right found List.mem_cons_self)
              · intro other hother
                rcases List.mem_cons.mp hother with rfl | hother
                · exact htaken
                · exact fun hfound => hfresh other hother (List.mem_append_left [slot] hfound)
            · intro h
              rcases h with ⟨_, rfl, hadded, hnodup, hfresh⟩
              cases hadded with
              | @cons _ _ _ added hslot hadded =>
                  cases hsearch.symm.trans hslot
                  rcases List.nodup_cons.mp hnodup with ⟨hnew, hnodup⟩
                  refine ⟨added, List.append_cons _ _ _, hadded, hnodup, ?_⟩
                  intro other hother hfound
                  rcases List.mem_append.mp hfound with hfound | hfound
                  · exact hfresh other (List.mem_cons_of_mem slot hother) hfound
                  · rw [List.mem_singleton.mp hfound] at hother
                    exact hnew hother

theorem resolve?_eq_some_iff {secrets roots slots : List Nat} :
    resolve? secrets roots = some slots ↔
      List.Forall₂ (fun secret slot => search? secret roots = some slot) secrets slots ∧
        slots.Nodup := by
  rw [resolve?, resolveFrom_eq_some_iff]
  constructor
  · intro h
    rcases h with ⟨added, rfl, hadded, hnodup, _⟩
    exact ⟨hadded, hnodup⟩
  · intro h
    rcases h with ⟨hslots, hnodup⟩
    exact ⟨slots, rfl, hslots, hnodup, fun _ _ => List.not_mem_nil⟩

/-- Secrets and slots determine each other, so they repeat together. -/
theorem nodup_iff_of_found {secrets roots slots : List Nat}
    (h : List.Forall₂ (fun secret slot => search? secret roots = some slot) secrets slots) :
    secrets.Nodup ↔ slots.Nodup := by
  refine List.rel_nodup ⟨?_, ?_⟩ h
  · intro first second slot hfirst hsecond
    exact (search?_eq_some_iff.mp hfirst).right.value_unique (search?_eq_some_iff.mp hsecond).right
  · intro secret first second hfirst hsecond
    exact Option.some.inj (hfirst.symm.trans hsecond)

theorem exists_found {secrets roots : List Nat}
    (h : forall secret, secret ∈ secrets -> secret < prime ∧ secret ∈ roots) :
    exists slots,
      List.Forall₂ (fun secret slot => search? secret roots = some slot) secrets slots := by
  induction secrets with
  | nil => exact ⟨[], .nil⟩
  | cons secret secrets ih =>
      rcases h secret List.mem_cons_self with ⟨hreduced, hroot⟩
      rcases exists_isLastIndex hroot with ⟨slot, hslot⟩
      rcases ih fun other hother => h other (List.mem_cons_of_mem secret hother) with
        ⟨slots, hslots⟩
      exact ⟨slot :: slots, .cons (search?_eq_some_iff.mpr ⟨hreduced, hslot⟩) hslots⟩

theorem mem_of_found {secrets roots slots : List Nat}
    (h : List.Forall₂ (fun secret slot => search? secret roots = some slot) secrets slots)
    {secret : Nat} (hsecret : secret ∈ secrets) : secret < prime ∧ secret ∈ roots := by
  induction h with
  | nil => cases hsecret
  | cons hslot _ ih =>
      rcases List.mem_cons.mp hsecret with rfl | hsecret
      · rcases search?_eq_some_iff.mp hslot with ⟨hreduced, hlast⟩
        exact ⟨hreduced, List.mem_of_getElem? hlast.left⟩
      · exact ih hsecret

theorem isSome_resolve?_iff {secrets roots : List Nat} :
    (resolve? secrets roots).isSome = true ↔
      secrets.Nodup ∧ forall secret, secret ∈ secrets -> secret < prime ∧ secret ∈ roots := by
  rw [Option.isSome_iff_exists]
  constructor
  · intro h
    rcases h with ⟨slots, hslots⟩
    rcases resolve?_eq_some_iff.mp hslots with ⟨hfound, hnodup⟩
    exact ⟨(nodup_iff_of_found hfound).mpr hnodup, fun _ hsecret => mem_of_found hfound hsecret⟩
  · intro h
    rcases h with ⟨hnodup, hsecrets⟩
    rcases exists_found hsecrets with ⟨slots, hfound⟩
    exact ⟨slots, resolve?_eq_some_iff.mpr ⟨hfound, (nodup_iff_of_found hfound).mp hnodup⟩⟩

/-!
## Sorting
-/

/-- The roots are looked through for one that is not an element of the field, and put
into order when there is none. -/
theorem sortRoots_cases (roots : List Nat) :
    (exists bad, bad ∈ roots ∧ prime ≤ bad ∧ sortRoots roots = .error bad ∧
      sortInPlace.run roots = .error bad roots) ∨
    ((forall r, r ∈ roots -> r < prime) ∧ sortRoots roots = .ok (ascending roots) ∧
      sortInPlace.run roots = .ok () (ascending roots)) := by
  cases hfirst : roots.find? fun r => !contains r with
  | some bad =>
      have hout : contains bad = false := by simpa using List.find?_some hfirst
      refine .inl ⟨bad, List.mem_of_find?_eq_some hfirst, Nat.le_of_not_lt ?_, ?_, ?_⟩
      · intro hlt
        cases hout.symm.trans (contains_iff.mpr hlt)
      · rw [sortRoots, hfirst]
      · simp [sortInPlace, hfirst]
  | none =>
      refine .inr ⟨?_, ?_, ?_⟩
      · intro r hr
        have hin := List.find?_eq_none.mp hfirst r hr
        exact contains_iff.mp (by simpa using hin)
      · rw [sortRoots, hfirst, ascending]
      · simp [sortInPlace, hfirst, ascending]

theorem sortRoots_eq_ok_iff {roots sorted : List Nat} :
    sortRoots roots = .ok sorted ↔
      (forall r, r ∈ roots -> r < prime) ∧ sorted = ascending roots := by
  constructor
  · intro h
    rcases sortRoots_cases roots with ⟨bad, _, _, hsort, _⟩ | ⟨hreduced, hsort, _⟩
    · cases hsort.symm.trans h
    · exact ⟨hreduced, Except.ok.inj (h.symm.trans hsort)⟩
  · intro h
    rcases h with ⟨hreduced, rfl⟩
    exact sortRoots_eq_ok hreduced

/-- Sorting fails exactly when a root is not an element of the field. -/
theorem exists_sortRoots_eq_error_iff {roots : List Nat} :
    (exists bad, sortRoots roots = .error bad) ↔ exists r, r ∈ roots ∧ prime ≤ r := by
  rcases sortRoots_cases roots with ⟨bad, hbad, hout, hsort, _⟩ | ⟨hreduced, hsort, _⟩
  · exact ⟨fun _ => ⟨bad, hbad, hout⟩, fun _ => ⟨bad, hsort⟩⟩
  · constructor
    · intro h
      rcases h with ⟨bad, hbad⟩
      cases hsort.symm.trans hbad
    · intro h
      rcases h with ⟨r, hr, hout⟩
      exact absurd (hreduced r hr) (Nat.not_lt_of_le hout)

/-- Roots that cannot be sorted stay as they are. -/
theorem run_sortInPlace_of_error {roots : List Nat} {bad : Nat}
    (h : sortRoots roots = .error bad) : sortInPlace.run roots = .error bad roots := by
  rcases sortRoots_cases roots with ⟨first, _, _, hsort, hrun⟩ | ⟨_, hsort, _⟩
  · cases hsort.symm.trans h
    exact hrun
  · cases hsort.symm.trans h

theorem run_sortInPlace_of_ok {roots sorted : List Nat} (h : sortRoots roots = .ok sorted) :
    sortInPlace.run roots = .ok () sorted := by
  rcases sortRoots_cases roots with ⟨_, _, _, hsort, _⟩ | ⟨_, hsort, hrun⟩
  · cases hsort.symm.trans h
  · cases hsort.symm.trans h
    exact hrun

/-!
## Exactness
-/

/-- Secrets have slots exactly when they are different elements of the field that all
are among the roots.  The slot of each is then its last index, and no two slots are the
same.  Roots are put into ascending order unless one is not an element of the field, in
which case they stay as they are; the order in which they come makes no difference, so
it makes none to the slots. -/
theorem resolution_is_exact (secrets roots : List Nat) :
    ((resolve? secrets roots).isSome = true ↔
      secrets.Nodup ∧ forall secret, secret ∈ secrets -> secret < prime ∧ secret ∈ roots) ∧
    (forall slots, resolve? secrets roots = some slots ->
      List.Forall₂ (IsLastIndex roots) secrets slots ∧ slots.Nodup ∧
        forall slot, slot ∈ slots -> slot < roots.length) ∧
    ((exists bad, sortRoots roots = .error bad) ↔ exists r, r ∈ roots ∧ prime ≤ r) ∧
    (forall bad, sortRoots roots = .error bad -> sortInPlace.run roots = .error bad roots) ∧
    (forall sorted, sortRoots roots = .ok sorted ->
      sortInPlace.run roots = .ok () sorted ∧ sorted.Perm roots ∧ sorted.Pairwise (· ≤ ·)) ∧
    forall order sorted, order.Perm roots -> sortRoots roots = .ok sorted ->
      sortRoots order = .ok sorted := by
  refine ⟨isSome_resolve?_iff, ?_, exists_sortRoots_eq_error_iff, ?_, ?_, ?_⟩
  · intro slots hslots
    rcases resolve?_eq_some_iff.mp hslots with ⟨hfound, hnodup⟩
    refine ⟨hfound.imp fun _ _ hslot => (search?_eq_some_iff.mp hslot).right, hnodup, ?_⟩
    exact (resolve?_usable hslots).range
  · intro bad hbad
    exact run_sortInPlace_of_error hbad
  · intro sorted hsorted
    refine ⟨run_sortInPlace_of_ok hsorted, ?_⟩
    rw [(sortRoots_eq_ok_iff.mp hsorted).right]
    exact ⟨ascending_perm roots, ascending_pairwise roots⟩
  · intro order sorted horder hsorted
    rcases sortRoots_eq_ok_iff.mp hsorted with ⟨hreduced, rfl⟩
    rw [← ascending_eq_of_perm horder]
    exact sortRoots_eq_ok fun r hr => hreduced r (horder.mem_iff.mp hr)

/-- A root that comes twice gives its later index, and one outside the field is passed
over by the search but not by the sorting. -/
theorem resolution_is_exact_of_repeated_root :
    resolve? [7, 3] [7, 3, 7, prime] = some [2, 1] ∧
      IsLastIndex [7, 3, 7, prime] 7 2 ∧
      (exists bad, sortRoots [7, 3, 7, prime] = .error bad) ∧
      [3, 7].Perm [7, 3] ∧
      exists sorted, sortRoots [7, 3] = .ok sorted ∧ sortRoots [3, 7] = .ok sorted := by
  have hslots : resolve? [7, 3] [7, 3, 7, prime] = some [2, 1] := by decide
  have hperm : [3, 7].Perm [7, 3] := by decide
  have hsorted : sortRoots [7, 3] = .ok (ascending [7, 3]) := sortRoots_eq_ok (by decide)
  rcases resolution_is_exact [7, 3] [7, 3, 7, prime] with ⟨_, hexact, hfails, _⟩
  rcases resolution_is_exact [7, 3] [7, 3] with ⟨_, _, _, _, _, hsame⟩
  refine ⟨hslots, ?_, hfails.mpr ⟨prime, by decide, Nat.le_refl prime⟩, hperm, _, hsorted,
    hsame _ _ hperm hsorted⟩
  cases (hexact _ hslots).left with
  | cons hfirst _ => exact hfirst

end Slots
end PeerMix
