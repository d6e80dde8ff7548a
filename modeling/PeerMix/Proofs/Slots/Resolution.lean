import Mathlib.Data.List.Sort
import PeerMix.Proofs.Bytes.Numbers
import PeerMix.Proofs.Field.Arithmetic
import PeerMix.Slots

/-!
# Finding slots

Peers that receive the same roots, in whatever order, sort them to the same
list.  Among different roots every reserved value has exactly one index, so the
slots of all values together use every index once.
-/

namespace PeerMix
namespace Slots

open PeerMix.Field

/-!
## Ascending order
-/

/-- The values in ascending order. -/
def ascending (values : List Nat) : List Nat :=
  values.mergeSort fun a b => decide (a ≤ b)

theorem ascending_perm (values : List Nat) : (ascending values).Perm values :=
  List.mergeSort_perm values _

theorem ascending_pairwise (values : List Nat) : (ascending values).Pairwise (· ≤ ·) := by
  have hsorted : (ascending values).Pairwise fun a b => decide (a ≤ b) = true := by
    apply List.pairwise_mergeSort
    · intro a b c
      simpa using Nat.le_trans
    · intro a b
      simpa using Nat.le_total a b
  exact hsorted.imp fun {_a} {_b} h => of_decide_eq_true h

/-- The order in which values arrive does not matter. -/
theorem ascending_eq_of_perm {values order : List Nat} (h : order.Perm values) :
    ascending order = ascending values := by
  have hperm := (ascending_perm order).trans (h.trans (ascending_perm values).symm)
  apply List.Perm.eq_of_pairwise _ (ascending_pairwise order) (ascending_pairwise values) hperm
  intro a b _ha _hb hab hba
  exact Nat.le_antisymm hab hba

theorem sortRoots_eq_ok {roots : List Nat} (h : forall r, r ∈ roots -> r < prime) :
    sortRoots roots = .ok (ascending roots) := by
  have hnone : roots.find? (fun r => !contains r) = none := by
    rw [List.find?_eq_none]
    intro r hr
    simp [contains_iff.mpr (h r hr)]
  rw [sortRoots, hnone]
  rfl

/-!
## Searching
-/

theorem encode?_eq_some {x : Nat} (hx : x < prime) :
    encode? x = some (Bytes.bigEndian width x) := by
  rw [encode?, if_pos (contains_iff.mpr hx)]

theorem prime_le : prime ≤ 256 ^ width := by
  decide

/-- Encodings tell the elements of the field apart. -/
theorem encode?_eq_some_iff {root secret : Nat} (hroot : root < prime) (hsecret : secret < prime) :
    encode? root = some (Bytes.bigEndian width secret) ↔ root = secret := by
  rw [encode?_eq_some hroot]
  constructor
  · intro heq
    exact Bytes.bigEndian_inj (Nat.lt_of_lt_of_le hroot prime_le)
      (Nat.lt_of_lt_of_le hsecret prime_le) (Option.some.inj heq)
  · rintro rfl
    rfl

section Latest

variable (p : Nat -> Prop) [DecidablePred p]

/-- The last index from `offset` on at which `p` holds, or what was found before. -/
def latest (roots : List Nat) (offset : Nat) (found : Option Nat) : Option Nat :=
  (roots.zipIdx offset).foldl (fun found (root, i) => if p root then some i else found) found

theorem latest_cons (root : Nat) (roots : List Nat) (offset : Nat) (found : Option Nat) :
    latest p (root :: roots) offset found =
      latest p roots (offset + 1) (if p root then some offset else found) := rfl

theorem latest_of_forall_not {roots : List Nat} (h : forall root, root ∈ roots -> ¬p root)
    (offset : Nat) (found : Option Nat) : latest p roots offset found = found := by
  induction roots generalizing offset with
  | nil => rfl
  | cons root roots ih =>
      rw [latest_cons, if_neg (h root List.mem_cons_self)]
      exact ih (fun other hother => h other (List.mem_cons_of_mem root hother)) (offset + 1)

/-- The only place at which `p` holds is found. -/
theorem latest_of_unique {roots : List Nat} (hnodup : roots.Nodup) {secret : Nat}
    (hp : forall root, root ∈ roots -> (p root ↔ root = secret)) {i : Nat}
    (hi : roots[i]? = some secret) (offset : Nat) (found : Option Nat) :
    latest p roots offset found = some (offset + i) := by
  induction roots generalizing i offset found with
  | nil => cases hi
  | cons root roots ih =>
      have hroot := hp root List.mem_cons_self
      rcases List.nodup_cons.mp hnodup with ⟨hfresh, hrest⟩
      rw [latest_cons]
      cases i with
      | zero =>
          cases hi
          rw [if_pos (hroot.mpr rfl)]
          apply latest_of_forall_not
          intro other hother hholds
          rw [(hp other (List.mem_cons_of_mem _ hother)).mp hholds] at hother
          exact hfresh hother
      | succ i =>
          have hi' : roots[i]? = some secret := hi
          have hne : root ≠ secret := by
            intro heq
            rw [← heq] at hi'
            exact hfresh (List.mem_of_getElem? hi')
          rw [if_neg (mt hroot.mp hne), ih hrest
            (fun other hother => hp other (List.mem_cons_of_mem root hother)) hi']
          congr 1
          omega

/-- What is found was found before or stands at one of the places. -/
theorem latest_cases {roots : List Nat} {offset i : Nat} {found : Option Nat}
    (h : latest p roots offset found = some i) :
    found = some i ∨ (offset ≤ i ∧ i < offset + roots.length) := by
  induction roots generalizing offset found with
  | nil => exact .inl h
  | cons root roots ih =>
      rw [latest_cons] at h
      rw [List.length_cons]
      rcases ih h with hfound | ⟨hlower, hupper⟩
      · by_cases hroot : p root
        · rw [if_pos hroot] at hfound
          cases hfound
          exact .inr ⟨Nat.le_refl i, by omega⟩
        · rw [if_neg hroot] at hfound
          exact .inl hfound
      · exact .inr ⟨by omega, by omega⟩

theorem latest_congr {q : Nat -> Prop} [DecidablePred q] (h : forall root, p root ↔ q root)
    (roots : List Nat) (offset : Nat) (found : Option Nat) :
    latest p roots offset found = latest q roots offset found := by
  simp only [latest, h]

end Latest

/-- What is found, with minus one for nothing. -/
def asIndex : Option Nat -> Int
  | none => -1
  | some i => i

theorem toNat?_asIndex (found : Option Nat) : (asIndex found).toNat? = found := by
  cases found with
  | none => rfl
  | some i => rfl

/-- Starting from minus one is starting from nothing. -/
theorem searchIndex_eq (wanted : Bytes) (roots : List Nat) :
    searchIndex wanted roots =
      asIndex (latest (fun root => (encode? root).getD noMatch = wanted) roots 0 none) := by
  unfold searchIndex latest
  rw [← List.foldl_hom asIndex]
  · rfl
  · intro found step
    dsimp only
    split
    · rfl
    · rfl

/-- The index found has room in a signed word whenever the indices of the roots have. -/
theorem searchIndex_bounds (wanted : Bytes) (roots : List Nat) :
    -1 ≤ searchIndex wanted roots ∧ searchIndex wanted roots < roots.length := by
  rw [searchIndex_eq]
  cases hfound : latest (fun root => (encode? root).getD noMatch = wanted) roots 0 none with
  | none =>
      rw [asIndex]
      omega
  | some i =>
      rcases latest_cases _ hfound with hnone | ⟨_, hi⟩
      · cases hnone
      · rw [asIndex]
        omega

theorem bigEndian_ne_noMatch {secret : Nat} (hsecret : secret < prime) :
    Bytes.bigEndian width secret ≠ noMatch := by
  have hall : noMatch = Bytes.bigEndian width (256 ^ width - 1) := by decide
  have hmost : 256 ^ width - 1 < 256 ^ width := by decide
  rw [hall]
  intro heq
  have hsame := Bytes.bigEndian_inj (Nat.lt_of_lt_of_le hsecret prime_le) hmost heq
  rw [hsame] at hsecret
  exact absurd hsecret (by decide)

/-- What has no encoding matches no secret. -/
theorem getD_noMatch_eq_iff {root secret : Nat} (hsecret : secret < prime) :
    (encode? root).getD noMatch = Bytes.bigEndian width secret ↔
      encode? root = some (Bytes.bigEndian width secret) := by
  cases encode? root with
  | none =>
      constructor
      · intro h
        exact absurd h.symm (bigEndian_ne_noMatch hsecret)
      · exact nofun
  | some code => exact Option.some_inj.symm

/-- The search finds the last root with the encoding of the secret, if there is one. -/
theorem search?_eq_latest {secret : Nat} (hsecret : secret < prime) (roots : List Nat) :
    search? secret roots =
      latest (fun root => encode? root = some (Bytes.bigEndian width secret)) roots 0 none := by
  rw [search?, encode?_eq_some hsecret]
  dsimp only
  rw [searchIndex_eq, toNat?_asIndex]
  exact latest_congr _ (fun root => getD_noMatch_eq_iff hsecret) roots 0 none

theorem search?_of_not_lt {secret : Nat} (hsecret : ¬secret < prime) (roots : List Nat) :
    search? secret roots = none := by
  rw [search?, encode?, if_neg (mt contains_iff.mp hsecret)]

theorem search?_lt {roots : List Nat} {secret i : Nat} (h : search? secret roots = some i) :
    i < roots.length := by
  by_cases hsecret : secret < prime
  · rw [search?_eq_latest hsecret] at h
    rcases latest_cases _ h with hnone | ⟨_, hi⟩
    · cases hnone
    · simpa using hi
  · rw [search?_of_not_lt hsecret] at h
    cases h

theorem length_of_sortRoots {roots order : List Nat} (h : sortRoots roots = .ok order) :
    order.length = roots.length := by
  rw [sortRoots] at h
  cases hbad : roots.find? fun r => !contains r with
  | some bad =>
      rw [hbad] at h
      cases h
  | none =>
      rw [hbad] at h
      cases h
      exact (ascending_perm roots).length_eq

theorem search?_eq {roots : List Nat} (hnodup : roots.Nodup)
    (hreduced : forall root, root ∈ roots -> root < prime) {secret i : Nat}
    (hi : roots[i]? = some secret) : search? secret roots = some i := by
  have hsecret : secret < prime := hreduced secret (List.mem_of_getElem? hi)
  have hlatest := latest_of_unique
    (fun root => encode? root = some (Bytes.bigEndian width secret)) hnodup
    (fun root hroot => encode?_eq_some_iff (hreduced root hroot) hsecret) hi 0 none
  rw [search?_eq_latest hsecret, hlatest, Nat.zero_add]

/-!
## Resolving
-/

/-- The index of every secret among the roots. -/
def indicesOf (secrets roots : List Nat) : List Nat :=
  secrets.map fun secret => roots.idxOf secret

theorem getElem?_idxOf {roots : List Nat} {secret : Nat} (h : secret ∈ roots) :
    roots[roots.idxOf secret]? = some secret := by
  have hlt := List.idxOf_lt_length_of_mem h
  rw [List.getElem?_eq_getElem hlt, List.getElem_idxOf hlt]

theorem resolveFrom_eq {roots : List Nat} (hnodup : roots.Nodup)
    (hreduced : forall root, root ∈ roots -> root < prime) {secrets : List Nat}
    (hsecrets : secrets.Nodup) (hmem : forall secret, secret ∈ secrets -> secret ∈ roots)
    {found : List Nat} (hfresh : forall secret, secret ∈ secrets -> roots.idxOf secret ∉ found) :
    resolveFrom roots found secrets = some (found ++ indicesOf secrets roots) := by
  induction secrets generalizing found with
  | nil => rw [resolveFrom, indicesOf, List.map_nil, List.append_nil]
  | cons secret secrets ih =>
      have hin := hmem secret List.mem_cons_self
      rcases List.nodup_cons.mp hsecrets with ⟨hunique, hrest⟩
      rw [resolveFrom, search?_eq hnodup hreduced (getElem?_idxOf hin)]
      dsimp only
      rw [if_neg (hfresh secret List.mem_cons_self), ih hrest
        (fun other hother => hmem other (List.mem_cons_of_mem secret hother))]
      · rw [List.append_assoc]
        rfl
      · intro other hother hfound
        have hother' := List.mem_cons_of_mem secret hother
        rcases List.mem_append.mp hfound with hfound | hfound
        · exact hfresh other hother' hfound
        · have hindex := List.mem_singleton.mp hfound
          have hsame := getElem?_idxOf (hmem other hother')
          rw [hindex, getElem?_idxOf hin] at hsame
          cases hsame
          exact hunique hother

/-- Different secrets that are all among different roots resolve. -/
theorem resolve?_eq {roots : List Nat} (hnodup : roots.Nodup)
    (hreduced : forall root, root ∈ roots -> root < prime) {secrets : List Nat}
    (hsecrets : secrets.Nodup) (hmem : forall secret, secret ∈ secrets -> secret ∈ roots) :
    resolve? secrets roots = some (indicesOf secrets roots) := by
  rw [resolve?, resolveFrom_eq hnodup hreduced hsecrets hmem (by simp), List.nil_append]

/-- One slot is used for each secret, no two of them are the same, and there is a
root for each. -/
structure Usable (secrets roots slots : List Nat) : Prop where
  length : slots.length = secrets.length
  nodup : slots.Nodup
  range : forall slot, slot ∈ slots -> slot < roots.length

theorem resolveFrom_usable {roots taken found secrets slots : List Nat}
    (hfound : Usable taken roots found) (h : resolveFrom roots found secrets = some slots) :
    Usable (taken ++ secrets) roots slots := by
  induction secrets generalizing taken found with
  | nil =>
      cases h
      rw [List.append_nil]
      exact hfound
  | cons secret secrets ih =>
      rw [resolveFrom] at h
      cases hsearch : search? secret roots with
      | none =>
          rw [hsearch] at h
          cases h
      | some slot =>
          rw [hsearch] at h
          dsimp only at h
          by_cases htaken : slot ∈ found
          · rw [if_pos htaken] at h
            cases h
          · rw [if_neg htaken] at h
            have hmore : Usable (taken ++ [secret]) roots (found ++ [slot]) := by
              constructor
              case length => rw [List.length_append, List.length_append, hfound.length]; rfl
              case nodup =>
                rw [List.nodup_append]
                refine ⟨hfound.nodup, List.nodup_singleton slot, ?_⟩
                intro a ha b hb hab
                rw [hab, List.mem_singleton.mp hb] at ha
                exact htaken ha
              case range =>
                intro other hother
                rcases List.mem_append.mp hother with hother | hother
                · exact hfound.range other hother
                · rw [List.mem_singleton.mp hother]
                  exact search?_lt hsearch
            rw [List.append_cons]
            exact ih hmore h

/-- Slots that resolve can be used, whatever the roots are. -/
theorem resolve?_usable {roots secrets slots : List Nat} (h : resolve? secrets roots = some slots) :
    Usable secrets roots slots :=
  resolveFrom_usable ⟨rfl, List.nodup_nil, nofun⟩ h

/-- All secrets together use every index once. -/
theorem indicesOf_perm {roots : List Nat} (hnodup : roots.Nodup) {values : List Nat}
    (h : values.Perm roots) : (indicesOf values roots).Perm (List.range values.length) := by
  have hroots : indicesOf roots roots = List.range roots.length := by
    apply List.ext_getElem
    · rw [indicesOf, List.length_map, List.length_range]
    · intro i hi _hi
      rw [indicesOf, List.length_map] at hi
      simp only [indicesOf, List.getElem_map, List.getElem_range, hnodup.idxOf_getElem]
  rw [h.length_eq, ← hroots]
  exact h.map _

theorem flatten_indicesOf (secrets : List (List Nat)) (roots : List Nat) :
    (secrets.map fun own => indicesOf own roots).flatten = indicesOf secrets.flatten roots := by
  rw [indicesOf, List.map_flatten]
  rfl

end Slots
end PeerMix
