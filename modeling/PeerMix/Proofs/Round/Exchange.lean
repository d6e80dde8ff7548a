import PeerMix.Proofs.DcNet.Overlay
import PeerMix.Proofs.Field.Sampling
import PeerMix.Proofs.Round.PadAgreement

/-!
# Exchanged keys

Keys that peers derive have the sizes that encapsulation asks for, so exchanging
them never fails.  Peers that have exchanged keys hold one symmetric table of
pad keys, indexed by the global indices of two messages.
-/

namespace PeerMix
namespace Round

open DcNet

/-!
## Exchanging keys
-/

/-- What the mix needs of peers that have exchanged keys. -/
structure Exchanged (parties : List Party) : Prop where
  encapsulated : forall party, party ∈ parties ->
    party.HasEncapsulated (encapsulationKeys parties)
  lengthReservations : forall party, party ∈ parties -> party.reservations.length = party.count
  reduced : forall party, party ∈ parties ->
    forall value, value ∈ party.reservations -> value < Field.prime

/-- The party that a plan becomes by encapsulating to the given keys. -/
def partyOf (run : UInt32) (keys : List Bytes) (plan : Plan) : Party :=
  partyWith (keysOf run plan).key.kem run keys plan

/-- The encapsulation keys that the plans lead to. -/
def plannedKeys (run : UInt32) (plans : List Plan) : List Bytes :=
  plans.map fun plan => (keysOf run plan).key.encapsulationKey

theorem sizes_plannedKeys (run : UInt32) (plans : List Plan) (key : Bytes)
    (h : key ∈ plannedKeys run plans) : key.length = Lattice.publicKeySize := by
  rcases List.mem_map.mp h with ⟨plan, _hplan, rfl⟩
  exact (Lattice.isFull_generate _ _).length_toBytes

theorem exchange_eq_ok (run : UInt32) (plans : List Plan) :
    exchange run plans = .ok (plans.map (partyOf run (plannedKeys run plans))) := by
  have hzip : plans.zip (plans.map (keysOf run)) = plans.map fun plan => (plan, keysOf run plan) := by
    have hpaired : (plans.map id).zip (plans.map (keysOf run)) =
        plans.map fun plan => (plan, keysOf run plan) := List.zip_map'
    rw [List.map_id] at hpaired
    exact hpaired
  have hkeys : (plans.map (keysOf run)).map (fun keys => keys.key.encapsulationKey) =
      plannedKeys run plans := List.map_map
  show (plans.zip (plans.map (keysOf run))).mapM (fun x =>
    encapsulate x.1.count x.2
      ((plans.map (keysOf run)).map fun (keys : RunKeys) => keys.key.encapsulationKey)) = _
  rw [hkeys, hzip, List.mapM_map]
  apply mapM_eq_ok
  intro plan _hplan
  have hmade := encapsulate_partyWith (keysOf run plan).key.kem run (sizes_plannedKeys run plans) plan
  show encapsulate plan.count (keysOf run plan) (plannedKeys run plans) = _
  rw [encapsulate, hmade]
  rfl

theorem encapsulationKeys_map_partyOf (run : UInt32) (keys : List Bytes) (plans : List Plan) :
    encapsulationKeys (plans.map (partyOf run keys)) = plannedKeys run plans :=
  List.map_map

theorem exchanged_map_partyOf (run : UInt32) (plans : List Plan) :
    Exchanged (plans.map (partyOf run (plannedKeys run plans))) := by
  constructor
  case encapsulated =>
    intro party hparty
    rcases List.mem_map.mp hparty with ⟨plan, _hplan, rfl⟩
    rw [encapsulationKeys_map_partyOf]
    exact ⟨_, _, _, encapsulate_partyWith _ run (sizes_plannedKeys run plans) plan⟩
  case lengthReservations =>
    intro party hparty
    rcases List.mem_map.mp hparty with ⟨plan, _hplan, rfl⟩
    exact Field.length_sampleMany plan.count _
  case reduced =>
    intro party hparty value hvalue
    rcases List.mem_map.mp hparty with ⟨plan, _hplan, rfl⟩
    exact Field.lt_of_mem_sampleMany hvalue

theorem counts_map_partyOf (run : UInt32) (keys : List Bytes) (plans : List Plan) :
    counts (plans.map (partyOf run keys)) = plans.map fun plan => plan.count :=
  List.map_map

/-!
## One table for all messages
-/

/-- The assumptions on both key agreements, for every ordered pair of peers. -/
def PairsAgree (parties : List Party) : Prop :=
  forall p q a b, p ≠ q -> parties[p]? = some a -> parties[q]? = some b ->
    AgreeOnPoints a b ∧ Recovers a b p

section Table

variable (parties : List Party) (sid : Bytes) (run : UInt32) (size : Nat)

/-- The keys that every peer derives. -/
def tables : List (List (List PadKey)) :=
  parties.zipIdx.map fun (party, p) => tableOf parties sid run size p party

/-- The key of the messages at the global indices `g` and `h`. -/
def keyAt (g h : Nat) : PadKey :=
  (padAt (tables parties sid run size).flatten g h).getD
    { reservation := [], message := SlotVector.zero 0 0 }

variable {parties}

theorem getElem?_tables {p : Nat} {party : Party} (hp : parties[p]? = some party) :
    (tables parties sid run size)[p]? = some (tableOf parties sid run size p party) := by
  rw [tables, List.getElem?_map, List.getElem?_zipIdx, hp, Nat.zero_add]
  rfl

theorem length_tables : (tables parties sid run size).length = parties.length := by
  rw [tables, List.length_map, List.length_zipIdx]

theorem map_length_tables : (tables parties sid run size).map List.length = counts parties := by
  apply List.ext_getElem?
  intro p
  cases hp : parties[p]? with
  | none =>
      have hlong : parties.length ≤ p := List.getElem?_eq_none_iff.mp hp
      rw [List.getElem?_eq_none, List.getElem?_eq_none]
      · rw [counts, List.length_map]
        exact hlong
      · rw [List.length_map, length_tables]
        exact hlong
  | some party =>
      rw [List.getElem?_map, getElem?_tables sid run size hp, getElem?_counts hp, Option.map_some,
        tableOf, List.length_map, List.length_range]

theorem padAt_flatten_tables {p i : Nat} {party : Party} (hp : parties[p]? = some party)
    (hi : i < party.count) (h : Nat) :
    padAt (tables parties sid run size).flatten (Counts.start (counts parties) p + i) h =
      padAt (tableOf parties sid run size p party) i h := by
  have hlength : (tableOf parties sid run size p party).length = party.count := by
    rw [tableOf, List.length_map, List.length_range]
  have hrow := Counts.getElem?_flatten_start (getElem?_tables sid run size hp) (i := i) (by omega)
  rw [map_length_tables] at hrow
  rw [padAt, hrow, padAt]

section Honest

variable (hparties : Exchanged parties)
include hparties

theorem rowsOf_eq_tables :
    parties.zipIdx.mapM (fun (party, p) => rowsOf parties sid run size p party) =
      .ok (tables parties sid run size) := by
  apply mapM_eq_ok
  intro x hx
  rcases x with ⟨party, p⟩
  exact rowsOf_eq_ok sid run size hparties.encapsulated (List.mem_zipIdx_iff_getElem?.mp hx)

/-- The row of an own message holds its keys with all messages. -/
theorem getElem?_tableOf {p i : Nat} {party : Party} (hp : parties[p]? = some party)
    (hi : i < party.count) :
    (tableOf parties sid run size p party)[i]? =
      some ((List.range (Counts.total (counts parties))).map
        (keyAt parties sid run size (Counts.start (counts parties) p + i))) := by
  have htable := padTable_tableOf sid run size hparties.encapsulated hp
  have hin : i < (tableOf parties sid run size p party).length := by
    rw [htable.lengthRows]
    exact hi
  have hlength := htable.lengthRow _ (List.getElem_mem hin)
  rw [List.getElem?_eq_getElem hin]
  congr 1
  apply List.ext_getElem
  · rw [hlength, List.length_map, List.length_range]
    rfl
  · intro h hh _hh
    rw [List.getElem_map, List.getElem_range, keyAt, padAt_flatten_tables sid run size hp hi, padAt,
      List.getElem?_eq_getElem hin, Option.bind_some, List.getElem?_eq_getElem hh, Option.getD_some]

theorem padAt_tableOf {p i h : Nat} {party : Party} (hp : parties[p]? = some party)
    (hi : i < party.count) (hh : h < Counts.total (counts parties)) :
    padAt (tableOf parties sid run size p party) i h =
      some (keyAt parties sid run size (Counts.start (counts parties) p + i) h) := by
  rw [padAt, getElem?_tableOf sid run size hparties hp hi, Option.bind_some, List.getElem?_map,
    List.getElem?_range hh]
  rfl

theorem fits_keyAt {g h : Nat} (hg : g < Counts.total (counts parties))
    (hh : h < Counts.total (counts parties)) :
    (keyAt parties sid run size g h).Fits (Counts.total (counts parties)) size := by
  rcases Counts.exists_position hg with ⟨p, i, count, hcount, hi, rfl⟩
  rw [counts, List.getElem?_map, Option.map_eq_some_iff] at hcount
  rcases hcount with ⟨party, hp, rfl⟩
  have hrow := getElem?_tableOf sid run size hparties hp hi
  apply (padTable_tableOf sid run size hparties.encapsulated hp).fits _ _ (List.mem_of_getElem? hrow)
  exact List.mem_map.mpr ⟨h, List.mem_range.mpr hh, rfl⟩

/-- Both ends of every pair of messages hold the same key. -/
theorem keyAt_comm (hagree : PairsAgree parties) {g h : Nat}
    (hg : g < Counts.total (counts parties)) (hh : h < Counts.total (counts parties))
    (hgh : g ≠ h) : keyAt parties sid run size g h = keyAt parties sid run size h g := by
  rcases Counts.exists_position hg with ⟨p, i, count, hcount, hi, rfl⟩
  rcases Counts.exists_position hh with ⟨q, j, count', hcount', hj, rfl⟩
  rw [counts, List.getElem?_map, Option.map_eq_some_iff] at hcount hcount'
  rcases hcount with ⟨a, hp, rfl⟩
  rcases hcount' with ⟨b, hq, rfl⟩
  have hatA := padAt_tableOf sid run size hparties hp hi hh
  have hatB := padAt_tableOf sid run size hparties hq hj hg
  by_cases hpq : p = q
  · subst hpq
    cases hp.symm.trans hq
    have hij : i ≠ j := by
      rintro rfl
      exact hgh rfl
    rcases (padTable_tableOf sid run size hparties.encapsulated hp).ownPair i j hi hj hij
      with ⟨key, hkeyA, hkeyB⟩
    exact Option.some.inj (hatA.symm.trans (hkeyA.trans (hkeyB.symm.trans hatB)))
  · rcases hagree p q a b hpq hp hq with ⟨hpoints, ha⟩
    rcases hagree q p b a (Ne.symm hpq) hq hp with ⟨_, hb⟩
    rcases tableOf_agree sid run size hparties.encapsulated hpq hp hq hpoints ha hb hi hj
      with ⟨key, hkeyA, hkeyB⟩
    exact Option.some.inj (hatA.symm.trans (hkeyA.trans (hkeyB.symm.trans hatB)))

end Honest

end Table

end Round
end PeerMix
