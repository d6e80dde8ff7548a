import PeerMix.Proofs.Round.Exchange
import PeerMix.Proofs.Slots.Resolution

/-!
# Delivery

A round of honest peers delivers every message once.  What the peers publish is
read at global indices; the pads then vanish from both mixes, the power sums
lead back to the reserved values, and every peer finds slots that no other peer
uses.
-/

namespace PeerMix
namespace Round

open DcNet

/-- The slot reservation values of all messages, in global order. -/
def valuesOf (parties : List Party) : List Nat :=
  parties.flatMap fun party => party.reservations

/-!
## Lists over all peers
-/

section Lists

variable (parties : List Party)

theorem starts_eq_zipIdx :
    (List.range parties.length).map (Counts.start (counts parties)) =
      parties.zipIdx.map fun (_, p) => Counts.start (counts parties) p := by
  have hindices : parties.zipIdx.map (·.2) = List.range parties.length := by
    rw [List.zipIdx_map_snd, List.range_eq_range']
  rw [← hindices, List.map_map]
  rfl

theorem map_eq_zipIdx {α : Type} (f : Party -> α) :
    parties.map f = parties.zipIdx.map fun (party, _) => f party := by
  have hparties : parties.zipIdx.map (·.1) = parties := List.zipIdx_map_fst 0 parties
  calc
    parties.map f = (parties.zipIdx.map (·.1)).map f := by rw [hparties]
    _ = parties.zipIdx.map fun (party, _) => f party := List.map_map

theorem eq_zipIdx {α : Type} {xs : List (List α)} (h : xs.length = parties.length) :
    xs = parties.zipIdx.map fun (_, p) => xs.getD p [] := by
  apply List.ext_getElem
  · rw [List.length_map, List.length_zipIdx, h]
  · intro p hp _hp
    simp [hp]

theorem zip_zipIdx {α β : Type} {xs : List (List α)} (h : xs.length = parties.length)
    (f : Party × Nat -> β) :
    xs.zip (parties.zipIdx.map f) = parties.zipIdx.map fun x => (xs.getD x.2 [], f x) := by
  calc
    xs.zip (parties.zipIdx.map f)
        = (parties.zipIdx.map fun (_, p) => xs.getD p []).zip (parties.zipIdx.map f) := by
          rw [← eq_zipIdx parties h]
    _ = parties.zipIdx.map fun x => (xs.getD x.2 [], f x) := List.zip_map'

variable {parties}

/-- What every peer contributes for its messages makes one list over all global
indices. -/
theorem flatten_zipIdx {α : Type} {part : Party -> Nat -> List α} {f : Nat -> α}
    (h : forall p party, parties[p]? = some party ->
      part party p = (List.range party.count).map fun i => f (Counts.start (counts parties) p + i)) :
    (parties.zipIdx.map fun (party, p) => part party p).flatten =
      (List.range (Counts.total (counts parties))).map f := by
  apply Counts.flatten_eq_map_range
  · rw [counts, map_eq_zipIdx, List.map_map]
    apply List.map_congr_left
    intro x hx
    rcases x with ⟨party, p⟩
    show (part party p).length = party.count
    rw [h p party (List.mem_zipIdx_iff_getElem?.mp hx), List.length_map, List.length_range]
  · intro p own hown i x hx
    rw [List.getElem?_map, Option.map_eq_some_iff] at hown
    rcases hown with ⟨⟨party, q⟩, hq, rfl⟩
    rw [List.getElem?_zipIdx, Option.map_eq_some_iff] at hq
    rcases hq with ⟨_, hp, hpair⟩
    cases hpair
    rw [Nat.zero_add] at hx
    dsimp only at hx
    rw [h p party hp, List.getElem?_map, Option.map_eq_some_iff] at hx
    rcases hx with ⟨j, hj, rfl⟩
    rcases List.getElem?_eq_some_iff.mp hj with ⟨_, rfl⟩
    rw [List.getElem_range]

end Lists

section Honest

variable {parties : List Party} (sid : Bytes) (run : UInt32) (size : Nat)
variable (hparties : Exchanged parties)
include hparties

/-!
## Slot reservation
-/

theorem map_length_reservations :
    (parties.map fun party => party.reservations).map List.length = counts parties := by
  rw [List.map_map, counts]
  apply List.map_congr_left
  intro party hparty
  exact hparties.lengthReservations party hparty

theorem length_valuesOf : (valuesOf parties).length = Counts.total (counts parties) := by
  rw [valuesOf, List.flatMap_def, Counts.length_flatten, map_length_reservations hparties]

theorem getElem?_valuesOf {p i : Nat} {party : Party} (hp : parties[p]? = some party)
    (hi : i < party.count) :
    (valuesOf parties)[Counts.start (counts parties) p + i]? = party.reservations[i]? := by
  have hrow : (parties.map fun party => party.reservations)[p]? = some party.reservations := by
    rw [List.getElem?_map, hp]
    rfl
  have hlength := hparties.lengthReservations party (List.mem_of_getElem? hp)
  have hentry := Counts.getElem?_flatten_start hrow (i := i) (by omega)
  rw [map_length_reservations hparties] at hentry
  exact hentry

theorem lt_of_mem_valuesOf {value : Nat} (h : value ∈ valuesOf parties) : value < Field.prime := by
  rcases List.mem_flatMap.mp h with ⟨party, hparty, hvalue⟩
  exact hparties.reduced party hparty value hvalue

/-- The value that stands for the message at a global index. -/
def valueAt (parties : List Party) (g : Nat) : Nat :=
  (valuesOf parties).getD g 0

theorem map_valueAt :
    (List.range (Counts.total (counts parties))).map (valueAt parties) = valuesOf parties := by
  have hvalues := eq_map_range (valuesOf parties) 0
  rw [length_valuesOf hparties] at hvalues
  exact hvalues.symm

theorem reservationVectors_eq {p : Nat} {party : Party} (hp : parties[p]? = some party) :
    reservationVectors (Counts.start (counts parties) p) party.reservations
        (tableOf parties sid run size p party) =
      (List.range party.count).map fun i =>
        publishedOf reservationShare
          (fun g h => (keyAt parties sid run size g h).reservation) (valueAt parties)
          (Counts.total (counts parties)) (Counts.start (counts parties) p + i) := by
  have hreservations := hparties.lengthReservations party (List.mem_of_getElem? hp)
  have htable := (padTable_tableOf sid run size hparties.encapsulated hp).lengthRows
  apply List.ext_getElem?
  intro i
  by_cases hi : i < party.count
  · have hvalue := getElem?_valuesOf hparties hp hi
    rw [List.getElem?_eq_getElem (by omega : i < party.reservations.length)] at hvalue
    have hzip : (party.reservations.zip (tableOf parties sid run size p party))[i]? =
        some (valueAt parties (Counts.start (counts parties) p + i),
          (List.range (Counts.total (counts parties))).map
            (keyAt parties sid run size (Counts.start (counts parties) p + i))) := by
      rw [List.getElem?_zip_eq_some]
      constructor
      · rw [valueAt, List.getD_eq_getElem?_getD, hvalue, Option.getD_some]
        exact List.getElem?_eq_getElem _
      · exact getElem?_tableOf sid run size hparties hp hi
    rw [reservationVectors, List.getElem?_map, List.getElem?_zipIdx, hzip, List.getElem?_map,
      List.getElem?_range hi]
    simp only [Option.map_some, publishedOf, reservationPads, List.map_map]
    rfl
  · rw [List.getElem?_eq_none, List.getElem?_eq_none]
    · rw [List.length_map, List.length_range]
      omega
    · rw [reservationVectors, List.length_map, List.length_zipIdx, List.length_zip]
      omega

theorem reservations_eq :
    (((List.range parties.length).map (Counts.start (counts parties))).zip
        (parties.zip (tables parties sid run size))).flatMap
        (fun (start, party, rows) => reservationVectors start party.reservations rows) =
      (List.range (Counts.total (counts parties))).map
        (publishedOf reservationShare
          (fun g h => (keyAt parties sid run size g h).reservation) (valueAt parties)
          (Counts.total (counts parties))) := by
  have hzip : ((List.range parties.length).map (Counts.start (counts parties))).zip
      (parties.zip (tables parties sid run size)) =
        parties.zipIdx.map fun (party, p) =>
          (Counts.start (counts parties) p, party, tableOf parties sid run size p party) := by
    have hself : parties.zipIdx.map (·.1) = parties := List.zipIdx_map_fst 0 parties
    have hinner : parties.zip (tables parties sid run size) =
        parties.zipIdx.map fun (party, p) => (party, tableOf parties sid run size p party) :=
      (congrArg (fun xs => xs.zip (tables parties sid run size)) hself.symm).trans List.zip_map'
    rw [starts_eq_zipIdx, hinner]
    exact List.zip_map'
  rw [hzip, List.flatMap_def, List.map_map]
  exact flatten_zipIdx fun p party hp => reservationVectors_eq sid run size hparties hp

/-- The pads vanish from the sum of the slot reservation vectors. -/
theorem addVectors_reservations (hagree : PairsAgree parties) :
    Field.addVectors
        ((List.range (Counts.total (counts parties))).map
          (publishedOf reservationShare
            (fun g h => (keyAt parties sid run size g h).reservation) (valueAt parties)
            (Counts.total (counts parties)))) =
      some (Field.powerSums (valuesOf parties)) := by
  have hsymmetric : forall g i, g < Counts.total (counts parties) ->
      i < Counts.total (counts parties) -> g ≠ i ->
        (keyAt parties sid run size g i).reservation =
          (keyAt parties sid run size i g).reservation := by
    intro g i hg hi hgi
    rw [keyAt_comm sid run size hparties hagree hg hi hgi]
  rw [addVectors_publishedOf reservationShare hsymmetric, map_valueAt hparties]

/-!
## Slots
-/

/-- All slot reservation values in ascending order. -/
def rootsOf (parties : List Party) : List Nat :=
  Slots.ascending (valuesOf parties)

/-- The slots that a peer finds among all values. -/
def slotsOf (parties : List Party) (party : Party) : List Nat :=
  Slots.indicesOf party.reservations (rootsOf parties)

/-- The slot of the message at a global index. -/
def slotAt (parties : List Party) (g : Nat) : Nat :=
  (rootsOf parties).idxOf (valueAt parties g)

theorem sortRoots_of_perm {order : List Nat} (h : order.Perm (valuesOf parties)) :
    Slots.sortRoots order = .ok (rootsOf parties) := by
  rw [rootsOf, ← Slots.ascending_eq_of_perm h]
  apply Slots.sortRoots_eq_ok
  intro root hroot
  exact lt_of_mem_valuesOf hparties (h.mem_iff.mp hroot)

theorem getElem?_valueAt {g : Nat} (hg : g < Counts.total (counts parties)) :
    (valuesOf parties)[g]? = some (valueAt parties g) := by
  rw [← length_valuesOf hparties] at hg
  rw [valueAt, List.getD_eq_getElem?_getD, List.getElem?_eq_getElem hg, Option.getD_some]

theorem valueAt_mem_rootsOf {g : Nat} (hg : g < Counts.total (counts parties)) :
    valueAt parties g ∈ rootsOf parties :=
  (Slots.ascending_perm _).mem_iff.mpr
    (List.mem_of_getElem? (getElem?_valueAt hparties hg))

theorem slotAt_lt {g : Nat} (hg : g < Counts.total (counts parties)) :
    slotAt parties g < Counts.total (counts parties) := by
  have hlt := List.idxOf_lt_length_of_mem (valueAt_mem_rootsOf hparties hg)
  rw [rootsOf, (Slots.ascending_perm _).length_eq, length_valuesOf hparties] at hlt
  exact hlt

theorem getElem?_slotsOf {p i : Nat} {party : Party} (hp : parties[p]? = some party)
    (hi : i < party.count) :
    (slotsOf parties party)[i]? = some (slotAt parties (Counts.start (counts parties) p + i)) := by
  have hlength := hparties.lengthReservations party (List.mem_of_getElem? hp)
  have hvalue := getElem?_valuesOf hparties hp hi
  rw [slotsOf, Slots.indicesOf, List.getElem?_map, ← hvalue,
    getElem?_valueAt hparties (Counts.start_add_lt (getElem?_counts hp) hi), Option.map_some,
    slotAt]

theorem length_slotsOf {party : Party} (hparty : party ∈ parties) :
    (slotsOf parties party).length = party.count := by
  rw [slotsOf, Slots.indicesOf, List.length_map]
  exact hparties.lengthReservations party hparty

section Distinct

variable (hdistinct : (valuesOf parties).Nodup)
include hdistinct

theorem isRoot_of_mem_valuesOf {value : Nat} (h : value ∈ valuesOf parties) :
    Field.isRoot value (Field.coefficients (Field.powerSums (valuesOf parties))) = true := by
  have hvanishes := Field.vanishesAtMultiples_of_nodup hdistinct
    fun m hm => lt_of_mem_valuesOf hparties hm
  rw [Field.isRoot_coefficients_iff hvanishes, Field.elements, Multiset.mem_coe]
  exact List.mem_map.mpr ⟨value, h, rfl⟩

omit hparties in
theorem nodup_rootsOf : (rootsOf parties).Nodup :=
  (Slots.ascending_perm _).nodup_iff.mpr hdistinct

theorem resolve?_rootsOf {party : Party} (hparty : party ∈ parties) :
    Slots.resolve? party.reservations (rootsOf parties) = some (slotsOf parties party) := by
  have hsublist : party.reservations.Sublist (valuesOf parties) := by
    rw [valuesOf, List.flatMap_def]
    exact List.sublist_flatten_of_mem (List.mem_map.mpr ⟨party, hparty, rfl⟩)
  apply Slots.resolve?_eq (nodup_rootsOf hdistinct)
  · intro root hroot
    exact lt_of_mem_valuesOf hparties ((Slots.ascending_perm _).mem_iff.mp hroot)
  · exact hdistinct.sublist hsublist
  · intro secret hsecret
    exact (Slots.ascending_perm _).mem_iff.mpr (hsublist.subset hsecret)

/-- The slots of all peers together are all slots. -/
theorem flatten_slotsOf_perm :
    (parties.map (slotsOf parties)).flatten.Perm
      (List.range (Counts.total (counts parties))) := by
  have hall : (parties.map (slotsOf parties)).flatten =
      Slots.indicesOf (valuesOf parties) (rootsOf parties) := by
    rw [valuesOf, List.flatMap_def, ← Slots.flatten_indicesOf, List.map_map]
    rfl
  have hperm := Slots.indicesOf_perm (nodup_rootsOf hdistinct)
    (Slots.ascending_perm (valuesOf parties)).symm
  rw [length_valuesOf hparties] at hperm
  rw [hall]
  exact hperm

theorem slotAt_inj {g h : Nat} (hg : g < Counts.total (counts parties))
    (hh : h < Counts.total (counts parties)) (heq : slotAt parties g = slotAt parties h) :
    g = h := by
  have hrootG := Slots.getElem?_idxOf (valueAt_mem_rootsOf hparties hg)
  have hrootH := Slots.getElem?_idxOf (valueAt_mem_rootsOf hparties hh)
  have hindex : (rootsOf parties).idxOf (valueAt parties g) =
      (rootsOf parties).idxOf (valueAt parties h) := heq
  rw [hindex, hrootH] at hrootG
  have hvalueG := getElem?_valueAt hparties hg
  rw [← Option.some.inj hrootG, ← getElem?_valueAt hparties hh] at hvalueG
  rw [← length_valuesOf hparties] at hg hh
  exact (List.getElem?_inj hg hdistinct).mp hvalueG

end Distinct

/-!
## Messages
-/

/-- The message at a global index. -/
def messageAt (messages : List (List Bytes)) (g : Nat) : Bytes :=
  messages.flatten.getD g []

/-- The vector that is published for the message at a global index. -/
def vectorAt (parties : List Party) (sid : Bytes) (run : UInt32) (size : Nat)
    (messages : List (List Bytes)) (g : Nat) : SlotVector :=
  (messageVector size g (messageAt messages g) (slotAt parties g)
    ((List.range (Counts.total (counts parties))).map
      (keyAt parties sid run size g))).toOption.getD (SlotVector.zero 0 0)

section Messages

variable {messages : List (List Bytes)}
variable (hmessages : messages.map List.length = counts parties)
variable (hsizes : forall own, own ∈ messages -> forall message, message ∈ own ->
  message.length = size)

omit hparties in
include hmessages in
theorem getElem?_messageAt {p i : Nat} {own : List Bytes} (hown : messages[p]? = some own)
    (hi : i < own.length) :
    own[i]? = some (messageAt messages (Counts.start (counts parties) p + i)) := by
  have hentry := Counts.getElem?_flatten_start hown hi
  rw [hmessages, List.getElem?_eq_getElem hi] at hentry
  rw [messageAt, List.getD_eq_getElem?_getD, hentry, Option.getD_some, List.getElem?_eq_getElem hi]

omit hparties in
include hmessages hsizes in
theorem length_messageAt {g : Nat} (hg : g < Counts.total (counts parties)) :
    (messageAt messages g).length = size := by
  rcases Counts.exists_position hg with ⟨p, i, count, hcount, hi, rfl⟩
  rw [← hmessages, List.getElem?_map, Option.map_eq_some_iff] at hcount
  rcases hcount with ⟨own, hown, rfl⟩
  have hentry := getElem?_messageAt hmessages hown hi
  exact hsizes own (List.mem_of_getElem? hown) _ (List.mem_of_getElem? hentry)

include hmessages hsizes in
/-- The vector of a message is the message laid over its slot under its pad. -/
theorem messageVector_eq_ok {g : Nat} (hg : g < Counts.total (counts parties)) :
    messageVector size g (messageAt messages g) (slotAt parties g)
        ((List.range (Counts.total (counts parties))).map (keyAt parties sid run size g)) =
      .ok (vectorAt parties sid run size messages g) ∧
    (vectorAt parties sid run size messages g).HasDimensions (Counts.total (counts parties)) size ∧
    forall k, (vectorAt parties sid run size messages g).data.maskAt k =
      (∑ i ∈ Finset.range (Counts.total (counts parties)) with i ≠ g,
        (keyAt parties sid run size g i).message.data.maskAt k) +
          laidOver (messageAt messages g) (slotAt parties g * size) k := by
  have hkeys (i : Nat) (hi : i < Counts.total (counts parties)) :=
    (fits_keyAt sid run size hparties hg hi).message
  rcases messagePad_eq_ok hkeys g with ⟨pad, hpad, hpadSize, hpadMask⟩
  rcases messageMix_eq_ok hpadSize (length_messageAt size hmessages hsizes hg)
    (slotAt_lt hparties hg) with ⟨v, hv, hvSize, hvMask⟩
  have hvector : messageVector size g (messageAt messages g) (slotAt parties g)
      ((List.range (Counts.total (counts parties))).map (keyAt parties sid run size g)) = .ok v := by
    rw [messageVector, List.map_map]
    show (messagePad _ size g >>= fun pad => messageMix pad _ _) = _
    rw [Function.comp_def, hpad]
    exact hv
  have hat : vectorAt parties sid run size messages g = v := by
    rw [vectorAt, hvector]
    rfl
  rw [hat]
  refine ⟨hvector, hvSize, ?_⟩
  intro k
  rw [hvMask, hpadMask]

include hmessages hsizes in
theorem messageVectors_eq_ok {p : Nat} {party : Party} {own : List Bytes}
    (hp : parties[p]? = some party) (hown : messages[p]? = some own) :
    messageVectors size (Counts.start (counts parties) p) own (slotsOf parties party)
        (tableOf parties sid run size p party) =
      .ok ((List.range party.count).map fun i =>
        vectorAt parties sid run size messages (Counts.start (counts parties) p + i)) := by
  have hlength : own.length = party.count := by
    have hcount := getElem?_counts hp
    rw [← hmessages, List.getElem?_map, hown] at hcount
    exact Option.some.inj hcount
  have hslots := length_slotsOf hparties (List.mem_of_getElem? hp)
  have hindices : (own.zip (slotsOf parties party)).zipIdx.map (·.2) = List.range party.count := by
    rw [List.zipIdx_map_snd, List.length_zip, hlength, hslots, Nat.min_self, List.range_eq_range']
  rw [← hindices, List.map_map, messageVectors]
  apply mapM_eq_ok
  intro x hx
  rcases x with ⟨⟨message, slot⟩, i⟩
  have hget : (own.zip (slotsOf parties party))[i]? = some (message, slot) :=
    List.mem_zipIdx_iff_getElem?.mp hx
  rcases List.getElem?_zip_eq_some.mp hget with ⟨hmessage, hslot⟩
  rcases List.getElem?_eq_some_iff.mp hmessage with ⟨hi, _⟩
  have hi' : i < party.count := by omega
  have hrow := getElem?_tableOf sid run size hparties hp hi'
  have hmessageAt := getElem?_messageAt hmessages hown hi
  have hslotAt := getElem?_slotsOf hparties hp hi'
  cases hmessage.symm.trans hmessageAt
  cases hslot.symm.trans hslotAt
  dsimp only
  rw [hrow]
  exact (messageVector_eq_ok sid run size hparties hmessages hsizes
    (Counts.start_add_lt (getElem?_counts hp) hi')).left

include hmessages hsizes in
theorem mapM_messageVectors :
    (((List.range parties.length).map (Counts.start (counts parties))).zip
        (messages.zip ((parties.map (slotsOf parties)).zip
          (tables parties sid run size)))).mapM
        (fun (start, own, slots, rows) => messageVectors size start own slots rows) =
      .ok (parties.zipIdx.map fun (party, p) => (List.range party.count).map fun i =>
        vectorAt parties sid run size messages (Counts.start (counts parties) p + i)) := by
  have hlength : messages.length = parties.length := by
    simpa [counts] using congrArg List.length hmessages
  have hinner : (parties.map (slotsOf parties)).zip (tables parties sid run size) =
      parties.zipIdx.map fun (party, p) =>
        (slotsOf parties party, tableOf parties sid run size p party) := by
    rw [map_eq_zipIdx, tables]
    exact List.zip_map'
  rw [hinner, zip_zipIdx parties hlength, starts_eq_zipIdx, List.zip_map', List.mapM_map]
  apply mapM_eq_ok
  intro x hx
  rcases x with ⟨party, p⟩
  have hp : parties[p]? = some party := List.mem_zipIdx_iff_getElem?.mp hx
  rcases List.getElem?_eq_some_iff.mp hp with ⟨hlt, _⟩
  have hown : messages[p]? = some (messages.getD p []) := by
    rw [List.getD_eq_getElem?_getD, List.getElem?_eq_getElem (by omega), Option.getD_some]
  exact messageVectors_eq_ok sid run size hparties hmessages hsizes hp hown

end Messages

end Honest

/-!
## The round
-/

/-- Every message of a round has arrived, once. -/
structure Delivered (parties : List Party) (size : Nat) (messages : List (List Bytes))
    (transcript : Transcript) : Prop where
  added : Field.addVectors transcript.reservations = some transcript.sums
  sums : transcript.sums = Field.powerSums (valuesOf parties)
  roots : forall value, value ∈ valuesOf parties ->
    Field.isRoot value (Field.coefficients transcript.sums) = true
  /-- The order in which a peer receives the values is its own. -/
  resolved : forall (p : Nat) (party : Party) (order : List Nat),
    parties[p]? = some party -> order.Perm (valuesOf parties) ->
      exists roots slots, Slots.sortRoots order = .ok roots ∧
        Slots.resolve? party.reservations roots = some slots ∧
          transcript.slots[p]? = some slots
  disjoint : transcript.slots.flatten.Perm (List.range (Counts.total (counts parties)))
  combined : SlotVector.xorAll transcript.vectors = .ok transcript.mixed
  dimensions : transcript.mixed.HasDimensions (Counts.total (counts parties)) size
  arrived : forall (p : Nat) (own : List Bytes) (slots : List Nat),
    messages[p]? = some own -> transcript.slots[p]? = some slots -> own.length = slots.length ∧
      forall (i : Nat) (message : Bytes) (slot : Nat), own[i]? = some message -> slots[i]? = some slot ->
        transcript.mixed.slot? slot = some message

section Mix

variable {parties : List Party} (sid : Bytes) (run : UInt32) (size : Nat)
  {messages : List (List Bytes)}

/-- The vectors of all messages in global order. -/
def vectorsOf (parties : List Party) (messages : List (List Bytes)) : List SlotVector :=
  (List.range (Counts.total (counts parties))).map (vectorAt parties sid run size messages)

/-- What a round leaves behind whose vectors add up to `mixed`. -/
def transcriptOf (parties : List Party) (messages : List (List Bytes)) (mixed : SlotVector) :
    Transcript :=
  { reservations := (List.range (Counts.total (counts parties))).map
      (publishedOf reservationShare
        (fun g h => (keyAt parties sid run size g h).reservation) (valueAt parties)
        (Counts.total (counts parties)))
    sums := Field.powerSums (valuesOf parties)
    coefficients := Field.coefficients (Field.powerSums (valuesOf parties))
    isRoot := (valuesOf parties).map fun x =>
      Field.isRoot x (Field.coefficients (Field.powerSums (valuesOf parties)))
    slots := parties.map (slotsOf parties)
    vectors := vectorsOf sid run size parties messages
    mixed }

variable (hparties : Exchanged parties) (hmessages : messages.map List.length = counts parties)
  (hsizes : forall own, own ∈ messages -> forall message, message ∈ own -> message.length = size)
  (hagree : PairsAgree parties) (hdistinct : (valuesOf parties).Nodup)
include hparties hmessages

include hsizes hagree hdistinct in
/-- The vectors add up to one that holds every message in its slot. -/
theorem exists_mixed (hpositive : 0 < Counts.total (counts parties)) :
    exists mixed, SlotVector.xorAll (vectorsOf sid run size parties messages) = .ok mixed ∧
      mixed.HasDimensions (Counts.total (counts parties)) size ∧
        forall g, g < Counts.total (counts parties) ->
          mixed.slot? (slotAt parties g) = some (messageAt messages g) := by
  apply xorAll_eq_messages hpositive
    (K := fun g i => (keyAt parties sid run size g i).message)
  · intro g i hg hi hgi
    exact congrArg PadKey.message (keyAt_comm sid run size hparties hagree hg hi hgi)
  · intro g hg
    exact length_messageAt size hmessages hsizes hg
  · intro g hg
    exact slotAt_lt hparties hg
  · intro g i hg hi heq
    exact slotAt_inj hparties hdistinct hg hi heq
  · intro g hg
    exact (messageVector_eq_ok sid run size hparties hmessages hsizes hg).right.left
  · intro g hg
    exact (messageVector_eq_ok sid run size hparties hmessages hsizes hg).right.right

include hsizes hagree hdistinct in
theorem mix_eq_ok {mixed : SlotVector}
    (hmixed : SlotVector.xorAll (vectorsOf sid run size parties messages) = .ok mixed) :
    mix sid run size parties messages =
      .ok (transcriptOf sid run size parties messages mixed) := by
  have hrows := rowsOf_eq_tables sid run size hparties
  have hreservations := reservations_eq sid run size hparties
  have hsums := addVectors_reservations sid run size hparties hagree
  have hresolve : parties.mapM (fun party =>
      Slots.resolve? party.reservations (rootsOf parties)) =
        some (parties.map (slotsOf parties)) := by
    apply mapM_eq_some
    intro party hparty
    exact resolve?_rootsOf hparties hdistinct hparty
  have hvectors := mapM_messageVectors sid run size hparties hmessages hsizes
  have hflatten : (parties.zipIdx.map fun (party, p) => (List.range party.count).map fun i =>
      vectorAt parties sid run size messages (Counts.start (counts parties) p + i)).flatten =
        vectorsOf sid run size parties messages :=
    flatten_zipIdx fun p party _hp => rfl
  have hroots : rootsOf parties =
    (parties.flatMap fun party => party.reservations).mergeSort fun a b => decide (a ≤ b) := rfl
  unfold mix
  rw [hrows]
  simp only [Except.mapError, bind, Except.bind]
  rw [hreservations, hsums]
  dsimp only
  rw [← hroots, hresolve]
  dsimp only
  rw [hvectors]
  dsimp only
  rw [hflatten, hmixed]
  rfl

/-- A peer finds its messages in its slots if they are all in theirs. -/
theorem arrived_of_slots {mixed : SlotVector}
    (hmixed : forall g, g < Counts.total (counts parties) ->
      mixed.slot? (slotAt parties g) = some (messageAt messages g))
    {p : Nat} {own : List Bytes} {slots : List Nat} (hown : messages[p]? = some own)
    (hslots : (parties.map (slotsOf parties))[p]? = some slots) :
    own.length = slots.length ∧
      forall (i : Nat) (message : Bytes) (slot : Nat), own[i]? = some message ->
        slots[i]? = some slot -> mixed.slot? slot = some message := by
  rw [List.getElem?_map, Option.map_eq_some_iff] at hslots
  rcases hslots with ⟨party, hp, rfl⟩
  have hlength : own.length = party.count := by
    have hcount := getElem?_counts hp
    rw [← hmessages, List.getElem?_map, hown] at hcount
    exact Option.some.inj hcount
  refine ⟨hlength.trans (length_slotsOf hparties (List.mem_of_getElem? hp)).symm, ?_⟩
  intro i message slot hmessage hslot
  rcases List.getElem?_eq_some_iff.mp hmessage with ⟨hi, _⟩
  have hi' : i < party.count := by omega
  rw [getElem?_messageAt hmessages hown hi] at hmessage
  rw [getElem?_slotsOf hparties hp hi'] at hslot
  cases hmessage
  cases hslot
  exact hmixed _ (Counts.start_add_lt (getElem?_counts hp) hi')

include hsizes hagree hdistinct in
/-- Peers that have exchanged keys deliver all messages if the agreements hold
and all values are different. -/
theorem mix_delivers (hpositive : 0 < Counts.total (counts parties)) :
    exists transcript, mix sid run size parties messages = .ok transcript ∧
      Delivered parties size messages transcript := by
  rcases exists_mixed sid run size hparties hmessages hsizes hagree hdistinct hpositive with
    ⟨mixed, hmixed, hdimensions, harrived⟩
  refine ⟨_, mix_eq_ok sid run size hparties hmessages hsizes hagree hdistinct hmixed, ?_⟩
  constructor
  case added => exact addVectors_reservations sid run size hparties hagree
  case sums => rfl
  case roots =>
    intro value hvalue
    exact isRoot_of_mem_valuesOf hparties hdistinct hvalue
  case resolved =>
    intro p party order hp horder
    refine ⟨_, _, sortRoots_of_perm hparties horder,
      resolve?_rootsOf hparties hdistinct (List.mem_of_getElem? hp), ?_⟩
    rw [transcriptOf, List.getElem?_map, hp]
    rfl
  case disjoint => exact flatten_slotsOf_perm hparties hdistinct
  case combined => exact hmixed
  case dimensions => exact hdimensions
  case arrived =>
    intro p own slots hown hslots
    exact arrived_of_slots hparties hmessages harrived hown hslots

end Mix

theorem total_pos {plans : List Plan} (hplans : plans ≠ [])
    (hpositive : forall plan, plan ∈ plans -> 0 < plan.count) :
    0 < Counts.total (plans.map fun plan => plan.count) := by
  cases plans with
  | nil => exact absurd rfl hplans
  | cons plan plans =>
      have hfirst := hpositive plan List.mem_cons_self
      rw [List.map_cons, Counts.total_cons]
      omega

/-- A round of honest peers, however many and with however many messages each,
delivers every message once.  That only needs the agreements of the two schemes
and different slot reservation values; where the keys come from does not
matter once they are exchanged. -/
theorem honest_round_delivers (sid : Bytes) (run : UInt32) (size : Nat)
    (messages : List (List Bytes))
    (hsizes : forall own, own ∈ messages -> forall message, message ∈ own -> message.length = size) :
    (forall plans, plans ≠ [] -> (forall plan, plan ∈ plans -> 0 < plan.count) ->
      messages.map List.length = plans.map (fun plan => plan.count) ->
        exists parties, exchange run plans = .ok parties ∧
          (PairsAgree parties -> (valuesOf parties).Nodup ->
            exists transcript, perform sid run size plans messages = .ok transcript ∧
              Delivered parties size messages transcript)) ∧
    (forall parties, Exchanged parties -> 0 < Counts.total (counts parties) ->
      messages.map List.length = counts parties -> PairsAgree parties ->
        (valuesOf parties).Nodup ->
          exists transcript, mix sid run size parties messages = .ok transcript ∧
            Delivered parties size messages transcript) := by
  constructor
  · intro plans hplans hpositive hmessages
    have hexchange := exchange_eq_ok run plans
    refine ⟨_, hexchange, ?_⟩
    intro hagree hdistinct
    have htotal := total_pos hplans hpositive
    rw [← counts_map_partyOf run (plannedKeys run plans)] at hmessages htotal
    rcases mix_delivers sid run size (exchanged_map_partyOf run plans) hmessages hsizes hagree
      hdistinct htotal with ⟨transcript, hmix, hdelivered⟩
    refine ⟨transcript, ?_, hdelivered⟩
    rw [perform, hexchange]
    exact hmix
  · intro parties hparties hpositive hmessages hagree hdistinct
    exact mix_delivers sid run size hparties hmessages hsizes hagree hdistinct hpositive

theorem blankParties_exchanged : Exchanged blankParties := by
  have hplanned (party : Party) (hparty : party ∈ blankParties) :
      exists plan, party = blankParty plan := by
    rcases List.mem_cons.mp hparty with rfl | hparty
    · exact ⟨_, rfl⟩
    · exact ⟨_, List.mem_singleton.mp hparty⟩
  constructor
  case encapsulated => exact blankParties_haveEncapsulated
  case lengthReservations =>
    intro party hparty
    rcases hplanned party hparty with ⟨plan, rfl⟩
    exact Field.length_sampleMany plan.count _
  case reduced =>
    intro party hparty value hvalue
    rcases hplanned party hparty with ⟨plan, rfl⟩
    exact Field.lt_of_mem_sampleMany hvalue

theorem blankParties_pairsAgree : PairsAgree blankParties := by
  intro p q a b hpq hp hq
  match p, q with
  | 0, 1 =>
      cases hp
      cases hq
      exact ⟨blankParties_agreeOnPoints, blankParty_recovers _ _ (by decide)⟩
  | 1, 0 =>
      cases hp
      cases hq
      exact ⟨blankParties_agreeOnPoints.symm, blankParty_recovers _ _ (by decide)⟩
  | 0, 0 => exact absurd rfl hpq
  | 1, 1 => exact absurd rfl hpq
  | p + 2, _ => cases hp
  | _, q + 2 => cases hq

/-- One peer with two messages, and two peers with two messages and one.  Seeds give the
two everything but the key pair that recovers secrets, which is the blank one. -/
theorem honest_round_delivers_for_one_and_two_peers :
    (exists parties,
      exchange 4 [{ seed := Bytes.zeros 32, seedRun := 0, count := 2 }] = .ok parties ∧
      PairsAgree parties ∧ (valuesOf parties).Nodup ∧
      exists transcript,
        perform [1, 2, 3] 4 2 [{ seed := Bytes.zeros 32, seedRun := 0, count := 2 }]
            [[[10, 11], [12, 13]]] = .ok transcript ∧
          Delivered parties 2 [[[10, 11], [12, 13]]] transcript) ∧
    Exchanged blankParties ∧ PairsAgree blankParties ∧
    exists transcript,
      mix [1, 2, 3] 4 2 blankParties [[[10, 11], [12, 13]], [[14, 15]]] = .ok transcript ∧
        Delivered blankParties 2 [[[10, 11], [12, 13]], [[14, 15]]] transcript := by
  constructor
  · rcases (honest_round_delivers [1, 2, 3] 4 2 [[[10, 11], [12, 13]]] (by decide)).left
      [{ seed := Bytes.zeros 32, seedRun := 0, count := 2 }] (by decide) (by decide) (by decide)
      with ⟨parties, hexchange, hdelivers⟩
    have hparties := Except.ok.inj (hexchange.symm.trans (exchange_eq_ok 4 _))
    have hagree : PairsAgree parties := by
      intro p q a b hpq hp hq
      rw [hparties] at hp hq
      match p, q with
      | 0, 0 => exact absurd rfl hpq
      | p + 1, _ => cases hp
      | _, q + 1 => cases hq
    have hdistinct : (valuesOf parties).Nodup := by
      rw [hparties]
      decide +kernel
    exact ⟨parties, hexchange, hagree, hdistinct, hdelivers hagree hdistinct⟩
  · refine ⟨blankParties_exchanged, blankParties_pairsAgree, ?_⟩
    exact (honest_round_delivers [1, 2, 3] 4 2 [[[10, 11], [12, 13]], [[14, 15]]]
      (by decide)).right blankParties blankParties_exchanged (by decide) (by decide)
      blankParties_pairsAgree (by decide +kernel)

end Round
end PeerMix
