import PeerMix.Proofs.DcNet.Unlinkability

/-!
# Sums of message vectors

Under one table of keys for all messages the pads vanish from the exclusive or of
the message vectors.  What is left does not depend on the keys: every slot holds
the exclusive or of the messages that go there, be they none, one or several.
-/

namespace PeerMix

/-!
## Messages laid over each other
-/

namespace Bytes

/-- The exclusive or of messages of one size; zeros when there are none. -/
def overlay (size : Nat) (messages : List Bytes) : Bytes :=
  messages.foldl xor (zeros size)

section Overlay

variable {size : Nat} {messages : List Bytes}
  (hmessages : forall message, message ∈ messages -> message.length = size)
include hmessages

theorem foldl_xor {start : Bytes} (hstart : start.length = size) :
    (messages.foldl xor start).length = size ∧
      forall k, (messages.foldl xor start).maskAt k =
        start.maskAt k + (messages.map fun message => message.maskAt k).sum := by
  induction messages generalizing start with
  | nil => exact ⟨hstart, fun k => (add_zero _).symm⟩
  | cons message messages ih =>
      have hlength : start.length = message.length :=
        hstart.trans (hmessages message List.mem_cons_self).symm
      rcases ih (fun other hother => hmessages other (List.mem_cons_of_mem message hother))
        ((length_xor hlength).trans hstart) with ⟨hsize, hmask⟩
      refine ⟨hsize, ?_⟩
      intro k
      rw [List.foldl_cons, hmask, maskAt_xor hlength, List.map_cons, List.sum_cons, add_assoc]

theorem length_overlay : (overlay size messages).length = size :=
  (foldl_xor hmessages (length_zeros size)).left

theorem maskAt_overlay (k : Nat) :
    (overlay size messages).maskAt k = (messages.map fun message => message.maskAt k).sum := by
  rw [overlay, (foldl_xor hmessages (length_zeros size)).right, maskAt_zeros, zero_add]

end Overlay

end Bytes

theorem sum_map_filter {α M : Type} [AddCommMonoid M] (xs : List α) (p : α -> Prop)
    [DecidablePred p] (f : α -> M) :
    ((xs.filter fun x => p x).map f).sum = (xs.map fun x => if p x then f x else 0).sum := by
  induction xs with
  | nil => rfl
  | cons x xs ih =>
      by_cases hx : p x
      · simp [hx, ih]
      · simp [hx, ih]

namespace DcNet

/-- The key in the own place does not enter the pad. -/
theorem messagePad_congr {keys others : List SlotVector} {size my : Nat}
    (hlength : keys.length = others.length) (h : forall i, i ≠ my -> keys[i]? = others[i]?) :
    messagePad keys size my = messagePad others size my := by
  have hsame : keys.zipIdx.filter (fun x => x.2 ≠ my) = others.zipIdx.filter fun x => x.2 ≠ my :=
    others_congr hlength fun i hi => h i (by omega)
  show ((keys.zipIdx.filter fun x => x.2 ≠ my).map (·.1)).foldlM SlotVector.xor
      (SlotVector.zero keys.length size) =
    ((others.zipIdx.filter fun x => x.2 ≠ my).map (·.1)).foldlM SlotVector.xor
      (SlotVector.zero others.length size)
  rw [hsame, hlength]

section Mixed

variable {n size : Nat} (P : Fin n -> Placement n size)

/-- The messages that go to slot `s`. -/
def messagesIn (s : Fin n) : List Bytes :=
  ((List.ofFn P).filter fun p => p.slot = s).map fun p => p.message

/-- The vector that holds all messages in their slots, and no pads. -/
def laidOut : SlotVector where
  slots := n
  size := size
  data := Bytes.overlay (n * size) (List.ofFn fun g => (P g).laid)

theorem length_of_mem_messagesIn (s : Fin n) :
    forall message, message ∈ messagesIn P s -> message.length = size := by
  intro message hmessage
  rcases List.mem_map.mp hmessage with ⟨p, _hp, rfl⟩
  exact p.length_message

theorem length_of_mem_laid :
    forall laid, laid ∈ (List.ofFn fun g => (P g).laid) -> laid.length = n * size := by
  intro laid hlaid
  rcases List.mem_ofFn.mp hlaid with ⟨g, rfl⟩
  exact (P g).length_laid

theorem hasDimensions_laidOut : (laidOut P).HasDimensions n size :=
  ⟨rfl, rfl, Bytes.length_overlay (length_of_mem_laid P)⟩

theorem maskAt_laidOut (k : Nat) :
    (laidOut P).data.maskAt k = ∑ g, (P g).laid.maskAt k := by
  rw [laidOut, Bytes.maskAt_overlay (length_of_mem_laid P), List.map_ofFn, List.sum_ofFn]
  rfl

/-!
## Slots
-/

theorem Placement.maskAt_laid_slot (p : Placement n size) (s : Fin n) {j : Nat} (hj : j < size) :
    p.laid.maskAt (s * size + j) = if p.slot = s then p.message.maskAt j else 0 := by
  simp only [p.maskAt_laid, laidOver_slot p.length_message _ _ hj, Fin.ext_iff]

theorem slot?_laidOut (s : Fin n) :
    (laidOut P).slot? s = some (Bytes.overlay size (messagesIn P s)) := by
  have hdimensions := hasDimensions_laidOut P
  have hend : s * size + size ≤ n * size := by
    rw [← Nat.succ_mul]
    exact Nat.mul_le_mul_right size s.isLt
  have hslot : ((laidOut P).data.drop (s * size)).take size =
      Bytes.overlay size (messagesIn P s) := by
    apply Bytes.eq_of_maskAt
    · rw [List.length_take, List.length_drop, hdimensions.right.right,
        Bytes.length_overlay (length_of_mem_messagesIn P s)]
      omega
    · intro j hj
      have hj' : j < size := Nat.lt_of_lt_of_le hj (List.length_take_le _ _)
      calc
        Bytes.maskAt (((laidOut P).data.drop (s * size)).take size) j
            = ∑ g, (P g).laid.maskAt (s * size + j) := by
              rw [Bytes.maskAt_take hj', Bytes.maskAt_drop, maskAt_laidOut]
        _ = ∑ g, if (P g).slot = s then (P g).message.maskAt j else 0 := by
              apply Finset.sum_congr rfl
              intro g _hg
              exact (P g).maskAt_laid_slot s hj'
        _ = (Bytes.overlay size (messagesIn P s)).maskAt j := by
              rw [Bytes.maskAt_overlay (length_of_mem_messagesIn P s), messagesIn, List.map_map,
                sum_map_filter, List.map_ofFn, List.sum_ofFn]
              rfl
  rw [SlotVector.slot?_eq_some hdimensions s.isLt, hslot]

variable {P}

theorem messagesIn_eq_nil {s : Fin n} (h : forall g, (P g).slot ≠ s) : messagesIn P s = [] := by
  have hnone : (List.ofFn P).filter (fun p => p.slot = s) = [] := by
    rw [List.filter_eq_nil_iff]
    intro p hp
    rcases List.mem_ofFn.mp hp with ⟨g, rfl⟩
    simpa using h g
  rw [messagesIn, hnone, List.map_nil]

/-- Among messages in different slots each one stands alone in its slot. -/
theorem overlay_messagesIn_of_injective (h : Function.Injective fun g => (P g).slot) (g : Fin n) :
    Bytes.overlay size (messagesIn P (P g).slot) = (P g).message := by
  have hlengths := length_of_mem_messagesIn P (P g).slot
  apply Bytes.eq_of_maskAt
  · rw [Bytes.length_overlay hlengths, (P g).length_message]
  · intro k _hk
    have hmask : forall i, (if (P i).slot = (P g).slot then (P i).message.maskAt k else 0) =
        if i = g then (P g).message.maskAt k else 0 := by
      intro i
      by_cases hi : i = g
      · rw [hi, if_pos rfl, if_pos rfl]
      · rw [if_neg fun heq => hi (h heq), if_neg hi]
    rw [Bytes.maskAt_overlay hlengths, messagesIn, List.map_map, sum_map_filter, List.map_ofFn,
      List.sum_ofFn]
    simp [hmask]

/-!
## All vectors
-/

theorem exists_published (K : KeyTable n size) (P : Fin n -> Placement n size) (g : Fin n) :
    exists pad v, messagePad (List.ofFn (K.key g)) size g = .ok pad ∧
      messageMix pad (P g).message (P g).slot = .ok v := by
  rcases messagePad_ofFn_eq_ok (K.dimensions g) g with ⟨pad, hpad, hdimensions, _hmask⟩
  rcases messageMix_eq_ok hdimensions (P g).length_message (P g).slot.isLt with ⟨v, hv, _⟩
  exact ⟨pad, v, hpad, hv⟩

/-- The exclusive or of all published vectors is free of pads. -/
theorem xorAll_published (hn : 0 < n) (K : KeyTable n size) {vectors : Fin n -> SlotVector}
    (h : forall g, published K P g = .ok (vectors g)) :
    SlotVector.xorAll (List.ofFn vectors) = .ok (laidOut P) := by
  have hvectors : forall g, (vectors g).HasDimensions n size ∧
      forall k, (vectors g).data.maskAt k =
        (∑ i with i ≠ g, (K.key g i).data.maskAt k) + (P g).laid.maskAt k := by
    intro g
    rcases published_eq_ok K P g with ⟨v, hv, hdimensions, hmask⟩
    cases hv.symm.trans (h g)
    exact ⟨hdimensions, hmask⟩
  have hall : forall v, v ∈ List.ofFn vectors -> v.HasDimensions n size := by
    intro v hv
    rcases List.mem_ofFn.mp hv with ⟨g, rfl⟩
    exact (hvectors g).left
  have hne : List.ofFn vectors ≠ [] := by
    intro hnil
    have hlength := congrArg List.length hnil
    rw [List.length_ofFn, List.length_nil] at hlength
    omega
  have hpads : forall k, ∑ g, ∑ i with i ≠ g, (K.key g i).data.maskAt k = 0 := by
    intro k
    apply sum_pairs_eq_zero
    intro g i _hg _hi _hne
    rw [K.symmetric g i]
    exact Mask.add_self _
  rcases SlotVector.xorAll_eq_ok hne hall with ⟨mixed, hmixed, hdimensions, hmask⟩
  rw [hmixed]
  congr 1
  apply SlotVector.eq_of_maskAt hdimensions (hasDimensions_laidOut P)
  intro k
  calc
    mixed.data.maskAt k = ∑ g, (vectors g).data.maskAt k := by
      rw [hmask, List.map_ofFn, List.sum_ofFn]
      rfl
    _ = ∑ g, ((∑ i with i ≠ g, (K.key g i).data.maskAt k) + (P g).laid.maskAt k) :=
      Finset.sum_congr rfl fun g _hg => (hvectors g).right k
    _ = (laidOut P).data.maskAt k := by
      rw [Finset.sum_add_distrib, hpads, zero_add, maskAt_laidOut]

/-- Keys of which only those of different messages are known to be shared and of
the right dimensions, as a table of keys: the own places get blank ones. -/
def KeyTable.ofShared (K : Fin n -> Fin n -> SlotVector)
    (hshared : forall g i, g ≠ i -> K g i = K i g)
    (hdimensions : forall g i, g ≠ i -> (K g i).HasDimensions n size) : KeyTable n size where
  key g i := if g = i then SlotVector.zero n size else K g i
  symmetric := by
    intro g i
    by_cases hgi : g = i
    · rw [hgi]
    · rw [if_neg hgi, if_neg (Ne.symm hgi), hshared g i hgi]
  dimensions := by
    intro g i
    by_cases hgi : g = i
    · rw [if_pos hgi]
      exact SlotVector.hasDimensions_zero n size
    · rw [if_neg hgi]
      exact hdimensions g i hgi

theorem messagePad_ofShared {K : Fin n -> Fin n -> SlotVector}
    (hshared : forall g i, g ≠ i -> K g i = K i g)
    (hdimensions : forall g i, g ≠ i -> (K g i).HasDimensions n size) (g : Fin n) :
    messagePad (List.ofFn ((KeyTable.ofShared K hshared hdimensions).key g)) size g =
      messagePad (List.ofFn (K g)) size g := by
  apply messagePad_congr
  · rw [List.length_ofFn, List.length_ofFn]
  · intro i hi
    apply getElem?_ofFn_congr _ hi
    intro j hj
    exact if_neg (Ne.symm hj)

/-- All messages are published and add up to one vector, whichever keys pairs of
different messages share.  Its slots hold the messages that go there, laid over
each other: zeros where there are none, and each message unchanged when no two
share a slot. -/
theorem messages_add_up (P : Fin n -> Placement n size) :
    exists mixed : SlotVector,
      (forall K : Fin n -> Fin n -> SlotVector, (forall g i, g ≠ i -> K g i = K i g) ->
        (forall g i, g ≠ i -> (K g i).HasDimensions n size) ->
          exists pads vectors : Fin n -> SlotVector,
            (forall g, messagePad (List.ofFn (K g)) size g = .ok (pads g) ∧
              messageMix (pads g) (P g).message (P g).slot = .ok (vectors g)) ∧
            SlotVector.xorAll (List.ofFn vectors) = .ok mixed) ∧
      (0 < n -> mixed.HasDimensions n size) ∧
      (forall s : Fin n, mixed.slot? s = some (Bytes.overlay size (messagesIn P s))) ∧
      (forall s : Fin n, (forall g, (P g).slot ≠ s) -> mixed.slot? s = some (Bytes.zeros size)) ∧
      ((Function.Injective fun g => (P g).slot) ->
        forall g, mixed.slot? (P g).slot = some (P g).message) := by
  rcases Nat.eq_zero_or_pos n with rfl | hn
  · refine ⟨SlotVector.zero 0 0, ?_, nofun, fun s => s.elim0, fun s => s.elim0, fun _ g => g.elim0⟩
    intro K _hshared _hdimensions
    exact ⟨fun g => g.elim0, fun g => g.elim0, fun g => g.elim0, rfl⟩
  · refine ⟨laidOut P, ?_, fun _ => hasDimensions_laidOut P, slot?_laidOut P, ?_, ?_⟩
    · intro K hshared hdimensions
      have hpublished := fun g => exists_published (KeyTable.ofShared K hshared hdimensions) P g
      choose pads vectors hpads hvectors using hpublished
      refine ⟨pads, vectors, ?_, ?_⟩
      · intro g
        rw [← messagePad_ofShared hshared hdimensions]
        exact ⟨hpads g, hvectors g⟩
      · apply xorAll_published hn (KeyTable.ofShared K hshared hdimensions)
        intro g
        rw [published, hpads]
        exact hvectors g
    · intro s hs
      rw [slot?_laidOut, messagesIn_eq_nil hs]
      rfl
    · intro hinjective g
      rw [slot?_laidOut, overlay_messagesIn_of_injective hinjective]

end Mixed

/-- Keys of two messages of one octet; in the own places stand vectors of other
dimensions. -/
def crossedKeys (g i : Fin 2) : SlotVector :=
  if g = i then SlotVector.zero 5 3 else { slots := 2, size := 1, data := [170, 187] }

/-- Both messages in the last slot. -/
def collidingPlacements (g : Fin 2) : Placement 2 1 where
  message := [g.val.toUInt8 + 5]
  slot := 1
  length_message := rfl

theorem messages_add_up_of_collision :
    (forall g i, g ≠ i -> crossedKeys g i = crossedKeys i g) ∧
      (forall g i, g ≠ i -> (crossedKeys g i).HasDimensions 2 1) ∧
      exists vectors : Fin 2 -> SlotVector,
        messageMix ⟨2, 1, [170, 187]⟩ [5] 1 = .ok (vectors 0) ∧
          messageMix ⟨2, 1, [170, 187]⟩ [6] 1 = .ok (vectors 1) ∧
          exists mixed, SlotVector.xorAll (List.ofFn vectors) = .ok mixed ∧
            mixed.slot? 0 = some [0] ∧ mixed.slot? 1 = some [3] := by
  have hshared : forall g i, g ≠ i -> crossedKeys g i = crossedKeys i g := by decide
  have hdimensions : forall g i, g ≠ i -> (crossedKeys g i).HasDimensions 2 1 := by decide
  rcases messages_add_up collidingPlacements with ⟨mixed, hall, _hsize, hslots, hempty, _hdistinct⟩
  rcases hall crossedKeys hshared hdimensions with ⟨pads, vectors, hvectors, hmixed⟩
  have hpad : forall g, pads g = ⟨2, 1, [170, 187]⟩ := by
    intro g
    have hpad : messagePad (List.ofFn (crossedKeys g)) 1 g = .ok ⟨2, 1, [170, 187]⟩ := by
      fin_cases g <;> decide
    exact Except.ok.inj ((hvectors g).left.symm.trans hpad)
  refine ⟨hshared, hdimensions, vectors, ?_, ?_, mixed, hmixed, ?_, ?_⟩
  · rw [← hpad 0]
    exact (hvectors 0).right
  · rw [← hpad 1]
    exact (hvectors 1).right
  · exact hempty 0 (by decide)
  · rw [show mixed.slot? 1 = _ from hslots 1]
    decide

end DcNet
end PeerMix
