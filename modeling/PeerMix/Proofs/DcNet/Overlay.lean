import Mathlib.Algebra.Group.MinimalAxioms
import Mathlib.Data.List.GetD
import PeerMix.DcNet.Vectors
import PeerMix.Proofs.DcNet.Cancellation

/-!
# Messages under pads

Octets form a group under exclusive or, in which every element is its own
inverse.  Read octet by octet, a message vector is the sum of its pad and of the
message laid over its slot, so the pads vanish from the exclusive or of all
vectors like those of the slot reservation mix.
-/

namespace PeerMix

/-!
## Octets under exclusive or
-/

/-- An octet as an element of the group of exclusive or. -/
structure Mask where
  octet : UInt8

namespace Mask

instance : Add Mask := ⟨fun a b => ⟨a.octet ^^^ b.octet⟩⟩

instance : Zero Mask := ⟨⟨0⟩⟩

instance : Neg Mask := ⟨id⟩

theorem add_self (a : Mask) : a + a = 0 :=
  congrArg Mask.mk (UInt8.xor_self (a := a.octet))

instance : AddCommGroup Mask :=
  { AddGroup.ofLeftAxioms
      (fun a b c => congrArg Mask.mk (UInt8.xor_assoc a.octet b.octet c.octet))
      (fun a => congrArg Mask.mk (UInt8.zero_xor (a := a.octet)))
      add_self with
    add_comm := fun a b => congrArg Mask.mk (UInt8.xor_comm a.octet b.octet) }

end Mask

namespace Bytes

/-- The octet at `k`, zero from the end on. -/
def maskAt (bs : Bytes) (k : Nat) : Mask :=
  ⟨bs.getD k 0⟩

theorem maskAt_of_length_le {bs : Bytes} {k : Nat} (h : bs.length ≤ k) : bs.maskAt k = 0 := by
  rw [maskAt, List.getD_eq_default bs 0 h]
  rfl

theorem length_zeros (n : Nat) : (zeros n).length = n :=
  List.length_replicate

theorem maskAt_zeros (n k : Nat) : (zeros n).maskAt k = 0 := by
  rw [maskAt, zeros, List.getD_eq_getElem?_getD, List.getElem?_replicate]
  split <;> rfl

theorem maskAt_append_left {xs : Bytes} (ys : Bytes) {k : Nat} (h : k < xs.length) :
    (xs ++ ys).maskAt k = xs.maskAt k := by
  rw [maskAt, List.getD_append xs ys 0 k h, maskAt]

theorem maskAt_append_right {xs : Bytes} (ys : Bytes) {k : Nat} (h : xs.length ≤ k) :
    (xs ++ ys).maskAt k = ys.maskAt (k - xs.length) := by
  rw [maskAt, List.getD_append_right xs ys 0 k h, maskAt]

theorem maskAt_take {bs : Bytes} {n k : Nat} (h : k < n) : maskAt (bs.take n) k = bs.maskAt k := by
  rw [maskAt, maskAt, List.getD_eq_getElem?_getD, List.getElem?_take_of_lt h,
    List.getD_eq_getElem?_getD]

theorem maskAt_drop (bs : Bytes) (n k : Nat) : maskAt (bs.drop n) k = bs.maskAt (n + k) := by
  rw [maskAt, maskAt, List.getD_eq_getElem?_getD, List.getElem?_drop, List.getD_eq_getElem?_getD]

theorem length_xor {a b : Bytes} (h : a.length = b.length) : (a.xor b).length = a.length := by
  rw [xor, List.length_zipWith, ← h, Nat.min_self]

theorem maskAt_xor {a b : Bytes} (h : a.length = b.length) (k : Nat) :
    (a.xor b).maskAt k = a.maskAt k + b.maskAt k := by
  by_cases hk : k < a.length
  · have hb : k < b.length := by omega
    have hentry : (a.xor b)[k]? = some (a[k] ^^^ b[k]) := by
      rw [xor, List.getElem?_zipWith, List.getElem?_eq_getElem hk, List.getElem?_eq_getElem hb]
    simp only [maskAt, List.getD_eq_getElem?_getD, hentry, List.getElem?_eq_getElem hk,
      List.getElem?_eq_getElem hb, Option.getD_some]
    rfl
  · have hlength := length_xor h
    rw [maskAt_of_length_le (by omega), maskAt_of_length_le (by omega),
      maskAt_of_length_le (by omega), add_zero]

/-- Byte strings of one length with the same octets are equal. -/
theorem eq_of_maskAt {a b : Bytes} (hlength : a.length = b.length)
    (h : forall k, k < a.length -> a.maskAt k = b.maskAt k) : a = b := by
  apply List.ext_getElem hlength
  intro k ha hb
  have hoctet := congrArg Mask.octet (h k ha)
  simpa [maskAt, ha, hb] using hoctet

end Bytes

/-!
## Exclusive or of slot vectors
-/

namespace SlotVector

theorem hasDimensions_zero (slots size : Nat) : (zero slots size).HasDimensions slots size :=
  ⟨rfl, rfl, List.length_replicate⟩

/-- Vectors of the same dimensions with the same octets are equal. -/
theorem eq_of_maskAt {v w : SlotVector} {n size : Nat} (hv : v.HasDimensions n size)
    (hw : w.HasDimensions n size) (h : forall k, v.data.maskAt k = w.data.maskAt k) : v = w := by
  rcases v with ⟨slots, size, data⟩
  rcases w with ⟨slots', size', data'⟩
  rcases hv with ⟨rfl, rfl, hdata⟩
  rcases hw with ⟨rfl, rfl, hdata'⟩
  have hsame : data = data' := Bytes.eq_of_maskAt (hdata.trans hdata'.symm) fun k _ => h k
  rw [hsame]

theorem xor_eq_ok {v w : SlotVector} {slots size : Nat} (hv : v.HasDimensions slots size)
    (hw : w.HasDimensions slots size) : v.xor w = .ok { v with data := v.data.xor w.data } := by
  rcases hv with ⟨rfl, rfl, hv⟩
  rw [xor, if_pos ⟨hw, rfl, rfl, hv⟩]

theorem HasDimensions.xor {v w : SlotVector} {slots size : Nat} (hv : v.HasDimensions slots size)
    (hw : w.HasDimensions slots size) :
    SlotVector.HasDimensions { v with data := v.data.xor w.data } slots size := by
  rcases hv with ⟨hslots, hsize, hlength⟩
  exact ⟨hslots, hsize, (Bytes.length_xor (hlength.trans hw.right.right.symm)).trans hlength⟩

/-- Vectors of the same dimensions add up octet by octet. -/
theorem foldlM_xor_eq_ok {slots size : Nat} (vs : List SlotVector) {start : SlotVector}
    (hstart : start.HasDimensions slots size)
    (hvs : forall v, v ∈ vs -> v.HasDimensions slots size) :
    exists w, vs.foldlM xor start = .ok w ∧ w.HasDimensions slots size ∧
      forall k, w.data.maskAt k =
        start.data.maskAt k + (vs.map fun v => v.data.maskAt k).sum := by
  induction vs generalizing start with
  | nil => exact ⟨start, rfl, hstart, fun k => (add_zero _).symm⟩
  | cons v vs ih =>
      have hv := hvs v List.mem_cons_self
      have hlength : start.data.length = v.data.length :=
        hstart.right.right.trans hv.right.right.symm
      rcases ih (hstart.xor hv) (fun w hw => hvs w (List.mem_cons_of_mem v hw)) with
        ⟨w, hw, hdimensions, hmask⟩
      refine ⟨w, ?_, hdimensions, ?_⟩
      · rw [List.foldlM_cons, xor_eq_ok hstart hv]
        exact hw
      · intro k
        rw [hmask, Bytes.maskAt_xor hlength, List.map_cons, List.sum_cons, add_assoc]

theorem xorAll_eq_ok {slots size : Nat} {vs : List SlotVector} (hne : vs ≠ [])
    (hvs : forall v, v ∈ vs -> v.HasDimensions slots size) :
    exists w, xorAll vs = .ok w ∧ w.HasDimensions slots size ∧
      forall k, w.data.maskAt k = (vs.map fun v => v.data.maskAt k).sum := by
  cases vs with
  | nil => exact absurd rfl hne
  | cons v vs =>
      rcases hvs v List.mem_cons_self with ⟨rfl, rfl, _⟩
      rcases foldlM_xor_eq_ok (v :: vs) (hasDimensions_zero v.slots v.size) hvs
        with ⟨w, hw, hdimensions, hmask⟩
      refine ⟨w, hw, hdimensions, ?_⟩
      intro k
      rw [hmask, zero, Bytes.maskAt_zeros, zero_add]

theorem slot?_eq_some {v : SlotVector} {slots size i : Nat} (hv : v.HasDimensions slots size)
    (hi : i < slots) : v.slot? i = some ((v.data.drop (i * size)).take size) := by
  rcases hv with ⟨rfl, rfl, hlength⟩
  have hend : (i + 1) * v.size ≤ v.data.length := by
    rw [hlength]
    exact Nat.mul_le_mul_right v.size hi
  rw [slot?, if_pos hend, slot]

end SlotVector

namespace DcNet

/-!
## A single message
-/

theorem messagePad_eq_ok {K : Nat -> SlotVector} {n size : Nat}
    (hK : forall i, i < n -> (K i).HasDimensions n size) (my : Nat) :
    exists pad, messagePad ((List.range n).map K) size my = .ok pad ∧ pad.HasDimensions n size ∧
      forall k, pad.data.maskAt k = ∑ i ∈ Finset.range n with i ≠ my, (K i).data.maskAt k := by
  let others := ((List.range n).filter fun i => i ≠ my).map K
  have hothers : (((List.range n).map K).zipIdx.filter fun x => x.2 ≠ my).map (·.1) = others := by
    rw [others_map_range, List.map_map]
    rfl
  have hdimensions : forall v, v ∈ others -> v.HasDimensions n size := by
    intro v hv
    rcases List.mem_map.mp hv with ⟨i, hi, rfl⟩
    exact hK i (List.mem_range.mp (List.mem_filter.mp hi).left)
  rcases SlotVector.foldlM_xor_eq_ok others (SlotVector.hasDimensions_zero n size) hdimensions
    with ⟨pad, hpad, hsize, hmask⟩
  refine ⟨pad, ?_, hsize, ?_⟩
  · rw [messagePad, List.length_map, List.length_range]
    show ((((List.range n).map K).zipIdx.filter fun x => x.2 ≠ my).map (·.1)).foldlM
      SlotVector.xor _ = _
    rw [hothers]
    exact hpad
  · intro k
    rw [hmask, SlotVector.zero, Bytes.maskAt_zeros, zero_add, List.map_map]
    exact sum_map_filter_range _ _ n

/-- What a message laid over the octets from `offset` on adds to the octet at `k`. -/
def laidOver (message : Bytes) (offset k : Nat) : Mask :=
  if offset ≤ k then message.maskAt (k - offset) else 0

theorem messageMix_eq_ok {pad : SlotVector} {slots size : Nat} (hpad : pad.HasDimensions slots size)
    {message : Bytes} (hmessage : message.length = size) {slot : Nat} (hslot : slot < slots) :
    exists v, messageMix pad message slot = .ok v ∧ v.HasDimensions slots size ∧
      forall k, v.data.maskAt k = pad.data.maskAt k + laidOver message (slot * size) k := by
  have hcovered := SlotVector.slot?_eq_some hpad hslot
  have hend : (slot + 1) * size ≤ slots * size := Nat.mul_le_mul_right size hslot
  have hsucc : (slot + 1) * size = slot * size + size := Nat.succ_mul slot size
  rcases hpad with ⟨rfl, rfl, hlength⟩
  let covered : Bytes := (pad.data.drop (slot * pad.size)).take pad.size
  have hcoveredLength : covered.length = message.length := by
    rw [List.length_take, List.length_drop]
    omega
  have hlaid : (covered.xor message).length = pad.size := by
    rw [Bytes.length_xor hcoveredLength, hcoveredLength, hmessage]
  have hbefore : (pad.data.take (slot * pad.size)).length = slot * pad.size := by
    rw [List.length_take]
    omega
  have hlow : (pad.data.take (slot * pad.size) ++ covered.xor message).length =
      slot * pad.size + pad.size := by
    rw [List.length_append, hbefore, hlaid]
  let data := pad.data.take (slot * pad.size) ++ covered.xor message ++
    pad.data.drop ((slot + 1) * pad.size)
  refine ⟨{ pad with data }, ?_, ⟨rfl, rfl, ?_⟩, ?_⟩
  · rw [messageMix, if_neg (by omega), if_neg (by omega), hcovered]
  · show (_ ++ _ : Bytes).length = _
    rw [List.length_append, hlow, List.length_drop]
    omega
  · intro k
    show Bytes.maskAt (_ ++ _) k = _
    by_cases hk : k < slot * pad.size
    · rw [Bytes.maskAt_append_left _ (by omega), Bytes.maskAt_append_left _ (by omega),
        Bytes.maskAt_take hk, laidOver, if_neg (by omega), add_zero]
    · rw [laidOver, if_pos (by omega)]
      by_cases hinside : k < slot * pad.size + pad.size
      · rw [Bytes.maskAt_append_left _ (by omega), Bytes.maskAt_append_right _ (by omega), hbefore,
          Bytes.maskAt_xor hcoveredLength, Bytes.maskAt_take (by omega), Bytes.maskAt_drop]
        congr 2
        omega
      · have hbeyond : message.maskAt (k - slot * pad.size) = 0 :=
          Bytes.maskAt_of_length_le (by omega)
        rw [Bytes.maskAt_append_right _ (by omega), hlow, Bytes.maskAt_drop, hbeyond, add_zero]
        congr 1
        omega

/-- A message adds nothing to the octets of another slot. -/
theorem laidOver_other {message : Bytes} {size : Nat} (hmessage : message.length = size)
    {slot other : Nat} (hne : slot ≠ other) {j : Nat} (hj : j < size) :
    laidOver message (slot * size) (other * size + j) = 0 := by
  unfold laidOver
  by_cases hlt : slot < other
  · have hbeyond : (slot + 1) * size ≤ other * size := Nat.mul_le_mul_right size hlt
    rw [Nat.succ_mul] at hbeyond
    rw [if_pos (by omega), Bytes.maskAt_of_length_le (by omega)]
  · have hbefore : (other + 1) * size ≤ slot * size := Nat.mul_le_mul_right size (by omega)
    rw [Nat.succ_mul] at hbefore
    rw [if_neg (by omega)]

/-- A message adds its octets to its own slot and nothing to the others. -/
theorem laidOver_slot {message : Bytes} {size : Nat} (hmessage : message.length = size)
    (slot s : Nat) {j : Nat} (hj : j < size) :
    laidOver message (slot * size) (s * size + j) = if slot = s then message.maskAt j else 0 := by
  by_cases hslot : slot = s
  · rw [if_pos hslot, hslot, laidOver, if_pos (Nat.le_add_right _ _), Nat.add_sub_cancel_left]
  · rw [if_neg hslot]
    exact laidOver_other hmessage hslot hj

/-!
## All messages
-/

section Overlay

variable {n size : Nat} {K : Nat -> Nat -> SlotVector} {messages : Nat -> Bytes}
  {slots : Nat -> Nat} {vectors : Nat -> SlotVector}

theorem sum_pads_eq_zero
    (hK : forall g i, g < n -> i < n -> g ≠ i -> K g i = K i g) (k : Nat) :
    ∑ g ∈ Finset.range n, ∑ i ∈ Finset.range n with i ≠ g, (K g i).data.maskAt k = 0 := by
  apply sum_pairs_eq_zero
  intro g i hg hi hgi
  rw [hK g i (Finset.mem_range.mp hg) (Finset.mem_range.mp hi) hgi]
  exact Mask.add_self _

theorem sum_laidOver (hmessages : forall g, g < n -> (messages g).length = size)
    (hdistinct : forall g i, g < n -> i < n -> slots g = slots i -> g = i)
    {g : Nat} (hg : g < n) {j : Nat} (hj : j < size) :
    ∑ h ∈ Finset.range n, laidOver (messages h) (slots h * size) (slots g * size + j) =
      (messages g).maskAt j := by
  rw [Finset.sum_eq_single_of_mem g (Finset.mem_range.mpr hg)]
  · rw [laidOver_slot (hmessages g hg) _ _ hj, if_pos rfl]
  · intro h hh hne
    have hh' : h < n := Finset.mem_range.mp hh
    rw [laidOver_slot (hmessages h hh') _ _ hj, if_neg fun heq => hne (hdistinct h g hh' hg heq)]

/-- In the slot of a message nothing is left of the pads and the other messages. -/
theorem sum_vectors_eq_message
    (hK : forall g i, g < n -> i < n -> g ≠ i -> K g i = K i g)
    (hmessages : forall g, g < n -> (messages g).length = size)
    (hdistinct : forall g i, g < n -> i < n -> slots g = slots i -> g = i)
    (hvectors : forall g, g < n -> forall k, (vectors g).data.maskAt k =
      (∑ i ∈ Finset.range n with i ≠ g, (K g i).data.maskAt k) +
        laidOver (messages g) (slots g * size) k)
    {g : Nat} (hg : g < n) {j : Nat} (hj : j < size) :
    ∑ h ∈ Finset.range n, (vectors h).data.maskAt (slots g * size + j) =
      (messages g).maskAt j := by
  calc
    ∑ h ∈ Finset.range n, (vectors h).data.maskAt (slots g * size + j)
        = ∑ h ∈ Finset.range n, ((∑ i ∈ Finset.range n with i ≠ h,
            (K h i).data.maskAt (slots g * size + j)) +
              laidOver (messages h) (slots h * size) (slots g * size + j)) := by
          apply Finset.sum_congr rfl
          intro h hh
          exact hvectors h (Finset.mem_range.mp hh) _
    _ = ∑ h ∈ Finset.range n,
          laidOver (messages h) (slots h * size) (slots g * size + j) := by
          rw [Finset.sum_add_distrib, sum_pads_eq_zero hK, zero_add]
    _ = (messages g).maskAt j := sum_laidOver hmessages hdistinct hg hj

/-- The exclusive or of vectors that hold different slots under cancelling pads
has every message in its slot. -/
theorem xorAll_eq_messages (hn : 0 < n)
    (hK : forall g i, g < n -> i < n -> g ≠ i -> K g i = K i g)
    (hmessages : forall g, g < n -> (messages g).length = size)
    (hslots : forall g, g < n -> slots g < n)
    (hdistinct : forall g i, g < n -> i < n -> slots g = slots i -> g = i)
    (hdimensions : forall g, g < n -> (vectors g).HasDimensions n size)
    (hvectors : forall g, g < n -> forall k, (vectors g).data.maskAt k =
      (∑ i ∈ Finset.range n with i ≠ g, (K g i).data.maskAt k) +
        laidOver (messages g) (slots g * size) k) :
    exists mixed, SlotVector.xorAll ((List.range n).map vectors) = .ok mixed ∧
      mixed.HasDimensions n size ∧
        forall g, g < n -> mixed.slot? (slots g) = some (messages g) := by
  have hne : (List.range n).map vectors ≠ [] := by
    intro hnil
    rw [List.map_eq_nil_iff, List.range_eq_nil] at hnil
    omega
  have hall : forall v, v ∈ (List.range n).map vectors -> v.HasDimensions n size := by
    intro v hv
    rcases List.mem_map.mp hv with ⟨g, hg, rfl⟩
    exact hdimensions g (List.mem_range.mp hg)
  rcases SlotVector.xorAll_eq_ok hne hall with ⟨mixed, hmixed, hsize, hmask⟩
  refine ⟨mixed, hmixed, hsize, ?_⟩
  intro g hg
  have hlast : slots g * size + size ≤ n * size := by
    rw [← Nat.succ_mul]
    exact Nat.mul_le_mul_right size (hslots g hg)
  rw [SlotVector.slot?_eq_some hsize (hslots g hg)]
  congr 1
  apply Bytes.eq_of_maskAt
  · rw [List.length_take, List.length_drop, hsize.right.right, hmessages g hg]
    omega
  · intro j hj
    rw [List.length_take] at hj
    have hj' : j < size := by omega
    rw [Bytes.maskAt_take hj', Bytes.maskAt_drop, hmask, List.map_map, Field.sum_map_range]
    exact sum_vectors_eq_message hK hmessages hdistinct hvectors hg hj'

end Overlay

end DcNet
end PeerMix
