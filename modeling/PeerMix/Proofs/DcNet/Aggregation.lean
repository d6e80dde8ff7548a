import PeerMix.Proofs.DcNet.Overlay

/-!
# Exactly which vectors add up

Vectors add up when all of them have the dimensions of the first one.  That is so
when they share any dimensions at all, so it makes no difference which of them comes
first.
-/

namespace PeerMix

theorem Mask.octet_sum (masks : List Mask) :
    masks.sum.octet = (masks.map Mask.octet).foldr (· ^^^ ·) 0 := by
  induction masks with
  | nil => rfl
  | cons mask masks ih =>
      rw [List.sum_cons, List.map_cons, List.foldr_cons, ← ih]
      rfl

namespace SlotVector

/-!
## One vector taken into another
-/

section Two

variable {v w : SlotVector}

/-- What has been taken in twice leaves no trace. -/
theorem xor_xor_cancel {slots size : Nat} (hv : v.HasDimensions slots size)
    (hw : w.HasDimensions slots size) : (v.data.xor w.data).xor w.data = v.data := by
  have hlength : v.data.length = w.data.length := hv.right.right.trans hw.right.right.symm
  have honce : (v.data.xor w.data).length = v.data.length := Bytes.length_xor hlength
  apply Bytes.eq_of_maskAt
  · rw [Bytes.length_xor (honce.trans hlength), honce]
  · intro k _hk
    rw [Bytes.maskAt_xor (honce.trans hlength), Bytes.maskAt_xor hlength, add_assoc,
      Mask.add_self, add_zero]

theorem xor_eq_error
    (h : ¬(w.HasDimensions v.slots v.size ∧ v.HasDimensions v.slots v.size)) :
    v.xor w = .error (.dimensions v.slots v.size w.slots w.size) := by
  rw [SlotVector.xor, if_neg h]

/-- What stands in the place of `v` is the sum, or still `v` when there is none. -/
theorem run_xorInPlace (v w : SlotVector) :
    (xorInPlace w).run v =
      match v.xor w with
      | .ok sum => .ok () sum
      | .error fault => .error fault v := by
  by_cases h : w.HasDimensions v.slots v.size ∧ v.HasDimensions v.slots v.size
  · rw [xor_eq_ok h.right h.left]
    simp [xorInPlace, h.left, h.right]
  · rw [xor_eq_error h]
    simp [xorInPlace, h]

end Two

/-!
## All vectors
-/

/-- A vector of other dimensions stops the sum wherever it comes. -/
theorem exists_foldlM_xor_iff {slots size : Nat} {start : SlotVector}
    (hstart : start.HasDimensions slots size) {vs : List SlotVector} :
    (exists sum, vs.foldlM SlotVector.xor start = .ok sum) ↔
      forall v, v ∈ vs -> v.HasDimensions slots size := by
  constructor
  · intro h
    rcases h with ⟨sum, hsum⟩
    induction vs generalizing start with
    | nil => exact List.forall_mem_nil _
    | cons v vs ih =>
        have hfirst : v.HasDimensions slots size := by
          by_contra hv
          rcases hstart with ⟨rfl, rfl, _⟩
          rw [List.foldlM_cons, xor_eq_error fun hboth => hv hboth.left] at hsum
          cases hsum
        rw [List.foldlM_cons, xor_eq_ok hstart hfirst] at hsum
        exact List.forall_mem_cons.mpr ⟨hfirst, ih (hstart.xor hfirst) hsum⟩
  · intro h
    rcases foldlM_xor_eq_ok vs hstart h with ⟨sum, hsum, _⟩
    exact ⟨sum, hsum⟩

/-- Whether all vectors have the same dimensions. -/
def Alike (vs : List SlotVector) : Prop :=
  exists slots size, forall v, v ∈ vs -> v.HasDimensions slots size

theorem alike_cons_iff {v : SlotVector} {vs : List SlotVector} :
    Alike (v :: vs) ↔ forall w, w ∈ v :: vs -> w.HasDimensions v.slots v.size := by
  constructor
  · intro h
    rcases h with ⟨slots, size, hall⟩
    rcases hall v List.mem_cons_self with ⟨rfl, rfl, _⟩
    exact hall
  · intro h
    exact ⟨v.slots, v.size, h⟩

theorem Alike.perm {vs order : List SlotVector} (horder : order.Perm vs) (h : Alike vs) :
    Alike order := by
  rcases h with ⟨slots, size, hall⟩
  exact ⟨slots, size, fun v hv => hall v (horder.mem_iff.mp hv)⟩

theorem exists_xorAll_iff {vs : List SlotVector} :
    (exists sum, xorAll vs = .ok sum) ↔ Alike vs := by
  cases vs with
  | nil => exact ⟨fun _ => ⟨0, 0, List.forall_mem_nil _⟩, fun _ => ⟨_, rfl⟩⟩
  | cons v vs =>
      rw [alike_cons_iff]
      exact exists_foldlM_xor_iff (hasDimensions_zero v.slots v.size)

/-- Vectors add up to the same sum in any order, or in none. -/
theorem toOption_xorAll_of_perm {vs order : List SlotVector} (horder : order.Perm vs) :
    (xorAll order).toOption = (xorAll vs).toOption := by
  rcases Decidable.em (vs = []) with rfl | hne
  · rw [List.perm_nil.mp horder]
  by_cases halike : Alike vs
  · have hneOrder : order ≠ [] := fun hnil => hne (List.nil_perm.mp (hnil ▸ horder))
    rcases halike with ⟨slots, size, hall⟩
    rcases xorAll_eq_ok hne hall with ⟨sum, hsum, hdimensions, hmask⟩
    rcases xorAll_eq_ok hneOrder (fun v hv => hall v (horder.mem_iff.mp hv)) with
      ⟨other, hother, hotherDimensions, hotherMask⟩
    have hsame : other = sum := by
      apply eq_of_maskAt hotherDimensions hdimensions
      intro k
      rw [hotherMask, hmask, (horder.map _).sum_eq]
    rw [hsum, hother, hsame]
  · have hnone {us : List SlotVector} (h : ¬Alike us) : (xorAll us).toOption = none := by
      cases hsum : xorAll us with
      | error fault => rfl
      | ok sum => exact absurd (exists_xorAll_iff.mp ⟨sum, hsum⟩) h
    rw [hnone halike, hnone fun h => halike (h.perm horder.symm)]

/-- Octet `k` of the sum is the exclusive or of all octets `k`. -/
theorem octet_of_xorAll {vs : List SlotVector} {sum : SlotVector} (hsum : xorAll vs = .ok sum)
    (k : Nat) :
    sum.data.getD k 0 = (vs.map fun v => v.data.getD k 0).foldr (· ^^^ ·) 0 := by
  rcases Decidable.em (vs = []) with rfl | hne
  · cases hsum
    rfl
  · rcases exists_xorAll_iff.mp ⟨sum, hsum⟩ with ⟨slots, size, hall⟩
    rcases xorAll_eq_ok hne hall with ⟨other, hother, _, hmask⟩
    cases hother.symm.trans hsum
    have hoctet := congrArg Mask.octet (hmask k)
    rw [Mask.octet_sum, List.map_map] at hoctet
    exact hoctet

theorem dimensions_of_xorAll {v : SlotVector} {vs : List SlotVector} {sum : SlotVector}
    (hsum : xorAll (v :: vs) = .ok sum) : sum.HasDimensions v.slots v.size := by
  rcases xorAll_eq_ok (List.cons_ne_nil v vs)
    (alike_cons_iff.mp (exists_xorAll_iff.mp ⟨sum, hsum⟩)) with ⟨other, hother, hdimensions, _⟩
  cases hother.symm.trans hsum
  exact hdimensions

/-- Vectors add up, octet by octet, exactly when all of them have the dimensions of the
first one, and they do so in any order or in none.  One vector is taken into another
where that stands either with all its octets, and then leaves no trace when it is taken
in again, or not at all. -/
theorem sums_are_exact_and_atomic (vs : List SlotVector) (v w : SlotVector) :
    ((exists sum, xorAll vs = .ok sum) ↔ vs = [] ∨ exists first, vs.head? = some first ∧
      forall u, u ∈ vs -> u.HasDimensions first.slots first.size) ∧
    (forall sum, xorAll vs = .ok sum ->
      (forall first, vs.head? = some first -> sum.HasDimensions first.slots first.size) ∧
        (vs = [] -> sum = zero 0 0) ∧
          forall k, sum.data.getD k 0 = (vs.map fun u => u.data.getD k 0).foldr (· ^^^ ·) 0) ∧
    (forall order, order.Perm vs -> (xorAll order).toOption = (xorAll vs).toOption) ∧
    ((v.HasDimensions v.slots v.size ∧ w.HasDimensions v.slots v.size ∧
        exists sum, (xorInPlace w).run v = .ok () sum ∧ sum.HasDimensions v.slots v.size ∧
          (forall k, sum.data.getD k 0 = v.data.getD k 0 ^^^ w.data.getD k 0) ∧
            (xorInPlace w).run sum = .ok () v) ∨
      (¬(v.HasDimensions v.slots v.size ∧ w.HasDimensions v.slots v.size) ∧
        (xorInPlace w).run v = .error (.dimensions v.slots v.size w.slots w.size) v)) := by
  refine ⟨?_, ?_, fun _ => toOption_xorAll_of_perm, ?_⟩
  · rw [exists_xorAll_iff]
    cases vs with
    | nil => simp [Alike]
    | cons first vs => simp [alike_cons_iff]
  · intro sum hsum
    refine ⟨?_, ?_, octet_of_xorAll hsum⟩
    · intro first hfirst
      cases vs with
      | nil => cases hfirst
      | cons u vs =>
          cases hfirst
          exact dimensions_of_xorAll hsum
    · intro hnone
      subst hnone
      exact (Except.ok.inj hsum).symm
  · by_cases hboth : v.HasDimensions v.slots v.size ∧ w.HasDimensions v.slots v.size
    · rcases hboth with ⟨hv, hw⟩
      have hsum := hv.xor hw
      have hlength : v.data.length = w.data.length := hv.right.right.trans hw.right.right.symm
      refine .inl ⟨hv, hw, _, by rw [run_xorInPlace, xor_eq_ok hv hw], hsum, ?_, ?_⟩
      · intro k
        exact congrArg Mask.octet (Bytes.maskAt_xor hlength k)
      · rw [run_xorInPlace, xor_eq_ok hsum hw, xor_xor_cancel hv hw]
    · refine .inr ⟨hboth, ?_⟩
      rw [run_xorInPlace, xor_eq_error fun h => hboth ⟨h.right, h.left⟩]

/-- A vector that is too short for its dimensions is not taken in, not even as far as it
reaches. -/
theorem sums_are_exact_and_atomic_of_short_data :
    xorAll [⟨2, 1, [1, 2]⟩, ⟨2, 1, [4, 8]⟩] = .ok ⟨2, 1, [5, 10]⟩ ∧
      SlotVector.HasDimensions ⟨2, 1, [5, 10]⟩ 2 1 ∧
      [(⟨2, 1, [4, 8]⟩ : SlotVector), ⟨2, 1, [1, 2]⟩].Perm [⟨2, 1, [1, 2]⟩, ⟨2, 1, [4, 8]⟩] ∧
      (xorAll [⟨2, 1, [4, 8]⟩, ⟨2, 1, [1, 2]⟩]).toOption = some ⟨2, 1, [5, 10]⟩ ∧
      (xorInPlace ⟨2, 1, [4]⟩).run ⟨2, 1, [1, 2]⟩ =
        .error (.dimensions 2 1 2 1) ⟨2, 1, [1, 2]⟩ := by
  have hsum : xorAll [⟨2, 1, [1, 2]⟩, ⟨2, 1, [4, 8]⟩] = .ok ⟨2, 1, [5, 10]⟩ := by decide
  have hperm : [(⟨2, 1, [4, 8]⟩ : SlotVector), ⟨2, 1, [1, 2]⟩].Perm
      [⟨2, 1, [1, 2]⟩, ⟨2, 1, [4, 8]⟩] := by decide
  rcases sums_are_exact_and_atomic [⟨2, 1, [1, 2]⟩, ⟨2, 1, [4, 8]⟩] ⟨2, 1, [1, 2]⟩ ⟨2, 1, [4]⟩ with
    ⟨_, hexact, horder, hplace⟩
  refine ⟨hsum, (hexact _ hsum).left _ rfl, hperm, ?_, ?_⟩
  · rw [horder _ hperm, hsum]
    rfl
  · rcases hplace with ⟨_, hshort, _⟩ | ⟨_, hkept⟩
    · exact absurd hshort (by decide)
    · exact hkept

end SlotVector
end PeerMix
