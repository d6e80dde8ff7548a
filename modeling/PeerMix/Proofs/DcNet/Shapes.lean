import PeerMix.DcNet.Vectors
import PeerMix.Proofs.DcNet.Cancellation
import PeerMix.Proofs.DcNet.Overlay
import PeerMix.Proofs.DcNet.PadTables

/-!
# Shapes of what is published

The mixes index and pair up lists without checking them again.  Here the sizes
that a run has checked before carry through: pad keys, reservation vectors and
message vectors have the dimensions that the roster calls for, and no primitive
fails because of a size that only its caller determines.
-/

namespace PeerMix

/-- Failures that no input from outside may cause. -/
def PrimitiveError.isInternal : PrimitiveError -> Bool
  | .notInField => true
  | .dimensions _ _ _ _ => true
  | .messageLength _ _ => true
  | .slotRange _ _ => true
  | .peerCount (.noSecretFor _) => true
  | .peerCount (.publicKeys _ _) => true
  | .derivation => true
  | .indexRange => true
  | _ => false

/-!
## Encapsulation
-/

namespace HybridKey

theorem encapsulateEach_cases (keys : List Bytes) (r : Reader) :
    (exists fault, (encapsulateEach keys r).1 = .error fault ∧ fault.isInternal = false) ∨
      ((exists ciphertexts, (encapsulateEach keys r).1 = .ok ciphertexts) ∧
        (encapsulateEach keys r).2.1.length = keys.length) := by
  induction keys generalizing r with
  | nil => exact .inr ⟨⟨[], rfl⟩, rfl⟩
  | cons key keys ih =>
      rw [encapsulateEach]
      by_cases hkey : key.length ≠ Lattice.publicKeySize
      · rw [if_pos hkey]
        exact .inl ⟨_, rfl, rfl⟩
      · rw [if_neg hkey]
        dsimp only
        rcases ih (r.read 32).2 with ⟨fault, hfault, hexternal⟩ | ⟨⟨ciphertexts, hmade⟩, hlength⟩
        · rw [hfault]
          exact .inl ⟨fault, rfl, hexternal⟩
        · rw [hmade]
          refine .inr ⟨⟨_, rfl⟩, ?_⟩
          rw [List.length_cons, List.length_cons, hlength]

end HybridKey

namespace DcNet

/-!
## Pad keys
-/

section PadKeys

variable {scope : PadScope} {own : Nat} {key : HybridKey} {points ciphertexts : List Bytes}

theorem pairSecret_error {peer : Nat} {point ciphertext : Bytes} {fault : PrimitiveError}
    (h : pairSecret scope own key peer point ciphertext = .error fault)
    (hpeer : peer < key.sent.length) : fault.isInternal = false := by
  -- What is left to fail is the size of the ciphertext: `hpeer` has a secret ready.
  unfold pairSecret at h
  by_cases hown : peer = scope.my ∧ own = 1
  · rw [if_pos hown] at h
    cases h
  · rw [if_neg hown, HybridKey.combinedSecret] at h
    by_cases hlength : ciphertext.length ≠ Lattice.ciphertextSize
    · rw [if_pos hlength] at h
      cases h
      rfl
    · rw [if_neg hlength, List.getElem?_eq_getElem hpeer] at h
      cases h

/-- The secrets shared with all peers. -/
def pairSecrets (scope : PadScope) (own : Nat) (key : HybridKey) (points ciphertexts : List Bytes) :
    Except PrimitiveError (List Bytes) :=
  ((points.zip ciphertexts).zipIdx).mapM fun ((point, ciphertext), peer) =>
    pairSecret scope own key peer point ciphertext

theorem pairSecrets_cases (hsent : key.sent.length = scope.counts.length)
    (hpoints : points.length = scope.counts.length)
    (hciphertexts : ciphertexts.length = scope.counts.length) :
    (exists fault, pairSecrets scope own key points ciphertexts = .error fault ∧
      fault.isInternal = false) ∨
    exists secrets, pairSecrets scope own key points ciphertexts = .ok secrets ∧
      secrets.length = scope.counts.length := by
  cases hsecrets : pairSecrets scope own key points ciphertexts with
  | error fault =>
      rcases mapM_eq_error hsecrets with ⟨⟨⟨point, ciphertext⟩, peer⟩, hmem, hfault⟩
      have hget := List.mem_zipIdx_iff_getElem?.mp hmem
      rcases List.getElem?_zip_eq_some.mp hget with ⟨hpoint, _⟩
      rcases List.getElem?_eq_some_iff.mp hpoint with ⟨hpeer, _⟩
      rw [hpoints, ← hsent] at hpeer
      exact .inl ⟨fault, rfl, pairSecret_error hfault hpeer⟩
  | ok secrets =>
      refine .inr ⟨secrets, rfl, ?_⟩
      rw [length_of_mapM_eq_ok hsecrets, List.length_zipIdx, List.length_zip, hpoints,
        hciphertexts, Nat.min_self]

theorem padRows_eq_ok (scope : PadScope) (own : Nat) (secrets : List Bytes) :
    (List.range own).mapM (padRow scope secrets) = .ok (padRows scope own secrets) := by
  apply mapM_eq_ok
  intro i _hi
  exact padRow_eq_ok scope secrets i

/-- With a secret for every peer, pad keys fail only because of ciphertexts. -/
theorem padKeys_cases (hown : scope.counts[scope.my]? = some own) (hpos : 0 < own)
    (hsent : key.sent.length = scope.counts.length)
    (hpoints : points.length = scope.counts.length) :
    (exists fault, padKeys key points ciphertexts scope = .error fault ∧
      fault.isInternal = false) ∨
    exists rows, padKeys key points ciphertexts scope = .ok rows ∧ PadTable scope own rows := by
  unfold padKeys
  dsimp only
  rw [if_neg (not_not.mpr hpoints)]
  by_cases hciphertexts : ciphertexts.length ≠ scope.counts.length
  · rw [if_pos hciphertexts]
    exact .inl ⟨_, rfl, rfl⟩
  rw [if_neg hciphertexts, hown]
  cases own with
  | zero => cases hpos
  | succ own =>
      show (exists fault, (pairSecrets scope (own + 1) key points ciphertexts >>= fun secrets =>
          (List.range (own + 1)).mapM (padRow scope secrets)) = .error fault ∧ _) ∨
        exists rows, (pairSecrets scope (own + 1) key points ciphertexts >>= fun secrets =>
          (List.range (own + 1)).mapM (padRow scope secrets)) = .ok rows ∧ _
      rcases pairSecrets_cases hsent hpoints (not_not.mp hciphertexts) with
        ⟨fault, hfault, hexternal⟩ | ⟨secrets, hsecrets, hlength⟩
      · rw [hfault]
        exact .inl ⟨fault, rfl, hexternal⟩
      · rw [hsecrets]
        exact .inr ⟨_, padRows_eq_ok scope (own + 1) secrets, padTable_padRows hown hlength⟩

end PadKeys

/-!
## Published vectors
-/

section Vectors

variable {scope : PadScope} {own : Nat} {rows : List (List PadKey)}

/-- Every own message has a reservation vector with a field element for every
message. -/
theorem PadTable.reservationVectors (h : PadTable scope own rows) {reservations : List Nat}
    (hreservations : reservations.length = own) (start : Nat) :
    (reservationVectors start reservations rows).length = own ∧
      forall v, v ∈ DcNet.reservationVectors start reservations rows ->
        v.length = scope.total ∧ forall x, x ∈ v -> x < Field.prime := by
  constructor
  · rw [DcNet.reservationVectors, List.length_map, List.length_zipIdx, List.length_zip,
      hreservations, h.lengthRows, Nat.min_self]
  · intro v hv
    rcases List.mem_map.mp hv with ⟨⟨⟨m, row⟩, g⟩, hmem, rfl⟩
    have hrow : row ∈ rows := by
      have hzip := List.fst_mem_of_mem_zipIdx hmem
      exact (List.of_mem_zip hzip).right
    constructor
    · show (reservationMix m (reservationPads _ g)).length = _
      rw [length_reservationMix, reservationPads, length_reservationPadsOf, List.length_map,
        h.lengthRow row hrow]
    · intro x hx
      exact reservationMix_lt hx

theorem messagePad_of_dimensions {keys : List SlotVector} {size : Nat}
    (hkeys : forall key, key ∈ keys -> key.HasDimensions keys.length size) (my : Nat) :
    exists pad, messagePad keys size my = .ok pad ∧ pad.HasDimensions keys.length size := by
  have hothers : forall key, key ∈ (keys.zipIdx.filter fun x => x.2 ≠ my).map (·.1) ->
      key.HasDimensions keys.length size := by
    intro key hkey
    rcases List.mem_map.mp hkey with ⟨x, hx, rfl⟩
    exact hkeys _ (List.fst_mem_of_mem_zipIdx (List.mem_of_mem_filter hx))
  rcases SlotVector.foldlM_xor_eq_ok _ (SlotVector.hasDimensions_zero keys.length size) hothers with
    ⟨pad, hpad, hdimensions, _⟩
  exact ⟨pad, hpad, hdimensions⟩

/-- Messages of the right size in slots of the mix never fail to be published. -/
theorem PadTable.messageVectors (h : PadTable scope own rows) {messages : List Bytes}
    {slots : List Nat} (hmessages : messages.length = own) (hslots : slots.length = own)
    (hsizes : forall m, m ∈ messages -> m.length = scope.size)
    (hrange : forall slot, slot ∈ slots -> slot < scope.total) (start : Nat) :
    exists vectors, messageVectors scope.size start messages slots rows = .ok vectors ∧
      vectors.length = own ∧
        forall v, v ∈ vectors -> v.HasDimensions scope.total scope.size := by
  have hlength : ((messages.zip slots).zipIdx).length = own := by
    rw [List.length_zipIdx, List.length_zip, hmessages, hslots, Nat.min_self]
  rw [← hlength]
  apply exists_mapM_eq_ok
  rintro ⟨⟨message, slot⟩, i⟩ hmem
  have hget := List.mem_zipIdx_iff_getElem?.mp hmem
  rcases List.getElem?_zip_eq_some.mp hget with ⟨hmessage, hslot⟩
  rcases List.getElem?_eq_some_iff.mp hmessage with ⟨hi, _⟩
  have hirows : i < rows.length := by
    rw [h.lengthRows, ← hmessages]
    exact hi
  have hrow : rows[i] ∈ rows := List.getElem_mem hirows
  have hkeys : forall key, key ∈ rows[i].map (·.message) ->
      key.HasDimensions (rows[i].map (·.message)).length scope.size := by
    intro key hkey
    rcases List.mem_map.mp hkey with ⟨shared, hshared, rfl⟩
    rw [List.length_map, h.lengthRow _ hrow]
    exact (h.fits _ shared hrow hshared).message
  rcases messagePad_of_dimensions hkeys (start + i) with ⟨pad, hpad, hpadSize⟩
  rw [List.length_map, h.lengthRow _ hrow] at hpadSize
  rcases messageMix_eq_ok hpadSize (hsizes message (List.mem_of_getElem? hmessage))
    (hrange slot (List.mem_of_getElem? hslot)) with ⟨v, hv, hdimensions, _⟩
  refine ⟨v, ?_, hdimensions⟩
  dsimp only
  rw [List.getElem?_eq_getElem hirows]
  show (messagePad _ _ _ >>= fun pad => messageMix pad message slot) = _
  rw [hpad]
  exact hv

end Vectors

end DcNet
end PeerMix
