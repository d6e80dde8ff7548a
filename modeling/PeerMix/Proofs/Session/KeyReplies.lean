import PeerMix.Proofs.Round.PadAgreement
import PeerMix.Proofs.Session.Turns

/-!
# Key exchanges in an answer

What a peer reads in the key exchanges of an answer is a list of keys: a point and
an encapsulation key of each of them.  It asks for one of each peer in its roster
and for keys of the right sizes, and for nothing else.
-/

namespace PeerMix
namespace Session

open Wire DcNet

/-- The points and encapsulation keys of all key exchanges that are there. -/
def keysIn (m : KeyExchanges) : List (Bytes × Bytes) :=
  (m.kes.filterMap id).map fun ke => (ke.ecdh, ke.pqpk)

/-- There is one pair of keys for each peer, and all of them have the right size. -/
structure Complete (roster : Roster) (keys : List (Bytes × Bytes)) : Prop where
  count : keys.length = roster.peerCount
  points : forall key, key ∈ keys -> key.1.length = 32
  encapsulationKeys : forall key, key ∈ keys -> key.2.length = Lattice.publicKeySize

/-- Why keys are refused. -/
inductive Refusal (roster : Roster) (keys : List (Bytes × Bytes)) : MixFailure → Prop
  | count (h : keys.length ≠ roster.peerCount) :
      Refusal roster keys (.keyExchangeCount roster.peerCount keys.length)
  | point {key : Bytes × Bytes} (hkey : key ∈ keys) (h : key.1.length ≠ 32) :
      Refusal roster keys (.malformed (.pointLength key.1.length))
  | encapsulationKey {key : Bytes × Bytes} (hkey : key ∈ keys)
      (h : key.2.length ≠ Lattice.publicKeySize) :
      Refusal roster keys (.primitive (.keyLength Lattice.publicKeySize key.2.length))

/-!
## What a peer makes of keys
-/

def pointIn (key : Bytes × Bytes) : Except MixFailure Bytes :=
  if key.1.length = 32 then .ok key.1 else .error (.malformed (.pointLength key.1.length))

theorem pointIn_eq_ok {key : Bytes × Bytes} {point : Bytes} (h : pointIn key = .ok point) :
    key.1.length = 32 := by
  unfold pointIn at h
  by_cases hlength : key.1.length = 32
  · exact hlength
  · rw [if_neg hlength] at h
    cases h

theorem pointIn_eq_error {key : Bytes × Bytes} {f : MixFailure} (h : pointIn key = .error f) :
    key.1.length ≠ 32 ∧ f = .malformed (.pointLength key.1.length) := by
  unfold pointIn at h
  by_cases hlength : key.1.length = 32
  · rw [if_pos hlength] at h
    cases h
  · rw [if_neg hlength] at h
    cases h
    exact ⟨hlength, rfl⟩

def acceptKeysIn (s : RunSetting) (keys : List (Bytes × Bytes)) :
    Except MixFailure (List Bytes × List Bytes) :=
  if keys.length ≠ s.roster.peerCount then
    .error (.keyExchangeCount s.roster.peerCount keys.length)
  else
    (keys.mapM pointIn).map fun points => (points, keys.map (·.2))

theorem acceptKeys_eq (s : RunSetting) (m : KeyExchanges) :
    acceptKeys s m = acceptKeysIn s (keysIn m) := by
  unfold acceptKeys acceptKeysIn readPoints keysIn
  rw [List.mapM_map, List.map_map, List.length_map]
  rfl

/-- Keys are refused for their number or for a point; otherwise there is one pair for
each peer. -/
theorem acceptKeysIn_cases (s : RunSetting) (keys : List (Bytes × Bytes)) :
    (exists f, acceptKeysIn s keys = .error f ∧ Refusal s.roster keys f) ∨
    (keys.length = s.roster.peerCount ∧ (forall key, key ∈ keys -> key.1.length = 32) ∧
      exists points, acceptKeysIn s keys = .ok (points, keys.map (·.2))) := by
  unfold acceptKeysIn
  by_cases hcount : keys.length ≠ s.roster.peerCount
  · rw [if_pos hcount]
    exact .inl ⟨_, rfl, .count hcount⟩
  · rw [if_neg hcount]
    cases hpoints : keys.mapM pointIn with
    | error fault =>
        rcases mapM_eq_error hpoints with ⟨key, hkey, hpoint⟩
        rcases pointIn_eq_error hpoint with ⟨hlength, rfl⟩
        exact .inl ⟨_, rfl, .point hkey hlength⟩
    | ok points =>
        refine .inr ⟨Decidable.of_not_not hcount, ?_, points, rfl⟩
        intro key hkey
        rcases forall_of_mapM_eq_ok hpoints key hkey with ⟨point, hpoint⟩
        exact pointIn_eq_ok hpoint

section Accept

variable {s : RunSetting} {m : KeyExchanges} {points encapsulationKeys : List Bytes}

theorem refusal_of_acceptKeys {f : MixFailure} (h : acceptKeys s m = .error f) :
    Refusal s.roster (keysIn m) f := by
  rw [acceptKeys_eq] at h
  rcases acceptKeysIn_cases s (keysIn m) with ⟨other, hother, hrefusal⟩ | ⟨_, _, known, hknown⟩
  · cases hother.symm.trans h
    exact hrefusal
  · cases hknown.symm.trans h

theorem keysIn_of_acceptKeys (h : acceptKeys s m = .ok (points, encapsulationKeys)) :
    (keysIn m).length = s.roster.peerCount ∧
      (forall key, key ∈ keysIn m -> key.1.length = 32) ∧
        encapsulationKeys = (keysIn m).map (·.2) := by
  rw [acceptKeys_eq] at h
  rcases acceptKeysIn_cases s (keysIn m) with ⟨other, hother, _⟩ | ⟨hcount, hpoints, known, hknown⟩
  · cases hother.symm.trans h
  · cases hknown.symm.trans h
    exact ⟨hcount, hpoints, rfl⟩

theorem refusal_of_encapsulated {keys : RunKeys} {fault : PrimitiveError}
    (haccept : acceptKeys s m = .ok (points, encapsulationKeys))
    (h : (encapsulated keys encapsulationKeys).1 = .error fault) :
    Refusal s.roster (keysIn m) (.primitive fault) := by
  rcases keysIn_of_acceptKeys haccept with ⟨_, _, rfl⟩
  rcases HybridKey.encapsulateEach_eq_error h with ⟨_, hmem, hlength, rfl⟩
  rcases List.mem_map.mp hmem with ⟨key, hkey, rfl⟩
  exact .encapsulationKey hkey hlength

theorem complete_of_encapsulated {keys : RunKeys} {ciphertexts : List Bytes}
    (haccept : acceptKeys s m = .ok (points, encapsulationKeys))
    (h : (encapsulated keys encapsulationKeys).1 = .ok ciphertexts) :
    Complete s.roster (keysIn m) := by
  rcases keysIn_of_acceptKeys haccept with ⟨hcount, hpoints, rfl⟩
  refine ⟨hcount, hpoints, ?_⟩
  intro key hkey
  exact HybridKey.keys_sizes_of_encapsulateEach h key.2 (List.mem_map_of_mem hkey)

end Accept

end Session
end PeerMix
