import PeerMix.DcNet.PadKeys
import PeerMix.Proofs.Counts.Numbering
import PeerMix.Proofs.Traversals

/-!
# Tables of pad keys

A peer computes its pad keys in a loop over its own messages, the peers and
their messages.  This module says in closed form what the loop leaves at which
place, and that both ends of a pair of messages take the same key from a common
secret.
-/

namespace PeerMix
namespace DcNet

/-!
## Both ends take the same roles
-/

/-- Two different messages agree on who selects the seed and who the stream. -/
theorem roles_comm {p q i j : Nat} (h : p ≠ q ∨ i ≠ j) : roles p q i j = roles q p j i := by
  unfold roles
  by_cases hlower : q < p ∨ (p = q ∧ i < j)
  · have hother : ¬(p < q ∨ (q = p ∧ j < i)) := by omega
    rw [if_pos hlower, if_neg hother]
  · have hother : p < q ∨ (q = p ∧ j < i) := by omega
    rw [if_neg hlower, if_pos hother]

theorem padStream_comm (run : UInt32) {p q i j : Nat} (h : p ≠ q ∨ i ≠ j) :
    padStream run p q i j = padStream run q p j i := by
  unfold padStream
  rw [roles_comm h]

/-!
## Single keys
-/

/-- The seed that a secret is expanded to. -/
def padSeed (secret info : Bytes) : Bytes :=
  (Hkdf.outputBlocks secret info 1 1 []).take 32

/-- The key of own message `i` with message `j` of `peer`. -/
def sharedKey (scope : PadScope) (secret : Bytes) (peer i j : Nat) : PadKey :=
  if scope.my = peer ∧ i = j then scope.ownKey
  else
    readPadKey scope (padSeed secret (padStream scope.run scope.my peer i j).1)
      (padStream scope.run scope.my peer i j).2

theorem padKey_eq_ok (scope : PadScope) (secret : Bytes) (peer i j : Nat) :
    padKey scope secret peer i j = .ok (sharedKey scope secret peer i j) := by
  unfold padKey sharedKey
  by_cases hown : scope.my = peer ∧ i = j
  · rw [if_pos hown, if_pos hown]
  · rw [if_neg hown, if_neg hown]
    rfl

/-- The key has the sizes that both mixes expect. -/
structure PadKey.Fits (key : PadKey) (slots size : Nat) : Prop where
  reservation : key.reservation.length = 32
  message : key.message.HasDimensions slots size

theorem ownKey_fits (scope : PadScope) : scope.ownKey.Fits scope.total scope.size :=
  ⟨List.length_replicate, rfl, rfl, List.length_replicate⟩

theorem readPadKey_fits (scope : PadScope) (seed : Bytes) (nonce : UInt32) :
    (readPadKey scope seed nonce).Fits scope.total scope.size := by
  constructor
  · simp only [readPadKey, Reader.length_read]
  · simp only [readPadKey, SlotVector.HasDimensions, Reader.length_read, and_self]

theorem sharedKey_fits (scope : PadScope) (secret : Bytes) (peer i j : Nat) :
    (sharedKey scope secret peer i j).Fits scope.total scope.size := by
  unfold sharedKey
  split
  · exact ownKey_fits scope
  · exact readPadKey_fits _ _ _

theorem sharedKey_own (scope : PadScope) (secret : Bytes) (i : Nat) :
    sharedKey scope secret scope.my i i = scope.ownKey := by
  rw [sharedKey, if_pos ⟨rfl, rfl⟩]

/-- Peers `p` and `q` with one secret find one key for a pair of messages. -/
theorem sharedKey_comm (scope : PadScope) (secret : Bytes) {p q i j : Nat}
    (h : p ≠ q ∨ i ≠ j) :
    sharedKey { scope with my := p } secret q i j =
      sharedKey { scope with my := q } secret p j i := by
  have hpq : ¬(p = q ∧ i = j) := by omega
  have hqp : ¬(q = p ∧ j = i) := by omega
  unfold sharedKey
  rw [if_neg hpq, if_neg hqp, padStream_comm scope.run h]
  rfl

/-!
## Rows
-/

/-- The keys of own message `i` with the messages of each peer. -/
def sharedParts (scope : PadScope) (secrets : List Bytes) (i : Nat) : List (List PadKey) :=
  ((secrets.zip scope.counts).zipIdx).map fun ((secret, count), peer) =>
    (List.range count).map fun j => sharedKey scope secret peer i j

theorem padRow_eq_ok (scope : PadScope) (secrets : List Bytes) (i : Nat) :
    padRow scope secrets i = .ok (sharedParts scope secrets i).flatten := by
  have hparts : ((secrets.zip scope.counts).zipIdx).mapM (fun ((secret, count), peer) =>
      (List.range count).mapM fun j => padKey scope secret peer i j) =
        .ok (sharedParts scope secrets i) := by
    apply mapM_eq_ok
    intro x _hx
    apply mapM_eq_ok
    intro j _hj
    exact padKey_eq_ok scope _ _ i j
  rw [padRow, hparts]
  rfl

theorem getElem?_sharedParts (scope : PadScope) {secrets : List Bytes} (i : Nat) {q count : Nat}
    {secret : Bytes} (hsecret : secrets[q]? = some secret) (hcount : scope.counts[q]? = some count) :
    (sharedParts scope secrets i)[q]? =
      some ((List.range count).map fun j => sharedKey scope secret q i j) := by
  have hzip : (secrets.zip scope.counts)[q]? = some (secret, count) := by
    rw [List.getElem?_zip_eq_some]
    exact ⟨hsecret, hcount⟩
  rw [sharedParts, List.getElem?_map, List.getElem?_zipIdx, hzip, Nat.zero_add]
  rfl

theorem map_length_sharedParts (scope : PadScope) {secrets : List Bytes} (i : Nat)
    (hsecrets : secrets.length = scope.counts.length) :
    (sharedParts scope secrets i).map List.length = scope.counts := by
  apply List.ext_getElem?
  intro q
  cases hcount : scope.counts[q]? with
  | none =>
      have hlong : scope.counts.length ≤ q := List.getElem?_eq_none_iff.mp hcount
      rw [List.getElem?_eq_none_iff, List.length_map, sharedParts, List.length_map,
        List.length_zipIdx, List.length_zip]
      omega
  | some count =>
      rcases List.getElem?_eq_some_iff.mp hcount with ⟨hq, _⟩
      have hsecret : secrets[q]? = some secrets[q] := List.getElem?_eq_getElem (by omega)
      rw [List.getElem?_map, getElem?_sharedParts scope i hsecret hcount]
      simp

/-- In a row of keys, the key with message `j` of peer `q` stands at the global
index of that message. -/
theorem getElem?_flatten_sharedParts (scope : PadScope) {secrets : List Bytes} (i : Nat)
    (hsecrets : secrets.length = scope.counts.length) {q j count : Nat} {secret : Bytes}
    (hsecret : secrets[q]? = some secret) (hcount : scope.counts[q]? = some count)
    (hj : j < count) :
    (sharedParts scope secrets i).flatten[Counts.start scope.counts q + j]? =
      some (sharedKey scope secret q i j) := by
  have hpart := getElem?_sharedParts scope i hsecret hcount
  have hstart := Counts.getElem?_flatten_start hpart (i := j) (by simpa using hj)
  rw [map_length_sharedParts scope i hsecrets] at hstart
  rw [hstart]
  simp [hj]

theorem length_flatten_sharedParts (scope : PadScope) {secrets : List Bytes} (i : Nat)
    (hsecrets : secrets.length = scope.counts.length) :
    (sharedParts scope secrets i).flatten.length = scope.total := by
  rw [Counts.length_flatten, map_length_sharedParts scope i hsecrets]
  rfl

theorem fits_of_mem_sharedParts (scope : PadScope) (secrets : List Bytes) (i : Nat) {key : PadKey}
    (hkey : key ∈ (sharedParts scope secrets i).flatten) :
    key.Fits scope.total scope.size := by
  rcases List.mem_flatten.mp hkey with ⟨part, hpart, hmem⟩
  rcases List.mem_map.mp hpart with ⟨x, _hx, rfl⟩
  rcases List.mem_map.mp hmem with ⟨j, _hj, rfl⟩
  exact sharedKey_fits scope _ _ _ _

/-!
## Tables
-/

/-- The key of own message `i` with the message at global index `h`. -/
def padAt (rows : List (List PadKey)) (i h : Nat) : Option PadKey :=
  rows[i]?.bind fun row => row[h]?

/-- Rows of keys as a peer needs them: one for each own message, with a key for
every message that fits; the own place holds zeros, and own messages agree on
their keys. -/
structure PadTable (scope : PadScope) (own : Nat) (rows : List (List PadKey)) : Prop where
  lengthRows : rows.length = own
  lengthRow : forall row, row ∈ rows -> row.length = scope.total
  fits : forall row key, row ∈ rows -> key ∈ row -> key.Fits scope.total scope.size
  ownPlace : forall i, i < own ->
    padAt rows i (Counts.start scope.counts scope.my + i) =
      some { reservation := Bytes.zeros 32, message := SlotVector.zero scope.total scope.size }
  ownPair : forall i j, i < own -> j < own -> i ≠ j ->
    exists key, padAt rows i (Counts.start scope.counts scope.my + j) = some key ∧
      padAt rows j (Counts.start scope.counts scope.my + i) = some key

/-- The rows that the secrets shared with all peers give. -/
def padRows (scope : PadScope) (own : Nat) (secrets : List Bytes) : List (List PadKey) :=
  (List.range own).map fun i => (sharedParts scope secrets i).flatten

theorem padAt_padRows {scope : PadScope} {own : Nat} {secrets : List Bytes}
    (hsecrets : secrets.length = scope.counts.length) {i q j count : Nat} {secret : Bytes}
    (hi : i < own) (hsecret : secrets[q]? = some secret) (hcount : scope.counts[q]? = some count)
    (hj : j < count) :
    padAt (padRows scope own secrets) i (Counts.start scope.counts q + j) =
      some (sharedKey scope secret q i j) := by
  have hrow : (List.range own)[i]? = some i := by
    rw [List.getElem?_range hi]
  rw [padAt, padRows, List.getElem?_map, hrow]
  exact getElem?_flatten_sharedParts scope i hsecrets hsecret hcount hj

theorem padTable_padRows {scope : PadScope} {own : Nat} {secrets : List Bytes}
    (hown : scope.counts[scope.my]? = some own)
    (hsecrets : secrets.length = scope.counts.length) :
    PadTable scope own (padRows scope own secrets) := by
  rcases List.getElem?_eq_some_iff.mp hown with ⟨hmy, _⟩
  have hlt : scope.my < secrets.length := by
    rw [hsecrets]
    exact hmy
  have hsecret := List.getElem?_eq_getElem hlt
  constructor
  case lengthRows => rw [padRows, List.length_map, List.length_range]
  case lengthRow =>
    intro row hrow
    rcases List.mem_map.mp hrow with ⟨i, _hi, rfl⟩
    exact length_flatten_sharedParts scope i hsecrets
  case fits =>
    intro row key hrow hkey
    rcases List.mem_map.mp hrow with ⟨i, _hi, rfl⟩
    exact fits_of_mem_sharedParts scope _ i hkey
  case ownPlace =>
    intro i hi
    rw [padAt_padRows hsecrets hi hsecret hown hi, sharedKey_own]
    rfl
  case ownPair =>
    intro i j hi hj hij
    refine ⟨_, padAt_padRows hsecrets hi hsecret hown hj, ?_⟩
    rw [padAt_padRows hsecrets hj hsecret hown hi]
    exact congrArg some (sharedKey_comm scope _ (Or.inr hij.symm))

/-!
## All keys of a peer
-/

/-- The extracted secret shared with `peer`. -/
def extractedSecret (scope : PadScope) (own : Nat) (key : HybridKey) (peer : Nat)
    (point ciphertext : Bytes) : Bytes :=
  if peer = scope.my ∧ own = 1 then []
  else
    let shared := (X25519.agree key.scalar point).xor (key.kem.decapsulate ciphertext)
    Hkdf.extract scope.sid
      (if peer = scope.my then shared else shared.xor (key.sent.getD peer []))

theorem pairSecret_eq_ok (scope : PadScope) (own : Nat) {key : HybridKey} {peer : Nat}
    (point : Bytes) {ciphertext : Bytes} (hpeer : peer < key.sent.length)
    (hciphertext : ciphertext.length = Lattice.ciphertextSize) :
    pairSecret scope own key peer point ciphertext =
      .ok (extractedSecret scope own key peer point ciphertext) := by
  unfold pairSecret extractedSecret
  by_cases hown : peer = scope.my ∧ own = 1
  · rw [if_pos hown, if_pos hown]
  · have hsent : key.sent[peer]? = some key.sent[peer] := List.getElem?_eq_getElem hpeer
    rw [if_neg hown, if_neg hown, HybridKey.combinedSecret, if_neg (by simp [hciphertext]), hsent,
      List.getD_eq_getElem?_getD, hsent]
    rfl

def extractedSecrets (scope : PadScope) (own : Nat) (key : HybridKey)
    (points ciphertexts : List Bytes) : List Bytes :=
  ((points.zip ciphertexts).zipIdx).map fun ((point, ciphertext), peer) =>
    extractedSecret scope own key peer point ciphertext

/-- What `padKeys` needs of the lists that it gets. -/
structure Supplied (scope : PadScope) (own : Nat) (key : HybridKey)
    (points ciphertexts : List Bytes) : Prop where
  ownCount : scope.counts[scope.my]? = some own
  lengthSent : key.sent.length = scope.counts.length
  lengthPoints : points.length = scope.counts.length
  lengthCiphertexts : ciphertexts.length = scope.counts.length
  sizes : forall ciphertext, ciphertext ∈ ciphertexts ->
    ciphertext.length = Lattice.ciphertextSize

section Supplied

variable {scope : PadScope} {own : Nat} {key : HybridKey} {points ciphertexts : List Bytes}

theorem Supplied.length_extractedSecrets (h : Supplied scope own key points ciphertexts) :
    (extractedSecrets scope own key points ciphertexts).length = scope.counts.length := by
  rw [extractedSecrets, List.length_map, List.length_zipIdx, List.length_zip, h.lengthPoints,
    h.lengthCiphertexts, Nat.min_self]

theorem getElem?_extractedSecrets {q : Nat} {point ciphertext : Bytes}
    (hpoint : points[q]? = some point) (hciphertext : ciphertexts[q]? = some ciphertext) :
    (extractedSecrets scope own key points ciphertexts)[q]? =
      some (extractedSecret scope own key q point ciphertext) := by
  have hzip : (points.zip ciphertexts)[q]? = some (point, ciphertext) := by
    rw [List.getElem?_zip_eq_some]
    exact ⟨hpoint, hciphertext⟩
  rw [extractedSecrets, List.getElem?_map, List.getElem?_zipIdx, hzip, Nat.zero_add]
  rfl

theorem Supplied.padKeys_eq_ok (h : Supplied scope own key points ciphertexts) :
    padKeys key points ciphertexts scope =
      .ok ((List.range own).map fun i =>
        (sharedParts scope (extractedSecrets scope own key points ciphertexts) i).flatten) := by
  have hsecrets : ((points.zip ciphertexts).zipIdx).mapM
      (fun ((point, ciphertext), peer) => pairSecret scope own key peer point ciphertext) =
        .ok (extractedSecrets scope own key points ciphertexts) := by
    apply mapM_eq_ok
    intro x hx
    rcases x with ⟨⟨point, ciphertext⟩, peer⟩
    have hget := List.mem_zipIdx_iff_getElem?.mp hx
    rcases List.getElem?_zip_eq_some.mp hget with ⟨hpoint, hciphertext⟩
    rcases List.getElem?_eq_some_iff.mp hpoint with ⟨hpeer, _⟩
    apply pairSecret_eq_ok scope own point
    · have hpoints := h.lengthPoints
      have hsent := h.lengthSent
      omega
    · exact h.sizes ciphertext (List.mem_of_getElem? hciphertext)
  have hrows : (List.range own).mapM (padRow scope
      (extractedSecrets scope own key points ciphertexts)) =
        .ok ((List.range own).map fun i =>
          (sharedParts scope (extractedSecrets scope own key points ciphertexts) i).flatten) := by
    apply mapM_eq_ok
    intro i _hi
    exact padRow_eq_ok scope _ i
  unfold padKeys
  simp only [h.lengthPoints, h.lengthCiphertexts, h.ownCount, ne_eq, not_true_eq_false, if_false]
  cases own with
  | zero => rfl
  | succ own =>
      show (do
        let secrets ← ((points.zip ciphertexts).zipIdx).mapM
          fun ((point, ciphertext), peer) =>
            pairSecret scope (own + 1) key peer point ciphertext
        (List.range (own + 1)).mapM fun i => padRow scope secrets i) = _
      rw [hsecrets]
      exact hrows

theorem Supplied.padAt_eq (h : Supplied scope own key points ciphertexts) {i q j count : Nat}
    {point ciphertext : Bytes} (hi : i < own) (hpoint : points[q]? = some point)
    (hciphertext : ciphertexts[q]? = some ciphertext) (hcount : scope.counts[q]? = some count)
    (hj : j < count) :
    padAt ((List.range own).map fun i =>
        (sharedParts scope (extractedSecrets scope own key points ciphertexts) i).flatten)
      i (Counts.start scope.counts q + j) =
        some (sharedKey scope (extractedSecret scope own key q point ciphertext) q i j) :=
  padAt_padRows h.length_extractedSecrets hi (getElem?_extractedSecrets hpoint hciphertext) hcount hj

theorem Supplied.padTable (h : Supplied scope own key points ciphertexts) :
    PadTable scope own ((List.range own).map fun i =>
      (sharedParts scope (extractedSecrets scope own key points ciphertexts) i).flatten) :=
  padTable_padRows h.ownCount h.length_extractedSecrets

end Supplied

end DcNet
end PeerMix
