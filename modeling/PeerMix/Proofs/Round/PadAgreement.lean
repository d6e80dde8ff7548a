import PeerMix.Proofs.DcNet.PadTables
import PeerMix.Proofs.Lattice.BlankKey
import PeerMix.Round

/-!
# Agreement on pad keys

The two ends of a pair of messages compute the key that they share from two
loops over different lists.  Peers that have encapsulated to each other supply
what these loops need, and both ends find the same key.
-/

namespace PeerMix

theorem Bytes.xor_right_comm (x y z : Bytes) : (x.xor y).xor z = (x.xor z).xor y := by
  induction x generalizing y z with
  | nil => rfl
  | cons a x ih =>
      cases y with
      | nil => cases z <;> rfl
      | cons b y =>
          cases z with
          | nil => rfl
          | cons c z =>
              have hhead : a ^^^ b ^^^ c = a ^^^ c ^^^ b := by
                rw [UInt8.xor_assoc, UInt8.xor_comm b c, ← UInt8.xor_assoc]
              show (a ^^^ b ^^^ c) :: (xor (xor x y) z) = (a ^^^ c ^^^ b) :: (xor (xor x z) y)
              rw [hhead, ih y z]

/-!
## Parties that have encapsulated to each other
-/

namespace HybridKey

theorem encapsulateEach_cons {key : Bytes} (keys : List Bytes) (r : Reader)
    (hkey : key.length = Lattice.publicKeySize) :
    encapsulateEach (key :: keys) r =
      let made := (Lattice.PublicKey.ofBytes key).encapsulate (r.read 32).1
      let more := encapsulateEach keys (r.read 32).2
      (more.1.map (made.1 :: ·), made.2 :: more.2.1, more.2.2) := by
  rw [encapsulateEach, if_neg (by simp [hkey])]

theorem length_encapsulate {key randomness : Bytes} (hkey : key.length = Lattice.publicKeySize)
    (hrandomness : randomness.length = 32) :
    ((Lattice.PublicKey.ofBytes key).encapsulate randomness).1.length =
      Lattice.ciphertextSize := by
  exact Lattice.PublicKey.length_encrypt (Lattice.PublicKey.fullVector_ofBytes hkey)
    randomness _ hrandomness

/-- Encapsulating to keys of the right size gives a ciphertext of the right size
and a secret for each of them. -/
theorem encapsulateEach_eq_ok (keys : List Bytes) (r : Reader)
    (hkeys : forall key, key ∈ keys -> key.length = Lattice.publicKeySize) :
    exists ciphertexts, (encapsulateEach keys r).1 = .ok ciphertexts ∧
      ciphertexts.length = keys.length ∧ (encapsulateEach keys r).2.1.length = keys.length ∧
      forall ciphertext, ciphertext ∈ ciphertexts ->
        ciphertext.length = Lattice.ciphertextSize := by
  induction keys generalizing r with
  | nil => exact ⟨[], rfl, rfl, rfl, by simp⟩
  | cons key keys ih =>
      have hkey := hkeys key List.mem_cons_self
      rcases ih (r.read 32).2 fun other hother => hkeys other (List.mem_cons_of_mem key hother)
        with ⟨ciphertexts, hmade, hlength, hsent, hsizes⟩
      rw [encapsulateEach_cons keys r hkey]
      dsimp only
      refine ⟨_ :: ciphertexts, by rw [hmade]; rfl, ?_, ?_, ?_⟩
      · rw [List.length_cons, List.length_cons, hlength]
      · rw [List.length_cons, List.length_cons, hsent]
      · intro ciphertext hmem
        rcases List.mem_cons.mp hmem with rfl | hmem
        · exact length_encapsulate hkey (Reader.length_read 32 r)
        · exact hsizes ciphertext hmem

/-- Encapsulation fails with the first key of a wrong size. -/
theorem keys_sizes_of_encapsulateEach {keys : List Bytes} {r : Reader} {ciphertexts : List Bytes}
    (h : (encapsulateEach keys r).1 = .ok ciphertexts) :
    forall key, key ∈ keys -> key.length = Lattice.publicKeySize := by
  induction keys generalizing r ciphertexts with
  | nil => simp
  | cons key keys ih =>
      by_cases hkey : key.length = Lattice.publicKeySize
      · rw [encapsulateEach_cons keys r hkey] at h
        dsimp only at h
        intro other hother
        rcases List.mem_cons.mp hother with rfl | hother
        · exact hkey
        · cases hmore : (encapsulateEach keys (r.read 32).2).1 with
          | error fault =>
              rw [hmore] at h
              cases h
          | ok more => exact ih hmore other hother
      · rw [encapsulateEach, if_pos hkey] at h
        cases h

theorem encapsulateEach_eq_error {keys : List Bytes} {r : Reader} {fault : PrimitiveError}
    (h : (encapsulateEach keys r).1 = .error fault) :
    exists key, key ∈ keys ∧ key.length ≠ Lattice.publicKeySize ∧
      fault = .keyLength Lattice.publicKeySize key.length := by
  induction keys generalizing r with
  | nil => cases h
  | cons key keys ih =>
      by_cases hkey : key.length = Lattice.publicKeySize
      · rw [encapsulateEach_cons keys r hkey] at h
        dsimp only at h
        cases hmore : (encapsulateEach keys (r.read 32).2).1 with
        | error other =>
            rw [hmore] at h
            cases h
            rcases ih hmore with ⟨bad, hbad, hfault⟩
            exact ⟨bad, List.mem_cons_of_mem key hbad, hfault⟩
        | ok more =>
            rw [hmore] at h
            cases h
      · rw [encapsulateEach, if_pos hkey] at h
        cases h
        exact ⟨key, List.mem_cons_self, hkey, rfl⟩

end HybridKey

namespace Round

open DcNet

def encapsulationKeys (parties : List Party) : List Bytes :=
  parties.map fun party => party.key.encapsulationKey

/-- The party has encapsulated to these keys, from whatever stream. -/
def Party.HasEncapsulated (party : Party) (keys : List Bytes) : Prop :=
  exists key r rest, HybridKey.encapsulate key r keys = (.ok party.ciphertexts, party.key, rest)

theorem Party.HasEncapsulated.sizes {party : Party} {keys : List Bytes}
    (h : party.HasEncapsulated keys) :
    party.ciphertexts.length = keys.length ∧ party.key.sent.length = keys.length ∧
      forall ciphertext, ciphertext ∈ party.ciphertexts ->
        ciphertext.length = Lattice.ciphertextSize := by
  rcases h with ⟨key, r, rest, hmade⟩
  have hciphertexts : (HybridKey.encapsulateEach keys r).1 = .ok party.ciphertexts :=
    congrArg Prod.fst hmade
  have hsent : (HybridKey.encapsulateEach keys r).2.1 = party.key.sent :=
    congrArg (fun made => made.2.1.sent) hmade
  rcases HybridKey.encapsulateEach_eq_ok keys r
    (HybridKey.keys_sizes_of_encapsulateEach hciphertexts) with ⟨ciphertexts, hok, hsizes⟩
  cases hciphertexts.symm.trans hok
  rw [← hsent]
  exact hsizes

/-- What peer `p` needs to derive its pad keys, given the numbers of messages. -/
def scopeOf (parties : List Party) (sid : Bytes) (run : UInt32) (size p : Nat) : PadScope :=
  { sid, run, size, my := p, counts := counts parties }

/-- Two peers find the same secret on the curve. -/
def AgreeOnPoints (a b : Party) : Prop :=
  X25519.agree a.key.scalar b.key.point = X25519.agree b.key.scalar a.key.point

/-- Peer `a` at index `p` recovers the secret that `b` has encapsulated to it. -/
def Recovers (a b : Party) (p : Nat) : Prop :=
  a.key.kem.decapsulate (b.ciphertexts.getD p []) = b.key.sent.getD p []

theorem getElem?_points {parties : List Party} {p : Nat} {party : Party}
    (hp : parties[p]? = some party) : (points parties)[p]? = some party.key.point := by
  rw [points, List.getElem?_map, hp]
  rfl

theorem getElem?_ciphertextsFor {parties : List Party} {q : Nat} {sender : Party} (p : Nat)
    (hq : parties[q]? = some sender) :
    (ciphertextsFor parties p)[q]? = some (sender.ciphertexts.getD p []) := by
  rw [ciphertextsFor, List.getElem?_map, hq]
  rfl

theorem getElem?_counts {parties : List Party} {p : Nat} {party : Party}
    (hp : parties[p]? = some party) : (counts parties)[p]? = some party.count := by
  rw [counts, List.getElem?_map, hp]
  rfl

theorem supplied_of_hasEncapsulated {parties : List Party}
    (hparties : forall party, party ∈ parties -> party.HasEncapsulated (encapsulationKeys parties))
    (sid : Bytes) (run : UInt32) (size : Nat) {p : Nat} {party : Party}
    (hp : parties[p]? = some party) (point : Bytes) {ciphertext : Bytes}
    (hciphertext : ciphertext.length = Lattice.ciphertextSize) :
    Supplied (scopeOf parties sid run size p) party.count party.key
      ((points parties).set p point) ((ciphertextsFor parties p).set p ciphertext) := by
  have hlength : (encapsulationKeys parties).length = parties.length := List.length_map _
  rcases List.getElem?_eq_some_iff.mp hp with ⟨hlt, _⟩
  constructor
  case ownCount => exact getElem?_counts hp
  case lengthSent =>
    rw [(hparties party (List.mem_of_getElem? hp)).sizes.right.left, hlength]
    simp [scopeOf, counts]
  case lengthPoints => simp [scopeOf, counts, points]
  case lengthCiphertexts => simp [scopeOf, counts, ciphertextsFor]
  case sizes =>
    intro other hother
    rcases List.mem_or_eq_of_mem_set hother with hmem | rfl
    · rcases List.mem_map.mp hmem with ⟨sender, hsender, rfl⟩
      have hsizes := (hparties sender hsender).sizes
      have hin : p < sender.ciphertexts.length := by omega
      rw [List.getD_eq_getElem?_getD, List.getElem?_eq_getElem hin]
      exact hsizes.right.right _ (List.getElem_mem hin)
    · exact hciphertext

theorem set_eq_self {α : Type} {xs : List α} {p : Nat} {x : α} (h : xs[p]? = some x) :
    xs.set p x = xs := by
  rcases List.getElem?_eq_some_iff.mp h with ⟨hp, rfl⟩
  exact List.set_getElem_self hp

/-- Honest peers supply each other with what the pad keys need. -/
theorem honestly_supplied {parties : List Party}
    (hparties : forall party, party ∈ parties -> party.HasEncapsulated (encapsulationKeys parties))
    (sid : Bytes) (run : UInt32) (size : Nat) {p : Nat} {party : Party}
    (hp : parties[p]? = some party) :
    Supplied (scopeOf parties sid run size p) party.count party.key
      (points parties) (ciphertextsFor parties p) := by
  have hsizes := (hparties party (List.mem_of_getElem? hp)).sizes
  rcases List.getElem?_eq_some_iff.mp hp with ⟨hlt, _⟩
  have hin : p < party.ciphertexts.length := by
    rw [hsizes.left, encapsulationKeys, List.length_map]
    exact hlt
  have hown : (party.ciphertexts.getD p []).length = Lattice.ciphertextSize := by
    rw [List.getD_eq_getElem?_getD, List.getElem?_eq_getElem hin]
    exact hsizes.right.right _ (List.getElem_mem hin)
  have hsupplied := supplied_of_hasEncapsulated hparties sid run size hp party.key.point hown
  rw [set_eq_self (getElem?_points hp), set_eq_self (getElem?_ciphertextsFor p hp)] at hsupplied
  exact hsupplied

/-- Both encapsulated secrets enter the secret of two peers, in either order. -/
theorem extractedSecret_comm {parties : List Party} {sid : Bytes} {run : UInt32} {size p q : Nat}
    {a b : Party} (hpq : p ≠ q) (hpoints : AgreeOnPoints a b) (ha : Recovers a b p)
    (hb : Recovers b a q) :
    extractedSecret (scopeOf parties sid run size p) a.count a.key q b.key.point
        (b.ciphertexts.getD p []) =
      extractedSecret (scopeOf parties sid run size q) b.count b.key p a.key.point
        (a.ciphertexts.getD q []) := by
  have hqp : ¬q = p := Ne.symm hpq
  unfold extractedSecret scopeOf
  simp only [hpq, hqp, false_and, if_false]
  rw [ha, hb, hpoints, Bytes.xor_right_comm]

/-!
## The tables of all peers
-/

section Tables

variable (parties : List Party) (sid : Bytes) (run : UInt32) (size : Nat)

/-- The keys that peer `p` derives for its messages. -/
def tableOf (p : Nat) (party : Party) : List (List PadKey) :=
  let secrets := extractedSecrets (scopeOf parties sid run size p) party.count party.key
    (points parties) (ciphertextsFor parties p)
  (List.range party.count).map fun i =>
    (sharedParts (scopeOf parties sid run size p) secrets i).flatten

variable {parties}

section Honest

variable (hparties : forall party, party ∈ parties ->
  party.HasEncapsulated (encapsulationKeys parties))
include hparties

theorem rowsOf_eq_ok {p : Nat} {party : Party} (hp : parties[p]? = some party) :
    rowsOf parties sid run size p party = .ok (tableOf parties sid run size p party) :=
  (honestly_supplied hparties sid run size hp).padKeys_eq_ok

theorem padTable_tableOf {p : Nat} {party : Party} (hp : parties[p]? = some party) :
    PadTable (scopeOf parties sid run size p) party.count
      (tableOf parties sid run size p party) :=
  (honestly_supplied hparties sid run size hp).padTable

/-- Both ends of a pair of messages of different peers hold the same key. -/
theorem tableOf_agree {p q : Nat} {a b : Party} (hpq : p ≠ q) (hp : parties[p]? = some a)
    (hq : parties[q]? = some b) (hpoints : AgreeOnPoints a b) (ha : Recovers a b p)
    (hb : Recovers b a q) {i j : Nat} (hi : i < a.count) (hj : j < b.count) :
    exists key,
      padAt (tableOf parties sid run size p a) i (Counts.start (counts parties) q + j) =
          some key ∧
        padAt (tableOf parties sid run size q b) j (Counts.start (counts parties) p + i) =
          some key := by
  have hatA := (honestly_supplied hparties sid run size hp).padAt_eq hi (getElem?_points hq)
    (getElem?_ciphertextsFor p hq) (getElem?_counts hq) hj
  have hatB := (honestly_supplied hparties sid run size hq).padAt_eq hj (getElem?_points hp)
    (getElem?_ciphertextsFor q hp) (getElem?_counts hp) hi
  rw [extractedSecret_comm hpq hpoints ha hb] at hatA
  refine ⟨_, hatA, hatB.trans ?_⟩
  exact congrArg some (sharedKey_comm (scopeOf parties sid run size p) _ (Or.inl hpq.symm))

end Honest

end Tables

/-!
## From plans to parties
-/

def keysOf (run : UInt32) (plan : Plan) : RunKeys :=
  RunKeys.derive plan.seed plan.seedRun run plan.count

/-- The party that a plan becomes by encapsulating to the given keys, when it holds `kem`
itself. -/
def partyWith (kem : Lattice.SecretKey) (run : UInt32) (keys : List Bytes) (plan : Plan) : Party :=
  let made := HybridKey.encapsulateEach keys (keysOf run plan).encapsulation
  { key := { (keysOf run plan).key with kem, sent := made.2.1 }
    reservations := (keysOf run plan).reservations
    ciphertexts := made.1.toOption.getD []
    count := plan.count }

theorem encapsulate_partyWith (kem : Lattice.SecretKey) (run : UInt32) {keys : List Bytes}
    (hkeys : forall key, key ∈ keys -> key.length = Lattice.publicKeySize) (plan : Plan) :
    HybridKey.encapsulate { (keysOf run plan).key with kem } (keysOf run plan).encapsulation keys =
      (.ok (partyWith kem run keys plan).ciphertexts, (partyWith kem run keys plan).key,
        (HybridKey.encapsulateEach keys (keysOf run plan).encapsulation).2.2) := by
  rcases HybridKey.encapsulateEach_eq_ok keys (keysOf run plan).encapsulation hkeys
    with ⟨ciphertexts, hmade, _⟩
  rw [HybridKey.encapsulate, partyWith]
  rcases heach : HybridKey.encapsulateEach keys (keysOf run plan).encapsulation
    with ⟨made, sent, rest⟩
  rw [heach] at hmade
  cases hmade
  rfl

/-- A secret key recovers what has been encapsulated to two copies of its public key. -/
theorem recovers_partyWith {kem : Lattice.SecretKey} {key : Bytes}
    (hkey : key.length = Lattice.publicKeySize)
    (hkem : forall message, message.length = 32 ->
      kem.decapsulate ((Lattice.PublicKey.ofBytes key).encapsulate message).1 =
        ((Lattice.PublicKey.ofBytes key).encapsulate message).2)
    (run : UInt32) (plan other : Plan) {p : Nat} (hp : p < 2) :
    Recovers (partyWith kem run [key, key] plan) (partyWith kem run [key, key] other) p := by
  show kem.decapsulate (((HybridKey.encapsulateEach [key, key]
      (keysOf run other).encapsulation).1.toOption.getD []).getD p []) =
    (HybridKey.encapsulateEach [key, key] (keysOf run other).encapsulation).2.1.getD p []
  rw [HybridKey.encapsulateEach_cons _ _ hkey, HybridKey.encapsulateEach_cons _ _ hkey]
  match p, hp with
  | 0, _ => exact hkem _ (Reader.length_read 32 _)
  | 1, _ => exact hkem _ (Reader.length_read 32 _)

/-!
## Two peers with blank keys
-/

/-- Two encapsulation keys, both blank. -/
def blankKeys : List Bytes :=
  [Lattice.PublicKey.blank.toBytes, Lattice.PublicKey.blank.toBytes]

/-- What a plan leads to in run 4, but for the blank key that the party decapsulates
with. -/
def blankParty (plan : Plan) : Party :=
  partyWith Lattice.SecretKey.blank 4 blankKeys plan

/-- A seed for run 3 made of one octet. -/
def blankPlan (octet : UInt8) (count : Nat) : Plan :=
  { seed := List.replicate 32 octet, seedRun := 3, count }

def blankParties : List Party :=
  [blankParty (blankPlan 5 2), blankParty (blankPlan 7 1)]

theorem length_blankKey : Lattice.PublicKey.blank.toBytes.length = Lattice.publicKeySize :=
  Lattice.PublicKey.isFull_blank.length_toBytes

theorem blankParty_hasEncapsulated (plan : Plan) : (blankParty plan).HasEncapsulated blankKeys := by
  refine ⟨_, _, _, encapsulate_partyWith Lattice.SecretKey.blank 4 ?_ plan⟩
  intro key hkey
  have hblank : key = Lattice.PublicKey.blank.toBytes := by simpa [blankKeys] using hkey
  rw [hblank]
  exact length_blankKey

/-- The blank key recovers what any such peer has encapsulated. -/
theorem blankParty_recovers (plan other : Plan) {p : Nat} (hp : p < 2) :
    Recovers (blankParty plan) (blankParty other) p := by
  have hkem (message : Bytes) (hmessage : message.length = 32) :
      Lattice.SecretKey.blank.decapsulate
          ((Lattice.PublicKey.ofBytes Lattice.PublicKey.blank.toBytes).encapsulate message).1 =
        ((Lattice.PublicKey.ofBytes Lattice.PublicKey.blank.toBytes).encapsulate message).2 := by
    rw [Lattice.PublicKey.ofBytes_toBytes_blank]
    exact Lattice.SecretKey.decapsulate_blank hmessage
  have hrecovers := recovers_partyWith length_blankKey hkem 4 plan other hp
  unfold blankParty blankKeys
  exact hrecovers

theorem encapsulationKeys_blankParties : encapsulationKeys blankParties = blankKeys := rfl

theorem blankParties_haveEncapsulated (party : Party) (hparty : party ∈ blankParties) :
    party.HasEncapsulated (encapsulationKeys blankParties) := by
  rw [encapsulationKeys_blankParties]
  rcases List.mem_cons.mp hparty with rfl | hparty
  · exact blankParty_hasEncapsulated _
  · rcases List.mem_singleton.mp hparty with rfl
    exact blankParty_hasEncapsulated _

theorem blankParties_agreeOnPoints :
    AgreeOnPoints (blankParty (blankPlan 5 2)) (blankParty (blankPlan 7 1)) := by
  unfold AgreeOnPoints
  decide +kernel

/-!
## Both ends of a pair of messages
-/

/-- Peers that have encapsulated to each other agree on the key of every pair of
different messages.  Keys of own messages do not even depend on what a peer is
given for itself. -/
theorem padKeys_agree_at_both_ends (parties : List Party) (sid : Bytes) (run : UInt32) (size : Nat)
    (hparties : forall party, party ∈ parties ->
      party.HasEncapsulated (encapsulationKeys parties)) :
    (forall p party, parties[p]? = some party ->
      exists rows, rowsOf parties sid run size p party = .ok rows ∧
        PadTable (scopeOf parties sid run size p) party.count rows) ∧
    (forall p party point ciphertext, parties[p]? = some party ->
      ciphertext.length = Lattice.ciphertextSize ->
      exists rows,
        padKeys party.key ((points parties).set p point)
            ((ciphertextsFor parties p).set p ciphertext)
            (scopeOf parties sid run size p) = .ok rows ∧
          PadTable (scopeOf parties sid run size p) party.count rows) ∧
    (forall p q a b, p ≠ q -> parties[p]? = some a -> parties[q]? = some b ->
      AgreeOnPoints a b -> Recovers a b p -> Recovers b a q ->
      exists rowsA rowsB,
        rowsOf parties sid run size p a = .ok rowsA ∧
          rowsOf parties sid run size q b = .ok rowsB ∧
            forall i j, i < a.count -> j < b.count ->
              exists key,
                padAt rowsA i (Counts.start (counts parties) q + j) = some key ∧
                  padAt rowsB j (Counts.start (counts parties) p + i) = some key) := by
  refine ⟨?_, ?_, ?_⟩
  · intro p party hp
    exact ⟨_, rowsOf_eq_ok sid run size hparties hp, padTable_tableOf sid run size hparties hp⟩
  · intro p party point ciphertext hp hciphertext
    have hsupplied := supplied_of_hasEncapsulated hparties sid run size hp point hciphertext
    exact ⟨_, hsupplied.padKeys_eq_ok, hsupplied.padTable⟩
  · intro p q a b hpq hp hq hpoints ha hb
    refine ⟨_, _, rowsOf_eq_ok sid run size hparties hp, rowsOf_eq_ok sid run size hparties hq, ?_⟩
    intro i j hi hj
    exact tableOf_agree sid run size hparties hpq hp hq hpoints ha hb hi hj

/-- Peers with two messages and one message, whose blank keys recover what has
been encapsulated to them.  The first one may be given any point and ciphertext
for itself. -/
theorem padKeys_agree_of_blankParties :
    (forall party, party ∈ blankParties -> party.HasEncapsulated (encapsulationKeys blankParties)) ∧
    AgreeOnPoints (blankParty (blankPlan 5 2)) (blankParty (blankPlan 7 1)) ∧
    (exists rows,
      padKeys (blankParty (blankPlan 5 2)).key ((points blankParties).set 0 [9])
          ((ciphertextsFor blankParties 0).set 0 (Bytes.zeros 1088))
          (scopeOf blankParties [1, 2, 3] 4 20 0) = .ok rows ∧
        PadTable (scopeOf blankParties [1, 2, 3] 4 20 0) 2 rows) ∧
    exists rowsA rowsB,
      rowsOf blankParties [1, 2, 3] 4 20 0 (blankParty (blankPlan 5 2)) = .ok rowsA ∧
        rowsOf blankParties [1, 2, 3] 4 20 1 (blankParty (blankPlan 7 1)) = .ok rowsB ∧
          forall i j, i < 2 -> j < 1 ->
            exists key, padAt rowsA i (2 + j) = some key ∧ padAt rowsB j (0 + i) = some key := by
  have hagree := padKeys_agree_at_both_ends blankParties [1, 2, 3] 4 20 blankParties_haveEncapsulated
  refine ⟨blankParties_haveEncapsulated, blankParties_agreeOnPoints, ?_, ?_⟩
  · exact hagree.right.left 0 _ [9] (Bytes.zeros 1088) rfl List.length_replicate
  · exact hagree.right.right 0 1 _ _ (by decide) rfl rfl blankParties_agreeOnPoints
      (blankParty_recovers _ _ (by decide)) (blankParty_recovers _ _ (by decide))

end Round
end PeerMix
