import Mathlib.Data.Sym.Sym2
import PeerMix.Proofs.Bytes.Numbers
import PeerMix.Proofs.DcNet.PadTables

/-!
# Streams of pad keys

The pad key of a pair of messages is read from a stream that an expansion text
and a stream number name.  Between two peers these name the run and the pair of
messages, in whichever order, and nothing else: both ends find the same stream,
and no stream serves two pairs or two runs.
-/

namespace PeerMix
namespace DcNet

/-!
## Roles
-/

/-- The peer with the lower index has the message that selects the seed, the
other one the message that selects the stream. -/
theorem messages_of_roles (my peer i j : Nat) :
    s((my, i), (peer, j)) =
      s((min my peer, (roles my peer i j).1), (max my peer, (roles my peer i j).2)) := by
  unfold roles
  rcases Nat.lt_trichotomy my peer with hlt | rfl | hgt
  · rw [if_neg (by omega), Nat.min_eq_left hlt.le, Nat.max_eq_right hlt.le]
  · rw [Nat.min_self, Nat.max_self]
    by_cases hij : my < my ∨ (my = my ∧ i < j)
    · rw [if_pos hij, Sym2.eq_swap]
    · rw [if_neg hij]
  · rw [if_pos (Or.inl hgt), Nat.min_eq_right hgt.le, Nat.max_eq_left hgt.le, Sym2.eq_swap]

/-- Among own messages the one with the higher index selects the seed. -/
theorem roles_own {p i j : Nat} (hij : i ≠ j) : (roles p p i j).2 < (roles p p i j).1 := by
  unfold roles
  by_cases hlt : i < j
  · rw [if_pos (Or.inr ⟨rfl, hlt⟩)]
    exact hlt
  · rw [if_neg (by omega)]
    exact Nat.lt_of_le_of_ne (Nat.le_of_not_lt hlt) (Ne.symm hij)

theorem roles_lt {bound i j : Nat} (hi : i < bound) (hj : j < bound) (my peer : Nat) :
    (roles my peer i j).1 < bound ∧ (roles my peer i j).2 < bound := by
  unfold roles
  split
  · exact ⟨hj, hi⟩
  · exact ⟨hi, hj⟩

/-!
## Texts and stream numbers
-/

theorem padStream_eq (run : UInt32) (my peer i j : Nat) :
    padStream run my peer i j =
      (infoLabel ++ Bytes.littleEndian 4 run.toNat ++
          Bytes.littleEndian 4 (roles my peer i j).1,
        UInt32.ofNat (roles my peer i j).2) := rfl

/-- A text and a stream number tell the run and the roles, as long as the indices
fit into what is written of them. -/
theorem padStream_inj {run run' : UInt32} {my peer i j my' peer' i' j' : Nat}
    (hi : i < UInt32.size) (hj : j < UInt32.size) (hi' : i' < UInt32.size) (hj' : j' < UInt32.size)
    (h : padStream run my peer i j = padStream run' my' peer' i' j') :
    run = run' ∧ roles my peer i j = roles my' peer' i' j' := by
  rcases roles_lt hi hj my peer with ⟨hcounter, hnonce⟩
  rcases roles_lt hi' hj' my' peer' with ⟨hcounter', hnonce'⟩
  rw [padStream_eq, padStream_eq] at h
  rcases Prod.mk.inj h with ⟨htext, hnumber⟩
  have hfront : infoLabel ++ Bytes.littleEndian 4 run.toNat =
      infoLabel ++ Bytes.littleEndian 4 run'.toNat :=
    (List.append_inj' htext (by rw [Bytes.length_littleEndian, Bytes.length_littleEndian])).left
  have hback : Bytes.littleEndian 4 (roles my peer i j).1 =
      Bytes.littleEndian 4 (roles my' peer' i' j').1 :=
    (List.append_inj' htext (by rw [Bytes.length_littleEndian, Bytes.length_littleEndian])).right
  have hrun : run = run' :=
    UInt32.toNat_inj.mp
      (@Bytes.littleEndian_inj 4 _ _ run.toNat_lt run'.toNat_lt (List.append_cancel_left hfront))
  have hfirst : (roles my peer i j).1 = (roles my' peer' i' j').1 :=
    @Bytes.littleEndian_inj 4 _ _ hcounter hcounter' hback
  have hsecond : (roles my peer i j).2 = (roles my' peer' i' j').2 := by
    have htoNat := congrArg UInt32.toNat hnumber
    rw [UInt32.toNat_ofNat_of_lt' hnonce, UInt32.toNat_ofNat_of_lt' hnonce'] at htoNat
    exact htoNat
  exact ⟨hrun, Prod.ext hfirst hsecond⟩

/-!
## Cells
-/

/-- A place in the pad keys that the peers `p` and `q` share, as one of them
computes it: the key of an own message with a different one of the other side. -/
structure Cell (p q : Nat) where
  /-- The peer that computes the key. -/
  my : Nat
  peer : Nat
  /-- The index of the message among those of `my`. -/
  own : Nat
  /-- The index of the message among those of `peer`. -/
  other : Nat
  side : s(my, peer) = s(p, q)
  different : my ≠ peer ∨ own ≠ other
  own_lt : own < UInt32.size
  other_lt : other < UInt32.size

namespace Cell

variable {p q : Nat}

/-- The two messages of the cell, each by its peer and its index there. -/
def messages (c : Cell p q) : Sym2 (Nat × Nat) :=
  s((c.my, c.own), (c.peer, c.other))

/-- The indices of the messages that select the seed and the stream. -/
def selectors (c : Cell p q) : Nat × Nat :=
  roles c.my c.peer c.own c.other

/-- The expansion text and the stream number for the cell in a run. -/
def stream (c : Cell p q) (run : UInt32) : Bytes × UInt32 :=
  padStream run c.my c.peer c.own c.other

/-- The cell of the same messages, as the other side computes it. -/
def mirrored (c : Cell p q) : Cell p q where
  my := c.peer
  peer := c.my
  own := c.other
  other := c.own
  side := Sym2.eq_swap.trans c.side
  different := c.different.imp Ne.symm Ne.symm
  own_lt := c.other_lt
  other_lt := c.own_lt

theorem messages_mirrored (c : Cell p q) : c.mirrored.messages = c.messages :=
  Sym2.eq_swap

/-- Whichever side computes the cell, its messages follow from the selectors. -/
theorem messages_eq (c : Cell p q) :
    c.messages = s((min p q, c.selectors.1), (max p q, c.selectors.2)) := by
  rw [messages, messages_of_roles, selectors]
  rcases Sym2.eq_iff.mp c.side with ⟨hmy, hpeer⟩ | ⟨hmy, hpeer⟩
  · rw [hmy, hpeer]
  · rw [hmy, hpeer, Nat.min_comm, Nat.max_comm]

theorem selectors_lt (c : Cell p p) : c.selectors.2 < c.selectors.1 := by
  rcases c with ⟨my, peer, own, other, side, different, _, _⟩
  have hside : my = p ∧ peer = p := by
    rcases Sym2.eq_iff.mp side with hsame | ⟨hmy, hpeer⟩
    · exact hsame
    · exact ⟨hmy, hpeer⟩
  rcases hside with ⟨rfl, rfl⟩
  exact roles_own (different.resolve_left (not_not.mpr rfl))

/-- Two cells of the same peers have the same messages if the same indices select
their seeds and streams. -/
theorem messages_eq_iff (c d : Cell p q) : c.messages = d.messages ↔ c.selectors = d.selectors := by
  constructor
  · intro h
    rw [messages_eq, messages_eq, Sym2.eq_iff] at h
    rcases h with ⟨hlow, hhigh⟩ | ⟨hlow, hhigh⟩
    · exact Prod.ext (Prod.mk.inj hlow).right (Prod.mk.inj hhigh).right
    · -- The messages can only be exchanged within one peer, where the higher index comes first.
      have hpq : p = q := by
        have hsame := (Prod.mk.inj hlow).left
        omega
      subst hpq
      have hfirst := (Prod.mk.inj hlow).right
      have hsecond := (Prod.mk.inj hhigh).right
      have hc := c.selectors_lt
      have hd := d.selectors_lt
      omega
  · intro h
    rw [messages_eq, messages_eq, h]

/-- The key in a cell is read from the stream of the cell. -/
theorem padKey_eq (c : Cell p q) (scope : PadScope) (secret : Bytes) :
    padKey { scope with my := c.my } secret c.peer c.own c.other =
      .ok (readPadKey scope (padSeed secret (c.stream scope.run).1) (c.stream scope.run).2) := by
  have hother : ¬(c.my = c.peer ∧ c.own = c.other) := by
    rintro ⟨hpeer, hmessage⟩
    exact c.different.elim (fun hne => hne hpeer) (fun hne => hne hmessage)
  rw [padKey_eq_ok, sharedKey, if_neg hother]
  rfl

theorem stream_eq_iff (c d : Cell p q) (run run' : UInt32) :
    c.stream run = d.stream run' ↔ run = run' ∧ c.messages = d.messages := by
  rw [messages_eq_iff]
  constructor
  · exact padStream_inj c.own_lt c.other_lt d.own_lt d.other_lt
  · rintro ⟨rfl, hselectors⟩
    have hroles : roles c.my c.peer c.own c.other = roles d.my d.peer d.own d.other := hselectors
    rw [stream, stream, padStream_eq, padStream_eq, hroles]

/-- The keys that two peers share are read from streams that name the run and the
unordered pair of messages, whichever side computes them. -/
theorem streams_name_run_and_messages (c d : Cell p q) :
    (forall run run', c.stream run = d.stream run' ↔ run = run' ∧ c.messages = d.messages) ∧
      forall (scope : PadScope) (secret : Bytes),
        padKey { scope with my := c.my } secret c.peer c.own c.other =
          .ok (readPadKey scope (padSeed secret (c.stream scope.run).1) (c.stream scope.run).2) :=
  ⟨c.stream_eq_iff d, c.padKey_eq⟩

end Cell

/-- Two messages of the first and the second peer, as the first one computes
their key. -/
def cellOfTwo (own other : Fin 8) : Cell 0 1 where
  my := 0
  peer := 1
  own := own
  other := other
  side := rfl
  different := .inl Nat.zero_ne_one
  own_lt := Nat.lt_of_lt_of_le own.isLt (by decide)
  other_lt := Nat.lt_of_lt_of_le other.isLt (by decide)

theorem streams_name_run_and_messages_of_two_peers :
    (cellOfTwo 3 5).stream 7 = (cellOfTwo 3 5).mirrored.stream 7 ∧
      (cellOfTwo 3 5).stream 7 ≠ (cellOfTwo 3 5).mirrored.stream 8 ∧
      (cellOfTwo 3 5).stream 7 ≠ (cellOfTwo 5 3).stream 7 := by
  have hmirrored :=
    ((cellOfTwo 3 5).streams_name_run_and_messages (cellOfTwo 3 5).mirrored).left
  have hcrossed := ((cellOfTwo 3 5).streams_name_run_and_messages (cellOfTwo 5 3)).left
  refine ⟨?_, ?_, ?_⟩
  · rw [hmirrored]
    exact ⟨rfl, (cellOfTwo 3 5).messages_mirrored.symm⟩
  · rw [Ne, hmirrored]
    decide
  · rw [Ne, hcrossed]
    decide

end DcNet
end PeerMix
