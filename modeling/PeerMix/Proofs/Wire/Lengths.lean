import PeerMix.Field
import PeerMix.Lattice.Kem
import PeerMix.Proofs.Json.Lengths
import PeerMix.Wire.Message

/-!
# How long messages are

The text of a message is as long as its lists and byte strings make it: two
characters for an octet, at most thirty-two for a field element, and some more for
names, numbers and punctuation.
-/

namespace PeerMix
namespace Wire

/-!
## Values
-/

namespace Codec

section Values

variable {α : Type}

/-- The number of characters of the text of a value. -/
def width (c : Codec α) (a : α) : Nat :=
  (c.write a).width

theorem width_uint32 (n : UInt32) : uint32.width n ≤ 10 :=
  Json.width_natural (by decide) (Nat.lt_trans n.toNat_lt (by decide))

theorem width_uint64 (n : UInt64) : uint64.width n ≤ 20 :=
  Json.width_natural (by decide) (Nat.lt_trans n.toNat_lt (by decide))

theorem width_bool (b : Bool) : bool.width b ≤ 5 := by
  cases b <;> decide

theorem width_bytes (bs : Bytes) : bytes.width bs = 2 * bs.length + 2 :=
  Json.width_text_encode bs

theorem width_writeElement {n : Nat} (h : n < Field.prime) : (writeElement n).width ≤ 34 :=
  Json.width_text_ofNat (by decide) (Nat.lt_trans h (by decide))

theorem width_ofArray_map_le {write : α -> Json} {values : List α} {n : Nat}
    (h : forall a, a ∈ values -> (write a).width ≤ n) :
    (Json.ofArray (values.map write)).width ≤ values.length * (n + 1) + 2 := by
  have hitems : forall v, v ∈ values.map write -> v.width ≤ n := by
    intro v hv
    rcases List.mem_map.mp hv with ⟨a, ha, rfl⟩
    exact h a ha
  have hwidth := Json.width_ofArray_le hitems
  rw [List.length_map] at hwidth
  exact hwidth

theorem width_list_le {item : Codec α} {values : List α} {n : Nat}
    (h : forall a, a ∈ values -> item.width a ≤ n) :
    (list item).width values ≤ values.length * (n + 1) + 2 :=
  width_ofArray_map_le h

theorem width_bytesList_le {values : List Bytes} {n : Nat}
    (h : forall bs, bs ∈ values -> bs.length ≤ n) :
    bytesList.width values ≤ values.length * (2 * n + 3) + 2 := by
  apply width_ofArray_map_le
  intro bs hbs
  have hlength := h bs hbs
  have hwidth : (bytes.write bs).width = 2 * bs.length + 2 := width_bytes bs
  omega

theorem width_elements_le {values : List Nat} (h : forall n, n ∈ values -> n < Field.prime) :
    elements.width values ≤ values.length * 35 + 2 :=
  width_ofArray_map_le fun n hn => width_writeElement (h n hn)

theorem width_elementsList_le {rows : List (List Nat)} {k : Nat}
    (h : forall row, row ∈ rows -> forall n, n ∈ row -> n < Field.prime)
    (hlength : forall row, row ∈ rows -> row.length ≤ k) :
    elementsList.width rows ≤ rows.length * (k * 35 + 3) + 2 := by
  apply width_ofArray_map_le
  intro row hrow
  have hwidth : (elements.write row).width ≤ row.length * 35 + 2 := width_elements_le (h row hrow)
  have hcount : row.length * 35 ≤ k * 35 := Nat.mul_le_mul_right 35 (hlength row hrow)
  omega

end Values

end Codec

/-!
## Records
-/

namespace Fields

/-- The number of characters of the members of a record, each with what closes it. -/
def width {ρ σ : Type} (fields : Fields ρ σ) (r : ρ) : Nat :=
  ((fields.members r).map Json.memberWidth).sum

/-- The characters of a name, of the colon behind it and of what closes the member. -/
def nameWidth (name : String) : Nat :=
  (Json.quoted name.toList).length + 2

section Widths

variable {α β σ : Type} {rest : Fields β σ}

theorem width_cons {field : Field α} {a : α} (h : field.omits a = false) (more : β) :
    (Fields.cons field rest).width (a, more) =
      nameWidth field.name + field.codec.width a + rest.width more := by
  have hmembers : (Fields.cons field rest).members (a, more) =
      (field.name.toList, field.codec.write a) :: rest.members more := by
    rw [members, h]
    rfl
  have hmember : Json.memberWidth (field.name.toList, field.codec.write a) =
      nameWidth field.name + field.codec.width a := Nat.add_right_comm _ _ 2
  rw [width, hmembers, List.map_cons, List.sum_cons, hmember]
  rfl

theorem width_required (name : String) (codec : Codec α) (a : α) (more : β) :
    (required name codec rest).width (a, more) =
      nameWidth name + codec.width a + rest.width more :=
  width_cons rfl more

theorem width_optional (name : String) (codec : Codec α) (default a : α) (more : β) :
    (optional name codec default rest).width (a, more) =
      nameWidth name + codec.width a + rest.width more :=
  width_cons rfl more

theorem width_omittable_none (name : String) (codec : Codec α) (more : β) :
    (omittable name codec rest).width (none, more) = rest.width more :=
  rfl

theorem width_nil : Fields.nil.width () = 0 :=
  rfl

end Widths

end Fields

theorem Codec.width_record_le {α ρ σ : Type} {fields : Fields ρ σ} {toRecord : α -> ρ}
    {ofRecord : ρ -> α} (a : α) :
    (record fields toRecord ofRecord).width a ≤ fields.width (toRecord a) + 2 :=
  Json.width_ofObject_le _

/-- The text of a record that has a member is exactly that long. -/
theorem Codec.width_record {α ρ σ : Type} {fields : Fields ρ σ} {toRecord : α -> ρ}
    {ofRecord : ρ -> α} {a : α} (hsome : fields.members (toRecord a) ≠ []) :
    (record fields toRecord ofRecord).width a = fields.width (toRecord a) + 1 :=
  Json.width_ofObject hsome

open Codec Fields

/-!
## Exchanging keys
-/

theorem KeyExchange.width_le (m : KeyExchange) :
    KeyExchange.codec.width m ≤ 70 + 2 * (m.ecdh.length + m.pqpk.length + m.commitment.length +
      m.signature.length) := by
  have hrun := width_uint32 m.run
  have hnames : nameWidth "run" + nameWidth "ecdh" + nameWidth "pqpk" + nameWidth "commitment" +
      nameWidth "signature" = 50 := by decide
  refine Nat.le_trans (width_record_le m) ?_
  rw [width_required, width_required, width_required, width_required, width_required, width_nil,
    width_bytes, width_bytes, width_bytes, width_bytes]
  omega

/-- All parts of a key exchange are as long as they are made. -/
structure KeyExchange.Sized (m : KeyExchange) : Prop where
  ecdh : m.ecdh.length = 32
  pqpk : m.pqpk.length = Lattice.publicKeySize
  commitment : m.commitment.length = 32
  signature : m.signature.length = 64

theorem KeyExchange.Sized.width_le {m : KeyExchange} (h : m.Sized) :
    KeyExchange.codec.width m ≤ 2694 := by
  have hwidth := m.width_le
  rw [h.ecdh, h.pqpk, h.commitment, h.signature] at hwidth
  exact hwidth

theorem KeyExchanges.width_le {m : KeyExchanges} {n : Nat} (hbr : m.br = none)
    (h : forall entry, entry ∈ m.kes -> KeyExchange.codec.nullable.width entry ≤ n) :
    KeyExchanges.codec.width m ≤ m.kes.length * (n + 1) + 28 := by
  have herr := width_uint32 m.err
  have hkes := width_list_le h
  have hnames : nameWidth "kes" + nameWidth "err" = 14 := by decide
  refine Nat.le_trans (width_record_le m) ?_
  rw [width_optional, hbr, width_omittable_none, width_optional, width_nil]
  omega

theorem Ciphertexts.width_le {m : Ciphertexts} {n : Nat}
    (h : forall ct, ct ∈ m.ciphertexts -> ct.length ≤ n) :
    Ciphertexts.codec.width m ≤
      m.ciphertexts.length * (2 * n + 3) + 2 * m.signature.length + 34 := by
  have hciphertexts := width_bytesList_le h
  have hnames : nameWidth "ciphertexts" + nameWidth "signature" = 28 := by decide
  refine Nat.le_trans (width_record_le m) ?_
  rw [width_required, width_required, width_nil, width_bytes]
  omega

theorem CiphertextsReply.width_le {m : CiphertextsReply} {n : Nat} (hbr : m.br = none)
    (h : forall ct, ct ∈ m.ciphertexts -> ct.length ≤ n) :
    CiphertextsReply.codec.width m ≤ m.ciphertexts.length * (2 * n + 3) + 36 := by
  have herr := width_uint32 m.err
  have hciphertexts := width_bytesList_le h
  have hnames : nameWidth "ciphertexts" + nameWidth "err" = 22 := by decide
  refine Nat.le_trans (width_record_le m) ?_
  rw [width_optional, hbr, width_omittable_none, width_optional, width_nil]
  omega

/-!
## Mixing
-/

theorem SlotReserve.width_le {m : SlotReserve} {k : Nat}
    (h : forall row, row ∈ m.dcMix -> forall n, n ∈ row -> n < Field.prime)
    (hlength : forall row, row ∈ m.dcMix -> row.length ≤ k) :
    SlotReserve.codec.width m ≤
      m.dcMix.length * (k * 35 + 3) + 2 * m.signature.length + 46 := by
  have hrun := width_uint32 m.run
  have hvectors := width_elementsList_le h hlength
  have hnames : nameWidth "run" + nameWidth "dc_mix" + nameWidth "signature" = 30 := by decide
  refine Nat.le_trans (width_record_le m) ?_
  rw [width_required, width_required, width_required, width_nil, width_bytes]
  omega

theorem RecoveredMessages.width_le {m : RecoveredMessages} (hbr : m.br = none)
    (h : forall n, n ∈ m.roots -> n < Field.prime) :
    RecoveredMessages.codec.width m ≤ m.roots.length * 35 + 70 := by
  have hrun := width_uint32 m.run
  have hreveal := width_bool m.revealSecrets
  have herr := width_uint32 m.err
  have hroots := width_elements_le h
  have hnames : nameWidth "run" + nameWidth "roots" + nameWidth "reveal_secrets" +
      nameWidth "err" = 41 := by decide
  refine Nat.le_trans (width_record_le m) ?_
  rw [width_optional, width_optional, width_optional, hbr, width_omittable_none, width_optional,
    width_nil]
  omega

theorem MixVector.width_le (m : MixVector) :
    MixVector.codec.width m ≤ 2 * m.data.length + 66 := by
  have hslots := width_uint64 m.n
  have hsize := width_uint64 m.msize
  have hnames : nameWidth "n" + nameWidth "msize" + nameWidth "data" = 22 := by decide
  refine Nat.le_trans (width_record_le m) ?_
  rw [width_required, width_required, width_required, width_nil, width_bytes]
  omega

theorem DcNet.width_le {m : DcNet} {k : Nat}
    (h : forall v, v ∈ m.dcNet -> v.data.length ≤ k) :
    DcNet.codec.width m ≤ m.dcNet.length * (2 * k + 67) + 2 * m.signature.length + 69 := by
  have hrun := width_uint32 m.run
  have hreveal := width_bool m.revealSecrets
  have hvectors : (list MixVector.codec).width m.dcNet ≤ m.dcNet.length * (2 * k + 67) + 2 := by
    apply width_list_le
    intro v hv
    have hdata := h v hv
    have hwidth := v.width_le
    omega
  have hnames : nameWidth "run" + nameWidth "dc_net" + nameWidth "reveal_secrets" +
      nameWidth "signature" = 48 := by decide
  refine Nat.le_trans (width_record_le m) ?_
  rw [width_required, width_required, width_optional, width_required, width_nil, width_bytes]
  omega

/-- Of the parts of a confirmed mix only the code has a text of unknown length. -/
theorem ConfirmMix.width_eq {m : ConfirmMix} (hbr : m.br = none) :
    ConfirmMix.codec.width m =
      2 * (m.mix.length + m.signature.length) + bool.width m.revealSecrets +
        uint32.width m.err + 50 := by
  have hnames : nameWidth "mix" + nameWidth "reveal_secrets" + nameWidth "err" +
      nameWidth "signature" = 45 := by decide
  refine Eq.trans (width_record (List.cons_ne_nil _ _)) ?_
  rw [width_optional, width_optional, hbr, width_omittable_none, width_optional, width_optional,
    width_nil, width_bytes, width_bytes]
  omega

/-!
## Assigning blame
-/

theorem RevealSecrets.width_le {m : RevealSecrets} {n : Nat}
    (h : forall r, r ∈ m.sr -> r < Field.prime) (hlength : forall bs, bs ∈ m.m -> bs.length ≤ n) :
    RevealSecrets.codec.width m ≤
      m.sr.length * 35 + m.m.length * (2 * n + 3) + 2 * m.seed.length + 50 := by
  have hrun := width_uint32 m.seedRun
  have hreservations := width_elements_le h
  have hmessages := width_bytesList_le hlength
  have hnames : nameWidth "seed" + nameWidth "seed_run" + nameWidth "sr" + nameWidth "m" =
      31 := by decide
  refine Nat.le_trans (width_record_le m) ?_
  rw [width_required, width_required, width_required, width_required, width_nil, width_bytes]
  omega

end Wire
end PeerMix
