import PeerMix.Proofs.Bytes.Hex
import PeerMix.Proofs.Json.Rendering
import PeerMix.Proofs.Traversals
import PeerMix.Proofs.Wire.Members
import PeerMix.Wire.Message

/-!
# Messages are read as they were written

A codec is lawful when every value it writes is read back and has a text of ASCII
characters.  The codecs of messages are put together from a few of single values,
of lists and of records, and each way of putting codecs together keeps the law.
-/

namespace PeerMix
namespace Wire

/-!
## Single values
-/

open Json (IsAscii)

structure Codec.Lawful {α : Type} (c : Codec α) : Prop where
  writable : forall a, Json.Writable IsAscii (c.write a)
  read_write : forall a, c.read (c.write a) = .ok a

namespace Codec

theorem readInteger_of_mem {low high i : Int} (hlow : low ≤ i) (hhigh : i ≤ high) :
    readInteger low high (.integer i) = .ok i :=
  if_pos ⟨hlow, hhigh⟩

theorem writable_natural {n : Nat} (h : n < UInt64.size) :
    Json.Writable IsAscii (.integer n) := by
  have hmin : Int64.minValue.toInt = -9223372036854775808 := rfl
  refine .integer ⟨?_, ?_⟩ <;> omega

theorem readInteger_natural {n size : Nat} (h : n < size) :
    readInteger 0 (size - 1) (.integer n) = .ok (n : Int) :=
  readInteger_of_mem (by omega) (by omega)

theorem lawful_uint32 : uint32.Lawful where
  writable n := writable_natural (Nat.lt_trans n.toNat_lt (by decide))
  read_write n := by
    show (readInteger 0 (UInt32.size - 1) (.integer n.toNat)).map _ = _
    rw [readInteger_natural n.toNat_lt]
    exact congrArg Except.ok UInt32.ofNat_toNat

theorem lawful_uint64 : uint64.Lawful where
  writable n := writable_natural n.toNat_lt
  read_write n := by
    show (readInteger 0 (UInt64.size - 1) (.integer n.toNat)).map _ = _
    rw [readInteger_natural n.toNat_lt]
    exact congrArg Except.ok UInt64.ofNat_toNat

theorem lawful_int64 : int64.Lawful where
  writable n := by
    have hhigh : n.toInt ≤ 9223372036854775807 := n.toInt_le
    have hsize : UInt64.size = 18446744073709551616 := rfl
    refine .integer ⟨n.minValue_le_toInt, ?_⟩
    omega
  read_write n := by
    have hread : readInteger Int64.minValue.toInt Int64.maxValue.toInt (.integer n.toInt) =
        .ok n.toInt := readInteger_of_mem n.minValue_le_toInt n.toInt_le
    show (readInteger _ _ (.integer n.toInt)).map Int64.ofInt = _
    rw [hread]
    exact congrArg Except.ok (Int64.ofInt_toInt n)

theorem lawful_bool : bool.Lawful where
  writable b := .bool b
  read_write _ := rfl

/-!
## Hexadecimal texts
-/

theorem isAscii_of_isDigit {c : Char} (h : Hex.IsDigit c) : IsAscii c := by
  rcases h with ⟨n, hn, hc⟩
  have hall : forall d : Fin 16, IsAscii (Hex.digit d) := by decide
  rw [hc]
  exact hall ⟨n, hn⟩

theorem writable_bytes (bs : Bytes) : Json.Writable IsAscii (bytes.write bs) :=
  .text fun _ hc => isAscii_of_isDigit (Hex.isDigit_of_mem_encode hc)

theorem readBytes_encode (bs : Bytes) : readBytes (Hex.encode bs) = .ok bs := by
  rw [readBytes, Hex.decode_encode]
  rfl

theorem lawful_bytes : bytes.Lawful where
  writable := writable_bytes
  read_write := readBytes_encode

theorem writable_element (n : Nat) : Json.Writable IsAscii (writeElement n) :=
  .text fun _ hc => isAscii_of_isDigit (Hex.isDigit_of_mem_ofNat hc)

theorem readElement_ofNat (n : Nat) : readElement (Hex.ofNat n) = .ok n := by
  rw [readElement, Hex.toNat?_ofNat]

/-!
## Lists
-/

section Lists

variable {α : Type}

theorem writable_ofArray {write : α -> Json} (h : forall a, Json.Writable IsAscii (write a))
    (values : List α) : Json.Writable IsAscii (.ofArray (values.map write)) := by
  apply Json.Writable.array
  intro v hv
  rcases List.mem_map.mp hv with ⟨a, _ha, rfl⟩
  exact h a

/-- The items of an array are read one by one. -/
theorem readItems_ofArray {β : Type} {read : Json -> Except DecodeError β} {write : α -> Json}
    (value : α -> β) (h : forall a, read (write a) = .ok (value a)) (values : List α) :
    readItems read (.ofArray (values.map write)) = .ok (values.map value) := by
  have hitems : (values.map write).mapM read = .ok (values.map value) := by
    rw [List.mapM_map]
    exact mapM_eq_ok fun a _ => h a
  show (do
    let values ← (values.map write).mapM read
    if true then Except.ok values else Except.error DecodeError.malformed) = _
  rw [hitems]
  rfl

theorem Lawful.list {item : Codec α} (h : item.Lawful) : (list item).Lawful where
  writable := writable_ofArray h.writable
  read_write values := by
    have hread := readItems_ofArray id h.read_write values
    rw [List.map_id] at hread
    exact hread

/-- All texts are read first, then each of them is decoded. -/
theorem lawful_bytesList : bytesList.Lawful where
  writable := writable_ofArray writable_bytes
  read_write values := by
    have htexts : readItems readText (.ofArray (values.map bytes.write)) =
        .ok (values.map Hex.encode) := readItems_ofArray Hex.encode (fun _ => rfl) values
    show readItems readText (.ofArray (values.map bytes.write)) >>= _ = _
    rw [htexts]
    exact mapM_map_eq_ok fun bs _ => readBytes_encode bs

theorem readTexts_elements (values : List Nat) :
    readItems readText (elements.write values) = .ok (values.map Hex.ofNat) :=
  readItems_ofArray Hex.ofNat (fun _ => rfl) values

theorem readElements_ofNat (values : List Nat) :
    (values.map Hex.ofNat).mapM readElement = .ok values :=
  mapM_map_eq_ok fun n _ => readElement_ofNat n

theorem lawful_elements : elements.Lawful where
  writable := writable_ofArray writable_element
  read_write values := by
    show readItems readText (elements.write values) >>= _ = _
    rw [readTexts_elements]
    exact readElements_ofNat values

theorem lawful_elementsList : elementsList.Lawful where
  writable := writable_ofArray lawful_elements.writable
  read_write rows := by
    have htexts : readItems (readItems readText) (.ofArray (rows.map elements.write)) =
        .ok (rows.map fun row => row.map Hex.ofNat) :=
      readItems_ofArray _ readTexts_elements rows
    show readItems (readItems readText) (.ofArray (rows.map elements.write)) >>= _ = _
    rw [htexts]
    exact mapM_map_eq_ok fun row _ => readElements_ofNat row

/-- A codec that never writes `null` leaves it free to stand for no value. -/
theorem Lawful.nullable {value : Codec α} (h : value.Lawful)
    (hnull : forall a, value.write a ≠ .null) : value.nullable.Lawful where
  writable a := by
    cases a with
    | none => exact .null
    | some a => exact h.writable a
  read_write a := by
    cases a with
    | none => rfl
    | some a =>
        have hread : value.nullable.read (value.write a) = (value.read (value.write a)).map some := by
          unfold Codec.nullable
          dsimp only
          split
          · next hv => exact absurd hv (hnull a)
          · rfl
        show value.nullable.read (value.write a) = _
        rw [hread, h.read_write]
        rfl

end Lists

end Codec

/-!
## Records
-/

namespace Fields

/-- Whether the names of all fields are ASCII texts that tell the fields apart. -/
def Named {ρ σ : Type} (fields : Fields ρ σ) : Prop :=
  fields.names.Nodup ∧ forall name, name ∈ fields.names -> Json.IsAsciiText name

instance {ρ σ : Type} (fields : Fields ρ σ) : Decidable fields.Named :=
  inferInstanceAs (Decidable (fields.names.Nodup ∧
    forall name, name ∈ fields.names -> Json.IsAsciiText name))

/-- Whether every field has a lawful codec and leaves out only its default value. -/
def Lawful {ρ σ : Type} : Fields ρ σ -> Prop
  | .nil => True
  | .cons field rest =>
      field.codec.Lawful ∧ (forall a, field.omits a = true -> field.default? = some a) ∧
        Lawful rest

section Parts

variable {α β σ : Type} {name : String} {codec : Codec α} {rest : Fields β σ}

theorem Lawful.required (hcodec : codec.Lawful) (hrest : rest.Lawful) :
    (required name codec rest).Lawful :=
  ⟨hcodec, nofun, hrest⟩

theorem Lawful.optional (default : α) (hcodec : codec.Lawful) (hrest : rest.Lawful) :
    (optional name codec default rest).Lawful :=
  ⟨hcodec, nofun, hrest⟩

theorem Lawful.omittable (hcodec : codec.Lawful) (hnull : forall a, codec.write a ≠ .null)
    (hrest : rest.Lawful) : (omittable name codec rest).Lawful := by
  refine ⟨hcodec.nullable hnull, ?_, hrest⟩
  intro a ha
  cases a with
  | none => rfl
  | some a => cases ha

end Parts

/-- What has been read once all members of a record have been taken in. -/
def taken {ρ σ : Type} : Fields ρ σ -> ρ -> σ
  | .nil, _ => ()
  | .cons field rest, (a, more) => (if field.omits a then none else some a, taken rest more)

theorem name_mem_of_mem_members {ρ σ : Type} (fields : Fields ρ σ) (r : ρ)
    {m : List Char × Json} (h : m ∈ fields.members r) : m.1 ∈ fields.names := by
  induction fields with
  | nil => cases h
  | cons field rest ih =>
      rcases r with ⟨a, more⟩
      unfold members at h
      split at h
      · exact List.mem_cons_of_mem _ (ih more h)
      · rcases List.mem_cons.mp h with rfl | htail
        · exact List.mem_cons_self
        · exact List.mem_cons_of_mem _ (ih more htail)

theorem writable_of_mem_members {ρ σ : Type} {fields : Fields ρ σ} (hfields : fields.Lawful)
    (r : ρ) {m : List Char × Json} (h : m ∈ fields.members r) :
    Json.Writable IsAscii m.2 := by
  induction fields with
  | nil => cases h
  | cons field rest ih =>
      rcases r with ⟨a, more⟩
      rcases hfields with ⟨hcodec, _homits, hrest⟩
      unfold members at h
      split at h
      · exact ih hrest more h
      · rcases List.mem_cons.mp h with rfl | htail
        · exact hcodec.writable a
        · exact ih hrest more htail

/-- Every field finds the value that was written for it. -/
theorem finds_members {ρ σ : Type} {fields : Fields ρ σ} (hfields : fields.Lawful)
    (hnames : fields.names.Nodup) (r : ρ) :
    fields.Finds (Json.named (fields.members r)) (fields.taken r) := by
  induction fields with
  | nil => trivial
  | cons field rest ih =>
      rcases r with ⟨a, more⟩
      rcases hfields with ⟨hcodec, _homits, hrest⟩
      rcases List.nodup_cons.mp hnames with ⟨hname, hnames⟩
      have hothers : forall m, m ∈ Json.named (rest.members more) ->
          m.1 ≠ some field.name.toList := by
        intro m hm hkey
        rcases List.mem_map.mp hm with ⟨n, hn, rfl⟩
        have hmem := rest.name_mem_of_mem_members more hn
        rw [Option.some.inj hkey] at hmem
        exact hname hmem
      have htail := ih hrest hnames more
      unfold members taken
      split
      · exact ⟨hothers, htail⟩
      · exact ⟨⟨[], _, _, rfl, hcodec.read_write a, nofun, hothers⟩,
          htail.cons_of_unknown hname _⟩

/-- A value that was left out comes back as the default of its field. -/
theorem finish_taken {ρ σ : Type} {fields : Fields ρ σ} (hfields : fields.Lawful) (r : ρ) :
    fields.finish (fields.taken r) = .ok r := by
  induction fields with
  | nil => rfl
  | cons field rest ih =>
      rcases r with ⟨a, more⟩
      rcases hfields with ⟨_hcodec, homits, hrest⟩
      have hvalue : (if field.omits a then none else some a).or field.default? = some a := by
        cases hleft : field.omits a with
        | true => exact homits a hleft
        | false => rfl
      unfold taken finish
      rw [hvalue, ih hrest more]
      rfl

theorem readMembers_members {ρ σ : Type} {fields : Fields ρ σ} (hfields : fields.Lawful)
    (hnames : fields.names.Nodup) (r : ρ) :
    fields.readMembers (Json.named (fields.members r)) true = .ok r := by
  have hlegible : forall m, m ∈ Json.named (fields.members r) -> m.1 ≠ none := by
    intro m hm
    rcases List.mem_map.mp hm with ⟨_, _, rfl⟩
    exact Option.some_ne_none _
  rw [readMembers_of_finds hnames hlegible (finds_members hfields hnames r)]
  exact finish_taken hfields r

end Fields

theorem Codec.lawful_record {α ρ σ : Type} {fields : Fields ρ σ} {toRecord : α -> ρ}
    {ofRecord : ρ -> α} (hnamed : fields.Named) (hfields : fields.Lawful)
    (hrecord : forall a, ofRecord (toRecord a) = a) :
    (Codec.record fields toRecord ofRecord).Lawful where
  writable a := by
    apply Json.Writable.object
    · intro m hm
      exact hnamed.right m.1 (fields.name_mem_of_mem_members (toRecord a) hm)
    · intro m hm
      exact Fields.writable_of_mem_members hfields (toRecord a) hm
  read_write a := by
    show (fields.readMembers (Json.named (fields.members (toRecord a))) true).map ofRecord = _
    rw [Fields.readMembers_members hfields hnamed.left]
    exact congrArg Except.ok (hrecord a)

/-!
## Messages
-/

section Messages

open Codec Fields

theorem PairRequest.lawful_codec : PairRequest.codec.Lawful :=
  lawful_record (by decide)
    (.required lawful_bytes <| .required lawful_bytes <| .required lawful_bytes <|
      .required lawful_uint32 <| .required lawful_bytes trivial)
    fun _ => rfl

theorem BeginRun.lawful_codec : BeginRun.codec.Lawful :=
  lawful_record (by decide)
    (.optional [] lawful_bytesList <| .optional [] lawful_int64.list <|
      .optional [] lawful_bytes <| .optional 0 lawful_uint32 trivial)
    fun _ => rfl

theorem KeyExchange.lawful_codec : KeyExchange.codec.Lawful :=
  lawful_record (by decide)
    (.required lawful_uint32 <| .required lawful_bytes <| .required lawful_bytes <|
      .required lawful_bytes <| .required lawful_bytes trivial)
    fun _ => rfl

theorem KeyExchanges.lawful_codec : KeyExchanges.codec.Lawful :=
  lawful_record (by decide)
    (.optional [] (KeyExchange.lawful_codec.nullable nofun).list <|
      .omittable BeginRun.lawful_codec nofun <| .optional 0 lawful_uint32 trivial)
    fun _ => rfl

theorem Ciphertexts.lawful_codec : Ciphertexts.codec.Lawful :=
  lawful_record (by decide) (.required lawful_bytesList <| .required lawful_bytes trivial)
    fun _ => rfl

theorem CiphertextsReply.lawful_codec : CiphertextsReply.codec.Lawful :=
  lawful_record (by decide)
    (.optional [] lawful_bytesList <| .omittable BeginRun.lawful_codec nofun <|
      .optional 0 lawful_uint32 trivial)
    fun _ => rfl

theorem SlotReserve.lawful_codec : SlotReserve.codec.Lawful :=
  lawful_record (by decide)
    (.required lawful_uint32 <| .required lawful_elementsList <| .required lawful_bytes trivial)
    fun _ => rfl

theorem RecoveredMessages.lawful_codec : RecoveredMessages.codec.Lawful :=
  lawful_record (by decide)
    (.optional 0 lawful_uint32 <| .optional [] lawful_elements <|
      .optional false lawful_bool <| .omittable BeginRun.lawful_codec nofun <|
      .optional 0 lawful_uint32 trivial)
    fun _ => rfl

theorem MixVector.lawful_codec : MixVector.codec.Lawful :=
  lawful_record (by decide)
    (.required lawful_uint64 <| .required lawful_uint64 <| .required lawful_bytes trivial)
    fun _ => rfl

theorem DcNet.lawful_codec : DcNet.codec.Lawful :=
  lawful_record (by decide)
    (.required lawful_uint32 <| .required MixVector.lawful_codec.list <|
      .optional false lawful_bool <| .required lawful_bytes trivial)
    fun _ => rfl

theorem ConfirmMix.lawful_codec : ConfirmMix.codec.Lawful :=
  lawful_record (by decide)
    (.optional [] lawful_bytes <| .optional false lawful_bool <|
      .omittable BeginRun.lawful_codec nofun <| .optional 0 lawful_uint32 <|
      .optional [] lawful_bytes trivial)
    fun _ => rfl

theorem RevealSecrets.lawful_codec : RevealSecrets.codec.Lawful :=
  lawful_record (by decide)
    (.required lawful_bytes <| .required lawful_uint32 <| .required lawful_elements <|
      .required lawful_bytesList trivial)
    fun _ => rfl

theorem ClientFailure.lawful_codec : ClientFailure.codec.Lawful :=
  lawful_record (by decide) (.required lawful_bool trivial) fun _ => rfl

theorem Kind.lawful_codec (kind : Kind) : kind.codec.Lawful := by
  cases kind with
  | pairRequest => exact PairRequest.lawful_codec
  | beginRun => exact BeginRun.lawful_codec
  | keyExchange => exact KeyExchange.lawful_codec
  | keyExchanges => exact KeyExchanges.lawful_codec
  | ciphertexts => exact Ciphertexts.lawful_codec
  | ciphertextsReply => exact CiphertextsReply.lawful_codec
  | slotReserve => exact SlotReserve.lawful_codec
  | recoveredMessages => exact RecoveredMessages.lawful_codec
  | mixVector => exact MixVector.lawful_codec
  | dcNet => exact DcNet.lawful_codec
  | confirmMix => exact ConfirmMix.lawful_codec
  | revealSecrets => exact RevealSecrets.lawful_codec
  | clientFailure => exact ClientFailure.lawful_codec

end Messages

theorem Codec.Lawful.decode_encode {α : Type} {c : Codec α} (h : c.Lawful) (a : α) :
    c.decode (c.encode a) = .ok a := by
  unfold Codec.decode Codec.encode
  rw [(h.writable a).read_render]
  dsimp only
  rw [h.read_write]
  rfl

/-- Every message of every kind is read back from its text, and this text is one line of
ASCII characters. -/
theorem Kind.message_read_as_written (kind : Kind) (m : kind.Message) :
    kind.codec.decode (kind.codec.encode m) = .ok m ∧
      forall c, c ∈ kind.codec.encode m -> c.toNat < 128 ∧ c ≠ '\n' := by
  have hlawful := kind.lawful_codec
  constructor
  · exact hlawful.decode_encode m
  · exact (hlawful.writable m).fitsLine_render

end Wire
end PeerMix
