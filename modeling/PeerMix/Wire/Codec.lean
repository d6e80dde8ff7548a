import PeerMix.Bytes.Hex
import PeerMix.Json.Document
import PeerMix.Text.Quoted

/-!
# Codecs

A codec writes values of a type as JSON values and reads them back.  Reading
follows the order of the text and stops at its first fault.  Records are read
from objects, whose members may come in any order, and from arrays, which hold
the fields in the order of declaration.
-/

namespace PeerMix
namespace Wire

/-! ## Faults -/

inductive DecodeError
  /-- The text is no JSON document, or a value has the wrong form or range. -/
  | malformed
  | duplicateField (name : String)
  | missingField (name : String)
  | hex (fault : Hex.Error)
  | notElement (text : List Char)
  deriving DecidableEq, Repr

/-- The wording of a hexadecimal fault; the octet at fault is shown as the
character with its code. -/
def hexMessage : Hex.Error → String
  | .oddLength => "Odd number of digits"
  | .invalidDigit octet position =>
      let shown := Text.quotedChar (Char.ofNat octet.toNat)
      s!"Invalid character {shown} at position {position}"

def DecodeError.message? : DecodeError → Option String
  | .malformed => none
  | .duplicateField name => some s!"duplicate field `{name}`"
  | .missingField name => some s!"missing field `{name}`"
  | .hex fault => some (hexMessage fault)
  | .notElement text =>
      let shown := Text.quoted text
      some s!"invalid field element {shown}"

structure Codec (α : Type) where
  write : α → Json
  read : Json → Except DecodeError α

namespace Codec

/-! ## Numbers and truth values -/

def readInteger (low high : Int) : Json → Except DecodeError Int
  | .integer i => if low ≤ i ∧ i ≤ high then .ok i else .error .malformed
  | _ => .error .malformed

def uint32 : Codec UInt32 where
  write n := .integer n.toNat
  read v := (readInteger 0 (UInt32.size - 1) v).map fun i => UInt32.ofNat i.toNat

def uint64 : Codec UInt64 where
  write n := .integer n.toNat
  read v := (readInteger 0 (UInt64.size - 1) v).map fun i => UInt64.ofNat i.toNat

def int64 : Codec Int64 where
  write n := .integer n.toInt
  read v := (readInteger Int64.minValue.toInt Int64.maxValue.toInt v).map Int64.ofInt

def bool : Codec Bool where
  write b := .bool b
  read
    | .bool b => .ok b
    | _ => .error .malformed

/-! ## Texts -/

def readText : Json → Except DecodeError (List Char)
  | .text cs => .ok cs
  | _ => .error .malformed

def text : Codec (List Char) where
  write cs := .text cs
  read := readText

def readBytes (cs : List Char) : Except DecodeError Bytes :=
  (Hex.decode cs).mapError .hex

def bytes : Codec Bytes where
  write bs := .text (Hex.encode bs)
  read v := readText v >>= readBytes

def readElement (cs : List Char) : Except DecodeError Nat :=
  match Hex.toNat? cs with
  | some n => .ok n
  | none => .error (.notElement cs)

/-! ## Lists -/

def readItems {α : Type} (read : Json → Except DecodeError α) :
    Json → Except DecodeError (List α)
  | .array items closed => do
      let values ← items.mapM read
      if closed then .ok values else .error .malformed
  | _ => .error .malformed

def list {α : Type} (item : Codec α) : Codec (List α) where
  write values := .ofArray (values.map item.write)
  read := readItems item.read

/-- Lists of byte strings.  All texts are read before the first one is
decoded. -/
def bytesList : Codec (List Bytes) where
  write values := .ofArray (values.map bytes.write)
  read v := do
    let texts ← readItems readText v
    texts.mapM readBytes

def writeElement (n : Nat) : Json :=
  .text (Hex.ofNat n)

/-- Lists of field elements.  All texts are read before the first one is
decoded. -/
def elements : Codec (List Nat) where
  write values := .ofArray (values.map writeElement)
  read v := do
    let texts ← readItems readText v
    texts.mapM readElement

def elementsList : Codec (List (List Nat)) where
  write values := .ofArray (values.map elements.write)
  read v := do
    let texts ← readItems (readItems readText) v
    texts.mapM fun row => row.mapM readElement

def nullable {α : Type} (value : Codec α) : Codec (Option α) where
  write
    | none => .null
    | some a => value.write a
  read
    | .null => .ok none
    | v => (value.read v).map some

end Codec

/-! ## Records -/

structure Field (α : Type) where
  name : String
  codec : Codec α
  /-- The value of a field that is missing; without one the field is required. -/
  default? : Option α
  /-- Whether a value is left out when it is written. -/
  omits : α → Bool

/-- The fields of a record in order.  The record is the nested pair of their
values; while it is read, each of them may still be missing. -/
inductive Fields : (ρ seen : Type) → Type 1
  | nil : Fields Unit Unit
  | cons {α β σ : Type} (field : Field α) (rest : Fields β σ) : Fields (α × β) (Option α × σ)

namespace Fields

def required {α β σ : Type} (name : String) (codec : Codec α) (rest : Fields β σ) :
    Fields (α × β) (Option α × σ) :=
  .cons { name, codec, default? := none, omits := fun _ => false } rest

def optional {α β σ : Type} (name : String) (codec : Codec α) (default : α)
    (rest : Fields β σ) : Fields (α × β) (Option α × σ) :=
  .cons { name, codec, default? := some default, omits := fun _ => false } rest

def omittable {α β σ : Type} (name : String) (codec : Codec α) (rest : Fields β σ) :
    Fields (Option α × β) (Option (Option α) × σ) :=
  .cons { name, codec := codec.nullable, default? := some none, omits := Option.isNone } rest

/-! ## Writing -/

def members {ρ σ : Type} : Fields ρ σ → ρ → List (List Char × Json)
  | .nil, _ => []
  | .cons field rest, (a, more) =>
      if field.omits a then members rest more
      else (field.name.toList, field.codec.write a) :: members rest more

/-! ## Reading objects -/

def unseen {ρ σ : Type} : Fields ρ σ → σ
  | .nil => ()
  | .cons _ rest => (none, unseen rest)

/-- Takes a value in.  Unknown names do not count. -/
def accept {ρ σ : Type} (fields : Fields ρ σ) (seen : σ) (key : List Char) (v : Json) :
    Except DecodeError σ :=
  match fields, seen with
  | .nil, _ => .ok ()
  | .cons field rest, (seen, more) =>
      if key = field.name.toList then
        match seen with
        | some _ => .error (.duplicateField field.name)
        | none => (field.codec.read v).map fun a => (some a, more)
      else (accept rest more key v).map fun more => (seen, more)

def finish {ρ σ : Type} : Fields ρ σ → σ → Except DecodeError ρ
  | .nil, _ => .ok ()
  | .cons field rest, (seen, more) =>
      match seen.or field.default? with
      | none => .error (.missingField field.name)
      | some a => (finish rest more).map fun more => (a, more)

def acceptMember {ρ σ : Type} (fields : Fields ρ σ) (seen : σ) :
    Json.Member → Except DecodeError σ
  | (some key, v) => fields.accept seen key v
  | (none, _) => .error .malformed

def readMembers {ρ σ : Type} (fields : Fields ρ σ) (members : List Json.Member)
    (closed : Bool) : Except DecodeError ρ := do
  let seen ← members.foldlM fields.acceptMember fields.unseen
  if closed then fields.finish seen else .error .malformed

/-! ## Reading arrays -/

/-- The record whose fields are the items in order.  Only fields that may be
missing can be missing at the end. -/
def readItems {ρ σ : Type} : Fields ρ σ → List Json → (closed : Bool) →
    Except DecodeError ρ
  | .nil, [], true => .ok ()
  | .nil, _, _ => .error .malformed
  | .cons field rest, [], closed =>
      match field.default? with
      | some a =>
          if closed then (readItems rest [] closed).map fun more => (a, more)
          else .error .malformed
      | none => .error .malformed
  | .cons field rest, v :: vs, closed => do
      let a ← field.codec.read v
      let more ← readItems rest vs closed
      return (a, more)

end Fields

def Codec.record {α ρ σ : Type} (fields : Fields ρ σ) (toRecord : α → ρ)
    (ofRecord : ρ → α) : Codec α where
  write a := .ofObject (fields.members (toRecord a))
  read
    | .object members closed => (fields.readMembers members closed).map ofRecord
    | .array items closed => (fields.readItems items closed).map ofRecord
    | _ => .error .malformed

/-! ## Texts of messages -/

def Codec.encode {α : Type} (c : Codec α) (a : α) : List Char :=
  (c.write a).render

/-- Reads a text that holds one value and nothing else. -/
def Codec.decode {α : Type} (c : Codec α) (cs : List Char) : Except DecodeError α := do
  let document := Json.read cs
  let a ← c.read document.root
  if document.complete then .ok a else .error .malformed

end Wire
end PeerMix
