import PeerMix.Bytes.Hex
import PeerMix.PrimitiveError

/-!
# Slot vectors

A slot vector holds a number of messages of one size, one after the other.  Its
data may come from a peer and need not have the length that its dimensions
call for; `HasDimensions` says that it does.
-/

namespace PeerMix

structure SlotVector where
  slots : Nat
  /-- Octets in a slot. -/
  size : Nat
  data : Bytes
  deriving DecidableEq, Repr

namespace SlotVector

def zero (slots size : Nat) : SlotVector :=
  { slots, size, data := Bytes.zeros (slots * size) }

def HasDimensions (v : SlotVector) (slots size : Nat) : Prop :=
  v.slots = slots ∧ v.size = size ∧ v.data.length = slots * size

instance (v : SlotVector) (slots size : Nat) : Decidable (v.HasDimensions slots size) :=
  inferInstanceAs (Decidable (_ ∧ _ ∧ _))

/-- The octets of slot `i`, as far as the data reaches. -/
def slot (v : SlotVector) (i : Nat) : Bytes :=
  (v.data.drop (i * v.size)).take v.size

def slot? (v : SlotVector) (i : Nat) : Option Bytes :=
  if (i + 1) * v.size ≤ v.data.length then some (v.slot i) else none

/-! ## Text -/

def text? (v : SlotVector) : Option String :=
  if v.slots * v.size ≤ v.data.length then
    let messages := (List.range v.slots).map fun i => Hex.text (v.slot i)
    some ("[" ++ " ".intercalate messages ++ "]")
  else none

def description? (v : SlotVector) : Option String :=
  v.text?.map fun text => s!"DcVec({v.slots}x{v.size} {text})"

/-! ## Exclusive or -/

def xor (v w : SlotVector) : Except PrimitiveError SlotVector :=
  if w.HasDimensions v.slots v.size ∧ v.HasDimensions v.slots v.size then
    .ok { v with data := v.data.xor w.data }
  else .error (.dimensions v.slots v.size w.slots w.size)

/-- Takes `w` into the vector where it stands.  The dimensions of both are looked at
before the first octet is changed. -/
def xorInPlace (w : SlotVector) : EStateM PrimitiveError SlotVector Unit := do
  let v ← get
  unless w.HasDimensions v.slots v.size ∧ v.HasDimensions v.slots v.size do
    throw (.dimensions v.slots v.size w.slots w.size)
  set { v with data := v.data.xor w.data }

/-- The exclusive or of all vectors; there are no slots in that of none. -/
def xorAll : List SlotVector → Except PrimitiveError SlotVector
  | [] => .ok (zero 0 0)
  | v :: vs => (v :: vs).foldlM xor (zero v.slots v.size)

end SlotVector
end PeerMix
