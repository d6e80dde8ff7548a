import PeerMix.Bytes

/-!
# UTF-8

Characters to octets and back.  Reading stops at the first octet that cannot
continue a well-formed text and tells how many octets up to it form the
beginning of a character; at the end of the input the character is incomplete.
-/

namespace PeerMix
namespace Utf8

def encode (cs : List Char) : Bytes :=
  cs.flatMap String.utf8EncodeChar

inductive Error
  | invalid (length index : Nat)
  | incomplete (index : Nat)
  deriving DecidableEq, Repr

def Error.message : Error → String
  | .invalid length index =>
      s!"invalid utf-8 sequence of {length} bytes from index {index}"
  | .incomplete index =>
      s!"incomplete utf-8 byte sequence from index {index}"

def isTail (b : UInt8) : Bool :=
  0x80 ≤ b && b ≤ 0xBF

/-- The second octets that may follow a leading octet of a three octet
character: neither an overlong form nor a surrogate. -/
def isSecondOfThree (a b : UInt8) : Bool :=
  (if a = 0xE0 then 0xA0 else 0x80) ≤ b && b ≤ (if a = 0xED then 0x9F else 0xBF)

/-- The second octets that may follow a leading octet of a four octet
character: neither an overlong form nor beyond the last code point. -/
def isSecondOfFour (a b : UInt8) : Bool :=
  (if a = 0xF0 then 0x90 else 0x80) ≤ b && b ≤ (if a = 0xF4 then 0x8F else 0xBF)

def bits (b : UInt8) (count : Nat) : Nat :=
  b.toNat % Nat.pow 2 count

/-- Reads characters from position `index` on; `done` holds the earlier ones,
last first. -/
def decodeFrom (index : Nat) (done : List Char) : Bytes → Except Error (List Char)
  | [] => .ok done.reverse
  | a :: rest =>
      if a < 0x80 then
        decodeFrom (index + 1) (Char.ofNat a.toNat :: done) rest
      else if a < 0xC2 || 0xF4 < a then
        .error (.invalid 1 index)
      else if a < 0xE0 then
        match rest with
        | [] => .error (.incomplete index)
        | b :: rest =>
            if isTail b then
              decodeFrom (index + 2) (Char.ofNat (64 * bits a 5 + bits b 6) :: done) rest
            else .error (.invalid 1 index)
      else if a < 0xF0 then
        match rest with
        | [] => .error (.incomplete index)
        | [b] =>
            .error (if isSecondOfThree a b then .incomplete index else .invalid 1 index)
        | b :: c :: rest =>
            if !isSecondOfThree a b then .error (.invalid 1 index)
            else if !isTail c then .error (.invalid 2 index)
            else
              decodeFrom (index + 3)
                (Char.ofNat (4096 * bits a 4 + 64 * bits b 6 + bits c 6) :: done) rest
      else
        match rest with
        | [] => .error (.incomplete index)
        | [b] =>
            .error (if isSecondOfFour a b then .incomplete index else .invalid 1 index)
        | [b, c] =>
            .error
              (if !isSecondOfFour a b then .invalid 1 index
              else if isTail c then .incomplete index
              else .invalid 2 index)
        | b :: c :: d :: rest =>
            if !isSecondOfFour a b then .error (.invalid 1 index)
            else if !isTail c then .error (.invalid 2 index)
            else if !isTail d then .error (.invalid 3 index)
            else
              decodeFrom (index + 4)
                (Char.ofNat
                  (262144 * bits a 3 + 4096 * bits b 6 + 64 * bits c 6 + bits d 6) :: done)
                rest

def decode (bs : Bytes) : Except Error (List Char) :=
  decodeFrom 0 [] bs

end Utf8
end PeerMix
