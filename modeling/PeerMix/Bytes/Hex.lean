import PeerMix.Text.Utf8

/-!
# Hexadecimal text

Byte strings are written as pairs of lowercase digits, natural numbers without
leading zeros.  Both are read in either case.  A field element may also carry
one plus sign in front and underscores between its digits.
-/

namespace PeerMix
namespace Hex

def digit (n : Nat) : Char :=
  if n < 10 then Char.ofNat (48 + n) else Char.ofNat (87 + n)

def digitValue? (n : Nat) : Option Nat :=
  if 48 ≤ n ∧ n ≤ 57 then some (n - 48)
  else if 97 ≤ n ∧ n ≤ 102 then some (n - 87)
  else if 65 ≤ n ∧ n ≤ 70 then some (n - 55)
  else none

/-! ## Byte strings -/

def encodeByte (b : UInt8) : List Char :=
  [digit (b.toNat / 16), digit (b.toNat % 16)]

def encode (bs : Bytes) : List Char :=
  bs.flatMap encodeByte

def text (bs : Bytes) : String :=
  String.ofList (encode bs)

/-- Why a text is not the hexadecimal form of a byte string.  Positions count
octets of the UTF-8 form, and the octet found there is shown as the character
with that code. -/
inductive Error
  | oddLength
  | invalidDigit (octet : UInt8) (position : Nat)
  deriving DecidableEq, Repr

def decodeOctets (position : Nat) (done : Bytes) : Bytes → Except Error Bytes
  | [] => .ok done.reverse
  | [_] => .error .oddLength
  | high :: low :: rest =>
      match digitValue? high.toNat, digitValue? low.toNat with
      | some h, some l =>
          decodeOctets (position + 2) (UInt8.ofNat (16 * h + l) :: done) rest
      | none, _ => .error (.invalidDigit high position)
      | some _, none => .error (.invalidDigit low (position + 1))

/-- An odd number of octets is reported before any invalid digit. -/
def decode (cs : List Char) : Except Error Bytes :=
  let octets := Utf8.encode cs
  if octets.length % 2 = 1 then .error .oddLength
  else decodeOctets 0 [] octets

/-! ## Natural numbers -/

def ofNat (n : Nat) : List Char :=
  Nat.toDigits 16 n

def natText (n : Nat) : String :=
  String.ofList (ofNat n)

/-- Reads digits most significant first and passes over underscores. -/
def readDigits (n : Nat) : List Char → Option Nat
  | [] => some n
  | c :: cs =>
      if c = '_' then readDigits n cs
      else
        match digitValue? c.toNat with
        | some d => readDigits (16 * n + d) cs
        | none => none

def readUnsigned : List Char → Option Nat
  | [] => none
  | c :: cs => if c = '_' then none else readDigits 0 (c :: cs)

/-- Reads a natural number after at most one plus sign. -/
def toNat? : List Char → Option Nat
  | '+' :: cs => readUnsigned cs
  | cs => readUnsigned cs

end Hex
end PeerMix
