import PeerMix.Json

/-!
# Numbers

The numbers that a bare word of a JSON document spells.  Of the digits of a
number those count that keep it within 64 bits; each of the others only moves
the decimal point.
-/

namespace PeerMix
namespace Json

/-! ## Digits -/

def isDigit (c : Char) : Bool :=
  '0' ≤ c && c ≤ '9'

def digitsValue (cs : List Char) : Nat :=
  Nat.ofDigitChars 10 cs 0

/-- Puts digits behind a number as long as it stays within 64 bits: the number,
and the digits that have no room. -/
def appendDigits (n : Nat) : List Char → Nat × List Char
  | [] => (n, [])
  | c :: cs =>
      let longer := Nat.ofDigitChars 10 [c] n
      if longer < UInt64.size then appendDigits longer cs else (n, c :: cs)

/-- Whether the digits of the whole part are some, without a needless zero in
front. -/
def isWhole : List Char → Bool
  | [] => false
  | ['0'] => true
  | '0' :: _ => false
  | cs => cs.all isDigit

/-! ## Parts of a number -/

def fraction? : List Char → Option (List Char × List Char)
  | '.' :: cs =>
      let (digits, rest) := cs.span isDigit
      if digits.isEmpty then none else some (digits, rest)
  | cs => some ([], cs)

def exponent? : List Char → Option Int
  | [] => some 0
  | c :: cs =>
      if c = 'e' ∨ c = 'E' then
        let (negative, digits) :=
          match cs with
          | '-' :: cs => (true, cs)
          | '+' :: cs => (false, cs)
          | cs => (false, cs)
        if digits.isEmpty ∨ !digits.all isDigit then none
        else
          let value : Int := digitsValue digits
          some (if negative then -value else value)
      else none

/-- The integer with the given sign, when 64 bits hold it.  There is no negative
zero among the integers. -/
def integer? (negative : Bool) (n : Nat) : Option Int :=
  if negative then
    if n = 0 ∨ Int64.maxValue.toInt + 1 < n then none else some (-n)
  else some n

def decimalOf (whole places : List Char) (exponent : Int) : Json :=
  let (n, beyond) := appendDigits 0 whole
  let (significand, dropped) := appendDigits n places
  .decimal significand (exponent + beyond.length - (places.length - dropped.length : Nat))

def unsigned? (negative : Bool) (cs : List Char) : Option Json :=
  let (whole, rest) := cs.span isDigit
  if !isWhole whole then none
  else
    match rest, appendDigits 0 whole with
    | [], (n, []) => some (((integer? negative n).map .integer).getD (.decimal n 0))
    | rest, _ =>
        (fraction? rest).bind fun (places, rest) =>
          (exponent? rest).map fun exponent => decimalOf whole places exponent

def number? : List Char → Option Json
  | '-' :: cs => unsigned? true cs
  | cs => unsigned? false cs

/-! ## Range

A number with a fraction or an exponent is the product of its significand and a
power of ten, each of them rounded to a double precision float before they are
multiplied. -/

/-- The double precision float next to `n`; between two of them the even one. -/
def nearestDouble (n : Nat) : Nat :=
  let unit := Nat.pow 2 (n.log2 - 52)
  let units := n / unit
  let excess := 2 * (n % unit)
  if excess < unit ∨ (excess = unit ∧ units % 2 = 0) then units * unit
  else (units + 1) * unit

/-- The least number that rounds to no finite double precision float. -/
def doubleBound : Nat :=
  Nat.pow 2 1024 - Nat.pow 2 970

def maxPowerOfTen : Nat := 308

/-- Whether `significand * 10 ^ exponent` is computed as a finite number. -/
def isFinite (significand : Nat) (exponent : Int) : Bool :=
  if significand = 0 ∨ exponent ≤ 0 then true
  else if maxPowerOfTen < exponent then false
  else
    nearestDouble significand * nearestDouble (Nat.pow 10 exponent.toNat) < doubleBound

end Json
end PeerMix
