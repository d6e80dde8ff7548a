import PeerMix.Json.Number

/-!
# Tokens

The text of a JSON document is cut into brackets, separators, texts and bare
words; a bare word is a literal or a number.  The list of tokens ends with
`bad` when the text cannot be cut further.
-/

namespace PeerMix
namespace Json

inductive Token
  | openArray
  | closeArray
  | openObject
  | closeObject
  | comma
  | colon
  /-- The contents of a text, unless it holds half of a surrogate pair. -/
  | text (contents : Option (List Char))
  /-- A literal or a number. -/
  | bare (value : Json)
  | bad

/-! ## Bare words -/

def ofBare (cs : List Char) : Token :=
  if cs = ['n', 'u', 'l', 'l'] then .bare .null
  else if cs = ['t', 'r', 'u', 'e'] then .bare (.bool true)
  else if cs = ['f', 'a', 'l', 's', 'e'] then .bare (.bool false)
  else
    match number? cs with
    | some v => .bare v
    | none => .bad

/-! ## Texts -/

/-- A text of which a part has been read.  The characters are held last first;
there are none once half of a surrogate pair has turned up alone. -/
structure Quote where
  contents : Option (List Char)
  /-- The first half of a surrogate pair, when it came last. -/
  half : Option Nat

namespace Quote

def start : Quote :=
  { contents := some [], half := none }

def settled (q : Quote) : Option (List Char) :=
  if q.half.isSome then none else q.contents

def push (q : Quote) (c : Char) : Quote :=
  { contents := q.settled.map (c :: ·), half := none }

def pushUnit (q : Quote) (n : Nat) : Quote :=
  if 0xD800 ≤ n ∧ n ≤ 0xDBFF then { contents := q.settled, half := some n }
  else if 0xDC00 ≤ n ∧ n ≤ 0xDFFF then
    match q.half with
    | some h =>
        let c := Char.ofNat (0x10000 + (h - 0xD800) * 0x400 + (n - 0xDC00))
        { contents := q.contents.map (c :: ·), half := none }
    | none => { contents := none, half := none }
  else q.push (Char.ofNat n)

def finish (q : Quote) : Token :=
  .text (q.settled.map List.reverse)

end Quote

def unescape? (c : Char) : Option Char :=
  if c = '"' ∨ c = '\\' ∨ c = '/' then some c
  else if c = 'b' then some (Char.ofNat 8)
  else if c = 'f' then some (Char.ofNat 12)
  else if c = 'n' then some '\n'
  else if c = 'r' then some '\r'
  else if c = 't' then some '\t'
  else none

def hexValue? (c : Char) : Option Nat :=
  if isDigit c then some (c.toNat - 48)
  else if 'a' ≤ c ∧ c ≤ 'f' then some (c.toNat - 87)
  else if 'A' ≤ c ∧ c ≤ 'F' then some (c.toNat - 55)
  else none

/-! ## Cutting -/

inductive Mode
  | between
  /-- In a bare word, whose characters are held last first. -/
  | bare (done : List Char)
  | quote (q : Quote)
  | backslash (q : Quote)
  /-- In an escape with four digits, of which `left` are still to come. -/
  | digits (q : Quote) (left value : Nat)

def isSpace (c : Char) : Bool :=
  c = ' ' || c = '\n' || c = '\r' || c = '\t'

def punctuation? (c : Char) : Option Token :=
  if c = '[' then some .openArray
  else if c = ']' then some .closeArray
  else if c = '{' then some .openObject
  else if c = '}' then some .closeObject
  else if c = ',' then some .comma
  else if c = ':' then some .colon
  else none

/-- The tokens that end with the text in mode `mode`. -/
def closing : Mode → List Token
  | .between => []
  | .bare done => [ofBare done.reverse]
  | _ => [.bad]

def begin (c : Char) : Mode × List Token :=
  if isSpace c then (.between, [])
  else if c = '"' then (.quote .start, [])
  else
    match punctuation? c with
    | some t => (.between, [t])
    | none => (.bare [c], [])

/-- One character: the next mode and the tokens that it completes, last first,
or nothing when it cannot stand there. -/
def advance : Mode → Char → Option (Mode × List Token)
  | .between, c => some (begin c)
  | .bare done, c =>
      if isSpace c ∨ c = '"' ∨ (punctuation? c).isSome then
        let (mode, tokens) := begin c
        some (mode, tokens ++ [ofBare done.reverse])
      else some (.bare (c :: done), [])
  | .quote q, c =>
      if c = '"' then some (.between, [q.finish])
      else if c = '\\' then some (.backslash q, [])
      else if c.toNat < 32 then none
      else some (.quote (q.push c), [])
  | .backslash q, c =>
      if c = 'u' then some (.digits q 4 0, [])
      else (unescape? c).map fun c => (.quote (q.push c), [])
  | .digits q left value, c =>
      (hexValue? c).map fun d =>
        let value := 16 * value + d
        if left ≤ 1 then (.quote (q.pushUnit value), [])
        else (.digits q (left - 1) value, [])

def tokensFrom (mode : Mode) (done : List Token) : List Char → List Token
  | [] => (closing mode ++ done).reverse
  | c :: cs =>
      match advance mode c with
      | none => (Token.bad :: done).reverse
      | some (mode, more) => tokensFrom mode (more ++ done) cs

def tokens (cs : List Char) : List Token :=
  tokensFrom .between [] cs

end Json
end PeerMix
