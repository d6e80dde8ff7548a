/-!
# JSON values

Values as they are read and written on the wire.  A reader may have to stop
inside a value, so an array or an object says whether it was closed, and
`broken` stands where no value could be read.  Everything up to that point is
kept in the order of the text: a reader that walks the value in this order meets
the first fault of the text first.
-/

namespace PeerMix

inductive Json
  | null
  | bool (b : Bool)
  | integer (i : Int)
  /-- The number `significand * 10 ^ exponent`, up to its sign: one written with
  a fraction or an exponent, a zero with a minus sign, or an integer of more
  than 64 bits. -/
  | decimal (significand : Nat) (exponent : Int)
  | text (cs : List Char)
  /-- A text with half of a surrogate pair, which stands for no characters. -/
  | loneSurrogate
  | array (items : List Json) (closed : Bool)
  /-- Names and values in order.  A name with half of a surrogate pair stands for
  no characters either. -/
  | object (members : List (Option (List Char) × Json)) (closed : Bool)
  | broken

namespace Json

/-- A member of an object as it is read. -/
abbrev Member := Option (List Char) × Json

def ofArray (items : List Json) : Json :=
  .array items true

def ofObject (members : List (List Char × Json)) : Json :=
  .object (members.map fun (name, v) => (some name, v)) true

/-! ## Compact text -/

def escape (c : Char) : List Char :=
  if c = '"' then ['\\', '"']
  else if c = '\\' then ['\\', '\\']
  else if c = '\n' then ['\\', 'n']
  else if c = '\r' then ['\\', 'r']
  else if c = '\t' then ['\\', 't']
  else if c.toNat = 8 then ['\\', 'b']
  else if c.toNat = 12 then ['\\', 'f']
  else if c.toNat < 32 then
    ['\\', 'u', '0', '0', Nat.digitChar (c.toNat / 16), Nat.digitChar (c.toNat % 16)]
  else [c]

def quoted (cs : List Char) : List Char :=
  '"' :: cs.flatMap escape ++ ['"']

/-- The text of a name; what stands for no characters has none. -/
def renderName (name : Option (List Char)) : List Char :=
  (name.map quoted).getD []

def renderInteger (i : Int) : List Char :=
  if i < 0 then '-' :: Nat.toDigits 10 i.natAbs else Nat.toDigits 10 i.natAbs

mutual

/-- The text of a value without blanks.  What was not read as a value has no
text; numbers with a fraction or an exponent are never written. -/
def render : Json → List Char
  | .null => ['n', 'u', 'l', 'l']
  | .bool true => ['t', 'r', 'u', 'e']
  | .bool false => ['f', 'a', 'l', 's', 'e']
  | .integer i => renderInteger i
  | .text cs => quoted cs
  | .array items _ => '[' :: renderItems items ++ [']']
  | .object members _ => '{' :: renderMembers members ++ ['}']
  | .decimal _ _ | .loneSurrogate | .broken => []

def renderItems : List Json → List Char
  | [] => []
  | [v] => render v
  | v :: w :: vs => render v ++ ',' :: renderItems (w :: vs)

def renderMembers : List (Option (List Char) × Json) → List Char
  | [] => []
  | [(k, v)] => renderName k ++ ':' :: render v
  | (k, v) :: m :: ms => renderName k ++ ':' :: render v ++ ',' :: renderMembers (m :: ms)

end

end Json
end PeerMix
