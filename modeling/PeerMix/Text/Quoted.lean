import PeerMix.Text.Printable

/-!
# Quoted text

Characters and texts as they appear between quotes in a message: the quote
itself, the backslash and the usual controls after a backslash, and what is not
printable by its code point.
-/

namespace PeerMix
namespace Text

def hexCode (c : Char) : List Char :=
  Nat.toDigits 16 c.toNat

def shown (quote c : Char) : List Char :=
  if c = Char.ofNat 0 then ['\\', '0']
  else if c = '\t' then ['\\', 't']
  else if c = '\r' then ['\\', 'r']
  else if c = '\n' then ['\\', 'n']
  else if c = '\\' ∨ c = quote then ['\\', c]
  else if isPrintable c then [c]
  else ['\\', 'u', '{'] ++ hexCode c ++ ['}']

def quotedChar (c : Char) : String :=
  String.ofList ('\'' :: shown '\'' c ++ ['\''])

def quoted (cs : List Char) : String :=
  String.ofList ('"' :: cs.flatMap (shown '"') ++ ['"'])

end Text
end PeerMix
