import PeerMix.Json.Token

/-!
# Documents

The value that a list of tokens spells.  The reader keeps the containers it is
in, innermost first, so it needs no recursion on the nesting of the text.  At
the first token that cannot stand where it does, the containers are given up
as they are.
-/

namespace PeerMix
namespace Json

/-- A container around the one being read: the items or members before it, last
first. -/
inductive Outer
  | array (done : List Json)
  | object (done : List Member) (key : Option (List Char))

inductive Place
  /-- Before the value of the whole text. -/
  | start
  | item (first : Bool) (done : List Json)
  | itemEnd (done : List Json)
  | key (first : Bool) (done : List Member)
  | colon (done : List Member) (key : Option (List Char))
  | member (done : List Member) (key : Option (List Char))
  | memberEnd (done : List Member)
  /-- After the value of the whole text. -/
  | finished (root : Json)

abbrev Reading := Place × List Outer

structure Document where
  root : Json
  complete : Bool

/-! ## Values -/

def deliver (v : Json) : List Outer → Reading
  | [] => (.finished v, [])
  | .array done :: outer => (.itemEnd (v :: done), outer)
  | .object done key :: outer => (.memberEnd ((key, v) :: done), outer)

def containers? : Reading → Option (List Outer)
  | (.start, outer) => some outer
  | (.item _ done, outer) => some (.array done :: outer)
  | (.member done key, outer) => some (.object done key :: outer)
  | _ => none

/-! ## Tokens -/

def Reading.next? (r : Reading) : Token → Option Reading
  | .openArray => (containers? r).map fun outer => (.item true [], outer)
  | .openObject => (containers? r).map fun outer => (.key true [], outer)
  | .closeArray =>
      match r with
      | (.item true done, outer) | (.itemEnd done, outer) =>
          some (deliver (.array done.reverse true) outer)
      | _ => none
  | .closeObject =>
      match r with
      | (.key true done, outer) | (.memberEnd done, outer) =>
          some (deliver (.object done.reverse true) outer)
      | _ => none
  | .comma =>
      match r with
      | (.itemEnd done, outer) => some (.item false done, outer)
      | (.memberEnd done, outer) => some (.key false done, outer)
      | _ => none
  | .colon =>
      match r with
      | (.colon done key, outer) => some (.member done key, outer)
      | _ => none
  | .text contents =>
      match r with
      | (.key _ done, outer) => some (.colon done contents, outer)
      | r =>
          (containers? r).map
            (deliver (match contents with | some cs => .text cs | none => .loneSurrogate))
  | .bare v => (containers? r).map (deliver v)
  | .bad => none

def Place.given : Place → Json
  | .start => .broken
  | .item _ done | .itemEnd done => .array done.reverse false
  | .key _ done | .memberEnd done => .object done.reverse false
  | .colon done name | .member done name =>
      .object (((name, .broken) :: done).reverse) false
  | .finished root => root

def giveUp (v : Json) : List Outer → Json
  | [] => v
  | .array done :: outer => giveUp (.array (v :: done).reverse false) outer
  | .object done key :: outer => giveUp (.object ((key, v) :: done).reverse false) outer

def Reading.given (r : Reading) : Json :=
  giveUp r.1.given r.2

def documentFrom (r : Reading) : List Token → Document
  | [] =>
      match r.1 with
      | .finished root => { root, complete := true }
      | _ => { root := r.given, complete := false }
  | t :: ts =>
      match r.next? t with
      | some r => documentFrom r ts
      | none => { root := r.given, complete := false }

def document (ts : List Token) : Document :=
  documentFrom (.start, []) ts

def read (cs : List Char) : Document :=
  document (tokens cs)

/-! ## Strict reading

A document is read strictly when all of it counts: texts must stand for
characters, numbers must be finite, and containers must not be nested too
deeply. -/

def Token.isStrict : Token → Bool
  | .text none => false
  | .bare (.decimal significand exponent) => isFinite significand exponent
  | _ => true

def depthLimit : Nat := 127

/-- Whether no container lies deeper than the limit, from `depth` on. -/
def isShallow (depth : Nat) : List Token → Bool
  | [] => true
  | .openArray :: ts | .openObject :: ts =>
      depth < depthLimit && isShallow (depth + 1) ts
  | .closeArray :: ts | .closeObject :: ts => isShallow (depth - 1) ts
  | _ :: ts => isShallow depth ts

/-- The value of a complete document in which everything counts. -/
def readStrict? (cs : List Char) : Option Json :=
  let ts := tokens cs
  let d := document ts
  if d.complete ∧ isShallow 0 ts ∧ ts.all Token.isStrict then some d.root else none

end Json
end PeerMix
