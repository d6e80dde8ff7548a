import PeerMix.Text.Utf8

/-!
# Links

A link to the coordinator in virtual time.  What is going to arrive is known
beforehand: octets, pauses, failures.  Time moves only while somebody waits on
the link.  What is sent may be limited to a number of octets.
-/

namespace PeerMix

inductive Arrival
  | octets (bs : Bytes)
  /-- Nothing for some milliseconds, counted from when a reader gets here. -/
  | pause (duration : Nat)
  /-- Nothing any more. -/
  | silence
  /-- The wish of the own side to end the session. -/
  | cancel
  /-- One failed attempt to read. -/
  | failure (text : String)
  deriving DecidableEq, Repr

inductive Blockage
  | stalls
  | fails (text : String)
  deriving DecidableEq, Repr

structure Link where
  /-- The name of the other end. -/
  remote : String
  arrivals : List Arrival
  /-- When the pause ends that stands first, once a reader has got there. -/
  due : Option Nat
  /-- Milliseconds since the beginning. -/
  clock : Nat
  cancelled : Bool
  /-- The octets that have been sent. -/
  sent : Bytes
  /-- How many more can be sent, when there is a limit. -/
  room : Option Nat
  blockage : Blockage
  /-- Why closing fails, when it does. -/
  closingFailure : Option String
  deriving DecidableEq, Repr

namespace Link

def ofArrivals (remote : String) (arrivals : List Arrival) : Link :=
  { remote, arrivals, due := none, clock := 0, cancelled := false, sent := [],
    room := none, blockage := .stalls, closingFailure := none }

/-! ## Lines -/

def newline : UInt8 := 10

/-- The most octets that a line may have, its end included. -/
def maxLine : Nat := 16 * 1024 * 1024

/-- How much of a line some octets hold.  The line is given last octet first. -/
inductive Cut
  /-- All of it, and what follows. -/
  | line (done rest : Bytes)
  /-- The line is full without an end; what follows is the rest. -/
  | full (done rest : Bytes)
  /-- The octets end inside the line, which has room for `left` more. -/
  | open (done : Bytes) (left : Nat)

def cut : (left : Nat) → (done : Bytes) → Bytes → Cut
  | 0, done, rest => .full done rest
  | left, done, [] => .open done left
  | left + 1, done, b :: bs =>
      if b = newline then .line (b :: done) bs else cut left (b :: done) bs

/-! ## Reading -/

inductive Ending
  | line (octets : Bytes)
  | full (octets : Bytes)
  /-- Nothing more can arrive. -/
  | ended (octets : Bytes)
  | failed (text : String)
  | expired
  | cancelled
  deriving DecidableEq, Repr

structure Patience where
  /-- When it gives up, if ever. -/
  deadline : Option Nat
  /-- Whether it gives up on a wish to end the session. -/
  heedsCancel : Bool

/-- What a reader does when nothing arrives before `until?`: how it ends, if it
does, and when.  A deadline that has come counts before a wish to end the
session. -/
def Patience.wait (p : Patience) (cancelled : Bool) (clock : Nat) (until? : Option Nat) :
    Option Ending × Nat :=
  if p.deadline.any (· ≤ clock) then (some .expired, clock)
  else if p.heedsCancel && cancelled then (some .cancelled, clock)
  else
    match p.deadline, until? with
    | none, none => (some (.ended []), clock)
    | none, some t => (none, max clock t)
    | some d, none => (some .expired, max clock d)
    | some d, some t =>
        if d < t then (some .expired, max clock d) else (none, max clock t)

def putBack (rest : Bytes) (arrivals : List Arrival) : List Arrival :=
  if rest.isEmpty then arrivals else .octets rest :: arrivals

/-- Reads on a line of which `done` has been read, last octet first, with room
for `left` more. -/
def readFrom (p : Patience) (left : Nat) (done : Bytes) (link : Link) :
    (arrivals : List Arrival) → Ending × Link
  | [] => (.ended done.reverse, { link with arrivals := [] })
  | .octets bs :: more =>
      match cut left done bs with
      | .line done rest => (.line done.reverse, { link with arrivals := putBack rest more })
      | .full done rest => (.full done.reverse, { link with arrivals := putBack rest more })
      | .open done left => readFrom p left done link more
  | .pause duration :: more =>
      let due := link.due.getD (link.clock + duration)
      if due ≤ link.clock then readFrom p left done { link with due := none } more
      else
        match p.wait link.cancelled link.clock (some due) with
        | (some ending, clock) =>
            (ending, { link with arrivals := .pause duration :: more, due := some due, clock })
        | (none, clock) => readFrom p left done { link with due := none, clock } more
  | .silence :: more =>
      match p.wait link.cancelled link.clock none with
      | (some ending, clock) => (ending, { link with arrivals := .silence :: more, clock })
      | (none, clock) => (.expired, { link with arrivals := .silence :: more, clock })
  | .cancel :: more => readFrom p left done { link with cancelled := true } more
  | .failure text :: more => (.failed text, { link with arrivals := more })

/-- Reads a line.  What has been read of a line that is not finished is lost. -/
def readLine (p : Patience) (link : Link) : Ending × Link :=
  readFrom p maxLine [] link link.arrivals

/-! ## Sending and closing -/

inductive Sending
  | sent
  | stalled
  | failed (text : String)
  deriving DecidableEq, Repr

def send (bs : Bytes) (limit : Nat) (link : Link) : Sending × Link :=
  match link.room with
  | none => (.sent, { link with sent := link.sent ++ bs })
  | some room =>
      if bs.length ≤ room then
        (.sent, { link with sent := link.sent ++ bs, room := some (room - bs.length) })
      else
        let full := { link with sent := link.sent ++ bs.take room, room := some 0 }
        match link.blockage with
        | .stalls => (.stalled, { full with clock := link.clock + limit })
        | .fails text => (.failed text, full)

def close (link : Link) : Except String Unit :=
  match link.closingFailure with
  | none => .ok ()
  | some text => .error text

end Link
end PeerMix
