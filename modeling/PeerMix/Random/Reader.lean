import PeerMix.Random.ChaCha

/-!
# Reading a keystream

A reader hands out the words of a keystream in order.  It produces four blocks
at a time into a buffer and produces the next four when it is asked for words
beyond its end.  Octets are read in whole words: what a read leaves of its last
word is dropped.
-/

namespace PeerMix

structure Reader where
  source : Keystream
  /-- The number of the first block that has not been produced. -/
  counter : UInt64
  /-- The words of the four blocks produced last. -/
  buffer : Vector UInt32 64
  /-- Where the next word stands in the buffer, unless this is its end. -/
  index : Nat
  deriving Repr

namespace Reader

/-- A reader at the end of a buffer that no block has been written to. -/
def ofKeystream (source : Keystream) : Reader :=
  { source, counter := 0, buffer := Vector.replicate 64 0, index := 64 }

/-! ## The buffer -/

def fourBlocks (k : Keystream) (first : UInt64) : Vector UInt32 64 :=
  k.block first ++ k.block (first + 1) ++ k.block (first + 2) ++ k.block (first + 3)

def refill (index : Nat) (r : Reader) : Reader :=
  { r with counter := r.counter + 4, buffer := fourBlocks r.source r.counter, index }

def prepare (r : Reader) : Reader :=
  if r.index < 64 then r else r.refill 0

theorem index_prepare_lt (r : Reader) : r.prepare.index < 64 := by
  unfold prepare
  split
  · assumption
  · exact Nat.zero_lt_succ 63

/-- The number of words read so far, up to the length of the keystream. -/
def position (r : Reader) : Nat :=
  let block := r.counter - 4 + UInt64.ofNat (r.index / 16)
  16 * block.toNat + r.index % 16

/-! ## Words -/

def nextWord (r : Reader) : UInt32 × Reader :=
  let next := r.prepare
  have hindex : next.index < 64 := r.index_prepare_lt
  (next.buffer[next.index], { next with index := next.index + 1 })

def join (low high : UInt32) : UInt64 :=
  (high.toUInt64 <<< 32) ||| low.toUInt64

/-- Two words, the lower one first.  They may be the last one of a buffer and the
first one of the next. -/
def nextDouble (r : Reader) : UInt64 × Reader :=
  if h : r.index < 63 then
    (join r.buffer[r.index] r.buffer[r.index + 1], { r with index := r.index + 2 })
  else if r.index ≥ 64 then
    let next := r.refill 2
    (join next.buffer[0] next.buffer[1], next)
  else
    let next := r.refill 1
    (join r.buffer[63] next.buffer[0], next)

/-! ## Octets -/

def readBuffered (n : Nat) (r : Reader) : Bytes × Reader :=
  let count := min (4 * (64 - r.index)) n
  let used := (count + 3) / 4
  let ws := (r.buffer.toList.drop r.index).take used
  ((ws.flatMap fun w => Bytes.littleEndian 4 w.toNat).take count, { r with index := r.index + used })

theorem length_readBuffered (n : Nat) (r : Reader) :
    (r.readBuffered n).1.length = min (4 * (64 - r.index)) n := by
  simp only [readBuffered, List.length_take, List.length_flatMap, Bytes.length_littleEndian,
    List.map_const', List.sum_replicate_nat, List.length_drop, Vector.length_toList]
  omega

def read (n : Nat) (r : Reader) : Bytes × Reader :=
  if n = 0 then ([], r)
  else
    let first := r.prepare.readBuffered n
    let rest := read (n - first.1.length) first.2
    (first.1 ++ rest.1, rest.2)
termination_by n
decreasing_by
  have hindex := r.index_prepare_lt
  rw [length_readBuffered]
  omega

theorem length_read (n : Nat) (r : Reader) : (r.read n).1.length = n := by
  induction n, r using read.induct with
  | case1 r => rw [read]; rfl
  | case2 n r hn first ih =>
      have hfirst : first.1.length ≤ n := by
        rw [length_readBuffered]
        exact Nat.min_le_right _ _
      rw [read, if_neg hn, List.length_append, ih]
      exact Nat.add_sub_of_le hfirst

def description (r : Reader) : String :=
  s!"Prng \x7b stream: {r.source.stream}, word_pos: {r.position}, .. \x7d"

/-! ## The streams of a seed -/

/-- The number from which on streams hold encapsulation randomness. -/
def encapsulationBase : UInt64 := 0x100000000

def forKeys (seed : Bytes) (run : UInt32) : Reader :=
  ofKeystream { key := seed, stream := run.toUInt64 }

/-- The stream from which the encapsulations of a run are drawn.  It lies apart
from all key streams, so a run that keeps earlier keys still encapsulates with
randomness of its own. -/
def forEncapsulation (seed : Bytes) (run : UInt32) : Reader :=
  ofKeystream { key := seed, stream := encapsulationBase ||| run.toUInt64 }

end Reader
end PeerMix
