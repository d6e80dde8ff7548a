import PeerMix.Proofs.Random.ChaCha20
import PeerMix.Random.Reader

/-!
# Reads and positions

What a reader hands out depends on nothing but its keystream and the number of
words read before.  The words that it has not read of its buffer are those from
its position up to the end of the last four blocks, so a read that goes past this
end continues with the next word of the keystream like any other.
-/

namespace PeerMix

/-!
## Parts of a keystream
-/

namespace Keystream

/-- The `n` words from word `first` on. -/
def wordsFrom (k : Keystream) (first n : Nat) : List UInt32 :=
  (List.range n).map fun i => k.word (first + i)

def octet (k : Keystream) (i : Nat) : UInt8 :=
  UInt8.ofBitVec ((k.word (i / 4)).toBitVec.extractLsb' (8 * (i % 4)) 8)

/-- The `n` octets from octet `first` on. -/
def octetsFrom (k : Keystream) (first n : Nat) : Bytes :=
  (List.range n).map fun i => k.octet (first + i)

variable (k : Keystream)

theorem map_range_add {α : Type} (f : Nat -> α) (first m n : Nat) :
    (List.range (m + n)).map (fun i => f (first + i)) =
      (List.range m).map (fun i => f (first + i)) ++
        (List.range n).map fun i => f (first + m + i) := by
  rw [List.range_add, List.map_append, List.map_map]
  congr 2
  funext i
  exact congrArg f (Nat.add_assoc first m i).symm

theorem wordsFrom_add (first m n : Nat) :
    k.wordsFrom first (m + n) = k.wordsFrom first m ++ k.wordsFrom (first + m) n :=
  map_range_add k.word first m n

theorem octetsFrom_add (first m n : Nat) :
    k.octetsFrom first (m + n) = k.octetsFrom first m ++ k.octetsFrom (first + m) n :=
  map_range_add k.octet first m n

theorem length_wordsFrom (first n : Nat) : (k.wordsFrom first n).length = n := by
  simp [wordsFrom]

theorem length_octetsFrom (first n : Nat) : (k.octetsFrom first n).length = n := by
  simp [octetsFrom]

theorem take_wordsFrom (first : Nat) {m n : Nat} (h : m ≤ n) :
    (k.wordsFrom first n).take m = k.wordsFrom first m := by
  rcases Nat.exists_eq_add_of_le h with ⟨rest, rfl⟩
  rw [wordsFrom_add, List.take_left' (k.length_wordsFrom first m)]

theorem take_octetsFrom (first : Nat) {m n : Nat} (h : m ≤ n) :
    (k.octetsFrom first n).take m = k.octetsFrom first m := by
  rcases Nat.exists_eq_add_of_le h with ⟨rest, rfl⟩
  rw [octetsFrom_add, List.take_left' (k.length_octetsFrom first m)]

theorem littleEndian_toNat (w : UInt32) :
    Bytes.littleEndian 4 w.toNat =
      (List.range 4).map fun j => UInt8.ofBitVec (w.toBitVec.extractLsb' (8 * j) 8) := by
  have hplace (j : Nat) : UInt8.ofBitVec (w.toBitVec.extractLsb' (8 * j) 8) =
      UInt8.ofNat (w.toNat / 2 ^ (8 * j)) := by
    apply UInt8.toNat_inj.mp
    simp [Nat.shiftRight_eq_div_pow]
  simp [hplace, Bytes.littleEndian, List.range_succ, Nat.div_div_eq_div_mul]

/-- The octets of a word are four octets of the keystream. -/
theorem littleEndian_word (i : Nat) :
    Bytes.littleEndian 4 (k.word i).toNat = k.octetsFrom (4 * i) 4 := by
  rw [littleEndian_toNat, octetsFrom]
  refine List.map_congr_left fun j hj => ?_
  have hj := List.mem_range.mp hj
  have hword : (4 * i + j) / 4 = i := by omega
  have hplace : (4 * i + j) % 4 = j := by omega
  rw [octet, hword, hplace]

theorem flatMap_wordsFrom (first n : Nat) :
    (k.wordsFrom first n).flatMap (fun w => Bytes.littleEndian 4 w.toNat) =
      k.octetsFrom (4 * first) (4 * n) := by
  induction n with
  | zero => rfl
  | succ n ih =>
      rw [wordsFrom_add, List.flatMap_append, ih, Nat.mul_succ, octetsFrom_add, ← Nat.mul_add,
        ← littleEndian_word]
      exact congrArg (k.octetsFrom (4 * first) (4 * n) ++ ·) (List.append_nil _)

theorem getElem_block (n i : Nat) (hi : i < 16) :
    (k.block (UInt64.ofNat n))[i] = k.word (16 * n + i) := by
  have hnumber : (16 * n + i) / 16 = n := by omega
  have hplace : (16 * n + i) % 16 = i := by omega
  simp only [word, hnumber, hplace]

theorem octetsFrom_eq (hkey : k.key.length = 32) (first n : Nat) :
    k.octetsFrom first n =
      (List.range n).map fun i => ChaCha20.octet k.key k.stream.toBitVec (first + i) := by
  simp only [octetsFrom, octet, ChaCha20.octet, k.toBitVec_word hkey]

theorem toList_block (n : Nat) :
    (k.block (UInt64.ofNat n)).toList = k.wordsFrom (16 * n) 16 := by
  apply List.ext_getElem
  · rw [length_wordsFrom, Vector.length_toList]
  · intro i hi _
    have hi : i < 16 := by simpa using hi
    simpa [wordsFrom] using k.getElem_block n i hi

end Keystream

/-!
## The buffer
-/

namespace Reader

theorem getElem_fourBlocks (k : Keystream) (n i : Nat) (hi : i < 64) :
    (fourBlocks k (UInt64.ofNat (4 * n)))[i] = k.word (64 * n + i) := by
  have hnext (j : Nat) : UInt64.ofNat (4 * n) + UInt64.ofNat j = UInt64.ofNat (4 * n + j) :=
    (UInt64.ofNat_add _ _).symm
  show (k.block (UInt64.ofNat (4 * n)) ++ k.block (UInt64.ofNat (4 * n) + UInt64.ofNat 1) ++
    k.block (UInt64.ofNat (4 * n) + UInt64.ofNat 2) ++
      k.block (UInt64.ofNat (4 * n) + UInt64.ofNat 3))[i] = _
  simp only [hnext, Vector.getElem_append, Keystream.getElem_block]
  split
  · split
    · split
      · congr 1
        omega
      · congr 1
        omega
    · congr 1
      omega
  · congr 1
    omega

/-- Whether a reader of `k` has handed out `position` words.  What it has not read of
its buffer are the next words, and with them all blocks produced so far are used up. -/
structure At (r : Reader) (k : Keystream) (position : Nat) : Prop where
  source : r.source = k
  index_le : r.index ≤ 64
  produced : exists refills,
    r.counter = UInt64.ofNat (4 * refills) ∧ position + 64 = 64 * refills + r.index
  buffered : forall i (hi : i < 64), r.index ≤ i ->
    r.buffer[i] = k.word (position + (i - r.index))

theorem at_ofKeystream (k : Keystream) : (ofKeystream k).At k 0 := by
  refine ⟨rfl, Nat.le_refl 64, ⟨0, rfl, rfl⟩, ?_⟩
  intro i hi hindex
  exact absurd hi (Nat.not_lt.mpr hindex)

section At

variable {r : Reader} {k : Keystream} {position : Nat} (h : r.At k position)
include h

theorem At.position_eq : r.position = position % ChaCha20.period := by
  rcases h.produced with ⟨refills, hcounter, hproduced⟩
  have hindex := h.index_le
  have hblock : (UInt64.ofNat (4 * refills) - 4 + UInt64.ofNat (r.index / 16)).toNat =
      position / 16 % UInt64.size := by
    rw [UInt64.toNat_add, UInt64.toNat_sub, UInt64.toNat_ofNat', UInt64.toNat_ofNat']
    show ((18446744073709551616 - 4 + 4 * refills % 18446744073709551616) % 18446744073709551616 +
      r.index / 16 % 18446744073709551616) % 18446744073709551616 =
        position / 16 % 18446744073709551616
    omega
  have hplace : r.index % 16 = position % 16 := by omega
  rw [Reader.position, hcounter]
  show 16 * (UInt64.ofNat (4 * refills) - 4 + UInt64.ofNat (r.index / 16)).toNat + _ = _
  rw [hblock, hplace, ChaCha20.period, Nat.mod_mul, Nat.add_comm]

theorem At.description_eq :
    r.description =
      s!"Prng \x7b stream: {k.stream}, word_pos: {position % ChaCha20.period}, .. \x7d" := by
  unfold Reader.description
  rw [h.source, h.position_eq]

/-- Going on in the next four blocks leaves out what is left of the buffer. -/
theorem At.refill {index : Nat} (hindex : index ≤ 64) :
    (r.refill index).At k (position + (64 - r.index) + index) := by
  rcases h.produced with ⟨refills, hcounter, hproduced⟩
  have hle := h.index_le
  have hstart : position + (64 - r.index) = 64 * refills := by omega
  refine ⟨h.source, hindex, ⟨refills + 1, ?_, ?_⟩, ?_⟩
  · show r.counter + 4 = _
    rw [hcounter, Nat.mul_succ]
    exact (UInt64.ofNat_add _ _).symm
  · show _ = 64 * (refills + 1) + index
    omega
  · intro i hi hskipped
    have hplace : 64 * refills + index + (i - index) = 64 * refills + i := by
      have hskipped : index ≤ i := hskipped
      omega
    show (fourBlocks r.source r.counter)[i] = k.word (_ + (i - index))
    simp only [h.source, hcounter, hstart, hplace, getElem_fourBlocks]

/-- At the end of the buffer nothing is left out. -/
theorem At.refill_end {index : Nat} (hindex : index ≤ 64) (hfull : ¬ r.index < 64) :
    (r.refill index).At k (position + index) := by
  have hend : position + (64 - r.index) = position := by omega
  have hnext := h.refill hindex
  rw [hend] at hnext
  exact hnext

theorem At.prepare : r.prepare.At k position := by
  unfold Reader.prepare
  split
  · exact h
  · next hfull => exact h.refill_end (Nat.zero_le 64) hfull

theorem At.skip {n : Nat} (hn : r.index + n ≤ 64) :
    ({ r with index := r.index + n } : Reader).At k (position + n) := by
  rcases h.produced with ⟨refills, hcounter, hproduced⟩
  refine ⟨h.source, hn, ⟨refills, hcounter, ?_⟩, ?_⟩
  · show position + n + 64 = 64 * refills + (r.index + n)
    omega
  · intro i hi hskipped
    have hskipped : r.index + n ≤ i := hskipped
    have hplace : position + (i - r.index) = position + n + (i - (r.index + n)) := by omega
    exact (h.buffered i hi (Nat.le_of_add_right_le hskipped)).trans (congrArg k.word hplace)

theorem At.getElem_buffer (i : Nat) (hi : r.index + i < 64) :
    r.buffer[r.index + i] = k.word (position + i) := by
  have hword := h.buffered (r.index + i) hi (Nat.le_add_right _ _)
  rw [Nat.add_sub_cancel_left] at hword
  exact hword

theorem At.getElem_refill (index i : Nat) (hi : i < 64) :
    (r.refill index).buffer[i] = k.word (position + (64 - r.index) + i) :=
  (h.refill (Nat.zero_le 64)).buffered i hi (Nat.zero_le i)

/-!
## Words
-/

theorem At.nextWord : r.nextWord.1 = k.word position ∧ r.nextWord.2.At k (position + 1) := by
  have hready := h.prepare
  have hroom := r.index_prepare_lt
  refine ⟨?_, hready.skip hroom⟩
  exact hready.getElem_buffer 0 hroom

omit h in
theorem toBitVec_join (low high : UInt32) :
    (join low high).toBitVec = high.toBitVec ++ low.toBitVec := by
  apply BitVec.eq_of_toNat_eq
  rw [BitVec.toNat_append]
  have hhigh : high.toNat < 4294967296 := high.toNat_lt
  show (high.toUInt64 <<< 32 ||| low.toUInt64).toNat = high.toNat <<< 32 ||| low.toNat
  rw [UInt64.toNat_or, UInt64.toNat_shiftLeft, UInt32.toNat_toUInt64, UInt32.toNat_toUInt64]
  show high.toNat <<< 32 % 18446744073709551616 ||| _ = _
  rw [Nat.shiftLeft_eq, Nat.mod_eq_of_lt (by omega)]

theorem At.nextDouble :
    r.nextDouble.1 = join (k.word position) (k.word (position + 1)) ∧
      r.nextDouble.2.At k (position + 2) := by
  have hle := h.index_le
  unfold Reader.nextDouble
  split
  · next hroom =>
      have hlow := h.getElem_buffer 0 (by omega)
      have hhigh := h.getElem_buffer 1 (by omega)
      exact ⟨congrArg₂ join hlow hhigh, h.skip (by omega)⟩
  · next hroom =>
      split
      · next hfull =>
          have hend : position + (64 - r.index) = position := by omega
          have hlow := h.getElem_refill 2 0 (by decide)
          have hhigh := h.getElem_refill 2 1 (by decide)
          have hlast := h.refill (show 2 ≤ 64 by decide)
          rw [hend] at hlow hhigh hlast
          exact ⟨congrArg₂ join hlow hhigh, hlast⟩
      · next hlast =>
          have hindex : r.index = 63 := by omega
          have hend : position + (64 - r.index) = position + 1 := by omega
          have hlow := h.buffered 63 (by decide) (Nat.le_of_eq hindex)
          have hhigh := h.getElem_refill 1 0 (by decide)
          have hnext := h.refill (show 1 ≤ 64 by decide)
          rw [hindex, Nat.sub_self] at hlow
          rw [hend] at hhigh hnext
          exact ⟨congrArg₂ join hlow hhigh, hnext⟩

/-!
## Octets
-/

theorem At.drop_buffer :
    r.buffer.toList.drop r.index = k.wordsFrom position (64 - r.index) := by
  apply List.ext_getElem
  · rw [List.length_drop, Vector.length_toList, Keystream.length_wordsFrom]
  · intro i hi _
    have hi : r.index + i < 64 := by simpa [Nat.lt_sub_iff_add_lt'] using hi
    simpa [Keystream.wordsFrom] using h.getElem_buffer i hi

theorem At.readBuffered (n : Nat) :
    let count := min (4 * (64 - r.index)) n
    (r.readBuffered n).1 = k.octetsFrom (4 * position) count ∧
      (r.readBuffered n).2.At k (position + (count + 3) / 4) := by
  intro count
  have hindex := h.index_le
  have hused : (count + 3) / 4 ≤ 64 - r.index := by omega
  refine ⟨?_, h.skip (by omega)⟩
  show (((r.buffer.toList.drop r.index).take ((count + 3) / 4)).flatMap _).take count = _
  rw [h.drop_buffer, Keystream.take_wordsFrom _ _ hused, Keystream.flatMap_wordsFrom,
    Keystream.take_octetsFrom _ _ (by omega)]

end At

/-- Octets are read from the beginning of a word on, whatever was left of the word
before. -/
theorem At.read {r : Reader} {k : Keystream} {position : Nat} (h : r.At k position) (n : Nat) :
    (r.read n).1 = k.octetsFrom (4 * position) n ∧
      (r.read n).2.At k (position + (n + 3) / 4) := by
  fun_induction Reader.read n r generalizing position
  case case1 => exact ⟨rfl, h⟩
  case case2 n r hn first rest ih =>
    rcases h.prepare.readBuffered n with ⟨hfirst, hnext⟩
    have hrest : rest.1 = _ := (ih hnext).left
    have hlast : rest.2.At k _ := (ih hnext).right
    have hlength : first.1.length = min (4 * (64 - r.prepare.index)) n :=
      length_readBuffered n r.prepare
    rw [hlength] at hrest hlast
    show first.1 ++ rest.1 = _ ∧ rest.2.At k _
    rw [hfirst, hrest]
    -- Either the buffer holds all that is left to read, or it is read to its end.
    by_cases hshort : n ≤ 4 * (64 - r.prepare.index)
    · rw [Nat.min_eq_right hshort, Nat.sub_self] at hlast ⊢
      exact ⟨List.append_nil _, hlast⟩
    · have hlong : 4 * (64 - r.prepare.index) ≤ n := Nat.le_of_not_le hshort
      have hwhole : (4 * (64 - r.prepare.index) + 3) / 4 = 64 - r.prepare.index := by omega
      have hend : position + (64 - r.prepare.index) + (n - 4 * (64 - r.prepare.index) + 3) / 4 =
          position + (n + 3) / 4 := by omega
      rw [Nat.min_eq_left hlong, hwhole] at hlast ⊢
      rw [hend] at hlast
      refine ⟨?_, hlast⟩
      rw [Nat.mul_add, ← Keystream.octetsFrom_add, Nat.add_sub_of_le hlong]

/-- Octets that fill whole words and those after them are read in one go or one after
the other. -/
theorem At.read_read {r : Reader} {k : Keystream} {position : Nat} (h : r.At k position)
    (n m : Nat) :
    (r.read (4 * n)).1 ++ ((r.read (4 * n)).2.read m).1 = (r.read (4 * n + m)).1 := by
  rcases h.read (4 * n) with ⟨hfirst, hnext⟩
  have hwhole : (4 * n + 3) / 4 = n := by omega
  rw [hwhole] at hnext
  rw [hfirst, (hnext.read m).left, (h.read (4 * n + m)).left, Keystream.octetsFrom_add,
    Nat.mul_add]

/-!
## Any reads one after the other
-/

/-- What can be asked of a reader. -/
inductive Request
  | octets (n : Nat)
  | word
  | double

/-- What a reader hands out. -/
inductive Portion
  | octets (bs : Bytes)
  | word (w : UInt32)
  | double (d : UInt64)

namespace Request

def serve : Request -> Reader -> Portion × Reader
  | .octets n, r =>
      let (bs, r) := r.read n
      (.octets bs, r)
  | .word, r =>
      let (w, r) := r.nextWord
      (.word w, r)
  | .double, r =>
      let (d, r) := r.nextDouble
      (.double d, r)

/-- The number of words that hold what is asked for. -/
def words : Request -> Nat
  | .octets n => (n + 3) / 4
  | .word => 1
  | .double => 2

/-- What the keystream of the cipher holds from word `position` on. -/
def portion (key : Bytes) (stream : BitVec 64) (position : Nat) : Request -> Portion
  | .octets n =>
      .octets ((List.range n).map fun i => ChaCha20.octet key stream (4 * position + i))
  | .word => .word (UInt32.ofBitVec (ChaCha20.word key stream position))
  | .double =>
      .double (UInt64.ofBitVec
        (ChaCha20.word key stream (position + 1) ++ ChaCha20.word key stream position))

end Request

/-- The number of words that hold what all of the requests ask for. -/
def wordsOf (requests : List Request) : Nat :=
  requests.foldr (fun request n => request.words + n) 0

/-- The reader that has served the requests in order. -/
def after (r : Reader) (requests : List Request) : Reader :=
  requests.foldl (fun r request => (request.serve r).2) r

theorem At.serve {r : Reader} {k : Keystream} {position : Nat} (h : r.At k position)
    (hkey : k.key.length = 32) (request : Request) :
    (request.serve r).1 = request.portion k.key k.stream.toBitVec position ∧
      (request.serve r).2.At k (position + request.words) := by
  cases request with
  | octets n =>
      rcases h.read n with ⟨hread, hnext⟩
      exact ⟨congrArg Portion.octets (hread.trans (k.octetsFrom_eq hkey _ n)), hnext⟩
  | word =>
      rcases h.nextWord with ⟨hword, hnext⟩
      refine ⟨congrArg Portion.word (hword.trans ?_), hnext⟩
      rw [← k.toBitVec_word hkey]
  | double =>
      rcases h.nextDouble with ⟨hdouble, hnext⟩
      refine ⟨congrArg Portion.double (hdouble.trans ?_), hnext⟩
      rw [← k.toBitVec_word hkey, ← k.toBitVec_word hkey, ← toBitVec_join]

theorem At.after {r : Reader} {k : Keystream} {position : Nat} (h : r.At k position)
    (hkey : k.key.length = 32) (requests : List Request) :
    (r.after requests).At k (position + wordsOf requests) := by
  induction requests generalizing r position with
  | nil => exact h
  | cons request requests ih =>
      have hlast := ih (h.serve hkey request).right
      rw [Nat.add_assoc] at hlast
      exact hlast

/-- What a run reads a stream of its seed for. -/
inductive Use
  | keys
  | encapsulation

namespace Use

def stream (run : UInt32) : Use -> UInt64
  | .keys => run.toUInt64
  | .encapsulation => encapsulationBase ||| run.toUInt64

def reader (seed : Bytes) (run : UInt32) : Use -> Reader
  | .keys => forKeys seed run
  | .encapsulation => forEncapsulation seed run

theorem at_reader (seed : Bytes) (run : UInt32) (use : Use) :
    (use.reader seed run).At { key := seed, stream := use.stream run } 0 := by
  cases use with
  | keys => exact at_ofKeystream _
  | encapsulation => exact at_ofKeystream _

end Use

/-- Whatever has been read before, a read hands out the keystream of the cipher from
the next word on and uses as many words as hold it, and what may be shown of the
reader tells how many have been used.  So octets that fill whole words are read in one
go or in two. -/
theorem reads_follow_keystream (use : Use) (seed : Bytes) (hseed : seed.length = 32)
    (run : UInt32) (earlier : List Request) :
    let stream := use.stream run
    let r := (use.reader seed run).after earlier
    let position := wordsOf earlier
    (forall next : Request,
      (next.serve r).1 = next.portion seed stream.toBitVec position ∧
        (next.serve r).2.position = (position + next.words) % ChaCha20.period) ∧
      r.description =
        s!"Prng \x7b stream: {stream}, word_pos: {position % ChaCha20.period}, .. \x7d" ∧
      forall n m, (r.read (4 * n)).1 ++ ((r.read (4 * n)).2.read m).1 = (r.read (4 * n + m)).1 := by
  intro stream r position
  have hplace : r.At { key := seed, stream } position := by
    have hafter := (use.at_reader seed run).after hseed earlier
    rw [Nat.zero_add] at hafter
    exact hafter
  refine ⟨?_, hplace.description_eq, hplace.read_read⟩
  intro next
  rcases hplace.serve hseed next with ⟨hportion, hnext⟩
  exact ⟨hportion, hnext.position_eq⟩

/-- What the key of zeros gives: its first block, and after 250 octets the last word of
one buffer together with the first one of the next. -/
theorem reads_follow_keystream_of_zero_key :
    let r := Use.keys.reader (Bytes.zeros 32) 0
    (Bytes.zeros 32).length = 32 ∧
      (Request.serve (.octets 64) r).1 = .octets
        [0x76, 0xb8, 0xe0, 0xad, 0xa0, 0xf1, 0x3d, 0x90, 0x40, 0x5d, 0x6a, 0xe5, 0x53, 0x86, 0xbd,
          0x28, 0xbd, 0xd2, 0x19, 0xb8, 0xa0, 0x8d, 0xed, 0x1a, 0xa8, 0x36, 0xef, 0xcc, 0x8b, 0x77,
          0x0d, 0xc7, 0xda, 0x41, 0x59, 0x7c, 0x51, 0x57, 0x48, 0x8d, 0x77, 0x24, 0xe0, 0x3f, 0xb8,
          0xd8, 0x4a, 0x37, 0x6a, 0x43, 0xb8, 0xf4, 0x15, 0x18, 0xa1, 0x1c, 0xc3, 0x87, 0xb6, 0x69,
          0xb2, 0xee, 0x65, 0x86] ∧
      (Request.serve .double (r.after [.octets 250])).1 = .double 0x7488a6e57e166731 ∧
      (Request.serve .double (r.after [.octets 250])).2.position = 65 := by
  intro r
  have hzeros : (Bytes.zeros 32).length = 32 := List.length_replicate
  rcases reads_follow_keystream .keys (Bytes.zeros 32) hzeros 0 [] with ⟨hfirst, -, -⟩
  rcases reads_follow_keystream .keys (Bytes.zeros 32) hzeros 0 [.octets 250]
    with ⟨hlater, -, -⟩
  let k : Keystream := { key := Bytes.zeros 32, stream := 0 }
  have hword := k.toBitVec_word hzeros
  refine ⟨hzeros, (hfirst _).left.trans ?_, (hlater _).left.trans ?_, (hlater _).right⟩
  · have hblock : (k.block (UInt64.ofNat 0)).toList = [
        0xade0b876, 0x903df1a0, 0xe56a5d40, 0x28bd8653, 0xb819d2bd, 0x1aed8da0, 0xccef36a8,
        0xc70d778b, 0x7c5941da, 0x8d485751, 0x3fe02477, 0x374ad8b8, 0xf4b8436a, 0x1ca11815,
        0x69b687c3, 0x8665eeb2] := by decide +kernel
    refine congrArg Portion.octets ((k.octetsFrom_eq hzeros (4 * 0) (4 * 16)).symm.trans ?_)
    rw [← Keystream.flatMap_wordsFrom, ← Nat.mul_zero 16, ← Keystream.toList_block, hblock]
    decide
  · have hlast : k.word 63 = 0x7e166731 := by decide +kernel
    have hnext : k.word 64 = 0x7488a6e5 := by decide +kernel
    refine congrArg Portion.double ?_
    show UInt64.ofBitVec (ChaCha20.word k.key k.stream.toBitVec 64 ++
      ChaCha20.word k.key k.stream.toBitVec 63) = _
    rw [← hword, ← hword, hlast, hnext]
    rfl

end Reader
end PeerMix
