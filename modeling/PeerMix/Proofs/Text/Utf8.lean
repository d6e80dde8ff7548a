import PeerMix.Text.Utf8

/-!
# Reading UTF-8

Characters are read back from their octets, whatever follows them.  There is one
equation for each length of a character: the leading octet tells the length, and
the octets behind it are in the ranges that the reader checks.
-/

namespace PeerMix
namespace Utf8

/-!
## Octets of one character
-/

theorem toNat_tail (n : Nat) : (UInt8.ofNat (n % 64 + 128)).toNat = n % 64 + 128 := by
  rw [UInt8.toNat_ofNat']
  show (n % 64 + 128) % 256 = n % 64 + 128
  omega

theorem isTail_tail (n : Nat) : isTail (UInt8.ofNat (n % 64 + 128)) = true := by
  simp only [isTail, UInt8.le_iff_toNat_le, toNat_tail, UInt8.reduceToNat, Bool.and_eq_true,
    decide_eq_true_eq]
  omega

theorem bits_tail (n : Nat) : bits (UInt8.ofNat (n % 64 + 128)) 6 = n % 64 := by
  rw [bits, toNat_tail]
  show (n % 64 + 128) % 64 = n % 64
  omega

/-- A leading octet with `offset` on top of the highest bits of a character. -/
theorem toNat_lead (high offset : Nat) (h : high + offset < 256) :
    (UInt8.ofNat (high + offset)).toNat = high + offset := by
  rw [UInt8.toNat_ofNat']
  exact Nat.mod_eq_of_lt h

section Characters

variable {n : Nat}

theorem decodeFrom_one (index : Nat) (done : List Char) (hn : n < 0x80) (rest : Bytes) :
    decodeFrom index done (UInt8.ofNat n :: rest) =
      decodeFrom (index + 1) (Char.ofNat n :: done) rest := by
  have hlead : (UInt8.ofNat n).toNat = n := by
    rw [UInt8.toNat_ofNat']
    exact Nat.mod_eq_of_lt (by omega)
  have hshort : UInt8.ofNat n < 0x80 := by
    rw [UInt8.lt_iff_toNat_lt, hlead]
    exact hn
  refine (decodeFrom.eq_def index done (UInt8.ofNat n :: rest)).trans ?_
  dsimp only
  rw [if_pos hshort, hlead]

theorem decodeFrom_two (index : Nat) (done : List Char) (hlow : 0x80 ≤ n) (hhigh : n < 0x800)
    (rest : Bytes) :
    decodeFrom index done
        (UInt8.ofNat (n / 64 % 32 + 192) :: UInt8.ofNat (n % 64 + 128) :: rest) =
      decodeFrom (index + 2) (Char.ofNat n :: done) rest := by
  have hlead := toNat_lead (n / 64 % 32) 192 (by omega)
  have hbits : bits (UInt8.ofNat (n / 64 % 32 + 192)) 5 = n / 64 := by
    rw [bits, hlead]
    show (n / 64 % 32 + 192) % 32 = n / 64
    omega
  have hnumber : 64 * (n / 64) + n % 64 = n := Nat.div_add_mod n 64
  rw [decodeFrom]
  simp only [UInt8.lt_iff_toNat_lt, hlead, UInt8.reduceToNat, Bool.or_eq_true, decide_eq_true_eq,
    isTail_tail, hbits, bits_tail, hnumber]
  rw [if_neg (by omega), if_neg (by omega), if_pos (by omega), if_pos trivial]

/-- An octet that continues a character is in range when it is in the narrower ranges
behind the leading octets that have one. -/
theorem inRange_tail {lead lowest highest low high : UInt8}
    (hlow : lead = lowest -> low.toNat ≤ n % 64 + 128)
    (hhigh : lead = highest -> n % 64 + 128 ≤ high.toNat) :
    (if lead = lowest then low else 0x80) ≤ UInt8.ofNat (n % 64 + 128) ∧
      UInt8.ofNat (n % 64 + 128) ≤ if lead = highest then high else 0xBF := by
  rw [UInt8.le_iff_toNat_le, UInt8.le_iff_toNat_le, toNat_tail]
  constructor
  · split
    case isTrue heq => exact hlow heq
    case isFalse => exact Nat.le_add_left 128 _
  · split
    case isTrue heq => exact hhigh heq
    case isFalse =>
      show n % 64 + 128 ≤ 191
      omega

/-- Neither an overlong form nor a surrogate has such a second octet. -/
theorem isSecondOfThree_tail (hlow : 0x800 ≤ n) (hhigh : n < 0x10000)
    (hscalar : n < 0xD800 ∨ 0xDFFF < n) :
    isSecondOfThree (UInt8.ofNat (n / 4096 % 16 + 224)) (UInt8.ofNat (n / 64 % 64 + 128)) =
      true := by
  have hlead := toNat_lead (n / 4096 % 16) 224 (by omega)
  have hlower : UInt8.ofNat (n / 4096 % 16 + 224) = 0xE0 -> 160 ≤ n / 64 % 64 + 128 := by
    intro heq
    rw [heq] at hlead
    have hvalue : 224 = n / 4096 % 16 + 224 := hlead
    omega
  have hupper : UInt8.ofNat (n / 4096 % 16 + 224) = 0xED -> n / 64 % 64 + 128 ≤ 159 := by
    intro heq
    rw [heq] at hlead
    have hvalue : 237 = n / 4096 % 16 + 224 := hlead
    omega
  rw [isSecondOfThree, Bool.and_eq_true_iff, decide_eq_true_iff, decide_eq_true_iff]
  exact inRange_tail hlower hupper

theorem decodeFrom_three (index : Nat) (done : List Char) (hlow : 0x800 ≤ n)
    (hhigh : n < 0x10000) (hscalar : n < 0xD800 ∨ 0xDFFF < n) (rest : Bytes) :
    decodeFrom index done
        (UInt8.ofNat (n / 4096 % 16 + 224) :: UInt8.ofNat (n / 64 % 64 + 128) ::
          UInt8.ofNat (n % 64 + 128) :: rest) =
      decodeFrom (index + 3) (Char.ofNat n :: done) rest := by
  have hlead := toNat_lead (n / 4096 % 16) 224 (by omega)
  have hbits : bits (UInt8.ofNat (n / 4096 % 16 + 224)) 4 = n / 4096 := by
    rw [bits, hlead]
    show (n / 4096 % 16 + 224) % 16 = n / 4096
    omega
  have hnumber : 4096 * (n / 4096) + 64 * (n / 64 % 64) + n % 64 = n := by omega
  rw [decodeFrom]
  simp only [UInt8.lt_iff_toNat_lt, hlead, UInt8.reduceToNat, Bool.or_eq_true, decide_eq_true_eq,
    isSecondOfThree_tail hlow hhigh hscalar, isTail_tail, hbits, bits_tail, hnumber]
  rw [if_neg (by omega), if_neg (by omega), if_neg (by omega), if_pos (by omega)]
  rfl

/-- Neither an overlong form nor a number beyond the last character has such a second
octet. -/
theorem isSecondOfFour_tail (hlow : 0x10000 ≤ n) (hhigh : n < 0x110000) :
    isSecondOfFour (UInt8.ofNat (n / 262144 % 8 + 240)) (UInt8.ofNat (n / 4096 % 64 + 128)) =
      true := by
  have hlead := toNat_lead (n / 262144 % 8) 240 (by omega)
  have hlower : UInt8.ofNat (n / 262144 % 8 + 240) = 0xF0 -> 144 ≤ n / 4096 % 64 + 128 := by
    intro heq
    rw [heq] at hlead
    have hvalue : 240 = n / 262144 % 8 + 240 := hlead
    omega
  have hupper : UInt8.ofNat (n / 262144 % 8 + 240) = 0xF4 -> n / 4096 % 64 + 128 ≤ 143 := by
    intro heq
    rw [heq] at hlead
    have hvalue : 244 = n / 262144 % 8 + 240 := hlead
    omega
  rw [isSecondOfFour, Bool.and_eq_true_iff, decide_eq_true_iff, decide_eq_true_iff]
  exact inRange_tail hlower hupper

theorem decodeFrom_four (index : Nat) (done : List Char) (hlow : 0x10000 ≤ n)
    (hhigh : n < 0x110000) (rest : Bytes) :
    decodeFrom index done
        (UInt8.ofNat (n / 262144 % 8 + 240) :: UInt8.ofNat (n / 4096 % 64 + 128) ::
          UInt8.ofNat (n / 64 % 64 + 128) :: UInt8.ofNat (n % 64 + 128) :: rest) =
      decodeFrom (index + 4) (Char.ofNat n :: done) rest := by
  have hlead := toNat_lead (n / 262144 % 8) 240 (by omega)
  have hbits : bits (UInt8.ofNat (n / 262144 % 8 + 240)) 3 = n / 262144 := by
    rw [bits, hlead]
    show (n / 262144 % 8 + 240) % 8 = n / 262144
    omega
  have hnumber : 262144 * (n / 262144) + 4096 * (n / 4096 % 64) + 64 * (n / 64 % 64) + n % 64 =
      n := by omega
  rw [decodeFrom]
  simp only [UInt8.lt_iff_toNat_lt, hlead, UInt8.reduceToNat, Bool.or_eq_true, decide_eq_true_eq,
    isSecondOfFour_tail hlow hhigh, isTail_tail, hbits, bits_tail, hnumber]
  rw [if_neg (by omega), if_neg (by omega), if_neg (by omega), if_neg (by omega)]
  rfl

theorem decodeFrom_encodeChar (index : Nat) (done : List Char) (c : Char) (rest : Bytes) :
    exists next, decodeFrom index done (String.utf8EncodeChar c ++ rest) =
      decodeFrom next (c :: done) rest := by
  have hvalid : c.toNat < 0xD800 ∨ (0xDFFF < c.toNat ∧ c.toNat < 0x110000) := c.valid
  have hcode : Char.ofNat c.toNat = c := Char.ofNat_toNat c
  have hoctets : String.utf8EncodeChar c =
      if c.toNat ≤ 127 then [UInt8.ofNat c.toNat]
      else if c.toNat ≤ 2047 then
        [UInt8.ofNat (c.toNat / 64 % 32 + 192), UInt8.ofNat (c.toNat % 64 + 128)]
      else if c.toNat ≤ 65535 then
        [UInt8.ofNat (c.toNat / 4096 % 16 + 224), UInt8.ofNat (c.toNat / 64 % 64 + 128),
          UInt8.ofNat (c.toNat % 64 + 128)]
      else
        [UInt8.ofNat (c.toNat / 262144 % 8 + 240), UInt8.ofNat (c.toNat / 4096 % 64 + 128),
          UInt8.ofNat (c.toNat / 64 % 64 + 128), UInt8.ofNat (c.toNat % 64 + 128)] := rfl
  rw [hoctets]
  by_cases hone : c.toNat ≤ 127
  · have hread := decodeFrom_one index done (Nat.lt_succ_of_le hone) rest
    rw [hcode] at hread
    rw [if_pos hone]
    exact ⟨_, hread⟩
  rw [if_neg hone]
  by_cases htwo : c.toNat ≤ 2047
  · have hread := decodeFrom_two index done (Nat.lt_of_not_le hone) (Nat.lt_succ_of_le htwo) rest
    rw [hcode] at hread
    rw [if_pos htwo]
    exact ⟨_, hread⟩
  rw [if_neg htwo]
  by_cases hthree : c.toNat ≤ 65535
  · have hscalar : c.toNat < 0xD800 ∨ 0xDFFF < c.toNat := hvalid.imp_right fun h => h.left
    have hread := decodeFrom_three index done (Nat.lt_of_not_le htwo) (Nat.lt_succ_of_le hthree)
      hscalar rest
    rw [hcode] at hread
    rw [if_pos hthree]
    exact ⟨_, hread⟩
  · have hread := decodeFrom_four index done (Nat.lt_of_not_le hthree) (by omega) rest
    rw [hcode] at hread
    rw [if_neg hthree]
    exact ⟨_, hread⟩

end Characters

/-!
## Texts
-/

theorem decodeFrom_encode (cs : List Char) (index : Nat) (done : List Char) :
    decodeFrom index done (encode cs) = .ok (done.reverse ++ cs) := by
  induction cs generalizing index done with
  | nil => rw [List.append_nil]; rfl
  | cons c cs ih =>
      rcases decodeFrom_encodeChar index done c (encode cs) with ⟨next, hnext⟩
      rw [encode, List.flatMap_cons, ← encode, hnext, ih, List.reverse_cons, List.append_assoc]
      rfl

/-- Every text is read back from its octets. -/
theorem decode_encode (cs : List Char) : decode (encode cs) = .ok cs := by
  rw [decode, decodeFrom_encode]
  rfl

end Utf8
end PeerMix
