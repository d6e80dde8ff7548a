import PeerMix.Bytes.Hex

/-!
# Hexadecimal text is read as it was written

Both forms of hexadecimal text are made of the same sixteen digits.  Octets come
back pair by pair, natural numbers digit by digit from the front.
-/

namespace PeerMix
namespace Hex

/-!
## Digits
-/

/-- The characters that hexadecimal text is made of. -/
def IsDigit (c : Char) : Prop :=
  exists n, n < 16 ∧ c = digit n

theorem digitValue?_digit {n : Nat} (h : n < 16) : digitValue? (digit n).toNat = some n := by
  have hall : forall d : Fin 16, digitValue? (digit d).toNat = some d.val := by decide
  exact hall ⟨n, h⟩

theorem utf8EncodeChar_digit {n : Nat} (h : n < 16) :
    String.utf8EncodeChar (digit n) = [UInt8.ofNat (digit n).toNat] := by
  have hall : forall d : Fin 16,
      String.utf8EncodeChar (digit d) = [UInt8.ofNat (digit d).toNat] := by decide
  exact hall ⟨n, h⟩

theorem toNat_ofNat_digit {n : Nat} (h : n < 16) :
    (UInt8.ofNat (digit n).toNat).toNat = (digit n).toNat := by
  have hall : forall d : Fin 16,
      (UInt8.ofNat (digit d).toNat).toNat = (digit d).toNat := by decide
  exact hall ⟨n, h⟩

theorem digitChar_eq_digit {n : Nat} (h : n < 16) : Nat.digitChar n = digit n := by
  have hall : forall d : Fin 16, Nat.digitChar d = digit d := by decide
  exact hall ⟨n, h⟩

theorem digit_ne_underscore {n : Nat} (h : n < 16) : digit n ≠ '_' := by
  have hall : forall d : Fin 16, digit d ≠ '_' := by decide
  exact hall ⟨n, h⟩

theorem digit_ne_plus {n : Nat} (h : n < 16) : digit n ≠ '+' := by
  have hall : forall d : Fin 16, digit d ≠ '+' := by decide
  exact hall ⟨n, h⟩

/-!
## Byte strings
-/

theorem isDigit_of_mem_encode {bs : Bytes} {c : Char} (h : c ∈ encode bs) : IsDigit c := by
  rcases List.mem_flatMap.mp h with ⟨b, _hb, hc⟩
  have hbound := b.toNat_lt
  unfold encodeByte at hc
  rcases List.mem_cons.mp hc with hhigh | hlow
  · exact ⟨b.toNat / 16, by omega, hhigh⟩
  · exact ⟨b.toNat % 16, by omega, List.mem_singleton.mp hlow⟩

theorem length_encode (bs : Bytes) : (encode bs).length = 2 * bs.length := by
  induction bs with
  | nil => rfl
  | cons b bs ih =>
      have hcons : encode (b :: bs) = encodeByte b ++ encode bs := rfl
      rw [hcons, List.length_append, ih, List.length_cons, Nat.mul_succ]
      exact Nat.add_comm 2 _

/-- The octets of the two digits of `b`. -/
def octetPair (b : UInt8) : Bytes :=
  [UInt8.ofNat (digit (b.toNat / 16)).toNat, UInt8.ofNat (digit (b.toNat % 16)).toNat]

theorem utf8_encode (bs : Bytes) : Utf8.encode (encode bs) = bs.flatMap octetPair := by
  unfold Utf8.encode encode
  rw [List.flatMap_assoc]
  congr 1
  funext b
  have hbound := b.toNat_lt
  have hhigh : b.toNat / 16 < 16 := by omega
  have hlow : b.toNat % 16 < 16 := by omega
  simp only [encodeByte, List.flatMap_cons, List.flatMap_nil, utf8EncodeChar_digit hhigh,
    utf8EncodeChar_digit hlow]
  rfl

theorem length_octetPairs (bs : Bytes) : (bs.flatMap octetPair).length = 2 * bs.length := by
  induction bs with
  | nil => rfl
  | cons b bs ih =>
      rw [List.flatMap_cons, List.length_append, ih, List.length_cons]
      simp only [octetPair, List.length_cons, List.length_nil]
      omega

/-- Every two digits are one octet more. -/
theorem decodeOctets_octetPairs (position : Nat) (done bs : Bytes) :
    decodeOctets position done (bs.flatMap octetPair) = .ok (done.reverse ++ bs) := by
  induction bs generalizing position done with
  | nil => rw [List.append_nil]; rfl
  | cons b bs ih =>
      have hbound := b.toNat_lt
      have hhigh : b.toNat / 16 < 16 := by omega
      have hlow : b.toNat % 16 < 16 := by omega
      have hvalue : 16 * (b.toNat / 16) + b.toNat % 16 = b.toNat := by omega
      rw [List.flatMap_cons, octetPair, List.cons_append, List.cons_append, List.nil_append,
        decodeOctets]
      simp only [toNat_ofNat_digit, hhigh, hlow, digitValue?_digit]
      rw [ih, hvalue, UInt8.ofNat_toNat, List.reverse_cons, List.append_assoc]
      rfl

theorem decode_encode (bs : Bytes) : decode (encode bs) = .ok bs := by
  have heven : (bs.flatMap octetPair).length % 2 ≠ 1 := by
    rw [length_octetPairs]
    omega
  rw [decode, utf8_encode]
  exact (if_neg heven).trans (decodeOctets_octetPairs 0 [] bs)

/-!
## Natural numbers
-/

theorem ofNat_of_lt {n : Nat} (h : n < 16) : ofNat n = [digit n] := by
  rw [ofNat, Nat.toDigits_of_lt_base h, digitChar_eq_digit h]

theorem ofNat_of_le {n : Nat} (h : 16 ≤ n) : ofNat n = ofNat (n / 16) ++ [digit (n % 16)] := by
  rw [ofNat, Nat.toDigits_of_base_le (by decide) h, digitChar_eq_digit (Nat.mod_lt n (by decide))]
  rfl

theorem isDigit_of_mem_ofNat {n : Nat} {c : Char} (h : c ∈ ofNat n) : IsDigit c := by
  induction n using Nat.strongRecOn with
  | ind n ih =>
      rcases Nat.lt_or_ge n 16 with hsmall | hlarge
      · rw [ofNat_of_lt hsmall] at h
        exact ⟨n, hsmall, List.mem_singleton.mp h⟩
      · rw [ofNat_of_le hlarge] at h
        rcases List.mem_append.mp h with hfront | hlast
        · exact ih (n / 16) (by omega) hfront
        · exact ⟨n % 16, Nat.mod_lt n (by decide), List.mem_singleton.mp hlast⟩

theorem readDigits_append (n : Nat) (cs ds : List Char) :
    readDigits n (cs ++ ds) = (readDigits n cs).bind fun m => readDigits m ds := by
  induction cs generalizing n with
  | nil => rfl
  | cons c cs ih =>
      rw [List.cons_append, readDigits, readDigits]
      rcases Decidable.em (c = '_') with hblank | hdigit
      · rw [if_pos hblank, if_pos hblank, ih]
      · rw [if_neg hdigit, if_neg hdigit]
        cases digitValue? c.toNat with
        | none => rfl
        | some d => exact ih (16 * n + d)

theorem readDigits_digit (n : Nat) {d : Nat} (h : d < 16) :
    readDigits n [digit d] = some (16 * n + d) := by
  rw [readDigits, if_neg (digit_ne_underscore h), digitValue?_digit h]
  rfl

theorem readDigits_ofNat (n : Nat) : readDigits 0 (ofNat n) = some n := by
  induction n using Nat.strongRecOn with
  | ind n ih =>
      rcases Nat.lt_or_ge n 16 with hsmall | hlarge
      · rw [ofNat_of_lt hsmall, readDigits_digit 0 hsmall, Nat.mul_zero, Nat.zero_add]
      · have hvalue : 16 * (n / 16) + n % 16 = n := by omega
        rw [ofNat_of_le hlarge, readDigits_append, ih (n / 16) (by omega), Option.bind_some,
          readDigits_digit _ (Nat.mod_lt n (by decide)), hvalue]

/-- A number is read back however many digits it has; zero has one. -/
theorem toNat?_ofNat (n : Nat) : toNat? (ofNat n) = some n := by
  cases hdigits : ofNat n with
  | nil => exact absurd hdigits Nat.toDigits_ne_nil
  | cons c cs =>
      have hmem : c ∈ ofNat n := by
        rw [hdigits]
        exact List.mem_cons_self
      rcases isDigit_of_mem_ofNat hmem with ⟨d, hd, hc⟩
      have hplus : c ≠ '+' := by
        rw [hc]
        exact digit_ne_plus hd
      have hblank : c ≠ '_' := by
        rw [hc]
        exact digit_ne_underscore hd
      have hunsigned : toNat? (c :: cs) = readUnsigned (c :: cs) := by
        unfold toNat?
        split
        · next htail => exact absurd (List.cons.inj htail).left hplus
        · rfl
      rw [hunsigned, readUnsigned, if_neg hblank, ← hdigits, readDigits_ofNat]

end Hex
end PeerMix
