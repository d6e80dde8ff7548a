import Mathlib.Data.List.TakeDrop
import Mathlib.Data.List.TakeWhile
import PeerMix.Json.Document
import PeerMix.Proofs.Json.TextForms

/-!
# Compact text is cut into its tokens

The text of a value is cut into one token for every bracket, separator, text and
word of it.  A word ends only where something else begins, so what follows a
value matters: in compact text that is the end or punctuation.
-/

namespace PeerMix
namespace Json

/-!
## Numbers
-/

theorem isDigit_of_mem_toDigits {n : Nat} {c : Char} (h : c ∈ Nat.toDigits 10 n) :
    isDigit c = true :=
  Nat.isDigit_of_mem_toDigits (by decide) (by decide) h

/-- Digits only make a number larger. -/
theorem le_ofDigitChars (n : Nat) (cs : List Char) : n ≤ Nat.ofDigitChars 10 cs n := by
  rw [Nat.ofDigitChars_eq_ofDigitChars_zero]
  calc
    n ≤ 10 ^ cs.length * n := Nat.le_mul_of_pos_left n (Nat.pow_pos (by decide))
    _ ≤ _ := Nat.le_add_right _ _

theorem appendDigits_of_lt {n : Nat} {cs : List Char}
    (h : Nat.ofDigitChars 10 cs n < UInt64.size) :
    appendDigits n cs = (Nat.ofDigitChars 10 cs n, []) := by
  induction cs generalizing n with
  | nil => rfl
  | cons c cs ih =>
      have hshorter : Nat.ofDigitChars 10 [c] n < UInt64.size :=
        Nat.lt_of_le_of_lt (le_ofDigitChars _ cs) h
      rw [appendDigits]
      exact (if_pos hshorter).trans (ih h)

/-- Only zero is written with a zero in front. -/
theorem toDigits_eq_cons (n : Nat) :
    exists c cs, Nat.toDigits 10 n = c :: cs ∧ (c = '0' -> n = 0) := by
  induction n using Nat.strongRecOn with
  | ind n ih =>
      rcases Nat.lt_or_ge n 10 with hsmall | hlarge
      · exact ⟨n.digitChar, [], Nat.toDigits_of_lt_base hsmall, Nat.digitChar_eq_zero.mp⟩
      · rcases ih (n / 10) (by omega) with ⟨c, cs, hdigits, hzero⟩
        refine ⟨c, cs ++ [(n % 10).digitChar], ?_, ?_⟩
        · rw [Nat.toDigits_of_base_le (by decide) hlarge, hdigits]
          rfl
        · intro hc
          have hfront := hzero hc
          omega

theorem isWhole_toDigits (n : Nat) : isWhole (Nat.toDigits 10 n) = true := by
  rcases toDigits_eq_cons n with ⟨c, cs, hdigits, hzero⟩
  have hall : (c :: cs).all isDigit = true := by
    rw [← hdigits]
    exact List.all_eq_true.mpr fun d hd => isDigit_of_mem_toDigits hd
  rcases Decidable.em (c = '0') with hc | hc
  · rw [hzero hc]
    rfl
  · rw [hdigits]
    unfold isWhole
    split
    · next htext => cases htext
    · rfl
    · next htext => exact absurd (List.cons.inj htext).left hc
    · exact hall

theorem unsigned?_toDigits {negative : Bool} {n : Nat} {i : Int}
    (hsize : n < UInt64.size) (hi : integer? negative n = some i) :
    unsigned? negative (Nat.toDigits 10 n) = some (.integer i) := by
  have hall : forall c, c ∈ Nat.toDigits 10 n -> isDigit c = true := fun c hc =>
    isDigit_of_mem_toDigits hc
  have hspan : (Nat.toDigits 10 n).span isDigit = (Nat.toDigits 10 n, []) := by
    rw [List.span_eq_takeWhile_dropWhile, List.takeWhile_eq_self_iff.mpr hall,
      List.dropWhile_eq_nil_iff.mpr hall]
  have hvalue : appendDigits 0 (Nat.toDigits 10 n) = (n, []) := by
    have hread := @appendDigits_of_lt 0 (Nat.toDigits 10 n)
    rw [Nat.ofDigitChars_ten_toDigits] at hread
    exact hread hsize
  simp only [unsigned?, hspan, isWhole_toDigits, hvalue, hi]
  rfl

/-- Whether an integer is one of 64 bits, with or without a sign. -/
def IsWide (i : Int) : Prop :=
  Int64.minValue.toInt ≤ i ∧ i < UInt64.size

instance (i : Int) : Decidable (IsWide i) :=
  inferInstanceAs (Decidable (Int64.minValue.toInt ≤ i ∧ i < UInt64.size))

theorem number?_renderInteger {i : Int} (h : IsWide i) :
    number? (renderInteger i) = some (.integer i) := by
  have hlow : -9223372036854775808 ≤ i := h.left
  have hhigh : i < 18446744073709551616 := h.right
  rcases Decidable.em (i < 0) with hnegative | hnatural
  · have hwhole : integer? true i.natAbs = some i := by
      have hbound : ¬(i.natAbs = 0 ∨ Int64.maxValue.toInt + 1 < i.natAbs) := by
        have hmax : Int64.maxValue.toInt = 9223372036854775807 := rfl
        omega
      have hsign : -(i.natAbs : Int) = i := by omega
      rw [integer?, if_pos rfl, if_neg hbound, hsign]
    rw [renderInteger, if_pos hnegative]
    exact unsigned?_toDigits (show i.natAbs < 18446744073709551616 by omega) hwhole
  · have hwhole : integer? false i.natAbs = some i := by
      have hsign : (i.natAbs : Int) = i := by omega
      rw [integer?, if_neg Bool.false_ne_true, hsign]
    rcases toDigits_eq_cons i.natAbs with ⟨c, cs, hdigits, _hzero⟩
    have hdigit : isDigit c = true := by
      have hmem : c ∈ Nat.toDigits 10 i.natAbs := by
        rw [hdigits]
        exact List.mem_cons_self
      exact isDigit_of_mem_toDigits hmem
    have hsign : c ≠ '-' := by
      intro hc
      rw [hc] at hdigit
      cases hdigit
    rw [renderInteger, if_neg hnatural,
      ← unsigned?_toDigits (show i.natAbs < 18446744073709551616 by omega) hwhole, hdigits]
    unfold number?
    split
    · next htext => exact absurd (List.cons.inj htext).left hsign
    · rfl

/-!
## Punctuation and words
-/

theorem tokens_cons_punctuation {c : Char} {t : Token} (h : punctuation? c = some t)
    (rest : List Char) : tokens (c :: rest) = t :: tokens rest := by
  have hbegin : begin c = (.between, [t]) := by
    unfold punctuation? at h
    repeat' split at h
    case isFalse => cases h
    all_goals next hc => subst hc; cases h; rfl
  rw [tokens_cons, hbegin]
  rfl

/-- The characters at which a word ends. -/
def EndsWord (c : Char) : Prop :=
  isSpace c ∨ c = '"' ∨ (punctuation? c).isSome

instance (c : Char) : Decidable (EndsWord c) :=
  inferInstanceAs (Decidable (isSpace c ∨ c = '"' ∨ (punctuation? c).isSome))

theorem mem_of_endsWord {c : Char} (h : EndsWord c) :
    c ∈ [' ', '\n', '\r', '\t', '"', '[', ']', '{', '}', ',', ':'] := by
  rcases h with hspace | hquote | hpunctuation
  · simp only [isSpace, Bool.or_eq_true, decide_eq_true_eq] at hspace
    rcases hspace with ((rfl | rfl) | rfl) | rfl <;> decide
  · rw [hquote]
    decide
  · unfold punctuation? at hpunctuation
    repeat' split at hpunctuation
    case isFalse => cases hpunctuation
    all_goals next hc => subst hc; decide

theorem not_endsWord_of_isDigit {c : Char} (h : isDigit c = true) : ¬EndsWord c := by
  intro hends
  have hnone : [' ', '\n', '\r', '\t', '"', '[', ']', '{', '}', ',', ':'].all
      (fun d => !isDigit d) = true := by decide
  have hc := List.all_eq_true.mp hnone c (mem_of_endsWord hends)
  rw [h] at hc
  cases hc

def Unbroken (word : List Char) : Prop :=
  forall c, c ∈ word -> ¬EndsWord c

-- Without the choice of instance all characters would be gone through.
instance (word : List Char) : Decidable (Unbroken word) :=
  List.decidableBAll (fun c => ¬EndsWord c) word

/-- Whether a word that stands before `rest` ends there. -/
def Delimits : (rest : List Char) -> Prop
  | [] => True
  | c :: _ => EndsWord c

theorem delimits_punctuation {c : Char} {t : Token} (h : punctuation? c = some t)
    (rest : List Char) : Delimits (c :: rest) :=
  .inr (.inr (by rw [h]; rfl))

theorem begin_eq_bare {c : Char} (h : ¬EndsWord c) : begin c = (.bare [c], []) := by
  have hspace : ¬isSpace c = true := fun hc => h (.inl hc)
  have hquote : c ≠ '"' := fun hc => h (.inr (.inl hc))
  have hpunctuation : punctuation? c = none := by
    cases hc : punctuation? c with
    | none => rfl
    | some t => exact absurd (.inr (.inr (by rw [hc]; rfl))) h
  rw [begin, if_neg hspace, if_neg hquote, hpunctuation]

theorem tokensFrom_bare_append {done cs rest : List Char} (h : Unbroken cs) :
    tokensFrom (.bare done) [] (cs ++ rest) = tokensFrom (.bare (cs.reverse ++ done)) [] rest := by
  induction cs generalizing done with
  | nil => rfl
  | cons c cs ih =>
      have hstays : advance (.bare done) c = some (.bare (c :: done), []) :=
        if_neg (h c List.mem_cons_self)
      rw [List.cons_append, tokensFrom_cons hstays, List.reverse_cons, List.append_assoc]
      exact ih fun d hd => h d (List.mem_cons_of_mem c hd)

theorem tokensFrom_bare_of_delimits {done rest : List Char} (h : Delimits rest) :
    tokensFrom (.bare done) [] rest = ofBare done.reverse :: tokens rest := by
  cases rest with
  | nil => rfl
  | cons c rest =>
      have hends : advance (.bare done) c =
          some ((begin c).1, (begin c).2 ++ [ofBare done.reverse]) := if_pos h
      rw [tokensFrom_cons hends, tokens_cons, List.reverse_append]
      rfl

theorem tokens_word {word rest : List Char} (hword : Unbroken word)
    (hsome : word ≠ []) (hrest : Delimits rest) :
    tokens (word ++ rest) = ofBare word :: tokens rest := by
  cases word with
  | nil => exact absurd rfl hsome
  | cons c word =>
      have hbegin := begin_eq_bare (hword c List.mem_cons_self)
      have htail : Unbroken word := fun d hd =>
        hword d (List.mem_cons_of_mem c hd)
      calc
        tokens (c :: word ++ rest)
            = tokensFrom (.bare [c]) [] (word ++ rest) := by
              rw [List.cons_append, tokens_cons, hbegin]
              rfl
        _ = ofBare (word.reverse ++ [c]).reverse :: tokens rest := by
          rw [tokensFrom_bare_append htail, tokensFrom_bare_of_delimits hrest]
        _ = ofBare (c :: word) :: tokens rest := by simp

theorem unbroken_renderInteger (i : Int) : Unbroken (renderInteger i) := by
  intro c hc
  unfold renderInteger at hc
  split at hc
  · rcases List.mem_cons.mp hc with hsign | hdigit
    · rw [hsign]
      decide
    · exact not_endsWord_of_isDigit (isDigit_of_mem_toDigits hdigit)
  · exact not_endsWord_of_isDigit (isDigit_of_mem_toDigits hc)

theorem renderInteger_ne_nil (i : Int) : renderInteger i ≠ [] := by
  unfold renderInteger
  split
  · exact List.cons_ne_nil _ _
  · exact Nat.toDigits_ne_nil

/-- A number is none of the literals, which begin with a letter. -/
theorem ofBare_renderInteger {i : Int} (h : IsWide i) :
    ofBare (renderInteger i) = .bare (.integer i) := by
  have hnumber := number?_renderInteger h
  have hliteral : forall word, number? word = none -> renderInteger i ≠ word := by
    intro word hword heq
    rw [heq, hword] at hnumber
    cases hnumber
  rw [ofBare, if_neg (hliteral _ rfl), if_neg (hliteral _ rfl), if_neg (hliteral _ rfl), hnumber]

theorem tokens_renderInteger {i : Int} {rest : List Char} (hi : IsWide i)
    (hrest : Delimits rest) :
    tokens (renderInteger i ++ rest) = .bare (.integer i) :: tokens rest := by
  rw [tokens_word (unbroken_renderInteger i) (renderInteger_ne_nil i) hrest,
    ofBare_renderInteger hi]

/-!
## Values
-/

/-- The values that have a text to be read back: they were read whole, their integers
are of 64 bits, and their texts and names are made of characters that are `good`. -/
inductive Writable (good : Char -> Prop) : Json -> Prop
  | null : Writable good .null
  | bool (b : Bool) : Writable good (.bool b)
  | integer {i : Int} (h : IsWide i) : Writable good (.integer i)
  | text {cs : List Char} (h : forall c, c ∈ cs -> good c) : Writable good (.text cs)
  | array {items : List Json} (h : forall v, v ∈ items -> Writable good v) :
      Writable good (.ofArray items)
  | object {members : List (List Char × Json)}
      (hnames : forall m, m ∈ members -> forall c, c ∈ m.1 -> good c)
      (hvalues : forall m, m ∈ members -> Writable good m.2) :
      Writable good (.ofObject members)

mutual

/-- The tokens of the text of a value. -/
def spelling : Json -> List Token
  | .text cs => [.text (some cs)]
  | .loneSurrogate => [.text none]
  | .array items _ => .openArray :: spellingOfItems items ++ [.closeArray]
  | .object members _ => .openObject :: spellingOfMembers members ++ [.closeObject]
  | v => [.bare v]

def spellingOfItems : List Json -> List Token
  | [] => []
  | [v] => spelling v
  | v :: w :: vs => spelling v ++ .comma :: spellingOfItems (w :: vs)

def spellingOfMembers : List Member -> List Token
  | [] => []
  | [(k, v)] => .text k :: .colon :: spelling v
  | (k, v) :: m :: ms =>
      .text k :: .colon :: spelling v ++ .comma :: spellingOfMembers (m :: ms)

end

/-- Whether the text of `v` is cut into the tokens of `v` wherever a word may end. -/
def Spells (v : Json) : Prop :=
  forall rest, Delimits rest -> tokens (v.render ++ rest) = v.spelling ++ tokens rest

theorem tokens_renderItems {items : List Json} (h : forall v, v ∈ items -> Spells v)
    {rest : List Char} (hrest : Delimits rest) :
    tokens (renderItems items ++ rest) = spellingOfItems items ++ tokens rest := by
  induction items with
  | nil => rfl
  | cons v items ih =>
      have htail := ih fun w hw => h w (List.mem_cons_of_mem v hw)
      cases items with
      | nil => exact h v List.mem_cons_self rest hrest
      | cons w vs =>
          rw [renderItems, List.append_assoc, List.cons_append,
            h v List.mem_cons_self _ (delimits_punctuation rfl _), tokens_cons_punctuation rfl,
            htail, spellingOfItems, List.append_assoc]
          rfl

/-- The members that hold a name and a value each. -/
def named (members : List (List Char × Json)) : List Member :=
  members.map fun (name, v) => (some name, v)

theorem tokens_member (name : List Char) {v : Json} (hv : Spells v) {rest : List Char}
    (hrest : Delimits rest) :
    tokens (quoted name ++ ':' :: v.render ++ rest) =
      .text (some name) :: .colon :: v.spelling ++ tokens rest := by
  rw [List.append_assoc, tokens_quoted, List.cons_append, tokens_cons_punctuation rfl,
    hv rest hrest]
  rfl

theorem tokens_renderMembers {members : List (List Char × Json)}
    (h : forall m, m ∈ members -> Spells m.2) {rest : List Char} (hrest : Delimits rest) :
    tokens (renderMembers (named members) ++ rest) =
      spellingOfMembers (named members) ++ tokens rest := by
  induction members with
  | nil => rfl
  | cons m members ih =>
      rcases m with ⟨name, v⟩
      have hvalue : Spells v := h (name, v) List.mem_cons_self
      have htail := ih fun n hn => h n (List.mem_cons_of_mem _ hn)
      cases members with
      | nil => exact tokens_member name hvalue hrest
      | cons n ms =>
          show tokens (quoted name ++ ':' :: v.render ++ ',' :: renderMembers (named (n :: ms)) ++
              rest) =
            .text (some name) :: .colon :: v.spelling ++ .comma ::
              spellingOfMembers (named (n :: ms)) ++ tokens rest
          rw [List.append_assoc, List.cons_append, tokens_member name hvalue
            (delimits_punctuation rfl _), tokens_cons_punctuation rfl, htail, List.append_assoc]
          rfl

/-- The text of a value between two characters of punctuation, which never merge with it. -/
theorem tokens_enclosed {first last : Char} {t u : Token} (ht : punctuation? first = some t)
    (hu : punctuation? last = some u) {cs : List Char} {ts : List Token}
    (h : forall rest, Delimits rest -> tokens (cs ++ rest) = ts ++ tokens rest)
    (rest : List Char) :
    tokens (first :: cs ++ [last] ++ rest) = t :: ts ++ [u] ++ tokens rest := by
  rw [List.append_assoc, List.cons_append, tokens_cons_punctuation ht, List.singleton_append,
    h _ (delimits_punctuation hu rest), tokens_cons_punctuation hu, List.append_assoc]
  rfl

theorem Writable.spells {good : Char -> Prop} {v : Json} (hv : Writable good v) : Spells v := by
  induction hv with
  | null => exact fun rest hrest => tokens_word (by decide) (by decide) hrest
  | bool b =>
      intro rest hrest
      cases b with
      | true => exact tokens_word (by decide) (by decide) hrest
      | false => exact tokens_word (by decide) (by decide) hrest
  | integer hi => exact fun rest hrest => tokens_renderInteger hi hrest
  | @text cs _ => exact fun rest _ => tokens_quoted cs rest
  | array _ ih =>
      exact fun rest _ => tokens_enclosed rfl rfl (fun _ h => tokens_renderItems ih h) rest
  | object _ _ ih =>
      exact fun rest _ => tokens_enclosed rfl rfl (fun _ h => tokens_renderMembers ih h) rest

/-- The text of a value on its own. -/
theorem Writable.tokens_render {good : Char -> Prop} {v : Json} (hv : Writable good v) :
    tokens v.render = v.spelling := by
  have h := hv.spells [] True.intro
  rw [List.append_nil] at h
  exact h.trans (List.append_nil _)

end Json
end PeerMix
