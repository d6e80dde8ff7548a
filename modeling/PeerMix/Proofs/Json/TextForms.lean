import Mathlib.Data.List.Forall2
import PeerMix.Json.Token

/-!
# Texts between quotes, however they are written

A character of a text may be written in several ways: as it is, with a letter
after a backslash, or by its code.  The forms of a text are given here by a
grammar, and every form is cut into the one token of the text.  A text between
quotes that is the form of no characters holds half of a surrogate pair, and the
reader knows it for one that stands for none.
-/

namespace PeerMix
namespace Json

/-!
## The tokens before
-/

theorem tokensFrom_eq_append (mode : Mode) (done : List Token) (cs : List Char) :
    tokensFrom mode done cs = done.reverse ++ tokensFrom mode [] cs := by
  induction cs generalizing mode done with
  | nil => simp [tokensFrom]
  | cons c cs ih =>
      unfold tokensFrom
      cases advance mode c with
      | none => simp
      | some next =>
          rcases next with ⟨mode, more⟩
          show tokensFrom mode (more ++ done) cs = done.reverse ++ tokensFrom mode (more ++ []) cs
          rw [ih mode (more ++ done), ih mode (more ++ [])]
          simp

theorem tokensFrom_cons {mode next : Mode} {more : List Token} {c : Char}
    (h : advance mode c = some (next, more)) (cs : List Char) :
    tokensFrom mode [] (c :: cs) = more.reverse ++ tokensFrom next [] cs := by
  rw [tokensFrom, h]
  show tokensFrom next (more ++ []) cs = more.reverse ++ tokensFrom next [] cs
  rw [tokensFrom_eq_append, List.append_nil]

theorem tokens_cons (c : Char) (cs : List Char) :
    tokens (c :: cs) = (begin c).2.reverse ++ tokensFrom (begin c).1 [] cs :=
  tokensFrom_cons rfl cs

/-!
## Characters
-/

/-- The letters that stand for a character after a backslash. -/
def shortForms : List (Char × Char) :=
  [('"', '"'), ('\\', '\\'), ('/', '/'), ('b', Char.ofNat 8), ('f', Char.ofNat 12), ('n', '\n'),
    ('r', '\r'), ('t', '\t')]

/-- Whether four hexadecimal digits in either case spell `n`. -/
def SpellsUnit (n : Nat) (digits : List Char) : Prop :=
  exists a b c d, digits.map hexValue? = [some a, some b, some c, some d] ∧
    n = 16 * (16 * (16 * a + b) + c) + d

/-- The ways in which a character may be written between quotes. -/
inductive CharacterForm : Char -> List Char -> Prop
  | plain {c : Char} (hquote : c ≠ '"') (hbackslash : c ≠ '\\') (hcontrol : 32 ≤ c.toNat) :
      CharacterForm c [c]
  | short {letter c : Char} (h : (letter, c) ∈ shortForms) : CharacterForm c ['\\', letter]
  | unit {c : Char} {digits : List Char} (h : SpellsUnit c.toNat digits) :
      CharacterForm c ('\\' :: 'u' :: digits)
  /-- A character beyond the first 65536 is a pair of surrogates. -/
  | pair {c : Char} {high low : List Char} (hc : 0x10000 ≤ c.toNat)
      (hhigh : SpellsUnit (0xD800 + (c.toNat - 0x10000) / 0x400) high)
      (hlow : SpellsUnit (0xDC00 + (c.toNat - 0x10000) % 0x400) low) :
      CharacterForm c ('\\' :: 'u' :: high ++ '\\' :: 'u' :: low)

theorem tokensFrom_short {letter c : Char} (h : (letter, c) ∈ shortForms) (q : Quote)
    (rest : List Char) :
    tokensFrom (.quote q) [] ('\\' :: letter :: rest) = tokensFrom (.quote (q.push c)) [] rest := by
  have hall : forall form, form ∈ shortForms ->
      form.1 ≠ 'u' ∧ unescape? form.1 = some form.2 := by decide
  rcases hall _ h with ⟨hletter, hvalue⟩
  have hstep : advance (.backslash q) letter = some (.quote (q.push c), []) := by
    rw [advance, if_neg hletter, hvalue]
    rfl
  calc
    _ = tokensFrom (.backslash q) [] (letter :: rest) := rfl
    _ = _ := tokensFrom_cons hstep rest

/-- Four digits after a backslash and the letter for them add one code unit. -/
theorem tokensFrom_unit {n : Nat} {digits : List Char} (h : SpellsUnit n digits) (q : Quote)
    (rest : List Char) :
    tokensFrom (.quote q) [] ('\\' :: 'u' :: (digits ++ rest)) =
      tokensFrom (.quote (q.pushUnit n)) [] rest := by
  rcases h with ⟨a, b, c, d, hdigits, rfl⟩
  rcases List.map_eq_cons_iff.mp hdigits with ⟨ca, _, rfl, ha, hdigits⟩
  rcases List.map_eq_cons_iff.mp hdigits with ⟨cb, _, rfl, hb, hdigits⟩
  rcases List.map_eq_cons_iff.mp hdigits with ⟨cc, _, rfl, hc, hdigits⟩
  rcases List.map_eq_cons_iff.mp hdigits with ⟨cd, _, rfl, hd, hdigits⟩
  rcases List.map_eq_nil_iff.mp hdigits with rfl
  have hfirst : advance (.digits q 4 0) ca = some (.digits q 3 a, []) := by
    rw [advance, ha, Option.map_some]
    simp
  have hsecond : advance (.digits q 3 a) cb = some (.digits q 2 (16 * a + b), []) := by
    rw [advance, hb]
    rfl
  have hthird : advance (.digits q 2 (16 * a + b)) cc =
      some (.digits q 1 (16 * (16 * a + b) + c), []) := by
    rw [advance, hc]
    rfl
  have hfourth : advance (.digits q 1 (16 * (16 * a + b) + c)) cd =
      some (.quote (q.pushUnit (16 * (16 * (16 * a + b) + c) + d)), []) := by
    rw [advance, hd]
    rfl
  calc
    _ = tokensFrom (.digits q 4 0) [] (ca :: cb :: cc :: cd :: rest) := rfl
    _ = tokensFrom (.digits q 3 a) [] (cb :: cc :: cd :: rest) := tokensFrom_cons hfirst _
    _ = tokensFrom (.digits q 2 (16 * a + b)) [] (cc :: cd :: rest) := tokensFrom_cons hsecond _
    _ = tokensFrom (.digits q 1 (16 * (16 * a + b) + c)) [] (cd :: rest) :=
          tokensFrom_cons hthird _
    _ = _ := tokensFrom_cons hfourth rest

/-- No character is half of a surrogate pair. -/
theorem pushUnit_toNat (q : Quote) (c : Char) : q.pushUnit c.toNat = q.push c := by
  have hvalid : c.toNat < 0xD800 ∨ 0xDFFF < c.toNat ∧ c.toNat < 0x110000 := c.valid
  rw [Quote.pushUnit, if_neg (by omega), if_neg (by omega), Char.ofNat_toNat]

theorem pushUnit_pair (q : Quote) {c : Char} (hc : 0x10000 ≤ c.toNat) :
    (q.pushUnit (0xD800 + (c.toNat - 0x10000) / 0x400)).pushUnit
        (0xDC00 + (c.toNat - 0x10000) % 0x400) = q.push c := by
  have hvalid : c.toNat < 0xD800 ∨ 0xDFFF < c.toNat ∧ c.toNat < 0x110000 := c.valid
  have hjoined : 0x10000 + (0xD800 + (c.toNat - 0x10000) / 0x400 - 0xD800) * 0x400 +
      (0xDC00 + (c.toNat - 0x10000) % 0x400 - 0xDC00) = c.toNat := by omega
  have hhalf : q.pushUnit (0xD800 + (c.toNat - 0x10000) / 0x400) =
      { contents := q.settled, half := some (0xD800 + (c.toNat - 0x10000) / 0x400) } :=
    if_pos (by omega)
  rw [hhalf, Quote.pushUnit, if_neg (by omega), if_pos (by omega)]
  dsimp only
  rw [hjoined, Char.ofNat_toNat]
  rfl

theorem CharacterForm.tokensFrom {c : Char} {form : List Char} (h : CharacterForm c form)
    (q : Quote) (rest : List Char) :
    tokensFrom (.quote q) [] (form ++ rest) = tokensFrom (.quote (q.push c)) [] rest := by
  cases h with
  | plain hquote hbackslash hcontrol =>
      have hstays : advance (.quote q) c = some (.quote (q.push c), []) := by
        rw [advance, if_neg hquote, if_neg hbackslash, if_neg (Nat.not_lt_of_le hcontrol)]
      exact tokensFrom_cons hstays rest
  | short hletter => exact tokensFrom_short hletter q rest
  | unit hdigits =>
      refine (tokensFrom_unit hdigits q rest).trans ?_
      rw [pushUnit_toNat]
  | @pair _ high low hc hhigh hlow =>
      show Json.tokensFrom _ [] ('\\' :: 'u' :: (high ++ '\\' :: 'u' :: low) ++ rest) = _
      rw [List.cons_append, List.cons_append, List.append_assoc, tokensFrom_unit hhigh,
        List.cons_append, List.cons_append, tokensFrom_unit hlow, pushUnit_pair q hc]

/-!
## Texts
-/

/-- Whether the characters `cs` may be written as `form` between quotes. -/
def CharactersForm (cs form : List Char) : Prop :=
  exists forms, List.Forall₂ CharacterForm cs forms ∧ form = forms.flatten

/-- Whether `form` is a text between quotes whose characters are `cs`. -/
def TextForm (cs form : List Char) : Prop :=
  exists inside, CharactersForm cs inside ∧ form = '"' :: inside ++ ['"']

theorem CharactersForm.concat {cs form last : List Char} {c : Char} (h : CharactersForm cs form)
    (hc : CharacterForm c last) : CharactersForm (cs ++ [c]) (form ++ last) := by
  rcases h with ⟨forms, hforms, rfl⟩
  refine ⟨forms ++ [last], List.rel_append hforms (.cons hc .nil), ?_⟩
  rw [List.flatten_append, List.flatten_singleton]

/-- The text of which the given characters, last first, have been read. -/
def Quote.holding (done : List Char) : Quote :=
  { contents := some done, half := none }

theorem CharactersForm.tokensFrom {cs form : List Char} (h : CharactersForm cs form)
    (done rest : List Char) :
    tokensFrom (.quote (.holding done)) [] (form ++ rest) =
      tokensFrom (.quote (.holding (cs.reverse ++ done))) [] rest := by
  rcases h with ⟨forms, hforms, rfl⟩
  induction hforms generalizing done with
  | nil => rfl
  | @cons c form cs forms hform _ ih =>
      have hpush : (Quote.holding done).push c = .holding (c :: done) := rfl
      rw [List.flatten_cons, List.append_assoc, hform.tokensFrom, hpush, ih, List.reverse_cons,
        List.append_assoc]
      rfl

/-- A text is over with its second quote. -/
theorem tokensFrom_quote (q : Quote) (rest : List Char) :
    tokensFrom (.quote q) [] ('"' :: rest) = q.finish :: tokens rest := by
  have hclose : advance (.quote q) '"' = some (.between, [q.finish]) := rfl
  exact tokensFrom_cons hclose rest

theorem tokens_between_quotes (inside rest : List Char) :
    tokens ('"' :: inside ++ ['"'] ++ rest) =
      tokensFrom (.quote .start) [] (inside ++ '"' :: rest) := by
  rw [List.append_assoc]
  rfl

theorem TextForm.tokens {cs form : List Char} (h : TextForm cs form) (rest : List Char) :
    tokens (form ++ rest) = .text (some cs) :: tokens rest := by
  rcases h with ⟨inside, hinside, rfl⟩
  have hfinish : (Quote.holding (cs.reverse ++ [])).finish = .text (some cs) := by
    rw [List.append_nil]
    exact congrArg (fun ds => Token.text (some ds)) cs.reverse_reverse
  rw [tokens_between_quotes, ← hfinish, ← tokensFrom_quote]
  exact hinside.tokensFrom [] ('"' :: rest)

/-!
## Compact texts
-/

theorem hexValue?_digitChar {n : Nat} (h : n < 16) : hexValue? n.digitChar = some n := by
  have hall : forall d : Fin 16, hexValue? (Nat.digitChar d) = some d.val := by decide
  exact hall ⟨n, h⟩

/-- The code of a control character has two digits at the most. -/
theorem spellsUnit_of_lt {n : Nat} (h : n < 32) :
    SpellsUnit n ['0', '0', Nat.digitChar (n / 16), Nat.digitChar (n % 16)] := by
  have hhigh : hexValue? (Nat.digitChar (n / 16)) = some (n / 16) :=
    hexValue?_digitChar (by omega)
  have hlow : hexValue? (Nat.digitChar (n % 16)) = some (n % 16) := hexValue?_digitChar (by omega)
  refine ⟨0, 0, n / 16, n % 16, ?_, by omega⟩
  simp only [List.map_cons, List.map_nil, hhigh, hlow]
  rfl

theorem eq_ofNat {c : Char} {n : Nat} (h : c.toNat = n) : c = Char.ofNat n := by
  rw [← h, Char.ofNat_toNat]

theorem characterForm_escape (c : Char) : CharacterForm c (escape c) := by
  unfold escape
  split
  · next hc => exact .short (by rw [hc]; decide)
  split
  · next hc => exact .short (by rw [hc]; decide)
  split
  · next hc => exact .short (by rw [hc]; decide)
  split
  · next hc => exact .short (by rw [hc]; decide)
  split
  · next hc => exact .short (by rw [hc]; decide)
  split
  · next hc => exact .short (by rw [eq_ofNat hc]; decide)
  split
  · next hc => exact .short (by rw [eq_ofNat hc]; decide)
  split
  · next hc => exact .unit (spellsUnit_of_lt hc)
  · next hquote hbackslash _ _ _ _ _ hcontrol =>
      exact .plain hquote hbackslash (Nat.le_of_not_lt hcontrol)

theorem textForm_quoted (cs : List Char) : TextForm cs (quoted cs) := by
  refine ⟨cs.flatMap escape, ⟨cs.map escape, ?_, List.flatMap_def⟩, rfl⟩
  rw [List.forall₂_map_right_iff, List.forall₂_same]
  exact fun c _ => characterForm_escape c

theorem tokens_quoted (cs rest : List Char) :
    tokens (quoted cs ++ rest) = .text (some cs) :: tokens rest :=
  (textForm_quoted cs).tokens rest

/-!
## Halves of surrogate pairs
-/

/-- The parts of any text between quotes.  A code unit need not stand for a
character. -/
inductive PartForm : List Char -> Prop
  | character {c : Char} {form : List Char} (h : CharacterForm c form) : PartForm form
  | unit {n : Nat} {digits : List Char} (h : SpellsUnit n digits) :
      PartForm ('\\' :: 'u' :: digits)

def QuotedForm (form : List Char) : Prop :=
  exists parts : List (List Char),
    (forall part, part ∈ parts -> PartForm part) ∧ form = '"' :: parts.flatten ++ ['"']

/-- Whether `form` is a text between quotes with these contents.  There are none where the
text is no form of characters. -/
def StringForm : Option (List Char) -> List Char -> Prop
  | some cs, form => TextForm cs form
  | none, form => QuotedForm form ∧ forall cs, ¬TextForm cs form

/-- What the reader holds of a text of which `inside` has been read: `inside` is a form of
the characters, and behind them of the first half of a surrogate pair if that came last. -/
structure Quote.Holds (q : Quote) (inside : List Char) : Prop where
  settled : forall done, q.settled = some done -> CharactersForm done.reverse inside
  half : forall done n, q.contents = some done -> q.half = some n ->
    exists before digits, CharactersForm done.reverse before ∧ SpellsUnit n digits ∧
      (0xD800 ≤ n ∧ n ≤ 0xDBFF) ∧ inside = before ++ '\\' :: 'u' :: digits

theorem Quote.holds_start : Quote.start.Holds [] where
  settled done hdone := by
    cases hdone
    exact ⟨[], .nil, rfl⟩
  half _ _ _ hhalf := by cases hhalf

theorem Quote.Holds.push {q : Quote} {inside form : List Char} {c : Char} (h : q.Holds inside)
    (hc : CharacterForm c form) : (q.push c).Holds (inside ++ form) where
  settled done hdone := by
    rcases Option.map_eq_some_iff.mp hdone with ⟨before, hbefore, rfl⟩
    rw [List.reverse_cons]
    exact (h.settled before hbefore).concat hc
  half _ _ _ hhalf := by cases hhalf

theorem hexValue?_lt {c : Char} {n : Nat} (h : hexValue? c = some n) : n < 16 := by
  unfold hexValue? at h
  split at h
  · next hdigit =>
      rcases Bool.and_eq_true_iff.mp hdigit with ⟨_, hhigh⟩
      have hcode : c.toNat ≤ 57 := of_decide_eq_true hhigh
      cases h
      omega
  split at h
  · next hletter =>
      have hcode : c.toNat ≤ 102 := hletter.right
      cases h
      omega
  split at h
  · next hletter =>
      have hcode : c.toNat ≤ 70 := hletter.right
      cases h
      omega
  · cases h

theorem SpellsUnit.lt {n : Nat} {digits : List Char} (h : SpellsUnit n digits) : n < 0x10000 := by
  rcases h with ⟨a, b, c, d, hdigits, rfl⟩
  have hall : forall m, some m ∈ digits.map hexValue? -> m < 16 := by
    intro m hm
    rcases List.mem_map.mp hm with ⟨_, _, hvalue⟩
    exact hexValue?_lt hvalue
  rw [hdigits] at hall
  have ha := hall a (by simp)
  have hb := hall b (by simp)
  have hc := hall c (by simp)
  have hd := hall d (by simp)
  omega

theorem toNat_ofNat {n : Nat} (h : n < 0xD800 ∨ 0xDFFF < n ∧ n < 0x110000) :
    (Char.ofNat n).toNat = n := by
  rw [Char.ofNat, dif_pos h]
  rfl

theorem characterForm_unit {n : Nat} {digits : List Char} (hn : SpellsUnit n digits)
    (hscalar : n < 0xD800 ∨ 0xDFFF < n) :
    CharacterForm (Char.ofNat n) ('\\' :: 'u' :: digits) := by
  have hsize := hn.lt
  apply CharacterForm.unit
  rw [toNat_ofNat (by omega)]
  exact hn

theorem characterForm_pair {m n : Nat} {high low : List Char} (hm : SpellsUnit m high)
    (hn : SpellsUnit n low) (hfirst : 0xD800 ≤ m ∧ m ≤ 0xDBFF)
    (hsecond : 0xDC00 ≤ n ∧ n ≤ 0xDFFF) :
    CharacterForm (Char.ofNat (0x10000 + (m - 0xD800) * 0x400 + (n - 0xDC00)))
      ('\\' :: 'u' :: high ++ '\\' :: 'u' :: low) := by
  have hvalue := toNat_ofNat (n := 0x10000 + (m - 0xD800) * 0x400 + (n - 0xDC00)) (by omega)
  have hhigh : 0xD800 + (0x10000 + (m - 0xD800) * 0x400 + (n - 0xDC00) - 0x10000) / 0x400 = m := by
    omega
  have hlow : 0xDC00 + (0x10000 + (m - 0xD800) * 0x400 + (n - 0xDC00) - 0x10000) % 0x400 = n := by
    omega
  apply CharacterForm.pair
  · omega
  · rw [hvalue, hhigh]
    exact hm
  · rw [hvalue, hlow]
    exact hn

/-- The second half of a surrogate pair completes a character only right behind a first one. -/
theorem Quote.Holds.pushUnit {q : Quote} {inside digits : List Char} {n : Nat}
    (h : q.Holds inside) (hn : SpellsUnit n digits) :
    (q.pushUnit n).Holds (inside ++ '\\' :: 'u' :: digits) := by
  have hsize := hn.lt
  unfold Quote.pushUnit
  split
  · next hfirst =>
      constructor
      · intro done hdone
        cases hdone
      · intro done m hdone hm
        cases hm
        exact ⟨inside, digits, h.settled done hdone, hn, hfirst, rfl⟩
  split
  · next hsecond =>
      cases hhalf : q.half with
      | none => exact ⟨nofun, nofun⟩
      | some m =>
          constructor
          · intro done hdone
            rcases Option.map_eq_some_iff.mp hdone with ⟨earlier, hearlier, rfl⟩
            rcases h.half earlier m hearlier hhalf with
              ⟨before, high, hbefore, hhigh, hrange, rfl⟩
            rw [List.reverse_cons, List.append_assoc]
            exact hbefore.concat (characterForm_pair hhigh hn hrange hsecond)
          · intro _ _ _ hnone
            cases hnone
  · next hfirst hsecond => exact h.push (characterForm_unit hn (by omega))

/-- What stands between the quotes leaves the reader with what it spells. -/
theorem exists_holds_of_parts {parts : List (List Char)}
    (hparts : forall part, part ∈ parts -> PartForm part) {q : Quote} {inside : List Char}
    (hq : q.Holds inside) :
    exists last : Quote, last.Holds (inside ++ parts.flatten) ∧ forall rest,
      tokensFrom (.quote q) [] (parts.flatten ++ rest) = tokensFrom (.quote last) [] rest := by
  induction parts generalizing q inside with
  | nil =>
      refine ⟨q, ?_, fun _ => rfl⟩
      rw [List.flatten_nil, List.append_nil]
      exact hq
  | cons part parts ih =>
      have hnext : exists next : Quote, next.Holds (inside ++ part) ∧ forall rest,
          tokensFrom (.quote q) [] (part ++ rest) = tokensFrom (.quote next) [] rest := by
        cases hparts part List.mem_cons_self with
        | @character c _ hc => exact ⟨q.push c, hq.push hc, hc.tokensFrom q⟩
        | @unit n _ hn => exact ⟨q.pushUnit n, hq.pushUnit hn, tokensFrom_unit hn q⟩
      rcases hnext with ⟨next, hholds, hstep⟩
      rcases ih (fun other hother => hparts other (List.mem_cons_of_mem part hother)) hholds with
        ⟨last, hlast, hrun⟩
      refine ⟨last, ?_, fun rest => ?_⟩
      · rw [List.flatten_cons, ← List.append_assoc]
        exact hlast
      · rw [List.flatten_cons, List.append_assoc, hstep, hrun]

/-- A text between quotes is one token, and it stands for characters only if it is a form
of them. -/
theorem QuotedForm.tokens {form : List Char} (h : QuotedForm form) :
    exists contents, (forall cs, contents = some cs -> TextForm cs form) ∧
      forall rest, tokens (form ++ rest) = .text contents :: tokens rest := by
  rcases h with ⟨parts, hparts, rfl⟩
  rcases exists_holds_of_parts hparts Quote.holds_start with ⟨last, hlast, hrun⟩
  refine ⟨last.settled.map List.reverse, ?_, fun rest => ?_⟩
  · intro cs hcs
    rcases Option.map_eq_some_iff.mp hcs with ⟨done, hdone, rfl⟩
    exact ⟨parts.flatten, hlast.settled done hdone, rfl⟩
  · rw [tokens_between_quotes, hrun, tokensFrom_quote]
    rfl

theorem StringForm.tokens {contents : Option (List Char)} {form : List Char}
    (h : StringForm contents form) (rest : List Char) :
    tokens (form ++ rest) = .text contents :: tokens rest := by
  cases contents with
  | some cs => exact TextForm.tokens h rest
  | none =>
      rcases h with ⟨hquoted, hnone⟩
      rcases hquoted.tokens with ⟨found, hfound, htokens⟩
      cases found with
      | none => exact htokens rest
      | some cs => exact absurd (hfound cs rfl) (hnone cs)

end Json
end PeerMix
