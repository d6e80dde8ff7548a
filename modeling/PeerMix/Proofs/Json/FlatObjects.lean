import PeerMix.Proofs.Json.Rendering

/-!
# Objects of single values, however they are written

Between the tokens of a document there may be blanks, and a text may be written in
several ways.  The forms of an object whose members are no containers are given
here by a grammar.  Whatever the form, it is cut into the tokens of the object, so
it is read as this object.  The strict reader reads it too, unless one of the texts
in it holds half of a surrogate pair.
-/

namespace PeerMix
namespace Json

/-!
## Blanks
-/

/-- Whether a text is made of blanks only. -/
def Blank (cs : List Char) : Prop :=
  forall c, c ∈ cs -> isSpace c = true

instance (cs : List Char) : Decidable (Blank cs) :=
  List.decidableBAll (fun c => isSpace c = true) cs

theorem tokens_blank_append {blanks : List Char} (h : Blank blanks) (rest : List Char) :
    tokens (blanks ++ rest) = tokens rest := by
  induction blanks with
  | nil => rfl
  | cons c blanks ih =>
      have hbegin : begin c = (.between, []) := if_pos (h c List.mem_cons_self)
      rw [List.cons_append, tokens_cons, hbegin]
      exact ih fun d hd => h d (List.mem_cons_of_mem c hd)

theorem delimits_blank_append {blanks rest : List Char} (h : Blank blanks)
    (hrest : Delimits rest) : Delimits (blanks ++ rest) := by
  cases blanks with
  | nil => exact hrest
  | cons c blanks => exact .inl (h c List.mem_cons_self)

/-!
## Values and members
-/

/-- The forms of values that hold no others: literals, integers of 64 bits and texts.  A
zero with a minus sign is not read as an integer. -/
inductive ValueForm : Json -> List Char -> Prop
  | null : ValueForm .null ['n', 'u', 'l', 'l']
  | isTrue : ValueForm (.bool true) ['t', 'r', 'u', 'e']
  | isFalse : ValueForm (.bool false) ['f', 'a', 'l', 's', 'e']
  | integer {i : Int} (h : IsWide i) : ValueForm (.integer i) (renderInteger i)
  | negativeZero : ValueForm (.decimal 0 0) ['-', '0']
  | text {cs form : List Char} (h : StringForm (some cs) form) : ValueForm (.text cs) form
  | loneSurrogate {form : List Char} (h : StringForm none form) : ValueForm .loneSurrogate form

/-- The forms of a name and its value. -/
inductive MemberForm : Member -> List Char -> Prop
  | member {name : Option (List Char)} {v : Json}
      {before nameForm colon gap valueForm after : List Char}
      (hbefore : Blank before) (hname : StringForm name nameForm) (hcolon : Blank colon)
      (hgap : Blank gap) (hvalue : ValueForm v valueForm) (hafter : Blank after) :
      MemberForm (name, v) (before ++ nameForm ++ colon ++ ':' :: gap ++ valueForm ++ after)

/-- The forms of the members of an object, with commas between them. -/
inductive MembersForm : List Member -> List Char -> Prop
  | none {blanks : List Char} (h : Blank blanks) : MembersForm [] blanks
  | last {m : Member} {form : List Char} (h : MemberForm m form) : MembersForm [m] form
  | more {m n : Member} {ms : List Member} {form forms : List Char} (h : MemberForm m form)
      (hs : MembersForm (n :: ms) forms) : MembersForm (m :: n :: ms) (form ++ ',' :: forms)

/-- Whether `cs` is a document that holds an object of single values. -/
def ObjectForm (members : List Member) (cs : List Char) : Prop :=
  exists before forms after, Blank before ∧ MembersForm members forms ∧ Blank after ∧
    cs = before ++ '{' :: forms ++ '}' :: after

theorem ValueForm.builds {v : Json} {form : List Char} (h : ValueForm v form) : Builds v := by
  cases h with
  | null | isTrue | isFalse | integer _ | negativeZero =>
      exact fun ts hr => documentFrom_cons (next?_bare hr _) ts
  | @text cs _ _ => exact fun ts hr => documentFrom_cons (next?_text hr (some cs)) ts
  | loneSurrogate _ => exact fun ts hr => documentFrom_cons (next?_text hr none) ts

theorem ValueForm.tokens {v : Json} {form : List Char} (h : ValueForm v form) {rest : List Char}
    (hrest : Delimits rest) : tokens (form ++ rest) = v.spelling ++ tokens rest := by
  cases h with
  | null | isTrue | isFalse | negativeZero => exact tokens_word (by decide) (by decide) hrest
  | integer hi => exact tokens_renderInteger hi hrest
  | text htext => exact htext.tokens rest
  | loneSurrogate htext => exact htext.tokens rest

theorem MemberForm.builds {m : Member} {form : List Char} (h : MemberForm m form) :
    Builds m.2 := by
  cases h with
  | member _ _ _ _ hvalue _ => exact hvalue.builds

theorem MemberForm.tokens {m : Member} {form : List Char} (h : MemberForm m form)
    {rest : List Char} (hrest : Delimits rest) :
    tokens (form ++ rest) = .text m.1 :: .colon :: m.2.spelling ++ tokens rest := by
  cases h with
  | @member name v before nameForm colon gap valueForm after hbefore hname hcolon hgap hvalue
      hafter =>
      have hend : Delimits (after ++ rest) := delimits_blank_append hafter hrest
      have hsplit : before ++ nameForm ++ colon ++ ':' :: gap ++ valueForm ++ after ++ rest =
          before ++ (nameForm ++ (colon ++ ':' :: (gap ++ (valueForm ++ (after ++ rest))))) := by
        simp
      rw [hsplit, tokens_blank_append hbefore, hname.tokens, tokens_blank_append hcolon,
        tokens_cons_punctuation rfl, tokens_blank_append hgap, hvalue.tokens hend,
        tokens_blank_append hafter]
      rfl

/-- A member without blanks. -/
theorem MemberForm.compact {name : Option (List Char)} {v : Json} {nameForm valueForm : List Char}
    (hname : StringForm name nameForm) (hvalue : ValueForm v valueForm) :
    MemberForm (name, v) (nameForm ++ ':' :: valueForm) := by
  have hblank : Blank [] := List.forall_mem_nil _
  have hform := member hblank hname hblank hblank hvalue hblank
  simp only [List.nil_append, List.append_nil, List.append_assoc, List.singleton_append] at hform
  exact hform

theorem MembersForm.builds {members : List Member} {forms : List Char}
    (h : MembersForm members forms) : forall m, m ∈ members -> Builds m.2 := by
  induction h with
  | none _ => exact List.forall_mem_nil _
  | last hlast => exact List.forall_mem_singleton.mpr hlast.builds
  | more hfirst _ ih => exact List.forall_mem_cons.mpr ⟨hfirst.builds, ih⟩

theorem MembersForm.tokens {members : List Member} {forms : List Char}
    (h : MembersForm members forms) {rest : List Char} (hrest : Delimits rest) :
    tokens (forms ++ rest) = spellingOfMembers members ++ tokens rest := by
  induction h with
  | none hblanks => exact tokens_blank_append hblanks rest
  | last hmember => exact hmember.tokens hrest
  | @more m n ms form forms hmember _ ih =>
      show Json.tokens (form ++ ',' :: forms ++ rest) =
        .text m.1 :: .colon :: m.2.spelling ++ .comma :: spellingOfMembers (n :: ms) ++
          Json.tokens rest
      rw [List.append_assoc, List.cons_append, hmember.tokens (delimits_punctuation rfl _),
        tokens_cons_punctuation rfl, ih, List.append_assoc]
      rfl

/-!
## Documents
-/

theorem ObjectForm.tokens {members : List Member} {cs : List Char}
    (h : ObjectForm members cs) : tokens cs = (Json.object members true).spelling := by
  rcases h with ⟨before, forms, after, hbefore, hforms, hafter, rfl⟩
  have hend : Json.tokens after = [] := by
    have hblank := tokens_blank_append hafter []
    rw [List.append_nil] at hblank
    exact hblank
  rw [List.append_assoc, tokens_blank_append hbefore, List.cons_append,
    tokens_cons_punctuation rfl, hforms.tokens (delimits_punctuation rfl _),
    tokens_cons_punctuation rfl, hend]
  rfl

theorem ObjectForm.document {members : List Member} {cs : List Char}
    (h : ObjectForm members cs) :
    document (Json.object members true).spelling =
      { root := .object members true, complete := true } := by
  rcases h with ⟨_, _, _, _, hforms, _⟩
  exact document_spelling (builds_object hforms.builds)

theorem ObjectForm.read {members : List Member} {cs : List Char} (h : ObjectForm members cs) :
    read cs = { root := .object members true, complete := true } := by
  rw [Json.read, h.tokens, h.document]

/-!
## Strict reading
-/

/-- Whether the name and the value stand for characters where they are texts. -/
def Legible (m : Member) : Prop :=
  m.1 ≠ none ∧ m.2 ≠ .loneSurrogate

/-- Whether a token is read strictly and neither opens nor closes a container. -/
def Token.IsInner (t : Token) : Prop :=
  t.isStrict = true ∧ forall depth ts, isShallow depth (t :: ts) = isShallow depth ts

theorem isShallow_append {ts : List Token} (h : forall t, t ∈ ts -> t.IsInner) (depth : Nat)
    (rest : List Token) : isShallow depth (ts ++ rest) = isShallow depth rest := by
  induction ts with
  | nil => rfl
  | cons t ts ih =>
      rw [List.cons_append, (h t List.mem_cons_self).right]
      exact ih fun u hu => h u (List.mem_cons_of_mem t hu)

theorem MemberForm.isInner {m : Member} {form : List Char} (h : MemberForm m form)
    (hlegible : Legible m) :
    forall t, t ∈ Token.text m.1 :: .colon :: m.2.spelling -> t.IsInner := by
  cases h with
  | @member name v _ _ _ _ _ _ _ _ _ _ hvalue _ =>
      refine List.forall_mem_cons.mpr ⟨?_, List.forall_mem_cons.mpr ⟨⟨rfl, fun _ _ => rfl⟩, ?_⟩⟩
      · cases name with
        | none => exact absurd rfl hlegible.left
        | some cs => exact ⟨rfl, fun _ _ => rfl⟩
      · cases hvalue with
        | loneSurrogate _ => exact absurd rfl hlegible.right
        | null | isTrue | isFalse | integer _ | negativeZero | text _ =>
            exact List.forall_mem_singleton.mpr ⟨rfl, fun _ _ => rfl⟩

theorem MembersForm.isInner {members : List Member} {forms : List Char}
    (h : MembersForm members forms) (hlegible : forall m, m ∈ members -> Legible m) :
    forall t, t ∈ spellingOfMembers members -> t.IsInner := by
  induction h with
  | none _ => exact List.forall_mem_nil _
  | last hlast => exact hlast.isInner (hlegible _ List.mem_cons_self)
  | @more m n ms _ _ hfirst _ ih =>
      have htail := ih fun other hother => hlegible other (List.mem_cons_of_mem m hother)
      refine List.forall_mem_append.mpr ⟨hfirst.isInner (hlegible m List.mem_cons_self), ?_⟩
      exact List.forall_mem_cons.mpr ⟨⟨rfl, fun _ _ => rfl⟩, htail⟩

/-- Every form of an object of single values is read strictly as this object. -/
theorem ObjectForm.readStrict?_of_legible {members : List Member} {cs : List Char}
    (h : ObjectForm members cs) (hlegible : forall m, m ∈ members -> Legible m) :
    readStrict? cs = some (.object members true) := by
  have hinner : forall t, t ∈ spellingOfMembers members -> t.IsInner := by
    rcases h with ⟨_, _, _, _, hforms, _⟩
    exact hforms.isInner hlegible
  have hshallow : isShallow 0 (Json.object members true).spelling = true := by
    show isShallow 1 (spellingOfMembers members ++ [.closeObject]) = true
    rw [isShallow_append hinner]
    rfl
  have hstrict : (Json.object members true).spelling.all Token.isStrict = true := by
    show (spellingOfMembers members ++ [Token.closeObject]).all Token.isStrict = true
    rw [List.all_append, List.all_eq_true.mpr fun t ht => (hinner t ht).left]
    rfl
  unfold readStrict?
  dsimp only
  rw [h.tokens, h.document]
  exact if_pos ⟨rfl, hshallow, hstrict⟩

theorem mem_spellingOfMembers {members : List Member} {m : Member} (hm : m ∈ members) {t : Token}
    (ht : t ∈ Token.text m.1 :: .colon :: m.2.spelling) : t ∈ spellingOfMembers members := by
  induction members with
  | nil => cases hm
  | cons n ms ih =>
      have hsplit : exists after, spellingOfMembers (n :: ms) =
          (Token.text n.1 :: .colon :: n.2.spelling) ++ after ∧
            forall u, u ∈ spellingOfMembers ms -> u ∈ after := by
        cases ms with
        | nil => exact ⟨[], (List.append_nil _).symm, nofun⟩
        | cons other ms => exact ⟨_, rfl, fun u hu => List.mem_cons_of_mem _ hu⟩
      rcases hsplit with ⟨after, hspelling, hafter⟩
      rw [hspelling]
      rcases List.mem_cons.mp hm with rfl | hm
      · exact List.mem_append_left _ ht
      · exact List.mem_append_right _ (hafter t (ih hm))

/-- A text that does not stand for characters makes the whole document unreadable to the
strict reader. -/
theorem ObjectForm.readStrict?_of_not_legible {members : List Member} {cs : List Char}
    (h : ObjectForm members cs) {m : Member} (hm : m ∈ members)
    (htext : m.1 = none ∨ m.2 = .loneSurrogate) : readStrict? cs = none := by
  have hmem : Token.text none ∈ spellingOfMembers members := by
    apply mem_spellingOfMembers hm
    rcases htext with hname | hvalue
    · rw [hname]
      exact List.mem_cons_self
    · rw [hvalue]
      exact List.mem_cons_of_mem _ (List.mem_cons_of_mem _ List.mem_cons_self)
  have hstrict : (Json.object members true).spelling.all Token.isStrict ≠ true := by
    intro hall
    have hinside : Token.text none ∈ (Json.object members true).spelling :=
      List.mem_cons_of_mem _ (List.mem_append_left _ hmem)
    cases List.all_eq_true.mp hall _ hinside
  unfold readStrict?
  dsimp only
  rw [h.tokens]
  exact if_neg fun hgood => hstrict hgood.right.right

end Json
end PeerMix
