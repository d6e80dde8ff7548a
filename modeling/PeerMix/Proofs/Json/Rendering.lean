import PeerMix.Proofs.Json.Spelling

/-!
# Compact text is read as it was written

The tokens of a value are read as this value wherever a value may begin: the
reader stands behind it then, as if the value had been delivered at once.  With
what the text is cut into, every value that has a text is read back from it.
-/

namespace PeerMix
namespace Json

/-!
## Reading the tokens of a value
-/

/-- Whether the tokens of `v` are read as `v` wherever a value may begin. -/
def Builds (v : Json) : Prop :=
  forall {r : Reading} {outer : List Outer} (ts : List Token), containers? r = some outer ->
    documentFrom r (v.spelling ++ ts) = documentFrom (deliver v outer) ts

theorem documentFrom_cons {r next : Reading} {t : Token} (h : r.next? t = some next)
    (ts : List Token) : documentFrom r (t :: ts) = documentFrom next ts := by
  rw [documentFrom, h]

theorem documentFrom_items {items : List Json} (h : forall v, v ∈ items -> Builds v)
    (hsome : items ≠ []) (first : Bool) (done : List Json) (outer : List Outer)
    (ts : List Token) :
    documentFrom (.item first done, outer) (spellingOfItems items ++ .closeArray :: ts) =
      documentFrom (deliver (.ofArray (done.reverse ++ items)) outer) ts := by
  induction items generalizing first done with
  | nil => exact absurd rfl hsome
  | cons v items ih =>
      have hvalue : Builds v := h v List.mem_cons_self
      cases items with
      | nil =>
          rw [spellingOfItems, hvalue _ rfl]
          show documentFrom (.itemEnd (v :: done), outer) (.closeArray :: ts) = _
          rw [documentFrom_cons rfl, List.reverse_cons]
          rfl
      | cons w vs =>
          have htail := ih (fun u hu => h u (List.mem_cons_of_mem v hu)) (List.cons_ne_nil w vs)
            false (v :: done)
          rw [spellingOfItems, List.append_assoc, List.cons_append, hvalue _ rfl]
          show documentFrom (.itemEnd (v :: done), outer) (.comma :: _) = _
          rw [documentFrom_cons rfl, htail, List.reverse_cons, List.append_assoc]
          rfl

/-- A name, a colon and a value make one more member. -/
theorem documentFrom_member {v : Json} (hv : Builds v) (first : Bool) (done : List Member)
    (name : Option (List Char)) (outer : List Outer) (ts : List Token) :
    documentFrom (.key first done, outer) (.text name :: .colon :: v.spelling ++ ts) =
      documentFrom (.memberEnd ((name, v) :: done), outer) ts := by
  show documentFrom (.key first done, outer) (.text name :: .colon :: (v.spelling ++ ts)) = _
  rw [documentFrom_cons rfl, documentFrom_cons rfl, hv ts rfl]
  rfl

theorem documentFrom_members {members : List Member}
    (h : forall m, m ∈ members -> Builds m.2) (hsome : members ≠ []) (first : Bool)
    (done : List Member) (outer : List Outer) (ts : List Token) :
    documentFrom (.key first done, outer) (spellingOfMembers members ++ .closeObject :: ts) =
      documentFrom (deliver (.object (done.reverse ++ members) true) outer) ts := by
  induction members generalizing first done with
  | nil => exact absurd rfl hsome
  | cons m members ih =>
      rcases m with ⟨name, v⟩
      have hvalue : Builds v := h (name, v) List.mem_cons_self
      cases members with
      | nil =>
          show documentFrom (.key first done, outer)
            (.text name :: .colon :: v.spelling ++ .closeObject :: ts) = _
          rw [documentFrom_member hvalue, documentFrom_cons rfl, List.reverse_cons]
      | cons n ms =>
          have htail := ih (fun u hu => h u (List.mem_cons_of_mem _ hu)) (List.cons_ne_nil n ms)
            false ((name, v) :: done)
          show documentFrom (.key first done, outer)
            (.text name :: .colon :: v.spelling ++
              .comma :: spellingOfMembers (n :: ms) ++ .closeObject :: ts) = _
          rw [List.append_assoc, documentFrom_member hvalue, List.cons_append,
            documentFrom_cons rfl, htail, List.reverse_cons, List.append_assoc]
          rfl

theorem next?_bare {r : Reading} {outer : List Outer} (hr : containers? r = some outer)
    (v : Json) : r.next? (.bare v) = some (deliver v outer) := by
  rw [Reading.next?, hr]
  rfl

/-- The value that a text with these contents is. -/
def ofContents : Option (List Char) -> Json
  | some cs => .text cs
  | none => .loneSurrogate

/-- Where a value may begin no name is expected. -/
theorem next?_text {r : Reading} {outer : List Outer} (hr : containers? r = some outer)
    (contents : Option (List Char)) :
    r.next? (.text contents) = some (deliver (ofContents contents) outer) := by
  rcases r with ⟨place, around⟩
  cases place with
  | start =>
      cases hr
      rfl
  | item first done =>
      cases hr
      rfl
  | member done key =>
      cases hr
      rfl
  | itemEnd done => cases hr
  | key first done => cases hr
  | colon done key => cases hr
  | memberEnd done => cases hr
  | finished root => cases hr

theorem builds_array {items : List Json} (h : forall v, v ∈ items -> Builds v) :
    Builds (.ofArray items) := by
  intro r outer ts hr
  have hopen : r.next? .openArray = some (.item true [], outer) := by
    rw [Reading.next?, hr]
    rfl
  show documentFrom r (.openArray :: spellingOfItems items ++ [.closeArray] ++ ts) = _
  rw [List.append_assoc, List.cons_append, documentFrom_cons hopen]
  rcases Decidable.em (items = []) with hnone | hsome
  · rw [hnone]
    rfl
  · exact documentFrom_items h hsome true [] outer ts

theorem builds_object {members : List Member} (h : forall m, m ∈ members -> Builds m.2) :
    Builds (.object members true) := by
  intro r outer ts hr
  have hopen : r.next? .openObject = some (.key true [], outer) := by
    rw [Reading.next?, hr]
    rfl
  show documentFrom r (.openObject :: spellingOfMembers members ++ [.closeObject] ++ ts) = _
  rw [List.append_assoc, List.cons_append, documentFrom_cons hopen]
  rcases Decidable.em (members = []) with hnone | hsome
  · rw [hnone]
    rfl
  · exact documentFrom_members h hsome true [] outer ts

theorem forall_named {members : List (List Char × Json)} {good : Json -> Prop}
    (h : forall m, m ∈ members -> good m.2) : forall m, m ∈ named members -> good m.2 := by
  intro m hm
  rcases List.mem_map.mp hm with ⟨n, hn, rfl⟩
  exact h n hn

theorem Writable.builds {good : Char -> Prop} {v : Json} (hv : Writable good v) : Builds v := by
  induction hv with
  | null => exact fun ts hr => documentFrom_cons (next?_bare hr _) ts
  | bool b => exact fun ts hr => documentFrom_cons (next?_bare hr _) ts
  | integer _ => exact fun ts hr => documentFrom_cons (next?_bare hr _) ts
  | text _ => exact fun ts hr => documentFrom_cons (next?_text hr _) ts
  | array _ ih => exact builds_array ih
  | object _ _ ih => exact builds_object (forall_named ih)

/-!
## Characters of compact text
-/

def IsAscii (c : Char) : Prop :=
  c.toNat < 128

instance (c : Char) : Decidable (IsAscii c) :=
  inferInstanceAs (Decidable (c.toNat < 128))

def IsAsciiText (cs : List Char) : Prop :=
  forall c, c ∈ cs -> IsAscii c

instance (cs : List Char) : Decidable (IsAsciiText cs) :=
  List.decidableBAll IsAscii cs

/-- The characters of a line of ASCII text. -/
def OnLine (c : Char) : Prop :=
  IsAscii c ∧ c ≠ '\n'

instance (c : Char) : Decidable (OnLine c) :=
  inferInstanceAs (Decidable (IsAscii c ∧ c ≠ '\n'))

/-- Whether all of a text stays on one line of ASCII text. -/
def FitsLine (cs : List Char) : Prop :=
  forall c, c ∈ cs -> OnLine c

instance (cs : List Char) : Decidable (FitsLine cs) :=
  List.decidableBAll OnLine cs

theorem FitsLine.append {cs ds : List Char} (hcs : FitsLine cs) (hds : FitsLine ds) :
    FitsLine (cs ++ ds) :=
  List.forall_mem_append.mpr ⟨hcs, hds⟩

theorem FitsLine.cons {c : Char} {cs : List Char} (hc : OnLine c) (hcs : FitsLine cs) :
    FitsLine (c :: cs) :=
  List.forall_mem_cons.mpr ⟨hc, hcs⟩

theorem fitsLine_escape {c : Char} (hc : IsAscii c) : FitsLine (escape c) := by
  have hall : forall n : Fin 128, FitsLine (escape (Char.ofNat n)) := by decide
  have h := hall ⟨c.toNat, hc⟩
  rw [Char.ofNat_toNat] at h
  exact h

theorem fitsLine_quoted {cs : List Char} (hcs : IsAsciiText cs) :
    FitsLine (quoted cs) := by
  have hinside : FitsLine (cs.flatMap escape) := by
    intro d hd
    rcases List.mem_flatMap.mp hd with ⟨c, hc, hescape⟩
    exact fitsLine_escape (hcs c hc) d hescape
  exact (FitsLine.cons (by decide) hinside).append (by decide)

theorem onLine_of_isDigit {c : Char} (h : isDigit c = true) : OnLine c := by
  rcases Bool.and_eq_true_iff.mp h with ⟨_hlow, hhigh⟩
  have hcode : c.toNat ≤ 57 := of_decide_eq_true hhigh
  constructor
  · exact Nat.lt_of_le_of_lt hcode (by decide)
  · intro hc
    rw [hc] at h
    cases h

theorem fitsLine_renderInteger (i : Int) : FitsLine (renderInteger i) := by
  have hdigits : FitsLine (Nat.toDigits 10 i.natAbs) := by
    intro c hc
    exact onLine_of_isDigit (isDigit_of_mem_toDigits hc)
  unfold renderInteger
  split
  · exact .cons (by decide) hdigits
  · exact hdigits

theorem fitsLine_renderItems {items : List Json} (h : forall v, v ∈ items -> FitsLine v.render) :
    FitsLine (renderItems items) := by
  induction items with
  | nil => exact List.forall_mem_nil _
  | cons v items ih =>
      have hvalue : FitsLine v.render := h v List.mem_cons_self
      have htail := ih fun w hw => h w (List.mem_cons_of_mem v hw)
      cases items with
      | nil => exact hvalue
      | cons w vs => exact hvalue.append (.cons (by decide) htail)

theorem fitsLine_renderMembers {members : List (List Char × Json)}
    (hnames : forall m, m ∈ members -> IsAsciiText m.1)
    (hvalues : forall m, m ∈ members -> FitsLine m.2.render) :
    FitsLine (renderMembers (named members)) := by
  induction members with
  | nil => exact List.forall_mem_nil _
  | cons m members ih =>
      have hname : FitsLine (quoted m.1) := fitsLine_quoted (hnames m List.mem_cons_self)
      have hvalue : FitsLine (':' :: m.2.render) :=
        .cons (by decide) (hvalues m List.mem_cons_self)
      have htail := ih (fun n hn => hnames n (List.mem_cons_of_mem m hn))
        (fun n hn => hvalues n (List.mem_cons_of_mem m hn))
      cases members with
      | nil => exact hname.append hvalue
      | cons n ms => exact (hname.append hvalue).append (.cons (by decide) htail)

theorem Writable.fitsLine_render {v : Json} (hv : Writable IsAscii v) :
    FitsLine v.render := by
  induction hv with
  | null => decide
  | bool b => cases b <;> decide
  | integer _ => exact fitsLine_renderInteger _
  | text h => exact fitsLine_quoted h
  | array _ ih => exact (FitsLine.cons (by decide) (fitsLine_renderItems ih)).append (by decide)
  | object hnames _ ih =>
      exact (FitsLine.cons (by decide) (fitsLine_renderMembers hnames ih)).append (by decide)

/-!
## Documents
-/

/-- The tokens of a value are a document that holds it and nothing else. -/
theorem document_spelling {v : Json} (hv : Builds v) :
    document v.spelling = { root := v, complete := true } := by
  have hbuilds := hv (r := (.start, [])) [] rfl
  rw [List.append_nil] at hbuilds
  exact hbuilds

/-- Every value that has a text is read back from it, and nothing is left over. -/
theorem Writable.read_render {good : Char -> Prop} {v : Json} (hv : Writable good v) :
    read v.render = { root := v, complete := true } := by
  rw [read, hv.tokens_render, document_spelling hv.builds]

end Json
end PeerMix
