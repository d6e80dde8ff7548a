import Mathlib.Algebra.Order.Ring.Nat
import Mathlib.Data.List.Forall2
import PeerMix.Proofs.Bytes.Numbers
import PeerMix.Wire.Signed

/-!
# Preimages are read in one way

Everything in a preimage has a fixed width or follows its length or count, so
whoever knows the tag reads the items back one after the other.  What is hashed
therefore tells the purposes of preimages and all hashed fields apart.
-/

namespace PeerMix

/-!
## Numbers
-/

namespace Bytes

theorem lt_pow_width (n : Nat) : n < Nat.pow 256 (width n) := by
  have hlog : n < 2 ^ (n.log2 + 1) := Nat.lt_log2_self
  have hwidth : n.log2 + 1 ≤ 8 * width n := by
    unfold width
    omega
  have hpower : (256 : Nat) ^ width n = 2 ^ (8 * width n) :=
    (pow_mul 2 8 (width n)).symm
  show n < 256 ^ width n
  rw [hpower]
  exact Nat.lt_of_lt_of_le hlog (Nat.pow_le_pow_right Nat.two_pos hwidth)

/-- The shortest spelling tells all numbers apart. -/
theorem ofNat_inj {m n : Nat} (h : ofNat m = ofNat n) : m = n := by
  have hread := congrArg toNat h
  unfold ofNat at hread
  rw [toNat_bigEndian, toNat_bigEndian, Nat.mod_eq_of_lt (lt_pow_width m),
    Nat.mod_eq_of_lt (lt_pow_width n)] at hread
  exact hread

end Bytes

namespace Wire
namespace Preimage

/-!
## Reading from the front
-/

/-- Values that fit are told apart by what they are written as, whatever follows. -/
def Readable {α : Type} (write : α -> Bytes) (fits : α -> Prop) : Prop :=
  forall a b x y, fits a -> fits b -> write a ++ x = write b ++ y -> a = b ∧ x = y

def CountFits (n : Nat) : Prop :=
  n < UInt64.size

instance (n : Nat) : Decidable (CountFits n) :=
  inferInstanceAs (Decidable (n < UInt64.size))

theorem readable_count : Readable encodeCount CountFits := by
  intro m n x y hm hn h
  have hlength : (encodeCount m).length = (encodeCount n).length := by
    simp [encodeCount, Bytes.length_bigEndian]
  rcases List.append_inj h hlength with ⟨hcount, hrest⟩
  constructor
  · exact @Bytes.bigEndian_inj 8 m n hm hn hcount
  · exact hrest

theorem readable_flag : Readable (fun b => [encodeFlag b]) fun _ => True := by
  intro b c x y _hb _hc h
  rcases List.cons.inj h with ⟨hflag, hrest⟩
  constructor
  · cases b <;> cases c <;> simp [encodeFlag] at hflag ⊢
  · exact hrest

theorem readable_bytes : Readable encodeBytes fun bs => CountFits bs.length := by
  intro bs cs x y hbs hcs h
  unfold encodeBytes at h
  rw [List.append_assoc, List.append_assoc] at h
  rcases readable_count _ _ _ _ hbs hcs h with ⟨hlength, hrest⟩
  exact List.append_inj hrest hlength

/-- The flag in front adds nothing: the spelling of a number already tells it. -/
theorem readable_element : Readable encodeElement fun x => CountFits (Bytes.ofNat x).length := by
  intro m n x y hm hn h
  rcases List.cons.inj h with ⟨_hflag, hspelling⟩
  rcases readable_bytes _ _ _ _ hm hn hspelling with ⟨hnumber, hrest⟩
  constructor
  · exact Bytes.ofNat_inj hnumber
  · exact hrest

section Lists

variable {α : Type} {write : α -> Bytes} {fits : α -> Prop}

theorem Readable.entries (hwrite : Readable write fits) {xs ys : List α} {x y : Bytes}
    (hlength : xs.length = ys.length) (hxs : forall a, a ∈ xs -> fits a)
    (hys : forall a, a ∈ ys -> fits a) (h : xs.flatMap write ++ x = ys.flatMap write ++ y) :
    xs = ys ∧ x = y := by
  induction xs generalizing ys with
  | nil =>
      have hnil : ys = [] := List.eq_nil_of_length_eq_zero hlength.symm
      subst hnil
      exact ⟨rfl, h⟩
  | cons a xs ih =>
      cases ys with
      | nil => simp at hlength
      | cons b ys =>
          rw [List.flatMap_cons, List.flatMap_cons, List.append_assoc, List.append_assoc] at h
          rcases hwrite _ _ _ _ (hxs a List.mem_cons_self) (hys b List.mem_cons_self) h with
            ⟨hhead, htail⟩
          rcases ih (Nat.succ.inj hlength) (fun c hc => hxs c (List.mem_cons_of_mem a hc))
            (fun c hc => hys c (List.mem_cons_of_mem b hc)) htail with ⟨hentries, hrest⟩
          constructor
          · rw [hhead, hentries]
          · exact hrest

/-- Once the count is read, the entries follow one by one. -/
theorem Readable.counted (hwrite : Readable write fits) :
    Readable (fun xs : List α => encodeCount xs.length ++ xs.flatMap write)
      fun xs => CountFits xs.length ∧ forall a, a ∈ xs -> fits a := by
  intro xs ys x y hxs hys h
  rw [List.append_assoc, List.append_assoc] at h
  rcases readable_count _ _ _ _ hxs.left hys.left h with ⟨hlength, hentries⟩
  exact hwrite.entries hlength hxs.right hys.right hentries

end Lists

/-!
## Items
-/

/-- All lengths and counts in an item are below `2 ^ 64`. -/
def Item.Fits : Item -> Prop
  | .int _ => True
  | .flag _ => True
  | .bytes bs => CountFits bs.length
  | .byteStrings bss => CountFits bss.length ∧ forall bs, bs ∈ bss -> CountFits bs.length
  | .element x => CountFits (Bytes.ofNat x).length
  | .elements xs => CountFits xs.length ∧ forall x, x ∈ xs -> CountFits (Bytes.ofNat x).length

instance (i : Item) : Decidable i.Fits :=
  match i with
  | .int _ | .flag _ => .isTrue trivial
  | .bytes _ | .element _ => inferInstanceAs (Decidable (CountFits _))
  | .byteStrings _ | .elements _ => inferInstanceAs (Decidable (CountFits _ ∧ forall _, _))

/-- Items that are read in the same way. -/
inductive Item.Alike : Item → Item → Prop
  | int (m n : UInt64) : Alike (.int m) (.int n)
  | flag (b c : Bool) : Alike (.flag b) (.flag c)
  | bytes (bs cs : Bytes) : Alike (.bytes bs) (.bytes cs)
  | byteStrings (bss css : List Bytes) : Alike (.byteStrings bss) (.byteStrings css)
  | element (x y : Nat) : Alike (.element x) (.element y)
  | elements (xs ys : List Nat) : Alike (.elements xs) (.elements ys)

theorem Item.Alike.encode_inj {a b : Item} (hab : a.Alike b) (ha : a.Fits) (hb : b.Fits)
    {x y : Bytes} (h : a.encode ++ x = b.encode ++ y) : a = b ∧ x = y := by
  cases hab with
  | int m n =>
      rcases readable_count _ _ _ _ m.toNat_lt n.toNat_lt h with ⟨hnumber, hrest⟩
      constructor
      · rw [UInt64.toNat_inj.mp hnumber]
      · exact hrest
  | flag b c =>
      rcases readable_flag _ _ _ _ trivial trivial h with ⟨rfl, hrest⟩
      exact ⟨rfl, hrest⟩
  | bytes bs cs =>
      rcases readable_bytes _ _ _ _ ha hb h with ⟨rfl, hrest⟩
      exact ⟨rfl, hrest⟩
  | byteStrings bss css =>
      rcases readable_bytes.counted _ _ _ _ ha hb h with ⟨rfl, hrest⟩
      exact ⟨rfl, hrest⟩
  | element m n =>
      rcases readable_element _ _ _ _ ha hb h with ⟨rfl, hrest⟩
      exact ⟨rfl, hrest⟩
  | elements xs ys =>
      rcases readable_element.counted _ _ _ _ ha hb h with ⟨rfl, hrest⟩
      exact ⟨rfl, hrest⟩

def AllFit (items : List Item) : Prop :=
  forall i, i ∈ items -> i.Fits

instance (items : List Item) : Decidable (AllFit items) :=
  inferInstanceAs (Decidable (forall i, i ∈ items -> i.Fits))

theorem AllFit.head {i : Item} {items : List Item} (h : AllFit (i :: items)) : i.Fits :=
  h i List.mem_cons_self

theorem AllFit.tail {i : Item} {items : List Item} (h : AllFit (i :: items)) : AllFit items := by
  intro j hj
  exact h j (List.mem_cons_of_mem i hj)

/-- Lists of items that are read in the same way are told apart. -/
theorem items_inj {xs ys : List Item} (halike : List.Forall₂ Item.Alike xs ys) (hxs : AllFit xs)
    (hys : AllFit ys) (h : xs.flatMap Item.encode = ys.flatMap Item.encode) : xs = ys := by
  induction halike with
  | nil => rfl
  | @cons a b xs ys hab _hrest ih =>
      rw [List.flatMap_cons, List.flatMap_cons] at h
      rcases hab.encode_inj hxs.head hys.head h with ⟨rfl, htail⟩
      rw [ih hxs.tail hys.tail htail]

/-- After a run and a count, what follows is read by the count. -/
theorem counted_items_inj {r r' : UInt64} {m n : Nat} (hm : CountFits m) (hn : CountFits n)
    {xs ys : List Item} (halike : m = n -> List.Forall₂ Item.Alike xs ys)
    (hxs : AllFit (.int r :: .int (UInt64.ofNat m) :: xs))
    (hys : AllFit (.int r' :: .int (UInt64.ofNat n) :: ys))
    (h : (.int r :: .int (UInt64.ofNat m) :: xs).flatMap Item.encode =
      (.int r' :: .int (UInt64.ofNat n) :: ys).flatMap Item.encode) :
    .int r :: .int (UInt64.ofNat m) :: xs = .int r' :: .int (UInt64.ofNat n) :: ys := by
  have hwritten := h
  simp only [List.flatMap_cons] at hwritten
  rcases (Item.Alike.int r r').encode_inj trivial trivial hwritten with ⟨_hrun, hcount⟩
  rcases (Item.Alike.int _ _).encode_inj trivial trivial hcount with ⟨hitem, _hitems⟩
  have hmn : m = n := by
    have hread := congrArg UInt64.toNat (Item.int.inj hitem)
    rw [UInt64.toNat_ofNat_of_lt' hm, UInt64.toNat_ofNat_of_lt' hn] at hread
    exact hread
  exact items_inj (.cons (.int _ _) (.cons (.int _ _) (halike hmn))) hxs hys h

theorem alike_flatMap {α : Type} {f : α -> List Item}
    (hf : forall a b, List.Forall₂ Item.Alike (f a) (f b)) {xs ys : List α}
    (hlength : xs.length = ys.length) :
    List.Forall₂ Item.Alike (xs.flatMap f) (ys.flatMap f) := by
  induction xs generalizing ys with
  | nil =>
      have hnil : ys = [] := List.eq_nil_of_length_eq_zero hlength.symm
      subst hnil
      exact .nil
  | cons a xs ih =>
      cases ys with
      | nil => simp at hlength
      | cons b ys =>
          rw [List.flatMap_cons, List.flatMap_cons]
          exact List.rel_append (hf a b) (ih (Nat.succ.inj hlength))

end Preimage

open Preimage

/-!
## Purposes
-/

/-- What a preimage is made for. -/
inductive Purpose
  | pairRequest
  | keyExchange
  | ciphertexts
  | slotReserve
  | dcNet
  | confirmMix
  | commitment
  | roster
  | session
  deriving DecidableEq, Repr

namespace Purpose

def all : List Purpose :=
  [.pairRequest, .keyExchange, .ciphertexts, .slotReserve, .dcNet, .confirmMix, .commitment,
    .roster, .session]

/-- What is hashed for a purpose. -/
@[reducible] def Subject : Purpose -> Type
  | .pairRequest => PairRequest
  | .keyExchange => KeyExchange
  | .ciphertexts => Ciphertexts
  | .slotReserve => SlotReserve
  | .dcNet => DcNet
  | .confirmMix => ConfirmMix
  | .commitment => RevealSecrets × RunScope
  | .roster => RunScope
  | .session => RunScope

def preimage : (p : Purpose) -> p.Subject -> Preimage
  | .pairRequest, m => Signed.preimage m
  | .keyExchange, m => Signed.preimage m
  | .ciphertexts, m => Signed.preimage m
  | .slotReserve, m => Signed.preimage m
  | .dcNet, m => Signed.preimage m
  | .confirmMix, m => Signed.preimage m
  | .commitment, (rs, scope) => rs.preimage scope
  | .roster, scope => scope.rosterPreimage
  | .session, scope => scope.sessionPreimage

/-- The hashed part of what is hashed for a purpose. -/
@[reducible] def Content : Purpose -> Type
  | .commitment => Bytes × RevealSecrets
  | .session => Bytes × UInt32
  | p => p.Subject

/-- Messages without the fields that are not hashed.  A commitment binds the
session by its digest. -/
def content : (p : Purpose) -> p.Subject -> p.Content
  | .pairRequest, m => { m with signature := [] }
  | .keyExchange, m => { m with signature := [] }
  | .ciphertexts, m => { m with signature := [] }
  | .slotReserve, m => { m with signature := [] }
  | .dcNet, m => { m with signature := [] }
  | .confirmMix, m => { m with br := none, err := 0, signature := [] }
  | .commitment, (rs, scope) => (scope.sessionPreimage.digest, rs)
  | .roster, scope => scope
  | .session, scope => (scope.sid, scope.run)

/-- The number of vectors that are written one by one after their count. -/
def vectors : (p : Purpose) -> p.Subject -> Nat
  | .slotReserve, m => m.dcMix.length
  | .dcNet, m => m.dcNet.length
  | _, _ => 0

/-- All lengths and counts are below `2 ^ 64`. -/
structure Fits (p : Purpose) (a : p.Subject) : Prop where
  items : AllFit (p.preimage a).items
  vectors : CountFits (p.vectors a)

/-! ### Tags -/

def tag : Purpose -> Bytes
  | .pairRequest => Bytes.ofLatin "PR"
  | .keyExchange => Bytes.ofLatin "KE"
  | .ciphertexts => Bytes.ofLatin "CT"
  | .slotReserve => Bytes.ofLatin "SR"
  | .dcNet => Bytes.ofLatin "DC"
  | .confirmMix => Bytes.ofLatin "CM"
  | .commitment => Bytes.ofLatin "COMMIT"
  | .roster => Bytes.ofLatin "sidH"
  | .session => Bytes.ofLatin "sidHPre"

def ofTag? (t : Bytes) : Option Purpose :=
  all.find? fun p => p.tag = t

theorem ofTag?_tag (p : Purpose) : ofTag? p.tag = some p := by
  cases p <;> decide

theorem tag_inj {p q : Purpose} (h : p.tag = q.tag) : p = q := by
  have hread : some p = some q := by
    rw [← ofTag?_tag p, ← ofTag?_tag q, h]
  exact Option.some.inj hread

theorem countFits_tag (p : Purpose) : CountFits p.tag.length := by
  cases p <;> decide

theorem tag_preimage (p : Purpose) (a : p.Subject) : (p.preimage a).tag = p.tag := by
  cases p <;> rfl

/-! ### Items -/

/-- The items of a slot vector on the wire. -/
def vectorItems (v : MixVector) : List Item :=
  [.int v.n, .int v.msize, .bytes v.data]

theorem alike_vectorItems (v w : MixVector) :
    List.Forall₂ Item.Alike (vectorItems v) (vectorItems w) :=
  .cons (.int _ _) (.cons (.int _ _) (.cons (.bytes _ _) .nil))

theorem items_inj {p : Purpose} {a b : p.Subject} (ha : p.Fits a) (hb : p.Fits b)
    (h : (p.preimage a).items.flatMap Item.encode = (p.preimage b).items.flatMap Item.encode) :
    (p.preimage a).items = (p.preimage b).items := by
  -- Most purposes have a fixed row of items; where vectors follow one by one, both
  -- sides are alike only once their counts have been read.
  cases p with
  | pairRequest =>
      have halike : List.Forall₂ Item.Alike (pairRequest.preimage a).items
          (pairRequest.preimage b).items :=
        .cons (.bytes _ _) (.cons (.bytes _ _) (.cons (.bytes _ _) (.cons (.int _ _) .nil)))
      exact Preimage.items_inj halike ha.items hb.items h
  | keyExchange =>
      have halike : List.Forall₂ Item.Alike (keyExchange.preimage a).items
          (keyExchange.preimage b).items :=
        .cons (.int _ _) (.cons (.bytes _ _) (.cons (.bytes _ _) (.cons (.bytes _ _) .nil)))
      exact Preimage.items_inj halike ha.items hb.items h
  | ciphertexts =>
      exact Preimage.items_inj (.cons (.byteStrings _ _) .nil) ha.items hb.items h
  | slotReserve =>
      apply counted_items_inj ha.vectors hb.vectors _ ha.items hb.items h
      intro hlength
      rw [List.map_eq_flatMap, List.map_eq_flatMap]
      exact alike_flatMap (fun _ _ => .cons (.elements _ _) .nil) hlength
  | dcNet =>
      apply counted_items_inj ha.vectors hb.vectors _ ha.items hb.items h
      intro hlength
      exact List.rel_append (alike_flatMap alike_vectorItems hlength) (.cons (.flag _ _) .nil)
  | confirmMix =>
      exact Preimage.items_inj (.cons (.bytes _ _) (.cons (.flag _ _) .nil)) ha.items hb.items h
  | commitment =>
      have halike : List.Forall₂ Item.Alike (commitment.preimage a).items
          (commitment.preimage b).items :=
        .cons (.bytes _ _) (.cons (.bytes _ _) (.cons (.int _ _) (.cons (.elements _ _)
          (.cons (.byteStrings _ _) .nil))))
      exact Preimage.items_inj halike ha.items hb.items h
  | roster =>
      have halike : List.Forall₂ Item.Alike (roster.preimage a).items (roster.preimage b).items :=
        .cons (.bytes _ _) (.cons (.byteStrings _ _) (.cons (.int _ _) .nil))
      exact Preimage.items_inj halike ha.items hb.items h
  | session =>
      exact Preimage.items_inj (.cons (.bytes _ _) (.cons (.int _ _) .nil)) ha.items hb.items h

/-! ### Content -/

theorem vectorItems_flag_inj {vs ws : List MixVector} {b c : Bool}
    (h : vs.flatMap vectorItems ++ [.flag b] = ws.flatMap vectorItems ++ [.flag c]) :
    vs = ws ∧ b = c := by
  -- No vector starts with a flag, so both lists end at the same place.
  induction vs generalizing ws with
  | nil =>
      cases ws with
      | nil => simpa using h
      | cons w ws => simp [vectorItems] at h
  | cons v vs ih =>
      cases ws with
      | nil => simp [vectorItems] at h
      | cons w ws =>
          rcases v with ⟨n, msize, data⟩
          rcases w with ⟨n', msize', data'⟩
          simp only [List.flatMap_cons, vectorItems, List.cons_append, List.nil_append,
            List.cons.injEq, Item.int.injEq, Item.bytes.injEq] at h
          rcases h with ⟨rfl, rfl, rfl, hrest⟩
          rcases ih hrest with ⟨rfl, rfl⟩
          exact ⟨rfl, rfl⟩

theorem toUInt64_inj {m n : UInt32} (h : m.toUInt64 = n.toUInt64) : m = n := by
  have hnumber := congrArg UInt64.toNat h
  rw [UInt32.toNat_toUInt64, UInt32.toNat_toUInt64] at hnumber
  exact UInt32.toNat_inj.mp hnumber

theorem content_of_items {p : Purpose} {a b : p.Subject}
    (h : (p.preimage a).items = (p.preimage b).items) : p.content a = p.content b := by
  cases p with
  | pairRequest =>
      simp only [preimage, Signed.preimage, List.cons.injEq, Item.bytes.injEq, Item.int.injEq] at h
      rcases h with ⟨hidentity, hcommitment, hunmixed, hcount, _⟩
      simp only [content, hidentity, hcommitment, hunmixed, toUInt64_inj hcount]
  | keyExchange =>
      simp only [preimage, Signed.preimage, List.cons.injEq, Item.bytes.injEq, Item.int.injEq] at h
      rcases h with ⟨hrun, hecdh, hpqpk, hcommitment, _⟩
      simp only [content, toUInt64_inj hrun, hecdh, hpqpk, hcommitment]
  | ciphertexts =>
      simp only [preimage, Signed.preimage, List.cons.injEq, Item.byteStrings.injEq] at h
      simp only [content, h.left]
  | slotReserve =>
      simp only [preimage, Signed.preimage, List.cons.injEq, Item.int.injEq] at h
      rcases h with ⟨hrun, _, hvectors⟩
      have hdcMix := List.map_injective_iff.mpr (fun _ _ => Item.elements.inj) hvectors
      simp only [content, toUInt64_inj hrun, hdcMix]
  | dcNet =>
      simp only [preimage, Signed.preimage, List.cons_append, List.cons.injEq, Item.int.injEq] at h
      rcases h with ⟨hrun, _, hvectors⟩
      rcases vectorItems_flag_inj hvectors with ⟨hdcNet, hreveal⟩
      simp only [content, toUInt64_inj hrun, hdcNet, hreveal]
  | confirmMix =>
      simp only [preimage, Signed.preimage, List.cons.injEq, Item.bytes.injEq, Item.flag.injEq] at h
      rcases h with ⟨hmix, hreveal, _⟩
      simp only [content, hmix, hreveal]
  | commitment =>
      rcases a with ⟨⟨seed, seedRun, sr, m⟩, scope⟩
      rcases b with ⟨⟨seed', seedRun', sr', m'⟩, scope'⟩
      simp only [preimage, RevealSecrets.preimage, List.cons.injEq, Item.bytes.injEq,
        Item.int.injEq, Item.elements.injEq, Item.byteStrings.injEq] at h
      rcases h with ⟨hdigest, hseed, hseedRun, hsr, hm, _⟩
      simp only [content, hdigest, hseed, toUInt64_inj hseedRun, hsr, hm]
  | roster =>
      rcases a with ⟨sid, run, vk⟩
      rcases b with ⟨sid', run', vk'⟩
      simp only [preimage, RunScope.rosterPreimage, List.cons.injEq, Item.bytes.injEq,
        Item.int.injEq, Item.byteStrings.injEq] at h
      rcases h with ⟨hsid, hvk, hrun, _⟩
      simp only [content, hsid, hvk, toUInt64_inj hrun]
  | session =>
      simp only [preimage, RunScope.sessionPreimage, List.cons.injEq, Item.bytes.injEq,
        Item.int.injEq] at h
      rcases h with ⟨hsid, hrun, _⟩
      simp only [content, hsid, toUInt64_inj hrun]

theorem preimage_of_content {p : Purpose} {a b : p.Subject} (h : p.content a = p.content b) :
    p.preimage a = p.preimage b := by
  cases p with
  | pairRequest =>
      show Signed.preimage (pairRequest.content a) = Signed.preimage (pairRequest.content b)
      rw [h]
  | keyExchange =>
      show Signed.preimage (keyExchange.content a) = Signed.preimage (keyExchange.content b)
      rw [h]
  | ciphertexts =>
      show Signed.preimage (ciphertexts.content a) = Signed.preimage (ciphertexts.content b)
      rw [h]
  | slotReserve =>
      show Signed.preimage (slotReserve.content a) = Signed.preimage (slotReserve.content b)
      rw [h]
  | dcNet =>
      show Signed.preimage (dcNet.content a) = Signed.preimage (dcNet.content b)
      rw [h]
  | confirmMix =>
      show Signed.preimage (confirmMix.content a) = Signed.preimage (confirmMix.content b)
      rw [h]
  | commitment =>
      rcases a with ⟨rs, scope⟩
      rcases b with ⟨rs', scope'⟩
      rcases Prod.mk.inj h with ⟨hdigest, rfl⟩
      simp only [preimage, RevealSecrets.preimage, hdigest]
  | roster => exact congrArg RunScope.rosterPreimage h
  | session =>
      rcases Prod.mk.inj h with ⟨hsid, hrun⟩
      simp only [preimage, RunScope.sessionPreimage, hsid, hrun]

/-- Preimages of whatever purposes are equal only if the purposes are, and then
all that is hashed is the same. -/
theorem preimage_determines_content (p q : Purpose) (a : p.Subject) (b : q.Subject)
    (ha : p.Fits a) (hb : q.Fits b) :
    (p.preimage a).toBytes = (q.preimage b).toBytes ↔
      (⟨p, p.content a⟩ : Sigma Content) = ⟨q, q.content b⟩ := by
  constructor
  · intro h
    unfold Preimage.toBytes at h
    rw [tag_preimage, tag_preimage] at h
    rcases readable_bytes _ _ _ _ (countFits_tag p) (countFits_tag q) h with ⟨htag, hitems⟩
    cases tag_inj htag
    rw [content_of_items (items_inj ha hb hitems)]
  · intro h
    cases congrArg Sigma.fst h
    rw [preimage_of_content (eq_of_heq (Sigma.mk.inj h).right)]

/-- An element that moves from one vector to the next one shows. -/
theorem preimage_determines_content_of_shifted_element :
    slotReserve.Fits { run := 0, dcMix := [[0, 1], [2]], signature := [] } ∧
      slotReserve.Fits { run := 0, dcMix := [[0], [1, 2]], signature := [] } ∧
        (slotReserve.preimage { run := 0, dcMix := [[0, 1], [2]], signature := [] }).toBytes ≠
          (slotReserve.preimage { run := 0, dcMix := [[0], [1, 2]], signature := [] }).toBytes := by
  have ha : slotReserve.Fits { run := 0, dcMix := [[0, 1], [2]], signature := [] } := by
    constructor <;> decide
  have hb : slotReserve.Fits { run := 0, dcMix := [[0], [1, 2]], signature := [] } := by
    constructor <;> decide
  refine ⟨ha, hb, ?_⟩
  intro h
  have hcontent := (preimage_determines_content _ _ _ _ ha hb).mp h
  cases eq_of_heq (Sigma.mk.inj hcontent).right

end Purpose

end Wire
end PeerMix
