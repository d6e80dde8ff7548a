import PeerMix.Wire.Codec

/-!
# Records are read from members in any order

A record is read from the members of an object one after the other.  Each field
takes the one member of its name, wherever it stands, and all other members pass by
it.  So what has been read in the end is told by the members of each field alone,
and members of unknown names do not count.
-/

namespace PeerMix
namespace Wire

/-- Whether the members have one value of a field, which is read as `a`, or none. -/
def Field.Finds {α : Type} (field : Field α) (ms : List Json.Member) : Option α -> Prop
  | none => forall m, m ∈ ms -> m.1 ≠ some field.name.toList
  | some a => exists before v after, ms = before ++ (some field.name.toList, v) :: after ∧
      field.codec.read v = .ok a ∧
      (forall m, m ∈ before -> m.1 ≠ some field.name.toList) ∧
      forall m, m ∈ after -> m.1 ≠ some field.name.toList

namespace Fields

def names {ρ σ : Type} : Fields ρ σ -> List (List Char)
  | .nil => []
  | .cons field rest => field.name.toList :: names rest

/-- Whether the members have for each field what is seen of it. -/
def Finds {ρ σ : Type} : Fields ρ σ -> List Json.Member -> σ -> Prop
  | .nil, _, _ => True
  | .cons field rest, ms, (found, more) => field.Finds ms found ∧ Finds rest ms more

/-!
## Members that pass by
-/

theorem accept_of_unknown {ρ σ : Type} {fields : Fields ρ σ} {key : List Char}
    (h : key ∉ fields.names) (seen : σ) (v : Json) : fields.accept seen key v = .ok seen := by
  induction fields with
  | nil => rfl
  | cons field rest ih =>
      rcases seen with ⟨found, more⟩
      have hkey : key ≠ field.name.toList := fun heq => h (heq ▸ List.mem_cons_self)
      have hrest := ih (fun hmem => h (List.mem_cons_of_mem _ hmem)) more
      unfold accept
      rw [if_neg hkey, hrest]
      rfl

/-- Members of other names pass by the first field. -/
theorem foldlM_accept_cons {α β σ : Type} (field : Field α) (rest : Fields β σ)
    (found : Option α) {ms : List Json.Member}
    (h : forall m, m ∈ ms -> m.1 ≠ some field.name.toList) (more : σ) :
    ms.foldlM (cons field rest).acceptMember (found, more) =
      (ms.foldlM rest.acceptMember more).map fun more => (found, more) := by
  induction ms generalizing more with
  | nil => rfl
  | cons m ms ih =>
      have hhead : (cons field rest).acceptMember (found, more) m =
          (rest.acceptMember more m).map fun more => (found, more) := by
        rcases m with ⟨key, v⟩
        cases key with
        | none => rfl
        | some key =>
            have hkey : key ≠ field.name.toList := fun heq =>
              h (some key, v) List.mem_cons_self (congrArg some heq)
            exact if_neg hkey
      rw [List.foldlM_cons, List.foldlM_cons, hhead]
      cases rest.acceptMember more m with
      | error fault => rfl
      | ok next => exact ih (fun n hn => h n (List.mem_cons_of_mem _ hn)) next

theorem Finds.cons_of_unknown {ρ σ : Type} {fields : Fields ρ σ} {ms : List Json.Member}
    {seen : σ} (h : fields.Finds ms seen) {key : List Char} (hkey : key ∉ fields.names)
    (v : Json) : fields.Finds ((some key, v) :: ms) seen := by
  induction fields with
  | nil => trivial
  | cons field rest ih =>
      rcases seen with ⟨found, more⟩
      rcases h with ⟨hfound, hmore⟩
      have hother : some key ≠ some field.name.toList := fun heq =>
        hkey (Option.some.inj heq ▸ List.mem_cons_self)
      refine ⟨?_, ih hmore fun hmem => hkey (List.mem_cons_of_mem _ hmem)⟩
      cases found with
      | none => exact List.forall_mem_cons.mpr ⟨hother, hfound⟩
      | some a =>
          rcases hfound with ⟨before, w, after, hms, hread, hbefore, hafter⟩
          exact ⟨(some key, v) :: before, w, after, congrArg (_ :: ·) hms, hread,
            List.forall_mem_cons.mpr ⟨hother, hbefore⟩, hafter⟩

/-!
## Reading all members
-/

/-- One field takes its member out of the way of the others. -/
theorem foldlM_cons_of_finds {α β σ : Type} {field : Field α} {rest : Fields β σ}
    (hname : field.name.toList ∉ rest.names) {ms : List Json.Member} {found : Option α}
    (h : field.Finds ms found) (more : σ) :
    ms.foldlM (cons field rest).acceptMember (none, more) =
      (ms.foldlM rest.acceptMember more).map fun more => (found, more) := by
  cases found with
  | none => exact foldlM_accept_cons field rest none h more
  | some a =>
      rcases h with ⟨before, v, after, rfl, hread, hbefore, hafter⟩
      have htaken : forall more, (cons field rest).acceptMember (none, more)
          (some field.name.toList, v) = .ok (some a, more) := by
        intro more
        show (if field.name.toList = field.name.toList then
          (field.codec.read v).map fun a => (some a, more) else _) = _
        rw [if_pos rfl, hread]
        rfl
      have hpasses : forall more, rest.acceptMember more (some field.name.toList, v) = .ok more :=
        fun more => accept_of_unknown hname more v
      rw [List.foldlM_append, List.foldlM_append, foldlM_accept_cons field rest none hbefore]
      cases before.foldlM rest.acceptMember more with
      | error fault => rfl
      | ok next =>
          show ((some field.name.toList, v) :: after).foldlM (cons field rest).acceptMember
              (none, next) =
            (((some field.name.toList, v) :: after).foldlM rest.acceptMember next).map _
          rw [List.foldlM_cons, List.foldlM_cons, htaken, hpasses]
          exact foldlM_accept_cons field rest (some a) hafter next

theorem foldlM_nil_fields {ms : List Json.Member} (h : forall m, m ∈ ms -> m.1 ≠ none) :
    ms.foldlM nil.acceptMember () = .ok () := by
  induction ms with
  | nil => rfl
  | cons m ms ih =>
      rcases m with ⟨key, v⟩
      cases key with
      | none => exact absurd rfl (h (none, v) List.mem_cons_self)
      | some key => exact ih fun n hn => h n (List.mem_cons_of_mem _ hn)

theorem foldlM_of_finds {ρ σ : Type} {fields : Fields ρ σ} (hnames : fields.names.Nodup)
    {ms : List Json.Member} (hlegible : forall m, m ∈ ms -> m.1 ≠ none) {seen : σ}
    (h : fields.Finds ms seen) : ms.foldlM fields.acceptMember fields.unseen = .ok seen := by
  induction fields with
  | nil => exact foldlM_nil_fields hlegible
  | cons field rest ih =>
      rcases seen with ⟨found, more⟩
      rcases h with ⟨hfound, hmore⟩
      rcases List.nodup_cons.mp hnames with ⟨hname, hnames⟩
      show ms.foldlM (cons field rest).acceptMember (none, rest.unseen) = _
      rw [foldlM_cons_of_finds hname hfound, ih hnames hmore]
      rfl

theorem readMembers_of_finds {ρ σ : Type} {fields : Fields ρ σ} (hnames : fields.names.Nodup)
    {ms : List Json.Member} (hlegible : forall m, m ∈ ms -> m.1 ≠ none) {seen : σ}
    (h : fields.Finds ms seen) : fields.readMembers ms true = fields.finish seen := by
  rw [readMembers, foldlM_of_finds hnames hlegible h]
  rfl

/-- A name that does not stand for characters is a fault wherever it comes. -/
theorem foldlM_of_nameless {ρ σ : Type} (fields : Fields ρ σ) {ms : List Json.Member}
    {m : Json.Member} (hm : m ∈ ms) (hname : m.1 = none) (seen : σ) :
    exists fault, ms.foldlM fields.acceptMember seen = .error fault := by
  induction ms generalizing seen with
  | nil => cases hm
  | cons n ms ih =>
      rw [List.foldlM_cons]
      cases hstep : fields.acceptMember seen n with
      | error fault => exact ⟨fault, rfl⟩
      | ok next =>
          rcases List.mem_cons.mp hm with rfl | hm
          · rcases m with ⟨key, v⟩
            cases hname
            cases hstep
          · exact ih hm next

theorem readMembers_of_nameless {ρ σ : Type} (fields : Fields ρ σ) {ms : List Json.Member}
    {m : Json.Member} (hm : m ∈ ms) (hname : m.1 = none) (closed : Bool) :
    exists fault, fields.readMembers ms closed = .error fault := by
  rcases fields.foldlM_of_nameless hm hname fields.unseen with ⟨fault, hfault⟩
  refine ⟨fault, ?_⟩
  rw [readMembers, hfault]
  rfl

/-!
## Fields that may be missing
-/

theorem finish_optional {α β σ : Type} (name : String) (codec : Codec α) (default : α)
    (rest : Fields β σ) (found : Option α) (more : σ) :
    (optional name codec default rest).finish (found, more) =
      (rest.finish more).map fun more => (found.getD default, more) := by
  cases found <;> rfl

end Fields
end Wire
end PeerMix
