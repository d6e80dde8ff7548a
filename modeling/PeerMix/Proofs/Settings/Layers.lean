import PeerMix.Proofs.Json.FlatObjects
import PeerMix.Proofs.Text.Utf8
import PeerMix.Proofs.Wire.RoundTrip
import PeerMix.Settings

/-!
# Settings are laid over each other field by field

The settings file of the user is read as a record, the one of the project is laid
over the result member by member, and the environment comes last.  Each of the three
says something or nothing of each field, and however it is read, its effect is the
same: what it says of a field replaces what was there before.  Only then are the
timeouts checked.  What the two ways of reading a file differ in is a text with half
of a surrogate pair in a member that is no setting: the user's file may hold one,
the project's may not.
-/

namespace PeerMix
namespace Settings

open Wire

/-- What one source of settings says: the value of each field that it names. -/
structure Layer where
  sendTimeout : Option UInt64
  receiveTimeout : Option UInt64
  logLevel : Option (List Char)
  logJson : Option Bool

/-- A source that says nothing. -/
def Layer.silent : Layer :=
  { sendTimeout := none, receiveTimeout := none, logLevel := none, logJson := none }

/-- The settings `s` with a layer laid over them. -/
def Layer.over (l : Layer) (s : Settings) : Settings :=
  { sendTimeout := l.sendTimeout.getD s.sendTimeout
    receiveTimeout := l.receiveTimeout.getD s.receiveTimeout
    logLevel := l.logLevel.getD s.logLevel
    logJson := l.logJson.getD s.logJson }

/-!
## What files say
-/

/-- The members of what is found in the place of a file.  No file is as good as one without
members. -/
inductive File.Holds : File -> List Json.Member -> Prop
  | absent : Holds .absent []
  | contents {members : List Json.Member} {cs : List Char} (h : Json.ObjectForm members cs) :
      Holds (.contents (Utf8.encode cs)) members

/-- Whether `v?` is the value that the members have for a name, if they have one. -/
def Gives (members : List Json.Member) (name : String) (v? : Option Json) : Prop :=
  forall v, (some name.toList, v) ∈ members ↔ v? = some v

/-- Whether the members, no two of which have the same name, say just this of the fields. -/
structure Layer.StatedBy (l : Layer) (members : List Json.Member) : Prop where
  distinct : (members.filterMap (·.1)).Nodup
  sendTimeout : Gives members "send_timeout_secs" (l.sendTimeout.map fun n => .integer n.toNat)
  receiveTimeout :
    Gives members "recv_timeout_secs" (l.receiveTimeout.map fun n => .integer n.toNat)
  logLevel : Gives members "log_level" (l.logLevel.map .text)
  logJson : Gives members "log_json" (l.logJson.map .bool)

theorem Gives.eq_none {name : String} {v? : Option Json} (h : Gives [] name v?) : v? = none := by
  cases v? with
  | none => rfl
  | some v => cases (h v).mpr rfl

theorem gives_nil (name : String) : Gives [] name none :=
  fun _ => ⟨nofun, nofun⟩

theorem Gives.cons_of_ne {name : String} {members : List Json.Member} {v? : Option Json}
    (h : Gives members name v?) {m : Json.Member} (hm : m.1 ≠ some name.toList) :
    Gives (m :: members) name v? := by
  intro v
  rw [List.mem_cons, ← h v]
  refine or_iff_right ?_
  rintro rfl
  exact hm rfl

theorem Gives.cons_self {name : String} {members : List Json.Member}
    (h : Gives members name none) (v : Json) :
    Gives ((some name.toList, v) :: members) name (some v) := by
  intro w
  constructor
  · intro hw
    rcases List.mem_cons.mp hw with heq | hw
    · cases heq
      rfl
    · cases (h w).mp hw
  · intro hw
    cases hw
    exact List.mem_cons_self

theorem Layer.silent_statedBy_nil : silent.StatedBy [] where
  distinct := List.nodup_nil
  sendTimeout := gives_nil _
  receiveTimeout := gives_nil _
  logLevel := gives_nil _
  logJson := gives_nil _

theorem Layer.StatedBy.eq_silent {l : Layer} (h : l.StatedBy []) : l = silent := by
  rcases l with ⟨sendTimeout, receiveTimeout, logLevel, logJson⟩
  cases Option.map_eq_none_iff.mp h.sendTimeout.eq_none
  cases Option.map_eq_none_iff.mp h.receiveTimeout.eq_none
  cases Option.map_eq_none_iff.mp h.logLevel.eq_none
  cases Option.map_eq_none_iff.mp h.logJson.eq_none
  rfl

/-!
## The file of the user
-/

section Reading

variable {α : Type} {codec : Codec α} {name : String} {ms : List Json.Member} {a? : Option α}

theorem finds_of_gives {default? : Option α} {omits : α -> Bool}
    (hread : forall a, codec.read (codec.write a) = .ok a)
    (hdistinct : (ms.filterMap (·.1)).Nodup) (h : Gives ms name (a?.map codec.write)) :
    Field.Finds { name, codec, default?, omits } ms a? := by
  cases a? with
  | none =>
      intro m hm hname
      rcases m with ⟨key, v⟩
      cases hname
      cases (h v).mp hm
  | some a =>
      have hmem : (some name.toList, codec.write a) ∈ ms := (h _).mpr rfl
      rcases List.append_of_mem hmem with ⟨before, after, rfl⟩
      have hnames : (before.filterMap (·.1) ++ name.toList :: after.filterMap (·.1)).Nodup := by
        rw [List.filterMap_append] at hdistinct
        exact hdistinct
      have hsplit := List.nodup_append.mp hnames
      have hafter := List.nodup_cons.mp hsplit.right.left
      refine ⟨before, codec.write a, after, rfl, hread a, ?_, ?_⟩
      · intro m hm hname
        have hkey : name.toList ∈ before.filterMap (·.1) :=
          List.mem_filterMap.mpr ⟨m, hm, hname⟩
        exact hsplit.right.right _ hkey _ List.mem_cons_self rfl
      · intro m hm hname
        exact hafter.left (List.mem_filterMap.mpr ⟨m, hm, hname⟩)

theorem lastMember?_of_gives {v? : Option Json} (h : Gives ms name v?) :
    lastMember? name ms = v? := by
  show (ms.reverse.find? fun m => m.1 = some name.toList).map (·.2) = v?
  cases hfound : ms.reverse.find? fun m => m.1 = some name.toList with
  | none =>
      cases v? with
      | none => rfl
      | some v =>
          have hmem := List.mem_reverse.mpr ((h v).mpr rfl)
          have hother := List.find?_eq_none.mp hfound _ hmem
          simp at hother
  | some m =>
      rcases m with ⟨key, v⟩
      have htest := List.find?_some hfound
      have hkey : key = some name.toList := of_decide_eq_true htest
      have hmem := List.mem_reverse.mp (List.mem_of_find?_eq_some hfound)
      rw [hkey] at hmem
      exact ((h v).mp hmem).symm

theorem replaced_of_gives (hread : forall a, codec.read (codec.write a) = .ok a)
    (h : Gives ms name (a?.map codec.write)) (old : α) :
    replaced codec name old ms = .ok (a?.getD old) := by
  rw [replaced, lastMember?_of_gives h]
  cases a? with
  | none => rfl
  | some a =>
      show (codec.read (codec.write a)).mapError _ = _
      rw [hread]
      rfl

end Reading

theorem read_text (cs : List Char) : Codec.text.read (Codec.text.write cs) = .ok cs :=
  rfl

theorem finds_of_statedBy {ms : List Json.Member} {l : Layer} (h : l.StatedBy ms) :
    fields.Finds ms (l.sendTimeout, l.receiveTimeout, l.logLevel, l.logJson, ()) :=
  ⟨finds_of_gives Codec.lawful_uint64.read_write h.distinct h.sendTimeout,
    finds_of_gives Codec.lawful_uint64.read_write h.distinct h.receiveTimeout,
    finds_of_gives read_text h.distinct h.logLevel,
    finds_of_gives Codec.lawful_bool.read_write h.distinct h.logJson, trivial⟩

theorem read_object_of_statedBy {ms : List Json.Member} {l : Layer} (h : l.StatedBy ms)
    (hlegible : forall m, m ∈ ms -> m.1 ≠ none) :
    codec.read (.object ms true) = .ok (l.over default) := by
  show (fields.readMembers ms true).map _ = _
  rw [Fields.readMembers_of_finds (by decide) hlegible (finds_of_statedBy h), fields]
  simp only [Fields.finish_optional]
  rfl

theorem text?_encode (cs : List Char) :
    (File.contents (Utf8.encode cs)).text? = .ok (some cs) := by
  unfold File.text?
  dsimp only
  rw [Utf8.decode_encode]

/-- The user's file is the record that its members are read as. -/
theorem ofGlobalFile_object {ms : List Json.Member} {cs : List Char}
    (h : Json.ObjectForm ms cs) :
    ofGlobalFile (.contents (Utf8.encode cs)) =
      (codec.read (.object ms true)).mapError fun _ => .unparsable := by
  unfold ofGlobalFile Codec.decode
  rw [text?_encode]
  dsimp only [bind, Except.bind]
  rw [h.read]
  cases codec.read (.object ms true) <;> rfl

theorem ofGlobalFile_eq {file : File} {ms : List Json.Member} {l : Layer} (hfile : file.Holds ms)
    (h : l.StatedBy ms) (hlegible : forall m, m ∈ ms -> m.1 ≠ none) :
    ofGlobalFile file = .ok (l.over default) := by
  cases hfile with
  | absent =>
      rw [h.eq_silent]
      rfl
  | contents hobject =>
      rw [ofGlobalFile_object hobject, read_object_of_statedBy h hlegible]
      rfl

theorem ofGlobalFile_of_nameless {file : File} {ms : List Json.Member} (hfile : file.Holds ms)
    {m : Json.Member} (hm : m ∈ ms) (hname : m.1 = none) :
    ofGlobalFile file = .error .unparsable := by
  cases hfile with
  | absent => cases hm
  | contents hobject =>
      rcases fields.readMembers_of_nameless hm hname true with ⟨fault, hfault⟩
      rw [ofGlobalFile_object hobject]
      show ((fields.readMembers ms true).map _).mapError _ = _
      rw [hfault]
      rfl

/-!
## The file of the project
-/

theorem overlay_of_statedBy {ms : List Json.Member} {l : Layer} (h : l.StatedBy ms)
    (s : Settings) : s.overlay ms = .ok (l.over s) := by
  unfold overlay
  rw [replaced_of_gives Codec.lawful_uint64.read_write h.sendTimeout,
    replaced_of_gives Codec.lawful_uint64.read_write h.receiveTimeout,
    replaced_of_gives read_text h.logLevel,
    replaced_of_gives Codec.lawful_bool.read_write h.logJson]
  rfl

theorem overlayFile_eq {file : File} {ms : List Json.Member} {l : Layer} (hfile : file.Holds ms)
    (h : l.StatedBy ms) (hlegible : forall m, m ∈ ms -> Json.Legible m) (s : Settings) :
    s.overlayFile file = .ok (l.over s) := by
  cases hfile with
  | absent =>
      rw [h.eq_silent]
      rfl
  | contents hobject =>
      unfold overlayFile
      rw [text?_encode]
      dsimp only [bind, Except.bind]
      rw [hobject.readStrict?_of_legible hlegible]
      exact overlay_of_statedBy h s

theorem overlayFile_of_not_legible {file : File} {ms : List Json.Member}
    (hfile : file.Holds ms) {m : Json.Member} (hm : m ∈ ms)
    (htext : m.1 = none ∨ m.2 = .loneSurrogate) (s : Settings) :
    s.overlayFile file = .error .unparsable := by
  cases hfile with
  | absent => cases hm
  | contents hobject =>
      unfold overlayFile
      rw [text?_encode]
      dsimp only [bind, Except.bind]
      rw [hobject.readStrict?_of_not_legible hm htext]
      rfl

/-!
## The environment
-/

/-- Whether a text spells a number of 64 bits: digits, after at most one plus sign. -/
def SpellsNumber (text : String) (n : UInt64) : Prop :=
  exists digits, (text.toList = digits ∨ text.toList = '+' :: digits) ∧ digits ≠ [] ∧
    (forall c, c ∈ digits -> Json.isDigit c = true) ∧ Nat.ofDigitChars 10 digits 0 = n.toNat

def SpellsFlag (text : String) (b : Bool) : Prop :=
  (text = "true" ∧ b = true) ∨ (text = "false" ∧ b = false)

/-- Whether `a?` is what a variable of the environment is parsed as, if it is set and can be
parsed. -/
def Sets {α : Type} (env : Environment) (name : String) (Spells : String -> α -> Prop)
    (a? : Option α) : Prop :=
  forall a, a? = some a ↔ exists text, env.lookup name = some text ∧ Spells text a

/-- Whether the environment says just this of the fields. -/
structure Layer.SetBy (l : Layer) (env : Environment) : Prop where
  sendTimeout : Sets env "CSPP_SEND_TIMEOUT_SECS" SpellsNumber l.sendTimeout
  receiveTimeout : Sets env "CSPP_RECV_TIMEOUT_SECS" SpellsNumber l.receiveTimeout
  logLevel : Sets env "CSPP_LOG_LEVEL" (fun text cs => text.toList = cs) l.logLevel
  logJson : Sets env "CSPP_LOG_JSON" SpellsFlag l.logJson

theorem digitsNumber?_eq_some_iff {digits : List Char} {n : UInt64} :
    digitsNumber? digits = some n ↔
      digits ≠ [] ∧ (forall c, c ∈ digits -> Json.isDigit c = true) ∧
        Nat.ofDigitChars 10 digits 0 = n.toNat := by
  have hform : ¬(digits.isEmpty ∨ !digits.all Json.isDigit) ↔
      digits ≠ [] ∧ forall c, c ∈ digits -> Json.isDigit c = true := by
    rw [not_or, Bool.not_eq_true', Bool.not_eq_false, List.isEmpty_iff, List.all_eq_true]
  unfold digitsNumber? Json.digitsValue
  dsimp only
  constructor
  · intro h
    split at h
    · cases h
    split at h
    · next hdigits hsize =>
        rcases hform.mp hdigits with ⟨hsome, hall⟩
        cases h
        exact ⟨hsome, hall, (UInt64.toNat_ofNat_of_lt' hsize).symm⟩
    · cases h
  · rintro ⟨hsome, hall, hvalue⟩
    have hsize : Nat.ofDigitChars 10 digits 0 < UInt64.size := by
      rw [hvalue]
      exact n.toNat_lt
    rw [if_neg (hform.mpr ⟨hsome, hall⟩), if_pos hsize, hvalue, UInt64.ofNat_toNat]

theorem number?_eq_some_iff {text : String} {n : UInt64} :
    number? text = some n ↔ SpellsNumber text n := by
  have hsign : Json.isDigit '+' = false := rfl
  unfold number? SpellsNumber
  split
  · next cs htext =>
      rw [digitsNumber?_eq_some_iff]
      constructor
      · exact fun h => ⟨cs, .inr htext, h⟩
      · rintro ⟨digits, heq | heq, hsome, hall, hvalue⟩
        · have hplus := hall '+' (by rw [← heq, htext]; exact List.mem_cons_self)
          rw [hsign] at hplus
          cases hplus
        · rw [htext] at heq
          cases heq
          exact ⟨hsome, hall, hvalue⟩
  · next hunsigned =>
      rw [digitsNumber?_eq_some_iff]
      constructor
      · exact fun h => ⟨text.toList, .inl rfl, h⟩
      · rintro ⟨digits, heq | heq, h⟩
        · rw [heq]
          exact h
        · exact absurd heq (hunsigned digits)

theorem flag?_eq_some_iff {text : String} {b : Bool} :
    flag? text = some b ↔ SpellsFlag text b := by
  unfold flag? SpellsFlag
  split
  · next htext =>
      rw [htext]
      cases b <;> decide
  split
  · next htext =>
      rw [htext]
      cases b <;> decide
  · next htrue hfalse =>
      constructor
      · nofun
      · rintro (⟨h, _⟩ | ⟨h, _⟩)
        · exact absurd h htrue
        · exact absurd h hfalse

/-- What the environment says of the fields. -/
def Layer.ofEnvironment (env : Environment) : Layer :=
  { sendTimeout := (env.lookup "CSPP_SEND_TIMEOUT_SECS").bind number?
    receiveTimeout := (env.lookup "CSPP_RECV_TIMEOUT_SECS").bind number?
    logLevel := (env.lookup "CSPP_LOG_LEVEL").bind fun text => some text.toList
    logJson := (env.lookup "CSPP_LOG_JSON").bind flag? }

theorem withEnvironment_eq (s : Settings) (env : Environment) :
    s.withEnvironment env = (Layer.ofEnvironment env).over s :=
  rfl

theorem sets_bind {α : Type} {env : Environment} {name : String} {Spells : String -> α -> Prop}
    {parse? : String -> Option α} (h : forall text a, parse? text = some a ↔ Spells text a) :
    Sets env name Spells ((env.lookup name).bind parse?) := by
  intro a
  rw [Option.bind_eq_some_iff]
  exact exists_congr fun text => and_congr_right fun _ => h text a

theorem Layer.setBy_ofEnvironment (env : Environment) : (ofEnvironment env).SetBy env where
  sendTimeout := sets_bind fun _ _ => number?_eq_some_iff
  receiveTimeout := sets_bind fun _ _ => number?_eq_some_iff
  logLevel := sets_bind fun _ _ => Option.some_inj
  logJson := sets_bind fun _ _ => flag?_eq_some_iff

theorem Sets.unique {α : Type} {env : Environment} {name : String}
    {Spells : String -> α -> Prop} {a? b? : Option α} (ha : Sets env name Spells a?)
    (hb : Sets env name Spells b?) : a? = b? :=
  Option.ext fun a => (ha a).trans (hb a).symm

/-- The environment says one thing only. -/
theorem Layer.SetBy.eq_ofEnvironment {l : Layer} {env : Environment} (h : l.SetBy env) :
    l = ofEnvironment env := by
  have hown := setBy_ofEnvironment env
  rcases l with ⟨sendTimeout, receiveTimeout, logLevel, logJson⟩
  cases h.sendTimeout.unique hown.sendTimeout
  cases h.receiveTimeout.unique hown.receiveTimeout
  cases h.logLevel.unique hown.logLevel
  cases h.logJson.unique hown.logJson
  rfl

/-!
## All layers
-/

section Loading

variable {global project : File} {gs ps : List Json.Member} {g p : Layer}

theorem load_of_legible (hglobal : global.Holds gs) (hproject : project.Holds ps)
    (hg : g.StatedBy gs) (hp : p.StatedBy ps) (hgs : forall m, m ∈ gs -> m.1 ≠ none)
    (hps : forall m, m ∈ ps -> Json.Legible m) (env : Environment) :
    load global project env =
      check ((Layer.ofEnvironment env).over (p.over (g.over default))) := by
  unfold load
  rw [ofGlobalFile_eq hglobal hg hgs]
  show (overlayFile _ project >>= fun s => check (s.withEnvironment env)) = _
  rw [overlayFile_eq hproject hp hps]
  exact congrArg check (withEnvironment_eq _ env)

theorem load_of_illegible (hglobal : global.Holds gs) (hproject : project.Holds ps)
    (hg : g.StatedBy gs)
    (h : (exists m, m ∈ gs ∧ m.1 = none) ∨
      exists m, m ∈ ps ∧ (m.1 = none ∨ m.2 = .loneSurrogate)) (env : Environment) :
    load global project env = .error .unparsable := by
  unfold load
  by_cases hgs : exists m, m ∈ gs ∧ m.1 = none
  · rcases hgs with ⟨m, hm, hname⟩
    rw [ofGlobalFile_of_nameless hglobal hm hname]
    rfl
  · rcases h.resolve_left hgs with ⟨m, hm, htext⟩
    rw [ofGlobalFile_eq hglobal hg fun n hn hname => hgs ⟨n, hn, hname⟩]
    show (overlayFile _ project >>= fun s => check (s.withEnvironment env)) = _
    rw [overlayFile_of_not_legible hproject hm htext]
    rfl

end Loading

/-- Alone, a file has the same effect in both places. -/
theorem load_alone {file : File} {ms : List Json.Member} {l : Layer} (hfile : file.Holds ms)
    (h : l.StatedBy ms) (hms : forall m, m ∈ ms -> m.2 ≠ .loneSurrogate) (env : Environment) :
    load .absent file env = load file .absent env := by
  by_cases hnames : exists m, m ∈ ms ∧ m.1 = none
  · rcases hnames with ⟨m, hm, hname⟩
    rw [load_of_illegible .absent hfile Layer.silent_statedBy_nil (.inr ⟨m, hm, .inl hname⟩),
      load_of_illegible hfile .absent h (.inl ⟨m, hm, hname⟩)]
  · have hlegible : forall m, m ∈ ms -> Json.Legible m := fun m hm =>
      ⟨fun hname => hnames ⟨m, hm, hname⟩, hms m hm⟩
    rw [load_of_legible .absent hfile Layer.silent_statedBy_nil h nofun hlegible,
      load_of_legible hfile .absent h Layer.silent_statedBy_nil
        (fun m hm => (hlegible m hm).left) nofun]
    rfl

/-- Every field has the value of the highest layer that says something of it, and a timeout
of zero is a fault only if it is the one that remains.  A text with half of a surrogate
pair is a fault where it is read: in a name of either file, and in the file of the project
also in a value. -/
theorem fields_come_from_highest_layer {global project : File} {gs ps : List Json.Member}
    {g p : Layer} (hglobal : global.Holds gs) (hproject : project.Holds ps)
    (hg : g.StatedBy gs) (hp : p.StatedBy ps) (env : Environment) :
    ((exists m, m ∈ gs ++ ps ∧ m.1 = none) ∨ (exists m, m ∈ ps ∧ m.2 = .loneSurrogate) ->
      load global project env = .error .unparsable) ∧
    ((forall m, m ∈ gs ++ ps -> m.1 ≠ none) -> (forall m, m ∈ ps -> m.2 ≠ .loneSurrogate) ->
      exists (e : Layer) (s : Settings), e.SetBy env ∧ s = e.over (p.over (g.over default)) ∧
        (s.sendTimeout = 0 -> load global project env = .error .sendTimeoutZero) ∧
        (s.sendTimeout ≠ 0 -> s.receiveTimeout = 0 ->
          load global project env = .error .receiveTimeoutZero) ∧
        (s.sendTimeout ≠ 0 -> s.receiveTimeout ≠ 0 -> load global project env = .ok s)) ∧
    ((forall m, m ∈ gs -> m.2 ≠ .loneSurrogate) ->
      load .absent global env = load global .absent env) := by
  refine ⟨?_, ?_, fun hgs => load_alone hglobal hg hgs env⟩
  · intro h
    apply load_of_illegible hglobal hproject hg
    rcases h with ⟨m, hm, hname⟩ | ⟨m, hm, hvalue⟩
    · rcases List.mem_append.mp hm with hm | hm
      · exact .inl ⟨m, hm, hname⟩
      · exact .inr ⟨m, hm, .inl hname⟩
    · exact .inr ⟨m, hm, .inr hvalue⟩
  · intro hnames hvalues
    have hgs : forall m, m ∈ gs -> m.1 ≠ none := fun m hm =>
      hnames m (List.mem_append_left ps hm)
    have hps : forall m, m ∈ ps -> Json.Legible m := fun m hm =>
      ⟨hnames m (List.mem_append_right gs hm), hvalues m hm⟩
    have hload := load_of_legible hglobal hproject hg hp hgs hps env
    refine ⟨Layer.ofEnvironment env, _, Layer.setBy_ofEnvironment env, rfl, ?_, ?_, ?_⟩
    · intro hsend
      rw [hload, check, if_pos hsend]
    · intro hsend hreceive
      rw [hload, check, if_neg hsend, if_pos hreceive]
    · intro hsend hreceive
      rw [hload, check, if_neg hsend, if_neg hreceive]

/-- A timeout of zero, and a member that is no setting and holds half of a surrogate pair. -/
def zeroedMembers : List Json.Member :=
  [(some "send_timeout_secs".toList, .integer 0), (some "x".toList, .loneSurrogate)]

def zeroedText : List Char :=
  "\x7b\"send_timeout_secs\":0,\"x\":\"\\ud800\"\x7d".toList

def debugMembers : List Json.Member :=
  [(some "log_level".toList, .text "debug".toList)]

/-- Blanks around every token, and a letter that is written as its code. -/
def debugText : List Char :=
  " \x7b \"log_level\" : \"d\\u0065bug\" \x7d\n".toList

theorem stringForm_loneHalf : Json.StringForm none "\"\\ud800\"".toList := by
  constructor
  · refine ⟨[['\\', 'u', 'd', '8', '0', '0']], ?_, by decide⟩
    intro part hpart
    rw [List.mem_singleton.mp hpart]
    exact .unit ⟨13, 8, 0, 0, rfl, rfl⟩
  · intro cs hcs
    have htokens := hcs.tokens []
    cases htokens

theorem objectForm_zeroedText : Json.ObjectForm zeroedMembers zeroedText :=
  ⟨[], _, [], by decide,
    .more (.compact (Json.textForm_quoted _) (.integer (by decide)))
      (.last (.compact (Json.textForm_quoted _) (.loneSurrogate stringForm_loneHalf))),
    by decide, by decide⟩

theorem objectForm_debugText : Json.ObjectForm debugMembers debugText := by
  have hplain {c : Char} (h : c ≠ '"' ∧ c ≠ '\\' ∧ 32 ≤ c.toNat) : Json.CharacterForm c [c] :=
    .plain h.left h.right.left h.right.right
  have hcode : Json.CharacterForm 'e' ['\\', 'u', '0', '0', '6', '5'] :=
    .unit ⟨0, 0, 6, 5, rfl, rfl⟩
  have hvalue : Json.TextForm "debug".toList "\"d\\u0065bug\"".toList :=
    ⟨_, ⟨_, .cons (hplain (by decide)) (.cons hcode (.cons (hplain (by decide))
      (.cons (hplain (by decide)) (.cons (hplain (by decide)) .nil)))), rfl⟩, by decide⟩
  have hspace : Json.Blank [' '] := by decide
  exact ⟨[' '], _, ['\n'], hspace,
    .last (.member hspace (Json.textForm_quoted _) hspace hspace (.text hvalue) hspace),
    by decide, by decide⟩

theorem statedBy_zeroedMembers :
    Layer.StatedBy { Layer.silent with sendTimeout := some 0 } zeroedMembers := by
  have hother {name : String} (hsend : some "send_timeout_secs".toList ≠ some name.toList)
      (hx : some "x".toList ≠ some name.toList) : Gives zeroedMembers name none :=
    ((gives_nil name).cons_of_ne hx).cons_of_ne hsend
  exact ⟨by decide, ((gives_nil _).cons_of_ne (by decide)).cons_self _,
    hother (by decide) (by decide), hother (by decide) (by decide), hother (by decide) (by decide)⟩

theorem statedBy_debugMembers :
    Layer.StatedBy { Layer.silent with logLevel := some "debug".toList } debugMembers :=
  ⟨by decide, (gives_nil _).cons_of_ne (by decide), (gives_nil _).cons_of_ne (by decide),
    (gives_nil _).cons_self _, (gives_nil _).cons_of_ne (by decide)⟩

/-- The timeout of zero in the file of the user is replaced by a variable, and a variable
that is no number replaces nothing. -/
theorem fields_come_from_highest_layer_of_overridden_zero :
    load (.contents (Utf8.encode zeroedText)) (.contents (Utf8.encode debugText))
        [("CSPP_SEND_TIMEOUT_SECS", "+09"), ("CSPP_RECV_TIMEOUT_SECS", "soon")] =
      .ok { default with sendTimeout := 9, logLevel := "debug".toList } := by
  rcases fields_come_from_highest_layer (.contents objectForm_zeroedText)
    (.contents objectForm_debugText) statedBy_zeroedMembers statedBy_debugMembers
    [("CSPP_SEND_TIMEOUT_SECS", "+09"), ("CSPP_RECV_TIMEOUT_SECS", "soon")] with
    ⟨_, hlegible, _⟩
  rcases hlegible (by simp [zeroedMembers, debugMembers]) (by simp [debugMembers]) with
    ⟨e, s, he, hs, _, _, hok⟩
  have hsettled : s = { default with sendTimeout := 9, logLevel := "debug".toList } := by
    rw [hs, he.eq_ofEnvironment]
    decide
  rw [hsettled] at hok
  exact hok (by decide) (by decide)

/-- A member that is no setting, or a name, with half of a surrogate pair.  The file of the
project must hold neither of them, although no field is concerned; the file of the user
may hold the first. -/
theorem lone_half_is_refused_in_project :
    let valued : File := .contents (Utf8.encode "\x7b\"x\":\"\\ud800\"\x7d".toList)
    let named : File := .contents (Utf8.encode "\x7b\"\\ud800\":1\x7d".toList)
    (valued.Holds [(some "x".toList, .loneSurrogate)] ∧
      Layer.silent.StatedBy [(some "x".toList, .loneSurrogate)] ∧ Layer.silent.SetBy [] ∧
      load valued .absent [] = .ok default ∧ load .absent valued [] = .error .unparsable) ∧
    named.Holds [(none, .integer 1)] ∧ Layer.silent.StatedBy [(none, .integer 1)] ∧
      load named .absent [] = .error .unparsable ∧ load .absent named [] = .error .unparsable := by
  intro valued named
  have hvalued : valued.Holds [(some "x".toList, .loneSurrogate)] :=
    .contents ⟨[], _, [], by decide,
      .last (.compact (Json.textForm_quoted _) (.loneSurrogate stringForm_loneHalf)),
      by decide, by decide⟩
  have hnamed : named.Holds [(none, .integer 1)] :=
    .contents ⟨[], _, [], by decide, .last (.compact stringForm_loneHalf (.integer (by decide))),
      by decide, by decide⟩
  have hother {name : String} (h : some "x".toList ≠ some name.toList) :
      Gives [(some "x".toList, .loneSurrogate)] name none := (gives_nil name).cons_of_ne h
  have hnothing {name : String} : Gives [(none, .integer 1)] name none :=
    (gives_nil name).cons_of_ne nofun
  have hsilent : Layer.silent.StatedBy [(some "x".toList, .loneSurrogate)] :=
    ⟨by decide, hother (by decide), hother (by decide), hother (by decide), hother (by decide)⟩
  have hsilentNamed : Layer.silent.StatedBy [(none, .integer 1)] :=
    ⟨by decide, hnothing, hnothing, hnothing, hnothing⟩
  have hnil := Layer.silent_statedBy_nil
  refine ⟨⟨hvalued, hsilent, Layer.setBy_ofEnvironment [], ?_, ?_⟩, hnamed, hsilentNamed, ?_, ?_⟩
  · rw [load_of_legible hvalued .absent hsilent hnil (by simp) nofun]
    decide
  · exact load_of_illegible .absent hvalued hnil (.inr ⟨_, List.mem_cons_self, .inr rfl⟩) []
  · exact load_of_illegible hnamed .absent hsilentNamed (.inl ⟨_, List.mem_cons_self, rfl⟩) []
  · exact load_of_illegible .absent hnamed hnil (.inr ⟨_, List.mem_cons_self, .inl rfl⟩) []

end Settings
end PeerMix
