import PeerMix.Proofs.Session.Runs

/-!
# The order of messages

What a session writes follows a script: its request, and then run after run the
messages of the stages, cut short at some stage and perhaps followed by the
secrets.  Every message is warranted by the exchanges that precede it.
-/

namespace PeerMix
namespace Session

open Wire DcNet Dialogue

/-!
## The script
-/

/-- The run that a message names. -/
def runOf : (kind : Kind) -> kind.Message -> Option Nat
  | .keyExchange, m => some m.run.toNat
  | .slotReserve, m => some m.run.toNat
  | .dcNet, m => some m.run.toNat
  | _, _ => none

abbrev Label := Kind × Option Nat

/-- What has been written to the connection by an exchange. -/
def written? : Exchange -> Option Label
  | ⟨.send kind m _, .ok _⟩ => some (kind, runOf kind m)
  | _ => none

def written (events : List Exchange) : List Label :=
  events.filterMap written?

/-- The messages of a run that goes through all stages. -/
def stageLabels (run : Nat) : List Label :=
  [(.keyExchange, some run), (.ciphertexts, none), (.slotReserve, some run), (.dcNet, some run),
    (.confirmMix, none)]

/-- What may follow a run that is cut short. -/
def revealLabels : List (List Label) :=
  [[], [(.revealSecrets, none)], [(.clientFailure, none), (.revealSecrets, none)]]

/-- The scripts of the runs from `run` on. -/
inductive Script : Nat → List Label → Prop
  | ended (run : Nat) : Script run []
  | next {run : Nat} {stages secrets rest : List Label} (hstages : stages <+: stageLabels run)
      (hne : stages ≠ []) (hsecrets : secrets ∈ revealLabels) (hrest : Script (run + 1) rest) :
      Script run (stages ++ secrets ++ rest)

theorem written_append (first last : List Exchange) :
    written (first ++ last) = written first ++ written last :=
  List.filterMap_append

theorem written_eq_nil {events : List Exchange} (h : Unsent events) : written events = [] := by
  unfold written
  rw [List.filterMap_eq_nil_iff]
  rintro ⟨question, answer⟩ he
  cases question with
  | send kind m limit => cases h _ he
  | draw | marshal | unmarshal | generate | confirm | receive | awaitRoster | cancelled
  | close => rfl

section Walk

variable {s : RunSetting} {keys : RunKeys} {messages : List Bytes} {commitment : Bytes}
  {events : List Exchange}

theorem Turn.written_cases {kind answerKind : Kind} {m : kind.Message} [Reply answerKind.Message]
    {result : Except Departure answerKind.Message} (h : Turn s kind m answerKind events result) :
    written events = [(kind, runOf kind m)] ∨
      (written events = [] ∧ exists f, result = .error (.failure f)) := by
  cases h with
  | unsent fault => exact .inr ⟨rfl, _, rfl⟩
  | refused => exact .inl rfl
  | replaced => exact .inl rfl
  | asked => exact .inl rfl
  | passed => exact .inl rfl

theorem Ends.written_cases {α : Type} {kind : Kind} {m : kind.Message} {answerKind : Kind}
    [Reply answerKind.Message] {accept : answerKind.Message -> Except Departure α}
    {result : Except Departure α} (h : Ends s kind m answerKind accept events result) :
    written events = [(kind, runOf kind m)] ∨
      (written events = [] ∧ exists f, result = .error (.failure f)) := by
  rcases h with ⟨turned, hturn, rfl⟩
  rcases hturn.written_cases with hwritten | ⟨hwritten, f, rfl⟩
  · exact .inl hwritten
  · exact .inr ⟨hwritten, f, rfl⟩

theorem Ends.written_of_ok {α : Type} {kind : Kind} {m : kind.Message} {answerKind : Kind}
    [Reply answerKind.Message] {accept : answerKind.Message -> Except Departure α} {a : α}
    (h : Ends s kind m answerKind accept events (.ok a)) :
    written events = [(kind, runOf kind m)] := by
  rcases h.ok_cases with ⟨answer, _, rfl, _⟩
  rfl

theorem PadsKnown.written {rows : List (List PadKey)}
    (h : PadsKnown s keys commitment events rows) :
    written events = [(.keyExchange, some s.scope.run.toNat), (.ciphertexts, none)] := by
  rcases h with ⟨first, last, _, _, _, hkeys, _, hciphertexts, rfl⟩
  rw [written_append, hkeys.written_of_ok, hciphertexts.written_of_ok]
  rfl

theorem SlotsKnown.written {rows : List (List PadKey)} {slots : List Nat}
    (h : SlotsKnown s keys commitment events rows slots) :
    written events = [(.keyExchange, some s.scope.run.toNat), (.ciphertexts, none),
      (.slotReserve, some s.scope.run.toNat)] := by
  rcases h with ⟨first, last, hpads, hslots, rfl⟩
  rw [written_append, hpads.written, hslots.written_of_ok]
  rfl

theorem MixKnown.written {mix : Bytes} (h : MixKnown s keys messages commitment events mix) :
    written events = [(.keyExchange, some s.scope.run.toNat), (.ciphertexts, none),
      (.slotReserve, some s.scope.run.toNat), (.dcNet, some s.scope.run.toNat)] := by
  rcases h with ⟨first, last, _, _, _, hslots, _, hmix, rfl⟩
  rw [written_append, hslots.written, hmix.written_of_ok]
  rfl

theorem Confirmation.written_cases {mix : Bytes} {result : Except Departure Unit}
    (h : Confirmation s mix events result) :
    written events = [] ∨ written events = [(.confirmMix, none)] := by
  cases h with
  | unreadable => exact .inl rfl
  | unconfirmed => exact .inl rfl
  | unwritten => exact .inl rfl
  | left confirmed events d hturn =>
      rw [written_append]
      rcases hturn.written_cases with hwritten | ⟨hwritten, _⟩
      · exact .inr hwritten
      · exact .inl hwritten
  | ended confirmed events answer hturn taken =>
      rw [written_append, written_append]
      rcases hturn.written_cases with hwritten | ⟨hwritten, _⟩
      · rw [hwritten]
        exact .inr rfl
      · rw [hwritten]
        exact .inl rfl

/-- A walk writes the messages of the stages in order, and at least the first of
them unless it fails. -/
theorem Walk.written_cases {result : Except Departure Unit}
    (h : Walk s keys messages commitment events result) :
    exists n, written events = (stageLabels s.scope.run.toNat).take n ∧
      (0 < n ∨ exists f, result = .error (.failure f)) := by
  cases h with
  | keys hlast =>
      rcases hlast.written_cases with hwritten | ⟨hwritten, f, hf⟩
      · exact ⟨1, hwritten, .inl Nat.one_pos⟩
      · cases hf
        exact ⟨0, hwritten, .inr ⟨f, rfl⟩⟩
  | unsealed h =>
      exact ⟨1, h.written_of_ok, .inl Nat.one_pos⟩
  | ciphertexts h hmade hlast =>
      rw [written_append, h.written_of_ok]
      rcases hlast.written_cases with hwritten | ⟨hwritten, _⟩
      · exact ⟨2, by rw [hwritten]; rfl, .inl Nat.two_pos⟩
      · exact ⟨1, by rw [hwritten]; rfl, .inl Nat.one_pos⟩
  | slots h hlast =>
      rw [written_append, h.written]
      rcases hlast.written_cases with hwritten | ⟨hwritten, _⟩
      · exact ⟨3, by rw [hwritten]; rfl, .inl (Nat.succ_pos 2)⟩
      · exact ⟨2, by rw [hwritten]; rfl, .inl Nat.two_pos⟩
  | uncovered h => exact ⟨3, h.written, .inl (Nat.succ_pos 2)⟩
  | messages h hvectors hlast =>
      rw [written_append, h.written]
      rcases hlast.written_cases with hwritten | ⟨hwritten, _⟩
      · exact ⟨4, by rw [hwritten]; rfl, .inl (Nat.succ_pos 3)⟩
      · exact ⟨3, by rw [hwritten]; rfl, .inl (Nat.succ_pos 2)⟩
  | confirmation h hlast =>
      rw [written_append, h.written]
      rcases hlast.written_cases with hwritten | hwritten
      · exact ⟨4, by rw [hwritten]; rfl, .inl (Nat.succ_pos 3)⟩
      · exact ⟨5, by rw [hwritten]; rfl, .inl (Nat.succ_pos 4)⟩

end Walk

section Runs

variable {s s' : Session} {run : UInt32} {carried : Option BeginRun} {events : List Exchange}

theorem Revealing.written_cases {rs : RevealSecrets} {blame : Blame}
    {result : Except MixFailure Unit} (h : Revealing s rs blame events result s') :
    exists secrets, secrets ∈ revealLabels ∧ written events <+: secrets ∧
      (result = .ok () -> written events = secrets) := by
  have hnone : [] ∈ revealLabels := List.mem_cons_self
  have hbare : [(.revealSecrets, none)] ∈ revealLabels :=
    List.mem_cons_of_mem _ List.mem_cons_self
  have hfull : [(.clientFailure, none), (.revealSecrets, none)] ∈ revealLabels :=
    List.mem_cons_of_mem _ (List.mem_cons_of_mem _ List.mem_cons_self)
  have hnotice : ([(.clientFailure, none)] : List Label) <+:
      [(.clientFailure, none), (.revealSecrets, none)] := ⟨[(.revealSecrets, none)], rfl⟩
  cases h with
  | cancelled => exact ⟨_, hnone, List.prefix_refl [], fun hresult => nomatch hresult⟩
  | asked answer =>
      cases answer with
      | error fault => exact ⟨_, hnone, List.prefix_refl [], fun hresult => nomatch hresult⟩
      | ok => exact ⟨_, hbare, List.prefix_refl _, fun _ => rfl⟩
  | unannounced fault => exact ⟨_, hnone, List.prefix_refl [], fun hresult => nomatch hresult⟩
  | announced answer =>
      cases answer with
      | error fault => exact ⟨_, hfull, hnotice, fun hresult => nomatch hresult⟩
      | ok => exact ⟨_, hfull, List.prefix_refl _, fun _ => rfl⟩

theorem Settled.written_cases {rs : RevealSecrets} {walk : Except Departure Unit}
    {result : Except MixFailure Outcome} (h : Settled s rs walk events result s') :
    exists secrets, secrets ∈ revealLabels ∧ written events <+: secrets ∧
      ((exists roster, result = .ok (.rerun roster)) -> written events = secrets) ∧
        ((exists f, walk = .error (.failure f)) -> written events = []) := by
  have hnone : [] ∈ revealLabels := List.mem_cons_self
  cases h with
  | confirmed => exact ⟨_, hnone, List.prefix_refl [], fun _ => rfl, fun _ => rfl⟩
  | failed => exact ⟨_, hnone, List.prefix_refl [], fun _ => rfl, fun _ => rfl⟩
  | replaced => exact ⟨_, hnone, List.prefix_refl [], fun _ => rfl, fun _ => rfl⟩
  | unrevealed h =>
      rcases h.written_cases with ⟨secrets, hsecrets, hwritten, _⟩
      refine ⟨secrets, hsecrets, hwritten, ?_, ?_⟩
      · rintro ⟨_, hresult⟩
        cases hresult
      · rintro ⟨_, hwalk⟩
        cases hwalk
  | revealed h =>
      rcases h.written_cases with ⟨secrets, hsecrets, hwritten, hwhole⟩
      refine ⟨secrets, hsecrets, hwritten, fun _ => hwhole rfl, ?_⟩
      rintro ⟨_, hwalk⟩
      cases hwalk

/-- A run writes what the script says, and all of it if another run follows. -/
theorem RunTrace.written_cases {result : Except MixFailure Outcome}
    (h : RunTrace s run carried events result s') :
    written events = [] ∧ (exists f, result = .error f) ∨
      exists stages secrets, stages <+: stageLabels run.toNat ∧ stages ≠ [] ∧
        secrets ∈ revealLabels ∧ written events <+: stages ++ secrets ∧
          ((exists roster, result = .ok (.rerun roster)) -> written events = stages ++ secrets) := by
  cases h with
  | unannounced limit answer f => exact .inl ⟨rfl, f, rfl⟩
  | rejected hannounced => exact .inl ⟨written_eq_nil hannounced.unsent, _, rfl⟩
  | unprepared hannounced hroster hprepared =>
      rw [written_append, written_eq_nil hannounced.unsent, written_eq_nil hprepared.unsent]
      exact .inl ⟨rfl, _, rfl⟩
  | walked hannounced hroster hprepared hwalk hsettled =>
      rw [written_append, written_append, written_append, written_eq_nil hannounced.unsent,
        written_eq_nil hprepared.unsent,
        List.nil_append, List.nil_append]
      rcases hwalk.written_cases with ⟨n, hstages, hlong⟩
      rcases hsettled.written_cases with ⟨secrets, hsecrets, hclosing, hwhole, hfailed⟩
      rw [hstages]
      rcases Nat.eq_zero_or_pos n with rfl | hpos
      · rcases hlong with hpos | ⟨f, rfl⟩
        · cases hpos
        · cases hsettled with
          | failed => exact .inl ⟨rfl, f, rfl⟩
      · refine .inr ⟨(stageLabels run.toNat).take n, secrets, List.take_prefix n _, ?_, hsecrets,
          ?_, ?_⟩
        · intro hnil
          rcases List.take_eq_nil_iff.mp hnil with hzero | hempty
          · exact Nat.ne_of_gt hpos hzero
          · cases hempty
        · exact (List.prefix_append_right_inj _).mpr hclosing
        · intro hrerun
          rw [hwhole hrerun]
          rfl

/-!
## All runs
-/

theorem toNat_run {left : Nat} (hleft : left ≤ lastRun) :
    (UInt32.ofNat (lastRun - left)).toNat = lastRun - left := by
  have hlast : lastRun < UInt32.size := by decide
  rw [UInt32.toNat_ofNat_of_lt' (by omega)]

theorem written_uncancelled (events : List Exchange) :
    written (⟨.cancelled, false⟩ :: events) = written events := rfl

theorem RunTrace.written_last {left : Nat} {result : Except MixFailure Outcome}
    (hleft : left ≤ lastRun)
    (h : RunTrace s (UInt32.ofNat (lastRun - left)) carried events result s') :
    exists script, Script (lastRun - left) script ∧
      written (⟨.cancelled, false⟩ :: events) <+: script := by
  rw [written_uncancelled]
  rcases h.written_cases with ⟨hnone, _⟩ | ⟨stages, secrets, hstages, hne, hsecrets, hwritten, _⟩
  · rw [hnone]
    exact ⟨[], .ended _, List.prefix_refl []⟩
  · rw [toNat_run hleft] at hstages
    refine ⟨stages ++ secrets ++ [], .next hstages hne hsecrets (.ended _), ?_⟩
    rw [List.append_nil]
    exact hwritten

theorem Chain.written_cases {left : Nat} {result : Except MixFailure Unit}
    (h : Chain left s carried events result s') (hleft : left ≤ lastRun) :
    exists script, Script (lastRun - left) script ∧ written events <+: script := by
  induction h with
  | cancelled => exact ⟨[], .ended _, List.prefix_refl []⟩
  | confirmed h => exact h.written_last hleft
  | failed h => exact h.written_last hleft
  | exhausted h => exact RunTrace.written_last hleft h
  | @rerun left s between s' carried roster events rest result h hrest ih =>
      rcases ih (by omega) with ⟨script, hscript, hwritten⟩
      rcases h.written_cases with
        ⟨_, f, hf⟩ | ⟨stages, secrets, hstages, hne, hsecrets, _, hwhole⟩
      · cases hf
      · have hrun : lastRun - left = lastRun - (left + 1) + 1 := by omega
        rw [toNat_run hleft] at hstages
        rw [hrun] at hscript
        refine ⟨stages ++ secrets ++ script, .next hstages hne hsecrets hscript, ?_⟩
        rw [written_append, written_uncancelled, hwhole ⟨roster, rfl⟩]
        exact (List.prefix_append_right_inj _).mpr hwritten

end Runs

theorem Conversation.written_cases {s s' : Session} {events : List Exchange}
    {result : Except MixFailure Unit} (h : Conversation s events result s') :
    exists script, Script 0 script ∧ written events <+: (.pairRequest, none) :: script := by
  cases h with
  | unread => exact ⟨[], .ended 0, List.nil_prefix⟩
  | unsent => exact ⟨[], .ended 0, List.nil_prefix⟩
  | ran unmixed h =>
      rcases h.written_cases (Nat.le_refl lastRun) with ⟨script, hscript, hwritten⟩
      rw [Nat.sub_self] at hscript
      refine ⟨script, hscript, ?_⟩
      rw [written_append, written_append]
      show (.pairRequest, none) :: (written _ ++ []) <+: _
      rw [List.append_nil]
      exact List.cons_prefix_cons.mpr ⟨rfl, hwritten⟩

end Session
end PeerMix
