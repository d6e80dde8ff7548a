import PeerMix.Proofs.Session.Walk

/-!
# Runs of a session

What a session does between the walks through its runs: it waits for a roster,
prepares its secrets, reveals them and starts over.  As for the stages, each
part is read once, and a trace of a session becomes a chain of runs.
-/

namespace PeerMix
namespace Session

open Wire DcNet Dialogue

/-!
## Preparing secrets
-/

/-- Messages that pass are as many as announced and of the right size. -/
theorem checkMessages_eq_ok {count : Nat} {messages : List Bytes}
    (h : checkMessages count messages = .ok ()) :
    messages.length = count ∧ forall m, m ∈ messages -> m.length = messageSize := by
  unfold checkMessages at h
  by_cases hcount : messages.length ≠ count
  · rw [if_pos hcount] at h
    cases h
  rw [if_neg hcount] at h
  refine ⟨Decidable.of_not_not hcount, ?_⟩
  split at h
  case h_1 => cases h
  case h_2 hnone =>
    intro m hm
    rcases List.getElem?_of_mem hm with ⟨i, hi⟩
    have hfits := List.find?_eq_none.mp hnone (m, i) (List.mem_zipIdx_iff_getElem?.mpr hi)
    simpa using hfits

/-- What can come of drawing secrets for `run`. -/
inductive Drawing (run : UInt32) (count : Nat) :
    List Exchange → Except MixFailure Secrets → Prop
  | undrawn (reason : String) :
      Drawing run count [⟨.draw 32, .error reason⟩] (.error (.primitive (.randomness reason)))
  | ungenerated (seed : Bytes) (e : PayloadError) :
      Drawing run count [⟨.draw 32, .ok seed⟩, ⟨.generate, .error e⟩] (.error (.generate e))
  | rejected (seed : Bytes) (messages : List Bytes) (f : MixFailure)
      (h : checkMessages count messages = .error f) :
      Drawing run count [⟨.draw 32, .ok seed⟩, ⟨.generate, .ok messages⟩] (.error f)
  | drawn (seed : Bytes) (messages : List Bytes) (h : checkMessages count messages = .ok ()) :
      Drawing run count [⟨.draw 32, .ok seed⟩, ⟨.generate, .ok messages⟩]
        (.ok { seed, seedRun := run, messages })

section Secrets

variable {s s' : Session} {run : UInt32} {events : List Exchange}
  {result : Except MixFailure Secrets}

theorem drawSecrets_cases (h : Act.Traces (drawSecrets run) s events result s') :
    Drawing run s.messageCount.toNat events result ∧ s' = s := by
  rcases Act.traces_question_bind h with ⟨drawn, _, rfl, hdrawn⟩
  rcases Act.traces_check_bind hdrawn with ⟨reason, rfl, rfl, rfl, rfl⟩ | ⟨seed, rfl, hseed⟩
  · exact ⟨.undrawn reason, rfl⟩
  rcases Act.traces_question_bind hseed with ⟨generated, _, rfl, hgenerated⟩
  rcases Act.traces_check_bind hgenerated with ⟨e, rfl, rfl, rfl, rfl⟩ | ⟨messages, rfl, hmessages⟩
  · exact ⟨.ungenerated seed e, rfl⟩
  rcases Act.traces_check_bind (Act.traces_get_bind hmessages) with ⟨f, hf, rfl, rfl, rfl⟩ | ⟨_, hok, hpure⟩
  · exact ⟨.rejected seed messages f hf, rfl⟩
  · rcases Act.traces_pure hpure with ⟨rfl, rfl, rfl⟩
    exact ⟨.drawn seed messages hok, rfl⟩

/-- What can come of preparing secrets: those at hand are kept, or new ones are
drawn. -/
inductive Preparing (run : UInt32) (s : Session) :
    List Exchange → Except MixFailure Secrets → Session → Prop
  | kept (secrets : Secrets) (h : s.secrets = some secrets) (hkept : s.drawsAnew = false) :
      Preparing run s [] (.ok secrets) { s with drawsAnew := false, secrets := some secrets }
  | failed (events : List Exchange) (f : MixFailure)
      (h : s.secrets = none ∨ s.drawsAnew = true)
      (hdrawing : Drawing run s.messageCount.toNat events (.error f)) :
      Preparing run s events (.error f) { s with secrets := none }
  | drawn (events : List Exchange) (secrets : Secrets)
      (h : s.secrets = none ∨ s.drawsAnew = true)
      (hdrawing : Drawing run s.messageCount.toNat events (.ok secrets)) :
      Preparing run s events (.ok secrets) { s with drawsAnew := false, secrets := some secrets }

theorem keep_cases {secrets : Secrets} (h : Act.Traces (do
      modify fun s => { s with drawsAnew := false, secrets := some secrets }
      return secrets) s events result s') :
    events = [] ∧ result = .ok secrets ∧
      s' = { s with drawsAnew := false, secrets := some secrets } := by
  have hpure := Act.traces_modify_bind h
  exact Act.traces_pure hpure

theorem keepDrawn_cases {t : Session} (hs : s.secrets = none ∨ s.drawsAnew = true)
    (ht : t = { s with secrets := none })
    (h : Act.Traces (do
      let secrets ← drawSecrets run
      modify fun s => { s with drawsAnew := false, secrets := some secrets }
      return secrets) t events result s') :
    Preparing run s events result s' := by
  subst ht
  rcases Act.traces_bind h with ⟨f, hdraw, rfl⟩ | ⟨drawing, secrets, t, _, hdraw, hkeep, rfl⟩
  · rcases drawSecrets_cases hdraw with ⟨hdrawing, rfl⟩
    exact .failed _ f hs hdrawing
  · rcases drawSecrets_cases hdraw with ⟨hdrawing, rfl⟩
    rcases keep_cases hkeep with ⟨rfl, rfl, rfl⟩
    rw [List.append_nil]
    exact .drawn _ secrets hs hdrawing

theorem prepareSecrets_cases (h : Act.Traces (prepareSecrets run) s events result s') :
    Preparing run s events result s' := by
  have hchoice := Act.traces_set_bind (Act.traces_get_bind h)
  dsimp only at hchoice
  cases hsecrets : s.secrets with
  | none =>
      rw [hsecrets] at hchoice
      exact keepDrawn_cases (.inl hsecrets) rfl hchoice
  | some secrets =>
      rw [hsecrets] at hchoice
      dsimp only at hchoice
      by_cases hanew : s.drawsAnew = true
      · rw [if_pos hanew] at hchoice
        exact keepDrawn_cases (.inr hanew) rfl hchoice
      · rw [if_neg hanew] at hchoice
        rcases keep_cases hchoice with ⟨rfl, rfl, rfl⟩
        exact .kept secrets hsecrets (by simpa using hanew)

end Secrets

/-!
## Revealing secrets
-/

/-- What can come of revealing secrets. -/
inductive Revealing (s : Session) (rs : RevealSecrets) :
    Blame → List Exchange → Except MixFailure Unit → Session → Prop
  | cancelled (blame : Blame) :
      Revealing s rs blame [⟨.cancelled, true⟩] (.error .cancelled) s
  | asked (answer : Except FrameError Unit) :
      Revealing s rs .server
        [⟨.cancelled, false⟩, ⟨.send .revealSecrets rs s.settings.sendLimit, answer⟩]
        (answer.mapError fun fault => .transport (.send .revealSecrets fault))
        { s with drawsAnew := true }
  | unannounced (fault : FrameError) :
      Revealing s rs .client
        [⟨.cancelled, false⟩,
          ⟨.send .clientFailure ClientFailure.notice s.settings.sendLimit, .error fault⟩]
        (.error (.transport (.send .clientFailure fault))) { s with drawsAnew := true }
  | announced (answer : Except FrameError Unit) :
      Revealing s rs .client
        [⟨.cancelled, false⟩,
          ⟨.send .clientFailure ClientFailure.notice s.settings.sendLimit, .ok ()⟩,
          ⟨.send .revealSecrets rs s.settings.sendLimit, answer⟩]
        (answer.mapError fun fault => .transport (.send .revealSecrets fault))
        { s with drawsAnew := true }

section Runs

variable {s s' : Session} {run : UInt32} {events : List Exchange}

theorem Act.send_cases {kind : Kind} {m : kind.Message} {result : Except MixFailure Unit}
    (h : Act.Traces (Act.send kind m) s events result s') :
    exists answer, events = [⟨.send kind m s.settings.sendLimit, answer⟩] ∧
      result = (answer.mapError fun fault => .transport (.send kind fault)) ∧ s' = s := by
  rcases Act.traces_question_bind (Act.traces_get_bind h) with ⟨answer, _, rfl, hcheck⟩
  rcases Act.traces_check hcheck with ⟨rfl, rfl, rfl⟩
  exact ⟨answer, rfl, rfl, rfl⟩

theorem Act.send_bind_cases {α : Type} {kind : Kind} {m : kind.Message} {next : Unit -> Act α}
    {result : Except MixFailure α}
    (h : Act.Traces (Act.send kind m >>= next) s events result s') :
    (exists fault, events = [⟨.send kind m s.settings.sendLimit, .error fault⟩] ∧
      result = .error (.transport (.send kind fault)) ∧ s' = s) ∨
    exists after, events = ⟨.send kind m s.settings.sendLimit, .ok ()⟩ :: after ∧
      Act.Traces (next ()) s after result s' := by
  rcases Act.traces_bind h with ⟨f, hsend, rfl⟩ | ⟨_, _, _, after, hsend, hnext, rfl⟩
  · rcases Act.send_cases hsend with ⟨answer, rfl, hf, rfl⟩
    cases answer with
    | error fault =>
        cases hf
        exact .inl ⟨fault, rfl, rfl, rfl⟩
    | ok => cases hf
  · rcases Act.send_cases hsend with ⟨answer, rfl, hok, rfl⟩
    cases answer with
    | error fault => cases hok
    | ok => exact .inr ⟨after, rfl, hnext⟩

theorem reveal_cases {blame : Blame} {rs : RevealSecrets} {result : Except MixFailure Unit}
    (h : Act.Traces (reveal blame rs) s events result s') :
    Revealing s rs blame events result s' := by
  rcases Act.traces_unlessCancelled h with ⟨rfl, rfl, rfl⟩ | ⟨_, rfl, hrest⟩
  · exact .cancelled blame
  have hreveal := Act.traces_modify_bind hrest
  cases blame with
  | server =>
      rcases Act.send_cases hreveal with ⟨answer, rfl, rfl, rfl⟩
      exact .asked answer
  | client =>
      rcases Act.send_bind_cases hreveal with ⟨fault, rfl, rfl, rfl⟩ | ⟨_, rfl, hsend⟩
      · exact .unannounced fault
      · rcases Act.send_cases hsend with ⟨answer, rfl, rfl, rfl⟩
        exact .announced answer

/-!
## Runs
-/

/-- Where the roster of a run comes from. -/
inductive Announced : Option BeginRun → List Exchange → BeginRun → Prop
  | carried (br : BeginRun) : Announced (some br) [] br
  | awaited (limit : Option Nat) (br : BeginRun) (h : Kind.beginRun.serverError? br = none) :
      Announced none [⟨.awaitRoster limit, some (.ok br)⟩] br

/-- What becomes of a run after its walk. -/
inductive Settled (s : Session) (rs : RevealSecrets) :
    Except Departure Unit → List Exchange → Except MixFailure Outcome → Session → Prop
  | confirmed : Settled s rs (.ok ()) [] (.ok .confirmed) s
  | failed (f : MixFailure) : Settled s rs (.error (.failure f)) [] (.error f) s
  | replaced (br : BeginRun) :
      Settled s rs (.error (.reroute (.beginRun br))) [] (.ok (.rerun (some br))) s
  | unrevealed {blame : Blame} {events : List Exchange} {f : MixFailure} {s' : Session}
      (h : Revealing s rs blame events (.error f) s') :
      Settled s rs (.error (.reroute (.revealSecrets blame))) events (.error f) s'
  | revealed {blame : Blame} {events : List Exchange} {s' : Session}
      (h : Revealing s rs blame events (.ok ()) s') :
      Settled s rs (.error (.reroute (.revealSecrets blame))) events (.ok (.rerun none)) s'

def settingOf (s : Session) (run : UInt32) (roster : Roster) : RunSetting :=
  { identity := s.identity
    settings := s.settings
    scope := { sid := roster.sid, run, vk := roster.vk }
    roster }

def keysFor (s : Session) (run : UInt32) (secrets : Secrets) : RunKeys :=
  RunKeys.derive secrets.seed secrets.seedRun run s.messageCount.toNat

def withRoster (s : Session) (roster : Roster) : Session :=
  { s with sid := roster.sid }

/-- One run: it fails before its walk, or the walk is settled. -/
inductive RunTrace (s : Session) (run : UInt32) (carried : Option BeginRun) :
    List Exchange → Except MixFailure Outcome → Session → Prop
  | unannounced (limit : Option Nat) (answer : Option (Except FrameError BeginRun))
      (f : MixFailure) (h : carried = none)
      (hf : f = .cancelled ∨ exists fault, f = .transport fault) :
      RunTrace s run carried [⟨.awaitRoster limit, answer⟩] (.error f) s
  | rejected {opening : List Exchange} {br : BeginRun} (h : Announced carried opening br)
      (fault : RosterFault) : RunTrace s run carried opening (.error (.roster fault)) s
  | unprepared {opening preparing : List Exchange} {br : BeginRun} {roster : Roster}
      {f : MixFailure} {s' : Session} (h : Announced carried opening br)
      (hroster : Roster.ofBeginRun br s.identity.publicKey s.messageCount = .ok roster)
      (hprepared : Preparing run (withRoster s roster) preparing (.error f) s') :
      RunTrace s run carried (opening ++ preparing) (.error f) s'
  | walked {opening preparing walking closing : List Exchange} {br : BeginRun} {roster : Roster}
      {secrets : Secrets} {between s' : Session} {walk : Except Departure Unit}
      {result : Except MixFailure Outcome} (h : Announced carried opening br)
      (hroster : Roster.ofBeginRun br s.identity.publicKey s.messageCount = .ok roster)
      (hprepared : Preparing run (withRoster s roster) preparing (.ok secrets) between)
      (hwalk : Walk (settingOf s run roster) (keysFor s run secrets) secrets.messages
        ((revelation secrets (keysFor s run secrets)).commitment (settingOf s run roster).scope)
        walking walk)
      (hsettled : Settled between (revelation secrets (keysFor s run secrets)) walk closing result
        s') :
      RunTrace s run carried (opening ++ preparing ++ walking ++ closing) result s'

theorem awaitRoster_cases {result : Except MixFailure BeginRun}
    (h : Act.Traces (awaitRoster run) s events result s') :
    s' = s ∧ ((exists br, Announced none events br ∧ result = .ok br) ∨
      exists limit answer f, events = [⟨.awaitRoster limit, answer⟩] ∧ result = .error f ∧
        (f = .cancelled ∨ exists fault, f = .transport fault)) := by
  rcases Act.traces_question_bind (Act.traces_get_bind h) with ⟨answer, _, rfl, hanswer⟩
  cases answer with
  | none =>
      rcases Act.traces_throw hanswer with ⟨rfl, rfl, rfl⟩
      exact ⟨rfl, .inr ⟨_, none, _, rfl, rfl, .inl rfl⟩⟩
  | some received =>
      rcases Act.traces_check hanswer with ⟨rfl, rfl, rfl⟩
      cases hdeliver : deliverMessage .beginRun received with
      | error fault => exact ⟨rfl, .inr ⟨_, some received, _, rfl, rfl, .inr ⟨fault, rfl⟩⟩⟩
      | ok br =>
          rcases deliverMessage_eq_ok hdeliver with ⟨rfl, herror⟩
          exact ⟨rfl, .inl ⟨br, .awaited _ br herror, rfl⟩⟩

theorem settle_cases {rs : RevealSecrets} {walk : Except Departure Unit}
    {result : Except MixFailure Outcome} (h : Act.Traces (match walk with
      | .ok _ => return .confirmed
      | .error (.failure f) => throw f
      | .error (.reroute (.beginRun br)) => return .rerun (some br)
      | .error (.reroute (.revealSecrets blame)) => do
          reveal blame rs
          return .rerun none) s events result s') : Settled s rs walk events result s' := by
  match walk with
  | .ok _ =>
      rcases Act.traces_pure h with ⟨rfl, rfl, rfl⟩
      exact .confirmed
  | .error (.failure f) =>
      rcases Act.traces_throw h with ⟨rfl, rfl, rfl⟩
      exact .failed f
  | .error (.reroute (.beginRun br)) =>
      rcases Act.traces_pure h with ⟨rfl, rfl, rfl⟩
      exact .replaced br
  | .error (.reroute (.revealSecrets blame)) =>
      rcases Act.traces_bind h with ⟨f, hreveal, rfl⟩ | ⟨_, _, _, _, hreveal, hpure, rfl⟩
      · exact .unrevealed (reveal_cases hreveal)
      · rcases Act.traces_pure hpure with ⟨rfl, rfl, rfl⟩
        rw [List.append_nil]
        exact .revealed (reveal_cases hreveal)

/-- What becomes of a run whose roster has been accepted. -/
inductive Accepted (s : Session) (run : UInt32) (roster : Roster) :
    List Exchange → Except MixFailure Outcome → Session → Prop
  | unprepared {events : List Exchange} {f : MixFailure} {s' : Session}
      (hprepared : Preparing run (withRoster s roster) events (.error f) s') :
      Accepted s run roster events (.error f) s'
  | walked {preparing walking closing : List Exchange} {secrets : Secrets} {between s' : Session}
      {walk : Except Departure Unit} {result : Except MixFailure Outcome}
      (hprepared : Preparing run (withRoster s roster) preparing (.ok secrets) between)
      (hwalk : Walk (settingOf s run roster) (keysFor s run secrets) secrets.messages
        ((revelation secrets (keysFor s run secrets)).commitment (settingOf s run roster).scope)
        walking walk)
      (hsettled : Settled between (revelation secrets (keysFor s run secrets)) walk closing result
        s') :
      Accepted s run roster (preparing ++ walking ++ closing) result s'

theorem accepted_cases {br : BeginRun} {roster : Roster} {result : Except MixFailure Outcome}
    (hroster : Roster.ofBeginRun br s.identity.publicKey s.messageCount = .ok roster)
    (h : Act.Traces (performRun run (some br)) s events result s') :
    Accepted s run roster events result s' := by
  unfold performRun at h
  have hopened := Act.traces_get_bind (Act.traces_pure_bind h)
  rcases Act.traces_check_bind hopened with ⟨f, hrejected, _⟩ | ⟨_, haccepted, hrest⟩
  · cases hroster.symm.trans hrejected
  cases hroster.symm.trans haccepted
  have hprepare := Act.traces_modify_bind hrest
  rcases Act.traces_bind hprepare with ⟨f, hsecrets, rfl⟩ | ⟨_, secrets, _, _, hsecrets, hwalk, rfl⟩
  · exact .unprepared (prepareSecrets_cases hsecrets)
  have hprepared := prepareSecrets_cases hsecrets
  rcases Act.traces_bind hwalk with ⟨f, hstages, rfl⟩ | ⟨_, walk, _, _, hstages, hsettle, rfl⟩
  · rcases Act.traces_ofStage hstages with ⟨_, _, hok, _⟩
    cases hok
  rcases Act.traces_ofStage hstages with ⟨_, hstages, hok, rfl⟩
  cases hok
  have hwalked : Walk (settingOf s run roster) (keysFor s run secrets) secrets.messages
      ((revelation secrets (keysFor s run secrets)).commitment (settingOf s run roster).scope)
      _ walk := walk_of_stages hstages
  have hsettled : Settled _ (revelation secrets (keysFor s run secrets)) walk _ result s' :=
    settle_cases hsettle
  rw [← List.append_assoc]
  exact .walked hprepared hwalked hsettled

theorem announced_cases {opening : List Exchange} {br : BeginRun} {carried : Option BeginRun}
    {result : Except MixFailure Outcome} (hannounced : Announced carried opening br)
    (h : Act.Traces (performRun run (some br)) s events result s') :
    RunTrace s run carried (opening ++ events) result s' := by
  cases hroster : Roster.ofBeginRun br s.identity.publicKey s.messageCount with
  | error fault =>
      unfold performRun at h
      have hopened := Act.traces_get_bind (Act.traces_pure_bind h)
      rcases Act.traces_check_bind hopened with ⟨f, _, rfl, rfl, rfl⟩ | ⟨_, haccepted, _⟩
      · rw [List.append_nil]
        exact .rejected hannounced _
      · cases hroster.symm.trans haccepted
  | ok roster =>
      cases accepted_cases hroster h with
      | unprepared hprepared => exact .unprepared hannounced hroster hprepared
      | walked hprepared hwalk hsettled =>
          rw [← List.append_assoc, ← List.append_assoc]
          exact .walked hannounced hroster hprepared hwalk hsettled

theorem performRun_cases {carried : Option BeginRun} {result : Except MixFailure Outcome}
    (h : Act.Traces (performRun run carried) s events result s') :
    RunTrace s run carried events result s' := by
  cases carried with
  | some br => exact announced_cases (.carried br) h
  | none =>
      rcases Act.traces_bind h with ⟨f, hawait, rfl⟩ | ⟨opening, br, _, _, hawait, hrest, rfl⟩
      · rcases awaitRoster_cases hawait with ⟨rfl, ⟨_, _, hok⟩ | ⟨limit, answer, _, rfl, hf, houtside⟩⟩
        · cases hok
        · cases hf
          exact .unannounced limit answer f rfl houtside
      · rcases awaitRoster_cases hawait with ⟨rfl, ⟨_, hannounced, hok⟩ | ⟨_, _, _, _, hf, _⟩⟩
        · cases hok
          exact announced_cases hannounced hrest
        · cases hf

end Runs

/-!
## What is not sent
-/

section Unsent

variable {s s' : Session} {run : UInt32} {carried : Option BeginRun} {events : List Exchange}

theorem Announced.unsent {br : BeginRun} (h : Announced carried events br) : Unsent events := by
  cases h <;> simp [Unsent, sentKind?]

theorem Drawing.unsent {count : Nat} {result : Except MixFailure Secrets}
    (h : Drawing run count events result) : Unsent events := by
  cases h <;> simp [Unsent, sentKind?]

theorem Preparing.unsent {result : Except MixFailure Secrets}
    (h : Preparing run s events result s') : Unsent events := by
  cases h with
  | kept => simp [Unsent]
  | failed _ _ _ hdrawing => exact hdrawing.unsent
  | drawn _ _ _ hdrawing => exact hdrawing.unsent

end Unsent

/-!
## Chains of runs
-/

/-- Runs one after the other, while `left` more may follow the first one. -/
inductive Chain : (left : Nat) → Session → Option BeginRun →
    List Exchange → Except MixFailure Unit → Session → Prop
  | cancelled (left : Nat) (s : Session) (carried : Option BeginRun) :
      Chain left s carried [⟨.cancelled, true⟩] (.error .cancelled) s
  | confirmed {left : Nat} {s s' : Session} {carried : Option BeginRun} {events : List Exchange}
      (h : RunTrace s (UInt32.ofNat (lastRun - left)) carried events (.ok .confirmed) s') :
      Chain left s carried (⟨.cancelled, false⟩ :: events) (.ok ()) s'
  | failed {left : Nat} {s s' : Session} {carried : Option BeginRun} {events : List Exchange}
      {f : MixFailure}
      (h : RunTrace s (UInt32.ofNat (lastRun - left)) carried events (.error f) s') :
      Chain left s carried (⟨.cancelled, false⟩ :: events) (.error f) s'
  | exhausted {s s' : Session} {carried roster : Option BeginRun} {events : List Exchange}
      (h : RunTrace s (UInt32.ofNat lastRun) carried events (.ok (.rerun roster)) s') :
      Chain 0 s carried (⟨.cancelled, false⟩ :: events) (.error .runOverflow) s'
  | rerun {left : Nat} {s between s' : Session} {carried roster : Option BeginRun}
      {events rest : List Exchange} {result : Except MixFailure Unit}
      (h : RunTrace s (UInt32.ofNat (lastRun - (left + 1))) carried events (.ok (.rerun roster))
        between) (hrest : Chain left between roster rest result s') :
      Chain (left + 1) s carried (⟨.cancelled, false⟩ :: events ++ rest) result s'

theorem link_cases {run : UInt32} {carried : Option BeginRun} {next : Option BeginRun -> Act Unit}
    {s s' : Session} {events : List Exchange} {result : Except MixFailure Unit}
    (h : Act.Traces (do
      match ← performRun run carried with
      | .confirmed => return ()
      | .rerun roster => next roster) s events result s') :
    (RunTrace s run carried events (.ok .confirmed) s' ∧ result = .ok ()) ∨
    (exists f, RunTrace s run carried events (.error f) s' ∧ result = .error f) ∨
    exists before roster between after, RunTrace s run carried before (.ok (.rerun roster)) between ∧
      Act.Traces (next roster) between after result s' ∧ events = before ++ after := by
  rcases Act.traces_bind h with ⟨f, hrun, rfl⟩ | ⟨before, outcome, between, after, hrun, hrest, rfl⟩
  · exact .inr (.inl ⟨f, performRun_cases hrun, rfl⟩)
  · cases outcome with
    | confirmed =>
        rcases Act.traces_pure hrest with ⟨rfl, rfl, rfl⟩
        rw [List.append_nil]
        exact .inl ⟨performRun_cases hrun, rfl⟩
    | rerun roster =>
        exact .inr (.inr ⟨before, roster, between, after, performRun_cases hrun, hrest, rfl⟩)

theorem performRuns_cases {left : Nat} {carried : Option BeginRun} {s s' : Session}
    {events : List Exchange} {result : Except MixFailure Unit}
    (h : Act.Traces (performRuns left carried) s events result s') :
    Chain left s carried events result s' := by
  induction left generalizing carried s events with
  | zero =>
      unfold performRuns at h
      rcases Act.traces_unlessCancelled h with ⟨rfl, rfl, rfl⟩ | ⟨_, rfl, hlink⟩
      · exact .cancelled 0 s' carried
      rcases link_cases hlink with
        ⟨hrun, rfl⟩ | ⟨f, hrun, rfl⟩ | ⟨before, roster, between, after, hrun, hrest, rfl⟩
      · exact .confirmed hrun
      · exact .failed hrun
      · rcases Act.traces_throw hrest with ⟨rfl, rfl, rfl⟩
        rw [List.append_nil]
        exact .exhausted hrun
  | succ left ih =>
      unfold performRuns at h
      rcases Act.traces_unlessCancelled h with ⟨rfl, rfl, rfl⟩ | ⟨_, rfl, hlink⟩
      · exact .cancelled (left + 1) s' carried
      rcases link_cases hlink with
        ⟨hrun, rfl⟩ | ⟨f, hrun, rfl⟩ | ⟨before, roster, between, after, hrun, hrest, rfl⟩
      · exact .confirmed hrun
      · exact .failed hrun
      · exact .rerun hrun (ih hrest)

/-- What a session says, from its request to the end of the connection. -/
inductive Conversation (s : Session) : List Exchange → Except MixFailure Unit → Session → Prop
  | unread (e : PayloadError) :
      Conversation s [⟨.marshal, .error e⟩, ⟨.close, ()⟩] (.error (.payload e)) s
  | unsent (unmixed : Bytes) (fault : FrameError) :
      Conversation s
        [⟨.marshal, .ok unmixed⟩,
          ⟨.send .pairRequest (PairRequest.make s.identity s.commitment unmixed s.messageCount)
            s.settings.sendLimit, .error fault⟩,
          ⟨.close, ()⟩]
        (.error (.transport (.send .pairRequest fault))) s
  | ran (unmixed : Bytes) {events : List Exchange} {result : Except MixFailure Unit} {s' : Session}
      (h : Chain lastRun s none events result s') :
      Conversation s
        ([⟨.marshal, .ok unmixed⟩,
          ⟨.send .pairRequest (PairRequest.make s.identity s.commitment unmixed s.messageCount)
            s.settings.sendLimit, .ok ()⟩] ++ events ++ [⟨.close, ()⟩]) result s'

theorem conversation_of_traces {s s' : Session} {events : List Exchange}
    {result : Except MixFailure Unit} (h : Traces s.perform events (result, s')) :
    Conversation s events result s' := by
  rcases traces_bind h with ⟨before, ⟨mixed, t⟩, _, hmix, hrest, rfl⟩
  rcases traces_bind hrest with ⟨_, _, _, hclose, hpure, rfl⟩
  rcases traces_pure hpure with ⟨rfl, hpair⟩
  cases hpair
  rw [traces_question hclose, List.append_nil]
  have hact : Act.Traces mix s before result s' := hmix
  rcases Act.traces_question_bind hact with ⟨marshalled, _, rfl, hmarshalled⟩
  rcases Act.traces_check_bind hmarshalled with ⟨e, rfl, rfl, rfl, rfl⟩ | ⟨unmixed, rfl, hsend⟩
  · exact .unread e
  rcases Act.send_bind_cases (Act.traces_get_bind hsend) with
    ⟨fault, rfl, rfl, rfl⟩ | ⟨_, rfl, hruns⟩
  · exact .unsent unmixed fault
  · exact .ran unmixed (performRuns_cases hruns)

end Session
end PeerMix
