import PeerMix.Proofs.Session.Ledger
import PeerMix.Proofs.Session.LonePeer

/-!
# The life of secrets

A session draws secrets when it has none, when the last ones have been given
away and when the last draw has failed, and at no other time.  Everything else
that it says goes by the last draw that has been completed.
-/

namespace PeerMix
namespace Session

open Wire DcNet Dialogue

/-!
## Sessions and their calls
-/

/-- Calls of a session one after the other: all that is said in them and what
remains of the session. -/
inductive Calls (s : Session) : List Exchange → Session → Prop
  | none : Calls s [] s
  | more {past events : List Exchange} {between s' : Session} {result : Except MixFailure Unit}
      (h : Calls s past between) (hlast : Traces between.perform events (result, s')) :
      Calls s (past ++ events) s'

/-- A run starts after these exchanges, and `left` more may follow it. -/
inductive Starts (s : Session) : List Exchange → Session → Nat → Option BeginRun → Prop
  | first {past : List Exchange} {t : Session} (h : Calls s past t) (unmixed : Bytes) :
      Starts s
        (past ++ [⟨.marshal, .ok unmixed⟩,
          ⟨.send .pairRequest (PairRequest.make t.identity t.commitment unmixed t.messageCount)
            t.settings.sendLimit, .ok ()⟩,
          ⟨.cancelled, false⟩])
        t lastRun none
  | next {past events : List Exchange} {t t' : Session} {left : Nat}
      {carried roster : Option BeginRun} (h : Starts s past t (left + 1) carried)
      (hrun : Act.Traces (performRun (UInt32.ofNat (lastRun - (left + 1))) carried) t events
        (.ok (.rerun roster)) t') :
      Starts s (past ++ events ++ [⟨.cancelled, false⟩]) t' left roster

/-!
## What goes by a draw
-/

/-- The keys of the run that a draw was made for.  Later runs have these as well,
but for the stream of their encapsulations. -/
def drawnKeys (count : Nat) (secrets : Secrets) : RunKeys :=
  RunKeys.derive secrets.seed secrets.seedRun secrets.seedRun count

theorem keysFor_reservations (s : Session) (run : UInt32) (secrets : Secrets) :
    (keysFor s run secrets).reservations = (drawnKeys s.messageCount.toNat secrets).reservations :=
  rfl

/-- The key exchange shows the keys of a draw. -/
def Shows (count : Nat) (secrets : Secrets) (ke : KeyExchange) : Prop :=
  ke.ecdh = (drawnKeys count secrets).key.point ∧
    ke.pqpk = (drawnKeys count secrets).key.encapsulationKey

/-- The secrets for `run` are those of the last completed draw, which was made
for the run of the first key exchange after it. -/
structure LastDraw (count : Nat) (l : Ledger) (run : UInt32) (secrets : Secrets) : Prop where
  completed : l.completed = some (secrets.seed, secrets.messages)
  seedRun : secrets.seedRun = (l.shown.head?.map (·.run)).getD run
  shown : forall ke, ke ∈ l.shown -> Shows count secrets ke

/-- What may be said by a session with `count` messages after the past. -/
def Lawful (count : Nat) (past : List Exchange) : Exchange -> Prop
  | ⟨.draw n, _⟩ => n = 32 ∧ (ledger count past).Due
  | ⟨.generate, _⟩ => exists before seed, past = before ++ [⟨.draw 32, .ok seed⟩]
  | ⟨.send .keyExchange ke _, _⟩ =>
      ¬(ledger count past).Due ∧ exists secrets,
        LastDraw count (ledger count past) ke.run secrets ∧ Shows count secrets ke
  | ⟨.send .revealSecrets rs _, _⟩ =>
      exists secrets, (forall run, LastDraw count (ledger count past) run secrets) ∧
        rs = revelation secrets (drawnKeys count secrets)
  | _ => True

def Everywhere (law : List Exchange -> Exchange -> Prop) (past : List Exchange) :
    List Exchange -> Prop
  | [] => True
  | e :: events => law past e ∧ Everywhere law (past ++ [e]) events

section Everywhere

variable {law : List Exchange -> Exchange -> Prop} {past : List Exchange}

theorem Everywhere.append {first last : List Exchange} (hfirst : Everywhere law past first)
    (hlast : Everywhere law (past ++ first) last) : Everywhere law past (first ++ last) := by
  induction first generalizing past with
  | nil =>
      rw [List.append_nil] at hlast
      exact hlast
  | cons e first ih =>
      constructor
      · exact hfirst.left
      · apply ih hfirst.right
        rw [List.append_assoc]
        exact hlast

theorem Everywhere.at {before after : List Exchange} {e : Exchange}
    (h : Everywhere law past (before ++ e :: after)) : law (past ++ before) e := by
  induction before generalizing past with
  | nil =>
      rw [List.append_nil]
      exact h.left
  | cons other before ih =>
      have hrest := ih h.right
      rw [List.append_assoc] at hrest
      exact hrest

theorem lawful_idle {count : Nat} {e : Exchange} (h : concernsSecrets e.question = false) :
    Lawful count past e := by
  rcases e with ⟨question, answer⟩
  cases question with
  | draw => cases h
  | generate => cases h
  | send kind m limit =>
      cases kind with
      | keyExchange => cases h
      | revealSecrets => cases h
      | _ => trivial
  | _ => trivial

theorem everywhere_idle {count : Nat} {events : List Exchange} (h : Idle events) :
    Everywhere (Lawful count) past events := by
  induction events generalizing past with
  | nil => trivial
  | cons e events ih =>
      constructor
      · exact lawful_idle (h e List.mem_cons_self)
      · exact ih fun other hother => h other (List.mem_cons_of_mem e hother)

end Everywhere

/-!
## Idle exchanges
-/

section Idle

variable {s : RunSetting} {keys : RunKeys} {messages : List Bytes} {commitment : Bytes}
  {events : List Exchange}

theorem idle_cancelled (cancelled : Bool) : Idle [⟨.cancelled, cancelled⟩] := by
  simp [Idle, concernsSecrets]

theorem idle_requested (s : Session) (unmixed : Bytes) :
    Idle [⟨.marshal, .ok unmixed⟩, ⟨.send .pairRequest (PairRequest.make s.identity s.commitment
      unmixed s.messageCount) s.settings.sendLimit, .ok ()⟩] := by
  simp [Idle, concernsSecrets]

theorem Announced.idle {carried : Option BeginRun} {br : BeginRun}
    (h : Announced carried events br) : Idle events := by
  cases h <;> simp [Idle, concernsSecrets]

theorem Turn.starts {kind answerKind : Kind} {m : kind.Message} [Reply answerKind.Message]
    {result : Except Departure answerKind.Message} (h : Turn s kind m answerKind events result) :
    exists answer rest, events = ⟨.send kind m s.settings.sendLimit, answer⟩ :: rest ∧
      Idle rest := by
  cases h <;> exact ⟨_, _, rfl, by simp [Idle, received, concernsSecrets]⟩

theorem Turn.idle {kind answerKind : Kind} {m : kind.Message} [Reply answerKind.Message]
    {result : Except Departure answerKind.Message} (h : Turn s kind m answerKind events result)
    (hkind : concernsSecrets (.send kind m s.settings.sendLimit) = false) : Idle events := by
  rcases h.starts with ⟨answer, rest, rfl, hrest⟩
  intro e he
  rcases List.mem_cons.mp he with rfl | he
  · exact hkind
  · exact hrest e he

theorem Ends.idle {α : Type} {kind : Kind} {m : kind.Message} {answerKind : Kind}
    [Reply answerKind.Message] {accept : answerKind.Message -> Except Departure α}
    {result : Except Departure α} (h : Ends s kind m answerKind accept events result)
    (hkind : concernsSecrets (.send kind m s.settings.sendLimit) = false) : Idle events := by
  rcases h with ⟨_, hturn, _⟩
  exact hturn.idle hkind

theorem Confirmation.idle {mix : Bytes} {result : Except Departure Unit}
    (h : Confirmation s mix events result) : Idle events := by
  cases h with
  | unreadable => simp [Idle, concernsSecrets]
  | unconfirmed => simp [Idle, concernsSecrets]
  | unwritten => simp [Idle, concernsSecrets]
  | left confirmed events d hturn =>
      refine Idle.append ?_ (hturn.idle rfl)
      simp [Idle, concernsSecrets]
  | ended confirmed events answer hturn taken =>
      refine Idle.append (Idle.append ?_ (hturn.idle rfl)) ?_
      · simp [Idle, concernsSecrets]
      · simp [Idle, concernsSecrets]

/-- The exchanges begin with a key exchange and say nothing more about secrets. -/
def ShowsKeys (s : RunSetting) (keys : RunKeys) (commitment : Bytes) (events : List Exchange) :
    Prop :=
  exists answer rest,
    events = ⟨.send .keyExchange (ownKeys s keys commitment) s.settings.sendLimit, answer⟩ :: rest ∧
      Idle rest

theorem ShowsKeys.append {first last : List Exchange} (h : ShowsKeys s keys commitment first)
    (hlast : Idle last) : ShowsKeys s keys commitment (first ++ last) := by
  rcases h with ⟨answer, rest, rfl, hrest⟩
  exact ⟨answer, rest ++ last, rfl, hrest.append hlast⟩

theorem EndsKeys.showsKeys {result : Except Departure (List Bytes × List Bytes)}
    (h : EndsKeys s keys commitment events result) : ShowsKeys s keys commitment events := by
  rcases h with ⟨_, hturn, _⟩
  exact hturn.starts

theorem PadsKnown.showsKeys {rows : List (List PadKey)}
    (h : PadsKnown s keys commitment events rows) : ShowsKeys s keys commitment events := by
  rcases h with ⟨first, last, _, _, _, hkeys, _, hciphertexts, rfl⟩
  exact hkeys.showsKeys.append (Ends.idle hciphertexts rfl)

theorem SlotsKnown.showsKeys {rows : List (List PadKey)} {slots : List Nat}
    (h : SlotsKnown s keys commitment events rows slots) : ShowsKeys s keys commitment events := by
  rcases h with ⟨first, last, hpads, hslots, rfl⟩
  exact hpads.showsKeys.append (Ends.idle hslots rfl)

theorem MixKnown.showsKeys {mix : Bytes} (h : MixKnown s keys messages commitment events mix) :
    ShowsKeys s keys commitment events := by
  rcases h with ⟨first, last, _, _, _, hslots, _, hmix, rfl⟩
  exact hslots.showsKeys.append (Ends.idle hmix rfl)

theorem Walk.showsKeys {result : Except Departure Unit}
    (h : Walk s keys messages commitment events result) : ShowsKeys s keys commitment events := by
  cases h with
  | keys h => exact h.showsKeys
  | unsealed h => exact h.showsKeys
  | ciphertexts h hmade hlast => exact h.showsKeys.append (Ends.idle hlast rfl)
  | slots h hlast => exact h.showsKeys.append (Ends.idle hlast rfl)
  | uncovered h => exact h.showsKeys
  | messages h hvectors hlast => exact h.showsKeys.append (Ends.idle hlast rfl)
  | confirmation h hlast => exact h.showsKeys.append hlast.idle

end Idle

/-!
## What a session remembers
-/

/-- Between runs: the session draws anew exactly if that is due, and otherwise
its secrets are those of the last completed draw. -/
structure Matches (count : Nat) (s : Session) (l : Ledger) : Prop where
  counted : s.messageCount.toNat = count
  settled : l.pending = none
  due : l.Due ↔ s.secrets = none ∨ s.drawsAnew = true
  kept : forall secrets, s.secrets = some secrets -> s.drawsAnew = false ->
    forall run, LastDraw count l run secrets

/-- In a run whose secrets are prepared. -/
structure Ready (count : Nat) (run : UInt32) (secrets : Secrets) (s : Session) (l : Ledger) :
    Prop where
  counted : s.messageCount.toNat = count
  settled : l.pending = none
  undue : ¬l.Due
  last : LastDraw count l run secrets
  kept : s.secrets = some secrets
  unknown : s.drawsAnew = false

section Runs

variable {count : Nat} {s s' : Session} {run : UInt32} {carried : Option BeginRun}
  {secrets : Secrets} {events past : List Exchange}

theorem Matches.ledger_idle (h : Matches count s (ledger count past)) (hidle : Idle events) :
    ledger count (past ++ events) = ledger count past := by
  rw [ledger_append, Ledger.record_idle hidle h.settled]

theorem Matches.idle (h : Matches count s (ledger count past)) (hidle : Idle events) :
    Matches count s (ledger count (past ++ events)) := by
  rw [h.ledger_idle hidle]
  exact h

theorem Matches.withRoster {l : Ledger} (h : Matches count s l) (roster : Roster) :
    Matches count (withRoster s roster) l :=
  ⟨h.counted, h.settled, h.due, h.kept⟩

/-- A session has no secrets before its first run. -/
theorem secrets_of_create {σ : Type} {draw : Draw σ} {source : σ} {commitment : Bytes}
    {messageCount : UInt32} {settings : Settings}
    (h : (Session.create draw source commitment messageCount settings).1 = .ok s) :
    s.secrets = none := by
  unfold Session.create at h
  split at h
  · cases h
  · split at h
    · cases h
    · cases h
      rfl

theorem matches_of_create {σ : Type} {draw : Draw σ} {source : σ} {commitment : Bytes}
    {messageCount : UInt32} {settings : Settings}
    (h : (Session.create draw source commitment messageCount settings).1 = .ok s) :
    Matches s.messageCount.toNat s (ledger s.messageCount.toNat []) := by
  have hfresh : s.secrets = none := secrets_of_create h
  constructor
  case counted => rfl
  case settled => rfl
  case due => exact ⟨fun _ => .inl hfresh, fun _ => .inl rfl⟩
  case kept =>
    intro secrets hsecrets
    cases hfresh.symm.trans hsecrets

/-!
### Preparing secrets
-/

theorem generate_rejected {l : Ledger} {messages : List Bytes} {f : MixFailure}
    (h : checkMessages count messages = .error f) :
    l.generate count (.ok messages) = l.settle := by
  unfold Ledger.generate
  dsimp only
  rw [h]
  cases l.pending <;> rfl

theorem generate_completed {l : Ledger} {seed : Bytes} {messages : List Bytes}
    (hseed : l.pending = some seed) (h : checkMessages count messages = .ok ()) :
    l.generate count (.ok messages) = l.complete seed messages := by
  unfold Ledger.generate
  dsimp only
  rw [h, hseed]

theorem Drawing.lawful {result : Except MixFailure Secrets} (h : Drawing run count events result)
    (hdue : (ledger count past).Due) : Everywhere (Lawful count) past events := by
  cases h with
  | undrawn => exact ⟨⟨rfl, hdue⟩, trivial⟩
  | ungenerated seed => exact ⟨⟨rfl, hdue⟩, ⟨past, seed, rfl⟩, trivial⟩
  | rejected seed => exact ⟨⟨rfl, hdue⟩, ⟨past, seed, rfl⟩, trivial⟩
  | drawn seed => exact ⟨⟨rfl, hdue⟩, ⟨past, seed, rfl⟩, trivial⟩

theorem Drawing.failed {f : MixFailure} {l : Ledger} (h : Drawing run count events (.error f)) :
    (l.record count events).pending = none ∧ (l.record count events).failed = true := by
  generalize hresult : Except.error f = result at h
  cases h with
  | undrawn => exact ⟨rfl, rfl⟩
  | ungenerated => exact ⟨rfl, rfl⟩
  | rejected seed messages f hcheck =>
      have hrecord : l.record count [⟨.draw 32, .ok seed⟩, ⟨.generate, .ok messages⟩] =
          (l.draw (some seed)).settle := generate_rejected hcheck
      rw [hrecord]
      exact ⟨rfl, rfl⟩
  | drawn => cases hresult

theorem Drawing.completed {l : Ledger} (h : Drawing run count events (.ok secrets)) :
    l.record count events = l.complete secrets.seed secrets.messages ∧ secrets.seedRun = run := by
  generalize hresult : Except.ok secrets = result at h
  cases h with
  | undrawn => cases hresult
  | ungenerated => cases hresult
  | rejected => cases hresult
  | drawn seed messages hcheck =>
      cases hresult
      have hrecord : l.record count [⟨.draw 32, .ok seed⟩, ⟨.generate, .ok messages⟩] =
          (l.draw (some seed)).complete seed messages := generate_completed rfl hcheck
      rw [hrecord]
      exact ⟨rfl, rfl⟩

theorem Preparing.lawful {result : Except MixFailure Secrets}
    (h : Preparing run s events result s') (hs : Matches count s (ledger count past)) :
    Everywhere (Lawful count) past events := by
  cases h with
  | kept => trivial
  | failed _ f hneeded hdrawing =>
      rw [hs.counted] at hdrawing
      exact hdrawing.lawful (hs.due.mpr hneeded)
  | drawn _ secrets hneeded hdrawing =>
      rw [hs.counted] at hdrawing
      exact hdrawing.lawful (hs.due.mpr hneeded)

theorem Preparing.unprepared {f : MixFailure} (h : Preparing run s events (.error f) s')
    (hs : Matches count s (ledger count past)) :
    Matches count s' (ledger count (past ++ events)) := by
  cases h with
  | failed _ _ _ hdrawing =>
      rw [hs.counted] at hdrawing
      rcases hdrawing.failed (l := ledger count past) with ⟨hpending, hfailed⟩
      rw [← ledger_append] at hpending hfailed
      exact ⟨hs.counted, hpending, ⟨fun _ => .inl rfl, fun _ => .inr (.inr hfailed)⟩, nofun⟩

theorem Preparing.ready (h : Preparing run s events (.ok secrets) s')
    (hs : Matches count s (ledger count past)) :
    Ready count run secrets s' (ledger count (past ++ events)) := by
  cases h with
  | kept secrets hsecrets hkept =>
      rw [List.append_nil]
      have hundue : ¬(ledger count past).Due := by
        rw [hs.due, hsecrets, hkept]
        simp
      exact ⟨hs.counted, hs.settled, hundue, hs.kept _ hsecrets hkept run, rfl, rfl⟩
  | drawn _ _ _ hdrawing =>
      rw [hs.counted] at hdrawing
      rcases hdrawing.completed (l := ledger count past) with ⟨hrecord, hrun⟩
      rw [ledger_append, hrecord]
      constructor
      case counted => exact hs.counted
      case settled => rfl
      case undue => exact nofun
      case last => exact ⟨rfl, hrun, nofun⟩
      case kept => rfl
      case unknown => rfl

/-!
### Walking and settling
-/

theorem LastDraw.publish {l : Ledger} {ke : KeyExchange} (h : LastDraw count l run secrets)
    (hrun : ke.run = run) (hke : Shows count secrets ke) (other : UInt32) :
    LastDraw count (l.publish ke) other secrets := by
  constructor
  case completed => exact h.completed
  case seedRun =>
    have hseedRun := h.seedRun
    cases hshown : l.shown with
    | nil =>
        rw [hshown] at hseedRun
        simp [Ledger.publish, hshown, hrun, hseedRun]
    | cons first rest =>
        rw [hshown] at hseedRun
        simp [Ledger.publish, hshown, hseedRun]
  case shown =>
    intro other hother
    rcases List.mem_append.mp hother with hother | hother
    · exact h.shown other hother
    · rw [List.mem_singleton.mp hother]
      exact hke

theorem Ready.publish {l : Ledger} {ke : KeyExchange} (h : Ready count run secrets s l)
    (hrun : ke.run = run) (hke : Shows count secrets ke) : Matches count s (l.publish ke) := by
  constructor
  case counted => exact h.counted
  case settled => rfl
  case due =>
    have hundue : ¬(l.publish ke).Due := h.undue
    simp [hundue, h.kept, h.unknown]
  case kept =>
    intro other hother _hkept
    cases h.kept.symm.trans hother
    exact h.last.publish hrun hke

theorem shows_ownKeys (t : Session) (run : UInt32) (roster : Roster) (secrets : Secrets)
    (commitment : Bytes) :
    Shows t.messageCount.toNat secrets
      (ownKeys (settingOf t run roster) (keysFor t run secrets) commitment) :=
  ⟨rfl, rfl⟩

/-- Whoever shows the keys of prepared secrets goes by the last draw and still does
afterwards. -/
theorem ShowsKeys.lawful {t : Session} {roster : Roster} {commitment : Bytes}
    (h : ShowsKeys (settingOf t run roster) (keysFor t run secrets) commitment events)
    (ht : t.messageCount.toNat = count) (hs : Ready count run secrets s (ledger count past)) :
    Everywhere (Lawful count) past events ∧ Matches count s (ledger count (past ++ events)) := by
  subst ht
  -- Only the first exchange says anything about secrets.
  rcases h with ⟨answer, rest, rfl, hrest⟩
  generalize hke : ownKeys (settingOf t run roster) (keysFor t run secrets) _ = ke
  have hrun : ke.run = run := by
    rw [← hke]
    rfl
  have hshows : Shows t.messageCount.toNat secrets ke := by
    rw [← hke]
    exact shows_ownKeys t run roster secrets _
  have hpublished : Matches t.messageCount.toNat s (ledger t.messageCount.toNat
      (past ++ [⟨.send .keyExchange ke (settingOf t run roster).settings.sendLimit, answer⟩])) := by
    rw [ledger_append]
    exact hs.publish hrun hshows
  constructor
  · refine ⟨⟨hs.undue, secrets, ?_, hshows⟩, everywhere_idle hrest⟩
    rw [hrun]
    exact hs.last
  · rw [List.append_cons]
    exact hpublished.idle hrest

theorem LastDraw.reveal {l : Ledger} (h : LastDraw count l run secrets) :
    LastDraw count l.reveal run secrets :=
  ⟨h.completed, h.seedRun, h.shown⟩

theorem Matches.reveal {l : Ledger} (h : Matches count s l) :
    Matches count { s with drawsAnew := true } l.reveal := by
  constructor
  case counted => exact h.counted
  case settled => rfl
  case due => exact ⟨fun _ => .inr rfl, fun _ => .inr (.inl rfl)⟩
  case kept => exact fun _ _ hkept => nomatch hkept

theorem Revealing.lawful {blame : Blame} {rs : RevealSecrets} {result : Except MixFailure Unit}
    (h : Revealing s rs blame events result s') (hs : Matches count s (ledger count past))
    (hrs : rs = revelation secrets (drawnKeys count secrets))
    (hlast : forall run, LastDraw count (ledger count past) run secrets) :
    Everywhere (Lawful count) past events ∧ Matches count s' (ledger count (past ++ events)) := by
  have hunchanged : ledger count (past ++ [⟨.cancelled, false⟩]) = ledger count past :=
    hs.ledger_idle (idle_cancelled false)
  cases h with
  | cancelled => exact ⟨everywhere_idle (idle_cancelled true), hs.idle (idle_cancelled true)⟩
  | asked answer =>
      constructor
      · refine ⟨trivial, ⟨secrets, ?_, hrs⟩, trivial⟩
        rw [hunchanged]
        exact hlast
      · rw [List.append_cons, ledger_append, hunchanged]
        exact hs.reveal
  | unannounced fault =>
      refine ⟨⟨trivial, trivial, trivial⟩, ?_⟩
      rw [List.append_cons, ledger_append, hunchanged]
      exact hs.reveal
  | announced answer =>
      constructor
      · refine ⟨trivial, trivial, ⟨secrets, ?_, hrs⟩, trivial⟩
        rw [ledger_append, hunchanged]
        exact fun run => (hlast run).reveal
      · rw [List.append_cons, ledger_append, hunchanged]
        exact hs.reveal.reveal

theorem Settled.lawful {t : Session} {walk : Except Departure Unit}
    {result : Except MixFailure Outcome}
    (h : Settled s (revelation secrets (keysFor t run secrets)) walk events result s')
    (ht : t.messageCount.toNat = count) (hs : Matches count s (ledger count past))
    (hlast : forall run, LastDraw count (ledger count past) run secrets) :
    Everywhere (Lawful count) past events ∧ Matches count s' (ledger count (past ++ events)) := by
  have hrs : revelation secrets (keysFor t run secrets) =
      revelation secrets (drawnKeys count secrets) := by
    rw [← ht]
    rfl
  cases h with
  | confirmed => exact ⟨trivial, hs.idle idle_nil⟩
  | failed => exact ⟨trivial, hs.idle idle_nil⟩
  | replaced => exact ⟨trivial, hs.idle idle_nil⟩
  | unrevealed h => exact h.lawful hs hrs hlast
  | revealed h => exact h.lawful hs hrs hlast

/-!
### Runs and calls
-/

theorem Accepted.lawful {roster : Roster} {result : Except MixFailure Outcome}
    (h : Accepted s run roster events result s') (hs : Matches count s (ledger count past)) :
    Everywhere (Lawful count) past events ∧ Matches count s' (ledger count (past ++ events)) := by
  have hopened := hs.withRoster roster
  cases h with
  | unprepared hprepared => exact ⟨hprepared.lawful hopened, hprepared.unprepared hopened⟩
  | walked hprepared hwalk hsettled =>
      have hready := hprepared.ready hopened
      rcases hwalk.showsKeys.lawful hs.counted hready with ⟨hwalking, hwalked⟩
      have hlast := hwalked.kept _ hready.kept hready.unknown
      rcases hsettled.lawful hs.counted hwalked hlast with ⟨hclosing, hclosed⟩
      constructor
      · refine ((hprepared.lawful hopened).append hwalking).append ?_
        rw [← List.append_assoc]
        exact hclosing
      · rw [← List.append_assoc, ← List.append_assoc]
        exact hclosed

theorem RunTrace.lawful {result : Except MixFailure Outcome}
    (h : RunTrace s run carried events result s') (hs : Matches count s (ledger count past)) :
    Everywhere (Lawful count) past events ∧ Matches count s' (ledger count (past ++ events)) := by
  have haccepted {opening made : List Exchange} {br : BeginRun} {roster : Roster}
      (hannounced : Announced carried opening br) (hmade : Accepted s run roster made result s') :
      Everywhere (Lawful count) past (opening ++ made) ∧
        Matches count s' (ledger count (past ++ (opening ++ made))) := by
    rcases hmade.lawful (hs.idle hannounced.idle) with ⟨hlawful, hmatches⟩
    rw [← List.append_assoc]
    exact ⟨(everywhere_idle hannounced.idle).append hlawful, hmatches⟩
  cases h with
  | unannounced limit answer =>
      have hidle : Idle [⟨.awaitRoster limit, answer⟩] := by simp [Idle, concernsSecrets]
      exact ⟨everywhere_idle hidle, hs.idle hidle⟩
  | rejected hannounced => exact ⟨everywhere_idle hannounced.idle, hs.idle hannounced.idle⟩
  | unprepared hannounced _ hprepared => exact haccepted hannounced (.unprepared hprepared)
  | walked hannounced _ hprepared hwalk hsettled =>
      have hboth := haccepted hannounced (.walked hprepared hwalk hsettled)
      rw [← List.append_assoc, ← List.append_assoc] at hboth
      exact hboth

theorem RunTrace.lawful_uncancelled {result : Except MixFailure Outcome}
    (h : RunTrace s run carried events result s') (hs : Matches count s (ledger count past)) :
    Everywhere (Lawful count) past (⟨.cancelled, false⟩ :: events) ∧
      Matches count s' (ledger count (past ++ ⟨.cancelled, false⟩ :: events)) := by
  rcases h.lawful (hs.idle (idle_cancelled false)) with ⟨hlawful, hmatches⟩
  rw [List.append_cons]
  exact ⟨⟨trivial, hlawful⟩, hmatches⟩

theorem Chain.lawful {left : Nat} {result : Except MixFailure Unit}
    (h : Chain left s carried events result s') (hs : Matches count s (ledger count past)) :
    Everywhere (Lawful count) past events ∧ Matches count s' (ledger count (past ++ events)) := by
  -- Each run takes over the session and the ledger that match after the one before.
  induction h generalizing past with
  | cancelled => exact ⟨everywhere_idle (idle_cancelled true), hs.idle (idle_cancelled true)⟩
  | confirmed h => exact h.lawful_uncancelled hs
  | failed h => exact h.lawful_uncancelled hs
  | exhausted h => exact h.lawful_uncancelled hs
  | rerun h _ ih =>
      rcases h.lawful_uncancelled hs with ⟨hfirst, hbetween⟩
      rcases ih hbetween with ⟨hlast, hmatches⟩
      refine ⟨hfirst.append hlast, ?_⟩
      rw [← List.append_assoc]
      exact hmatches

theorem Conversation.lawful {result : Except MixFailure Unit}
    (h : Conversation s events result s') (hs : Matches count s (ledger count past)) :
    Everywhere (Lawful count) past events ∧ Matches count s' (ledger count (past ++ events)) := by
  cases h with
  | unread e =>
      have hidle : Idle [⟨.marshal, .error e⟩, ⟨.close, ()⟩] := by simp [Idle, concernsSecrets]
      exact ⟨everywhere_idle hidle, hs.idle hidle⟩
  | unsent unmixed fault =>
      have hidle : Idle [⟨.marshal, .ok unmixed⟩, ⟨.send .pairRequest (PairRequest.make s.identity
          s.commitment unmixed s.messageCount) s.settings.sendLimit, .error fault⟩,
          ⟨.close, ()⟩] := by
        simp [Idle, concernsSecrets]
      exact ⟨everywhere_idle hidle, hs.idle hidle⟩
  | ran unmixed hchain =>
      have hrequested := idle_requested s unmixed
      have hclosed : Idle [⟨.close, ()⟩] := by simp [Idle, concernsSecrets]
      rcases hchain.lawful (hs.idle hrequested) with ⟨hlawful, hmatches⟩
      constructor
      · exact ((everywhere_idle hrequested).append hlawful).append (everywhere_idle hclosed)
      · rw [← List.append_assoc, ← List.append_assoc]
        exact hmatches.idle hclosed

theorem Calls.lawful (h : Calls s events s')
    (hs : Matches count s (ledger count [])) :
    Everywhere (Lawful count) [] events ∧ Matches count s' (ledger count events) := by
  induction h with
  | none => exact ⟨trivial, hs⟩
  | more h hlast ih =>
      rcases ih with ⟨hpast, hbetween⟩
      rcases (conversation_of_traces hlast).lawful hbetween with ⟨hlawful, hmatches⟩
      exact ⟨hpast.append hlawful, hmatches⟩

theorem Starts.matches {t : Session} {left : Nat} (h : Starts s past t left carried)
    (hs : Matches count s (ledger count [])) : Matches count t (ledger count past) := by
  induction h with
  | first h unmixed =>
      rcases h.lawful hs with ⟨_, hmatches⟩
      apply hmatches.idle
      simp [Idle, concernsSecrets]
  | next h hrun ih =>
      rcases (performRun_cases hrun).lawful ih with ⟨_, hmatches⟩
      exact hmatches.idle (idle_cancelled false)

end Runs

/-!
## Runs that get as far as their secrets
-/

/-- One draw is tried; if it gives a seed, messages are asked for. -/
inductive DrawsOnce : List Exchange → Prop
  | undrawn (reason : String) : DrawsOnce [⟨.draw 32, .error reason⟩]
  | drawn (seed : Bytes) (generated : Except PayloadError (List Bytes)) :
      DrawsOnce [⟨.draw 32, .ok seed⟩, ⟨.generate, generated⟩]

def Undrawn (events : List Exchange) : Prop :=
  forall e, e ∈ events -> e.question ≠ .generate ∧ forall n, e.question ≠ .draw n

/-- A run draws exactly if that is due, and goes through its stages with the
secrets of the last completed draw. -/
structure Proceeds (s : Session) (past : List Exchange) (run : UInt32) (roster : Roster)
    (drawing later : List Exchange) : Prop where
  drawn : (ledger s.messageCount.toNat past).Due -> DrawsOnce drawing
  kept : ¬(ledger s.messageCount.toNat past).Due -> drawing = []
  undrawn : Undrawn later
  stopped : (ledger s.messageCount.toNat (past ++ drawing)).Due -> later = []
  walked : ¬(ledger s.messageCount.toNat (past ++ drawing)).Due ->
    exists secrets walking closing walk,
      LastDraw s.messageCount.toNat (ledger s.messageCount.toNat (past ++ drawing)) run secrets ∧
        (keysFor s run secrets).reservations =
          (drawnKeys s.messageCount.toNat secrets).reservations ∧
        Walk (settingOf s run roster) (keysFor s run secrets) secrets.messages
          ((revelation secrets (keysFor s run secrets)).commitment (settingOf s run roster).scope)
          walking walk ∧
        later = walking ++ closing

section Proceeds

variable {s s' : Session} {run : UInt32} {roster : Roster} {secrets : Secrets}
  {events past : List Exchange}

theorem Idle.undrawn (h : Idle events) : Undrawn events := by
  intro e he
  have hidle := h e he
  constructor
  · intro hgenerate
    rw [hgenerate] at hidle
    cases hidle
  · intro n hdraw
    rw [hdraw] at hidle
    cases hidle

theorem Undrawn.append {first last : List Exchange} (hfirst : Undrawn first)
    (hlast : Undrawn last) : Undrawn (first ++ last) := by
  intro e he
  rcases List.mem_append.mp he with he | he
  · exact hfirst e he
  · exact hlast e he

theorem ShowsKeys.undrawn {setting : RunSetting} {keys : RunKeys} {commitment : Bytes}
    (h : ShowsKeys setting keys commitment events) : Undrawn events := by
  rcases h with ⟨answer, rest, rfl, hrest⟩
  intro e he
  rcases List.mem_cons.mp he with rfl | he
  · exact ⟨nofun, fun _ => nofun⟩
  · exact hrest.undrawn e he

theorem Revealing.undrawn {rs : RevealSecrets} {blame : Blame} {result : Except MixFailure Unit}
    (h : Revealing s rs blame events result s') : Undrawn events := by
  cases h <;> simp [Undrawn]

theorem Settled.undrawn {rs : RevealSecrets} {walk : Except Departure Unit}
    {result : Except MixFailure Outcome} (h : Settled s rs walk events result s') :
    Undrawn events := by
  cases h with
  | confirmed => exact idle_nil.undrawn
  | failed => exact idle_nil.undrawn
  | replaced => exact idle_nil.undrawn
  | unrevealed h => exact h.undrawn
  | revealed h => exact h.undrawn

theorem Drawing.drawsOnce {count : Nat} {result : Except MixFailure Secrets}
    (h : Drawing run count events result) : DrawsOnce events := by
  cases h with
  | undrawn reason => exact .undrawn reason
  | ungenerated seed e => exact .drawn seed (.error e)
  | rejected seed messages => exact .drawn seed (.ok messages)
  | drawn seed messages => exact .drawn seed (.ok messages)

theorem Preparing.draws {result : Except MixFailure Secrets}
    (h : Preparing run s events result s') :
    ((s.secrets = none ∨ s.drawsAnew = true) ∧ DrawsOnce events) ∨
      (¬(s.secrets = none ∨ s.drawsAnew = true) ∧ events = []) := by
  cases h with
  | kept secrets hsecrets hkept => exact .inr ⟨by simp [hsecrets, hkept], rfl⟩
  | failed _ f hneeded hdrawing => exact .inl ⟨hneeded, hdrawing.drawsOnce⟩
  | drawn _ secrets hneeded hdrawing => exact .inl ⟨hneeded, hdrawing.drawsOnce⟩

theorem Accepted.proceeds {result : Except MixFailure Outcome}
    (h : Accepted s run roster events result s')
    (hs : Matches s.messageCount.toNat s (ledger s.messageCount.toNat past)) :
    exists drawing later, events = drawing ++ later ∧ Proceeds s past run roster drawing later := by
  have hopened := hs.withRoster roster
  have hdrawn {drawing : List Exchange} {prepared : Except MixFailure Secrets} {t : Session}
      (hprepared : Preparing run (withRoster s roster) drawing prepared t)
      (hdue : (ledger s.messageCount.toNat past).Due) : DrawsOnce drawing := by
    -- `Matches` turns what the ledger calls due into what the session goes by.
    rcases hprepared.draws with ⟨_, honce⟩ | ⟨hkept, _⟩
    · exact honce
    · exact absurd (hopened.due.mp hdue) hkept
  have hkept {drawing : List Exchange} {prepared : Except MixFailure Secrets} {t : Session}
      (hprepared : Preparing run (withRoster s roster) drawing prepared t)
      (hundue : ¬(ledger s.messageCount.toNat past).Due) : drawing = [] := by
    rcases hprepared.draws with ⟨hneeded, _⟩ | ⟨_, hnone⟩
    · exact absurd (hopened.due.mpr hneeded) hundue
    · exact hnone
  cases h with
  | unprepared hprepared =>
      refine ⟨events, [], (List.append_nil events).symm, ?_⟩
      constructor
      case drawn => exact hdrawn hprepared
      case kept => exact hkept hprepared
      case undrawn => exact idle_nil.undrawn
      case stopped => exact fun _ => rfl
      case walked =>
        intro hundue
        have hunprepared := hprepared.unprepared hopened
        cases hprepared with
        | failed => exact absurd (hunprepared.due.mpr (.inl rfl)) hundue
  | @walked preparing walking closing secrets between _ walk _ hprepared hwalk hsettled =>
      have hready := hprepared.ready hopened
      refine ⟨preparing, walking ++ closing, List.append_assoc _ _ _, ?_⟩
      constructor
      case drawn => exact hdrawn hprepared
      case kept => exact hkept hprepared
      case undrawn => exact hwalk.showsKeys.undrawn.append hsettled.undrawn
      case stopped => exact fun hdue => absurd hdue hready.undue
      case walked =>
        intro _hundue
        exact ⟨secrets, walking, closing, walk, hready.last, keysFor_reservations s run secrets,
          hwalk, rfl⟩

/-- What follows the roster of a run does not depend on where the roster is from. -/
theorem traces_announced {carried : Option BeginRun} {br : BeginRun} {opening : List Exchange}
    {result : Except MixFailure Outcome} (hannounced : Announced carried opening br)
    (h : Act.Traces (performRun run carried) s (opening ++ events) result s') :
    Act.Traces (performRun run (some br)) s events result s' := by
  cases hannounced with
  | carried => exact h
  | awaited limit br hplain =>
      have hbind : Act.Traces (awaitRoster run >>= fun br => performRun run (some br)) s
          (⟨.awaitRoster limit, some (.ok br)⟩ :: events) result s' := h
      have hdeliver : deliverMessage .beginRun (.ok br) = .ok br := by
        rw [deliverMessage, hplain]
      rcases Act.traces_bind hbind with ⟨f, hawait, rfl⟩ | ⟨_, other, _, _, hawait, hrun, hevents⟩
      · rcases Act.traces_question_bind (Act.traces_get_bind hawait) with
          ⟨answer, _, hevents, hanswer⟩
        cases hevents
        have hcheck : Act.Traces (Act.check .transport (deliverMessage .beginRun (.ok br))) _ _ _ _ :=
          hanswer
        rw [hdeliver] at hcheck
        rcases Act.traces_check hcheck with ⟨_, hresult, _⟩
        cases hresult
      · rcases Act.traces_question_bind (Act.traces_get_bind hawait) with
          ⟨answer, _, rfl, hanswer⟩
        cases hevents
        have hcheck : Act.Traces (Act.check .transport (deliverMessage .beginRun (.ok br))) _ _ _ _ :=
          hanswer
        rw [hdeliver] at hcheck
        rcases Act.traces_check hcheck with ⟨rfl, hresult, rfl⟩
        cases hresult
        exact hrun

end Proceeds

/-!
## All calls of a session
-/

def givesAway : Question -> Bool
  | .send .clientFailure _ _ => true
  | .send .revealSecrets _ _ => true
  | _ => false

theorem Ledger.enter_givesAway {count : Nat} {l : Ledger} {e : Exchange}
    (h : givesAway e.question = true) : l.enter count e = l.reveal := by
  rcases e with ⟨question, answer⟩
  cases question with
  | send kind m limit =>
      cases kind with
      | clientFailure => rfl
      | revealSecrets => rfl
      | _ => cases h
  | _ => cases h

theorem LastDraw.redrawn {count : Nat} {before between : List Exchange} {e : Exchange}
    {run : UInt32} {secrets : Secrets} (hgiven : givesAway e.question = true)
    (hundue : ¬(ledger count (before ++ e :: between)).Due)
    (hlast : LastDraw count (ledger count (before ++ e :: between)) run secrets) :
    exists first n last, between = first ++ Ledger.drawn n secrets.seed secrets.messages ++ last := by
  have hledger : ledger count (before ++ e :: between) =
      (ledger count before).reveal.record count between := by
    rw [ledger_append, ← Ledger.enter_givesAway hgiven]
    rfl
  -- Giving secrets away leaves a mark that only a completed draw takes off.
  have hunknown : (ledger count (before ++ e :: between)).revealed = false := by
    by_contra hknown
    exact hundue (.inr (.inl (by simpa using hknown)))
  have hcompleted := hlast.completed
  rw [hledger] at hunknown hcompleted
  rcases (Ledger.record_redrawn rfl rfl).right hunknown with
    ⟨first, n, seed, messages, last, hbetween, hdrawn⟩
  cases hcompleted.symm.trans hdrawn
  exact ⟨first, n, last, hbetween⟩

/-- However often a session is called and whatever it is answered, a run draws
secrets if and only if no draw has been completed, the last completed one has
been given away, or the latest draw has failed.  All that is said goes by the
last completed draw, and no key exchange by one that has been given away. -/
theorem secrets_last_until_given_away {σ : Type} (draw : Draw σ) (source : σ) (commitment : Bytes)
    (messageCount : UInt32) (settings : Settings) (s : Session)
    (hs : (Session.create draw source commitment messageCount settings).1 = .ok s) :
    (forall past t left carried, Starts s past t left carried ->
      forall opening br roster made result t', Announced carried opening br ->
        Roster.ofBeginRun br t.identity.publicKey t.messageCount = .ok roster ->
          Act.Traces (performRun (UInt32.ofNat (lastRun - left)) carried) t (opening ++ made)
            result t' ->
            exists drawing later, made = drawing ++ later ∧
              Proceeds t (past ++ opening) (UInt32.ofNat (lastRun - left)) roster drawing later) ∧
    forall events s', Calls s events s' ->
      (forall before e after, events = before ++ e :: after ->
        Lawful s.messageCount.toNat before e) ∧
      forall before e between ke limit answer after, givesAway e.question = true ->
        events = before ++ e :: between ++ ⟨.send .keyExchange ke limit, answer⟩ :: after ->
          exists first n secrets last,
            between = first ++ Ledger.drawn n secrets.seed secrets.messages ++ last ∧
              Shows s.messageCount.toNat secrets ke := by
  have hfresh := matches_of_create hs
  constructor
  · intro past t left carried hstarts opening br roster made result t' hannounced hroster hrun
    have hstarted := (hstarts.matches hfresh).idle hannounced.idle
    rw [← hstarted.counted] at hstarted
    exact (accepted_cases hroster (traces_announced hannounced hrun)).proceeds hstarted
  intro events s' hcalls
  have hlawful := (hcalls.lawful hfresh).left
  constructor
  · rintro before e after rfl
    exact hlawful.at
  · rintro before e between ke limit answer after hgiven rfl
    rcases hlawful.at with ⟨hundue, secrets, hlast, hshows⟩
    rcases hlast.redrawn hgiven hundue with ⟨first, n, last, hbetween⟩
    exact ⟨first, n, secrets, last, hbetween, hshows⟩

/-- A lone peer shows keys of its own draw before it reveals them. -/
theorem secrets_last_until_given_away_of_lone_peer :
    (Session.create Draw.bytes (Bytes.zeros 32) [] 1 Settings.default).1 =
        .ok (loneSession ⟨Bytes.zeros 32⟩ Settings.default) ∧
      (exists ciphertext vectors, Calls (loneSession ⟨Bytes.zeros 32⟩ Settings.default)
        (loneExchanges ⟨Bytes.zeros 32⟩ Settings.default (Bytes.zeros 32) (Bytes.zeros 20)
            ciphertext vectors ++
          loneReveal ⟨Bytes.zeros 32⟩ Settings.default (Bytes.zeros 32) (Bytes.zeros 20) ::
            [⟨.cancelled, true⟩, ⟨.close, ()⟩])
        (lonePrepared ⟨Bytes.zeros 32⟩ Settings.default (Bytes.zeros 32) (Bytes.zeros 20) true)) ∧
      exists secrets, secrets.seed = Bytes.zeros 32 ∧ secrets.messages = [Bytes.zeros 20] ∧
        Shows 1 secrets (ownKeys (loneSetting ⟨Bytes.zeros 32⟩ Settings.default)
          (loneKeys ⟨Bytes.zeros 32⟩ Settings.default (Bytes.zeros 32) (Bytes.zeros 20))
          (loneCommitment ⟨Bytes.zeros 32⟩ Settings.default (Bytes.zeros 32) (Bytes.zeros 20))) := by
  have hcreate : (Session.create Draw.bytes (Bytes.zeros 32) [] 1 Settings.default).1 =
      .ok (loneSession ⟨Bytes.zeros 32⟩ Settings.default) := rfl
  have hmessage : (Bytes.zeros 20).length = messageSize := List.length_replicate
  rcases traces_perform ⟨Bytes.zeros 32⟩ Settings.default (Bytes.zeros 32) hmessage with
    ⟨ciphertext, vectors, htraces⟩
  have hcalls := Calls.more Calls.none htraces
  refine ⟨hcreate, ⟨ciphertext, vectors, hcalls⟩, ?_⟩
  rcases ((secrets_last_until_given_away _ _ _ _ _ _ hcreate).right _ _ hcalls).left
    [⟨.marshal, .ok []⟩,
      ⟨.send .pairRequest (PairRequest.make ⟨Bytes.zeros 32⟩ [] [] 1) Settings.default.sendLimit,
        .ok ()⟩,
      ⟨.cancelled, false⟩, ⟨.awaitRoster none, some (.ok (loneAnnouncement ⟨Bytes.zeros 32⟩))⟩,
      ⟨.draw 32, .ok (Bytes.zeros 32)⟩, ⟨.generate, .ok [Bytes.zeros 20]⟩] _ _ rfl with
    ⟨_, secrets, hlast, hshows⟩
  have hcompleted : some (Bytes.zeros 32, [Bytes.zeros 20]) =
      some (secrets.seed, secrets.messages) := hlast.completed
  rcases Prod.mk.inj (Option.some.inj hcompleted) with ⟨hseed, hmessages⟩
  exact ⟨secrets, hseed.symm, hmessages.symm, hshows⟩

end Session
end PeerMix
