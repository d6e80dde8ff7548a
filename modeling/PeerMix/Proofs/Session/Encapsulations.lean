import PeerMix.Proofs.Session.Interruption
import PeerMix.Proofs.Session.Openings
import PeerMix.Proofs.Session.Order

/-!
# Randomness of encapsulations

Encapsulations are drawn from streams of the latest seed, one stream for each run
index, apart from the streams of keys.  Within one call of a session run indices
only grow, so no stream is used twice.  Another call counts its runs from zero
again while it keeps the seed: there, and only there, encapsulations repeat.
-/

namespace PeerMix

/-!
## Streams
-/

namespace Reader

theorem toNat_encapsulationStream (seed : Bytes) (run : UInt32) :
    (forEncapsulation seed run).source.stream.toNat = 2 ^ 32 + run.toNat := by
  show (encapsulationBase ||| run.toUInt64).toNat = 2 ^ 32 + run.toNat
  have hbase : encapsulationBase.toNat = 2 ^ 32 * 1 := rfl
  rw [UInt64.toNat_or, hbase, UInt32.toNat_toUInt64,
    ← Nat.two_pow_add_eq_or_of_lt run.toNat_lt 1, Nat.mul_one]

theorem toNat_keyStream (seed : Bytes) (run : UInt32) :
    (forKeys seed run).source.stream.toNat = run.toNat :=
  UInt32.toNat_toUInt64 run

/-- No stream of encapsulations is one of keys. -/
theorem encapsulationStream_ne_keyStream (seed other : Bytes) (run keyRun : UInt32) :
    (forEncapsulation seed run).source.stream ≠ (forKeys other keyRun).source.stream := by
  intro heq
  have hnumber := congrArg UInt64.toNat heq
  rw [toNat_encapsulationStream, toNat_keyStream] at hnumber
  have hrun := keyRun.toNat_lt
  omega

theorem encapsulationStream_inj (seed other : Bytes) {run otherRun : UInt32}
    (h : (forEncapsulation seed run).source.stream =
      (forEncapsulation other otherRun).source.stream) : run = otherRun := by
  have hnumber := congrArg UInt64.toNat h
  rw [toNat_encapsulationStream, toNat_encapsulationStream] at hnumber
  exact UInt32.toNat_inj.mp (Nat.add_left_cancel hnumber)

end Reader

namespace Session

open Wire Dialogue

/-!
## A tally of streams
-/

structure Tally where
  /-- How many seeds have been drawn. -/
  draws : Nat
  /-- The seed that was drawn last. -/
  seed : Option Bytes
  /-- The run whose keys were shown last. -/
  shown : Option UInt32
  /-- The runs that have sent ciphertexts since the latest request. -/
  used : List UInt32

namespace Tally

def blank : Tally :=
  { draws := 0, seed := none, shown := none, used := [] }

/-- Takes in one exchange. -/
def enter (t : Tally) : Exchange -> Tally
  | ⟨.draw _, .ok seed⟩ => { t with draws := t.draws + 1, seed := some seed }
  | ⟨.send .pairRequest _ _, _⟩ => { t with used := [] }
  | ⟨.send .keyExchange ke _, _⟩ => { t with shown := some ke.run }
  | ⟨.send .ciphertexts _ _, _⟩ => { t with used := t.shown.toList ++ t.used }
  | _ => t

def record (t : Tally) (events : List Exchange) : Tally :=
  events.foldl enter t

theorem record_append (t : Tally) (first last : List Exchange) :
    t.record (first ++ last) = (t.record first).record last :=
  List.foldl_append

theorem enter_quiet {e : Exchange} (h : opens e.question = false) (t : Tally) : t.enter e = t := by
  rcases e with ⟨question, answer⟩
  cases question with
  | draw => cases h
  | send kind m limit =>
      cases kind with
      | pairRequest => cases h
      | keyExchange => cases h
      | ciphertexts => cases h
      | _ => rfl
  | _ => rfl

theorem record_quiet {events : List Exchange} (h : Quiet events) (t : Tally) :
    t.record events = t := by
  induction events generalizing t with
  | nil => rfl
  | cons e events ih =>
      show (t.enter e).record events = t
      rw [enter_quiet (h e List.mem_cons_self)]
      exact ih (fun other hother => h other (List.mem_cons_of_mem e hother)) t

/-- A run that has sent ciphertexts is remembered until the next request. -/
theorem mem_used_record {events : List Exchange} (h : Without .pairRequest events) {t : Tally}
    {run : UInt32} (hrun : run ∈ t.used) : run ∈ (t.record events).used := by
  induction events generalizing t with
  | nil => exact hrun
  | cons e events ih =>
      have hkept : run ∈ (t.enter e).used := by
        have he := h e List.mem_cons_self
        rcases e with ⟨question, answer⟩
        cases question with
        | draw => cases answer <;> exact hrun
        | send kind m limit =>
            cases kind with
            | pairRequest => exact absurd rfl he
            | ciphertexts => exact List.mem_append_right _ hrun
            | _ => exact hrun
        | _ => exact hrun
      exact ih (fun other hother => h other (List.mem_cons_of_mem e hother)) hkept

end Tally

def tally (events : List Exchange) : Tally :=
  Tally.blank.record events

theorem tally_append (first last : List Exchange) :
    tally (first ++ last) = (tally first).record last :=
  Tally.record_append Tally.blank first last

theorem tally_append_quiet {events : List Exchange} (h : Quiet events) (past : List Exchange) :
    tally (past ++ events) = tally past := by
  rw [tally_append, Tally.record_quiet h]

/-!
## What encapsulations are drawn from
-/

/-- Where the randomness of an encapsulation comes from: a stream of the seed of a draw,
which is known by its number. -/
structure Origin where
  draw : Nat
  stream : UInt64
  deriving DecidableEq

/-- The ciphertexts have been encapsulated with randomness of this origin, from the seed
that was drawn last and the run whose keys were shown last. -/
def Encapsulates (past : List Exchange) (m : Ciphertexts) (o : Origin) : Prop :=
  exists seed run key keys, (tally past).seed = some seed ∧ (tally past).shown = some run ∧
    o = { draw := (tally past).draws, stream := (Reader.forEncapsulation seed run).source.stream } ∧
    (HybridKey.encapsulate key (Reader.forEncapsulation seed run) keys).1 = .ok m.ciphertexts

/-- Ciphertexts come from the latest draw, and no other run has sent ciphertexts from the
same stream since the latest request. -/
def Sealed (past : List Exchange) : (kind : Kind) -> kind.Message -> Prop
  | .ciphertexts, m => exists seed run, (tally past).seed = some seed ∧
      (tally past).shown = some run ∧ run ∉ (tally past).used ∧ exists key keys,
        (HybridKey.encapsulate key (Reader.forEncapsulation seed run) keys).1 = .ok m.ciphertexts
  | _, _ => True

/-- The secrets of a session come from the seed that was drawn last. -/
def Seeded (s : Session) (t : Tally) : Prop :=
  forall secrets, s.secrets = some secrets -> t.seed = some secrets.seed

/-- Only runs before `next` have sent ciphertexts since the latest request. -/
def Before (next : Nat) (t : Tally) : Prop :=
  forall run, run ∈ t.used -> run.toNat < next

section Runs

variable {s s' : Session} {run : UInt32} {carried : Option BeginRun} {events past : List Exchange}

theorem everySend_sealed_quiet (h : Quiet events) : EverySend Sealed past events := by
  apply everySend_of_without _ h.without_ciphertexts
  intro past kind m hkind
  cases kind with
  | ciphertexts => exact absurd rfl hkind
  | _ => exact trivial

theorem Before.mono {next later : Nat} {t : Tally} (h : Before next t) (hle : next ≤ later) :
    Before later t :=
  fun other hother => Nat.lt_of_lt_of_le (h other hother) hle

/-- A walk through a run sends ciphertexts once at the most, from the stream of its run. -/
theorem Opening.sealed_walk {t : RunSetting} {keys : RunKeys} {commitment seed : Bytes}
    {result : Except Departure Unit} (h : Opening t keys commitment events result)
    (hkeys : keys.encapsulation = Reader.forEncapsulation seed t.scope.run)
    (hseed : (tally past).seed = some seed) (hbefore : Before t.scope.run.toNat (tally past)) :
    EverySend Sealed past events ∧ (tally (past ++ events)).seed = some seed ∧
      Before (t.scope.run.toNat + 1) (tally (past ++ events)) := by
  have hlater := hbefore.mono (Nat.le_succ t.scope.run.toNat)
  cases h with
  | unsent fault =>
      rw [tally_append]
      exact ⟨⟨trivial, trivial⟩, hseed, hlater⟩
  | unanswered answer =>
      rw [tally_append]
      exact ⟨⟨trivial, trivial, trivial⟩, hseed, hlater⟩
  | refused reply =>
      rw [tally_append]
      exact ⟨⟨trivial, trivial, trivial⟩, hseed, hlater⟩
  | @sealed reply points encapsulationKeys ciphertexts answer rest _ hpasses haccept hmade hrest =>
      have hshown : tally (past ++ [sent t .keyExchange (ownKeys t keys commitment),
          received t .keyExchanges reply]) = { tally past with shown := some t.scope.run } := by
        rw [tally_append]
        rfl
      have htally : tally (past ++ sent t .keyExchange (ownKeys t keys commitment) ::
          received t .keyExchanges reply ::
            ⟨.send .ciphertexts (Ciphertexts.make t.identity ciphertexts) t.settings.sendLimit,
              answer⟩ :: rest) =
            { tally past with
              shown := some t.scope.run, used := t.scope.run :: (tally past).used } := by
        rw [tally_append]
        exact Tally.record_quiet hrest _
      have hunused : t.scope.run ∉ (tally past).used := fun hmem =>
        Nat.lt_irrefl _ (hbefore t.scope.run hmem)
      rw [htally]
      refine ⟨⟨trivial, trivial, ?_, everySend_sealed_quiet hrest⟩, hseed, ?_⟩
      · show Sealed (past ++ [sent t .keyExchange _] ++ [received t .keyExchanges reply])
          .ciphertexts (Ciphertexts.make t.identity ciphertexts)
        rw [List.append_assoc]
        show Sealed (past ++ [sent t .keyExchange (ownKeys t keys commitment),
          received t .keyExchanges reply]) .ciphertexts (Ciphertexts.make t.identity ciphertexts)
        unfold Sealed
        rw [hshown]
        refine ⟨seed, t.scope.run, hseed, rfl, hunused, keys.key, encapsulationKeys, ?_⟩
        rw [← hkeys]
        exact hmade
      · intro other hother
        rcases List.mem_cons.mp hother with rfl | hother
        · exact Nat.lt_succ_self _
        · exact Nat.lt_succ_of_lt (hbefore other hother)

theorem Drawing.quiet_sends {count : Nat} {result : Except MixFailure Secrets}
    (h : Drawing run count events result) (past : List Exchange) :
    EverySend Sealed past events ∧ (tally (past ++ events)).used = (tally past).used := by
  rw [tally_append]
  cases h with
  | undrawn => exact ⟨⟨trivial, trivial⟩, rfl⟩
  | ungenerated => exact ⟨⟨trivial, trivial, trivial⟩, rfl⟩
  | rejected => exact ⟨⟨trivial, trivial, trivial⟩, rfl⟩
  | drawn => exact ⟨⟨trivial, trivial, trivial⟩, rfl⟩

/-- Prepared secrets come from the latest draw, and secrets that could not be prepared are
gone. -/
theorem Preparing.seeded {result : Except MixFailure Secrets}
    (h : Preparing run s events result s') (hs : Seeded s (tally past)) :
    EverySend Sealed past events ∧ (tally (past ++ events)).used = (tally past).used ∧
      Seeded s' (tally (past ++ events)) ∧
        forall secrets, result = .ok secrets ->
          (tally (past ++ events)).seed = some secrets.seed := by
  cases h with
  | kept secrets hsecrets hkept =>
      rw [List.append_nil]
      have hseed := hs secrets hsecrets
      refine ⟨trivial, rfl, ?_, ?_⟩
      · rintro _ ⟨⟩
        exact hseed
      · rintro _ ⟨⟩
        exact hseed
  | failed _ f hneeded hdrawing =>
      rcases hdrawing.quiet_sends past with ⟨hsends, hused⟩
      exact ⟨hsends, hused, nofun, nofun⟩
  | drawn _ secrets hneeded hdrawing =>
      rcases hdrawing.quiet_sends past with ⟨hsends, hused⟩
      have hseed : (tally (past ++ events)).seed = some secrets.seed := by
        rw [tally_append]
        generalize hresult : Except.ok secrets = result at hdrawing
        cases hdrawing with
        | undrawn => cases hresult
        | ungenerated => cases hresult
        | rejected => cases hresult
        | drawn seed messages =>
            cases hresult
            rfl
      refine ⟨hsends, hused, ?_, ?_⟩
      · rintro _ ⟨⟩
        exact hseed
      · rintro _ ⟨⟩
        exact hseed

theorem Revealing.secrets {rs : RevealSecrets} {blame : Blame} {result : Except MixFailure Unit}
    (h : Revealing s rs blame events result s') : s'.secrets = s.secrets := by
  cases h <;> rfl

theorem Settled.secrets {rs : RevealSecrets} {walk : Except Departure Unit}
    {result : Except MixFailure Outcome} (h : Settled s rs walk events result s') :
    s'.secrets = s.secrets := by
  cases h with
  | confirmed => rfl
  | failed => rfl
  | replaced => rfl
  | unrevealed h => exact h.secrets
  | revealed h => exact h.secrets

theorem RunTrace.sealed {result : Except MixFailure Outcome}
    (h : RunTrace s run carried events result s') (hs : Seeded s (tally past))
    (hbefore : Before run.toNat (tally past)) :
    EverySend Sealed past events ∧ Seeded s' (tally (past ++ events)) ∧
      Before (run.toNat + 1) (tally (past ++ events)) := by
  have hlater := hbefore.mono (Nat.le_succ run.toNat)
  cases h with
  | unannounced limit answer f =>
      have hquiet : Quiet [⟨.awaitRoster limit, answer⟩] := by simp [Quiet, opens]
      rw [tally_append_quiet hquiet]
      exact ⟨everySend_sealed_quiet hquiet, hs, hlater⟩
  | rejected hannounced =>
      rw [tally_append_quiet hannounced.quiet]
      exact ⟨everySend_sealed_quiet hannounced.quiet, hs, hlater⟩
  | @unprepared opening preparing br roster f s' hannounced hroster hprepared =>
      have hopened : Seeded (withRoster s roster) (tally (past ++ opening)) := by
        rw [tally_append_quiet hannounced.quiet]
        exact hs
      rcases hprepared.seeded hopened with ⟨hsends, hused, hseeded, _⟩
      rw [List.append_assoc, tally_append_quiet hannounced.quiet] at hused
      rw [List.append_assoc] at hseeded
      refine ⟨(everySend_sealed_quiet hannounced.quiet).append hsends, hseeded, ?_⟩
      unfold Before
      rw [hused]
      exact hlater
  | @walked opening preparing walking closing br roster secrets between s' walk result hannounced
      hroster hprepared hwalk hsettled =>
      have hopened : Seeded (withRoster s roster) (tally (past ++ opening)) := by
        rw [tally_append_quiet hannounced.quiet]
        exact hs
      rcases hprepared.seeded hopened with ⟨hsends, hused, hseeded, hseed⟩
      have hprior : Before run.toNat (tally (past ++ opening ++ preparing)) := by
        unfold Before
        rw [hused, tally_append_quiet hannounced.quiet]
        exact hbefore
      rcases hwalk.opening.sealed_walk rfl (hseed secrets rfl) hprior with
        ⟨hwalked, hkept, hafter⟩
      have htally : tally (past ++ (opening ++ preparing ++ walking ++ closing)) =
          tally (past ++ opening ++ preparing ++ walking) := by
        rw [← List.append_assoc, tally_append_quiet hsettled.quiet, ← List.append_assoc,
          ← List.append_assoc]
      refine ⟨(((everySend_sealed_quiet hannounced.quiet).append hsends).append ?_).append
        (everySend_sealed_quiet hsettled.quiet), ?_, ?_⟩
      · rw [← List.append_assoc]
        exact hwalked
      · rw [htally]
        intro kept hkept'
        rw [hsettled.secrets] at hkept'
        rw [hkept, ← hseed secrets rfl]
        exact hseeded kept hkept'
      · rw [htally]
        exact hafter

theorem RunTrace.sealed_uncancelled {result : Except MixFailure Outcome}
    (h : RunTrace s run carried events result s') (hs : Seeded s (tally past))
    (hbefore : Before run.toNat (tally past)) :
    EverySend Sealed past (⟨.cancelled, false⟩ :: events) ∧
      Seeded s' (tally (past ++ ⟨.cancelled, false⟩ :: events)) ∧
        Before (run.toNat + 1) (tally (past ++ ⟨.cancelled, false⟩ :: events)) := by
  have hunchanged := tally_append_quiet (quiet_cancelled false) past
  rw [← hunchanged] at hs hbefore
  rcases h.sealed hs hbefore with ⟨hsends, hseeded, hafter⟩
  rw [List.append_cons]
  exact ⟨⟨trivial, hsends⟩, hseeded, hafter⟩

/-- The runs of a call count up, so no stream of theirs is used twice. -/
theorem Chain.sealed {left : Nat} {result : Except MixFailure Unit}
    (h : Chain left s carried events result s') (hleft : left ≤ lastRun)
    (hs : Seeded s (tally past)) (hbefore : Before (lastRun - left) (tally past)) :
    EverySend Sealed past events ∧ Seeded s' (tally (past ++ events)) := by
  rw [← toNat_run hleft] at hbefore
  induction h generalizing past with
  | cancelled left s carried =>
      rw [tally_append_quiet (quiet_cancelled true)]
      exact ⟨⟨trivial, trivial⟩, hs⟩
  | confirmed h =>
      rcases h.sealed_uncancelled hs hbefore with ⟨hsends, hseeded, _⟩
      exact ⟨hsends, hseeded⟩
  | failed h =>
      rcases h.sealed_uncancelled hs hbefore with ⟨hsends, hseeded, _⟩
      exact ⟨hsends, hseeded⟩
  | exhausted h =>
      rcases h.sealed_uncancelled hs hbefore with ⟨hsends, hseeded, _⟩
      exact ⟨hsends, hseeded⟩
  | @rerun left s between s' carried roster events rest result h hrest ih =>
      rcases h.sealed_uncancelled hs hbefore with ⟨hsends, hseeded, hafter⟩
      have hnext : lastRun - (left + 1) + 1 = lastRun - left := by omega
      rw [toNat_run hleft, hnext, ← toNat_run (Nat.le_of_succ_le hleft)] at hafter
      rcases ih (Nat.le_of_succ_le hleft) hseeded hafter with ⟨hothers, hlast⟩
      rw [List.append_assoc] at hlast
      exact ⟨hsends.append hothers, hlast⟩

theorem Conversation.sealed {result : Except MixFailure Unit}
    (h : Conversation s events result s') (hs : Seeded s (tally past)) :
    EverySend Sealed past events ∧ Seeded s' (tally (past ++ events)) := by
  cases h with
  | unread =>
      rw [tally_append]
      exact ⟨⟨trivial, trivial, trivial⟩, hs⟩
  | unsent =>
      rw [tally_append]
      exact ⟨⟨trivial, trivial, trivial, trivial⟩, hs⟩
  | @ran unmixed events _ _ h =>
      have hrequested : tally (past ++ [⟨.marshal, .ok unmixed⟩,
          ⟨.send .pairRequest (PairRequest.make s.identity s.commitment unmixed s.messageCount)
            s.settings.sendLimit, .ok ()⟩]) = { tally past with used := [] } := by
        rw [tally_append]
        rfl
      have hkept : Seeded s { tally past with used := [] } := hs
      have hunused : Before (lastRun - lastRun) { tally past with used := [] } := nofun
      have hclosed : Quiet [⟨.close, ()⟩] := by simp [Quiet, opens]
      rw [← hrequested] at hkept hunused
      rcases h.sealed (Nat.le_refl lastRun) hkept hunused with ⟨hsends, hseeded⟩
      rw [← List.append_assoc, tally_append_quiet hclosed, ← List.append_assoc]
      exact ⟨EverySend.append (EverySend.append ⟨trivial, trivial, trivial⟩ hsends)
        (everySend_sealed_quiet hclosed), hseeded⟩

theorem Calls.sealed (h : Calls s events s') (hs : Seeded s (tally [])) :
    EverySend Sealed [] events ∧ Seeded s' (tally events) := by
  induction h with
  | none => exact ⟨trivial, hs⟩
  | more h hlast ih =>
      rcases ih with ⟨hpast, hbetween⟩
      rcases (conversation_of_traces hlast).sealed hbetween with ⟨hsends, hseeded⟩
      exact ⟨hpast.append hsends, hseeded⟩

end Runs

/-!
## All calls of a session
-/

/-- However often a session is called and whatever it is answered, its ciphertexts are
encapsulated with randomness of the latest draw and the stream of their run, which is
none of the streams of keys.  Two of them share an origin only if another call has begun
in between. -/
theorem encapsulations_repeat_only_across_calls {σ : Type} (draw : Draw σ) (source : σ)
    (commitment : Bytes) (messageCount : UInt32) (settings : Settings) (s : Session)
    (hs : (Session.create draw source commitment messageCount settings).1 = .ok s)
    (events : List Exchange) (s' : Session) (hcalls : Calls s events s') :
    (forall before m limit answer after,
      events = before ++ ⟨.send .ciphertexts m limit, answer⟩ :: after ->
        exists o, Encapsulates before m o ∧
          forall seed run, o.stream ≠ (Reader.forKeys seed run).source.stream) ∧
    forall first m limit answer between m' limit' answer' after o o',
      events = first ++ ⟨.send .ciphertexts m limit, answer⟩ :: between ++
          ⟨.send .ciphertexts m' limit', answer'⟩ :: after ->
        Encapsulates first m o ->
          Encapsulates (first ++ ⟨.send .ciphertexts m limit, answer⟩ :: between) m' o' ->
            Without .pairRequest between -> o ≠ o' := by
  have hfresh : Seeded s (tally []) := fun secrets hsecrets =>
    nomatch (secrets_of_create hs).symm.trans hsecrets
  have hsealed := (hcalls.sealed hfresh).left
  constructor
  · intro before m limit answer after hevents
    rcases hsealed.send hevents with ⟨seed, run, hseed, hshown, _, key, keys, hmade⟩
    refine ⟨_, ⟨seed, run, key, keys, hseed, hshown, rfl, hmade⟩, ?_⟩
    intro other keyRun
    exact Reader.encapsulationStream_ne_keyStream seed other run keyRun
  · intro first m limit answer between m' limit' answer' after o o' hevents hfirst hsecond
      hbetween heq
    rcases hfirst with ⟨seed, run, _, _, _, hshown, rfl, _⟩
    rcases hsecond with ⟨seed', run', _, _, _, hshown', rfl, _⟩
    have hrun : run = run' :=
      Reader.encapsulationStream_inj seed seed' (congrArg Origin.stream heq)
    -- The first run is among those that have been used, the second one is not.
    have hused : run ∈ (tally (first ++ ⟨.send .ciphertexts m limit, answer⟩ :: between)).used := by
      rw [List.append_cons, tally_append, tally_append]
      apply Tally.mem_used_record hbetween
      show run ∈ (tally first).shown.toList ++ (tally first).used
      rw [hshown]
      exact List.mem_append_left _ List.mem_cons_self
    rcases hsealed.send hevents with ⟨_, latest, _, hlatest, hunused, _⟩
    cases hshown'.symm.trans hlatest
    rw [hrun] at hused
    exact hunused hused

theorem encapsulates_of_keysAt {id : Identity} {settings : Settings} {seed message key : Bytes}
    {run : UInt32} {ciphertext : Bytes} {past : List Exchange}
    (hmade : (encapsulated (keysAt id settings seed message run) [key]).1 = .ok [ciphertext])
    (hseed : (tally past).seed = some seed) (hshown : (tally past).shown = some run) :
    Encapsulates past (Ciphertexts.make id [ciphertext])
      { draw := (tally past).draws
        stream := (Reader.forEncapsulation seed run).source.stream } := by
  have hstream : (keysAt id settings seed message run).encapsulation =
      Reader.forEncapsulation seed run := rfl
  refine ⟨seed, run, (keysAt id settings seed message run).key, [key], hseed, hshown, rfl, ?_⟩
  rw [← hstream]
  exact hmade

/-- A lone peer that is announced twice in one call seals its ciphertexts from two
streams. -/
theorem encapsulations_repeat_only_across_calls_of_lone_peer :
    let id : Identity := ⟨Bytes.zeros 32⟩
    let own := ownAt id Settings.default (Bytes.zeros 32) (Bytes.zeros 20)
    let opening := callOpening id Settings.default (Bytes.zeros 32) (Bytes.zeros 20)
      (drawTurn (Bytes.zeros 32) (Bytes.zeros 20)) (own 0)
    (Session.create Draw.bytes (Bytes.zeros 32) [] 1 Settings.default).1 =
        .ok (loneSession id Settings.default) ∧
      exists ciphertext ciphertext' o o',
        Calls (loneSession id Settings.default)
          (repeatedCall id Settings.default (Bytes.zeros 32) (Bytes.zeros 20) (own 0) (own 1)
            ciphertext ciphertext')
          (lonePrepared id Settings.default (Bytes.zeros 32) (Bytes.zeros 20) false) ∧
        Encapsulates opening (Ciphertexts.make id [ciphertext]) o ∧
        Encapsulates (opening ++ cutTurn id Settings.default 0 ciphertext .rerun ++
            ⟨.cancelled, false⟩ ::
              keysTurn id Settings.default (Bytes.zeros 32) (Bytes.zeros 20) 1 (own 1))
          (Ciphertexts.make id [ciphertext']) o' ∧ o ≠ o' := by
  intro id own opening
  have hcreate : (Session.create Draw.bytes (Bytes.zeros 32) [] 1 Settings.default).1 =
      .ok (loneSession id Settings.default) := rfl
  have hmessage : (Bytes.zeros 20).length = messageSize := List.length_replicate
  rcases exists_encapsulated_ownAt id Settings.default (Bytes.zeros 32) (Bytes.zeros 20) 0 with
    ⟨ciphertext, hmade⟩
  rcases exists_encapsulated_ownAt id Settings.default (Bytes.zeros 32) (Bytes.zeros 20) 1 with
    ⟨ciphertext', hmade'⟩
  have hcalls : Calls (loneSession id Settings.default) _ _ := Calls.more Calls.none
    (traces_repeatedCall hmessage (length_ownAt_point _ _ _ _ _) (length_ownAt_point _ _ _ _ _)
      hmade hmade')
  have hfirst : Encapsulates opening (Ciphertexts.make id [ciphertext]) _ :=
    encapsulates_of_keysAt hmade rfl rfl
  have hsecond : Encapsulates (opening ++ cutTurn id Settings.default 0 ciphertext .rerun ++
      ⟨.cancelled, false⟩ ::
        keysTurn id Settings.default (Bytes.zeros 32) (Bytes.zeros 20) 1 (own 1))
      (Ciphertexts.make id [ciphertext']) _ := encapsulates_of_keysAt hmade' rfl rfl
  refine ⟨hcreate, ciphertext, ciphertext', _, _, hcalls, hfirst, hsecond, ?_⟩
  refine (encapsulations_repeat_only_across_calls _ _ _ _ _ _ hcreate _ _ hcalls).right
    opening _ _ _ _ _ _ _ _ _ _ rfl hfirst hsecond ?_
  simp [Without, keysTurn, received, sent, sentKind?]

/-- A lone peer whose first call was cut short seals its ciphertexts in the next one from
the same stream of the same draw. -/
theorem encapsulations_repeat_in_next_call :
    let id : Identity := ⟨Bytes.zeros 32⟩
    let own := ownAt id Settings.default (Bytes.zeros 32) (Bytes.zeros 20) 0
    let opening := callOpening id Settings.default (Bytes.zeros 32) (Bytes.zeros 20)
      (drawTurn (Bytes.zeros 32) (Bytes.zeros 20)) own
    (Session.create Draw.bytes (Bytes.zeros 32) [] 1 Settings.default).1 =
        .ok (loneSession id Settings.default) ∧
      exists ciphertext o,
        Calls (loneSession id Settings.default)
          (closedCall id Settings.default (Bytes.zeros 32) (Bytes.zeros 20)
              (drawTurn (Bytes.zeros 32) (Bytes.zeros 20)) own ciphertext ++
            closedCall id Settings.default (Bytes.zeros 32) (Bytes.zeros 20) [] own ciphertext)
          (lonePrepared id Settings.default (Bytes.zeros 32) (Bytes.zeros 20) false) ∧
        Encapsulates opening (Ciphertexts.make id [ciphertext]) o ∧
        Encapsulates (closedCall id Settings.default (Bytes.zeros 32) (Bytes.zeros 20)
              (drawTurn (Bytes.zeros 32) (Bytes.zeros 20)) own ciphertext ++
            callOpening id Settings.default (Bytes.zeros 32) (Bytes.zeros 20) [] own)
          (Ciphertexts.make id [ciphertext]) o := by
  intro id own opening
  have hmessage : (Bytes.zeros 20).length = messageSize := List.length_replicate
  rcases exists_encapsulated_ownAt id Settings.default (Bytes.zeros 32) (Bytes.zeros 20) 0 with
    ⟨ciphertext, hmade⟩
  exact ⟨rfl, ciphertext, _,
    calls_closed hmessage (length_ownAt_point _ _ _ _ _) (length_ownAt_point _ _ _ _ _) hmade hmade,
    encapsulates_of_keysAt hmade rfl rfl, encapsulates_of_keysAt hmade rfl rfl⟩

end Session
end PeerMix
