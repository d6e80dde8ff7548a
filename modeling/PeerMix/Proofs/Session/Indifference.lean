import PeerMix.Proofs.Session.KeyReplies

/-!
# What is never read in key exchanges

Of the key exchanges that a peer is answered it reads the points and the
encapsulation keys, and how many there are.  It looks at neither the run, the
commitment nor the signature of any of them: a session goes on in the same way
when these are replaced.
-/

namespace PeerMix
namespace Session

open Wire DcNet Dialogue

/-!
## Answers with the same keys
-/

/-- The answers differ at most in what stands beside the keys. -/
structure SameKeys (m m' : KeyExchanges) : Prop where
  keys : keysIn m = keysIn m'
  br : m.br = m'.br
  err : m.err = m'.err

inductive SameAnswer : (q : Question) → q.Answer → q.Answer → Prop
  | same (q : Question) (answer : q.Answer) : SameAnswer q answer answer
  | keys (limit : Nat) {m m' : KeyExchanges} (h : SameKeys m m') :
      SameAnswer (.receive .keyExchanges limit) (.ok m) (.ok m')

/-- The same questions with answers that differ at most in what stands beside the keys. -/
inductive SameExchanges : List Exchange → List Exchange → Prop
  | nil : SameExchanges [] []
  | cons {q : Question} {answer answer' : q.Answer} {events events' : List Exchange}
      (h : SameAnswer q answer answer') (hrest : SameExchanges events events') :
      SameExchanges (⟨q, answer⟩ :: events) (⟨q, answer'⟩ :: events')

theorem sameExchanges_refl (events : List Exchange) : SameExchanges events events := by
  induction events with
  | nil => exact .nil
  | cons e events ih => exact .cons (.same e.question e.answer) ih

theorem SameExchanges.append {first first' last last' : List Exchange}
    (hfirst : SameExchanges first first') (hlast : SameExchanges last last') :
    SameExchanges (first ++ last) (first' ++ last') := by
  induction hfirst with
  | nil => exact hlast
  | cons h _ ih => exact .cons h ih

theorem SameAnswer.eq {q : Question} {answer answer' : q.Answer} (h : SameAnswer q answer answer')
    (hq : forall limit, q ≠ .receive .keyExchanges limit) : answer = answer' := by
  cases h with
  | same => rfl
  | keys limit => exact absurd rfl (hq limit)

/-!
## Indifferent dialogues
-/

/-- Every question is followed by the same whichever of two such answers it gets. -/
def Indifferent {α : Type} : Dialogue α -> Prop
  | .done _ => True
  | .ask q next => (forall answer, Indifferent (next answer)) ∧
      forall answer answer', SameAnswer q answer answer' -> next answer = next answer'

section Dialogues

variable {α β : Type}

theorem Indifferent.bind {d : Dialogue α} {f : α -> Dialogue β} (hd : Indifferent d)
    (hf : forall a, Indifferent (f a)) : Indifferent (d >>= f) := by
  induction d with
  | done a => exact hf a
  | ask q next ih =>
      constructor
      · intro answer
        exact ih answer (hd.left answer)
      · intro answer answer' hsame
        exact congrArg (fun d => d >>= f) (hd.right answer answer' hsame)

theorem indifferent_question {q : Question} (hq : forall limit, q ≠ .receive .keyExchanges limit) :
    Indifferent (question q) := by
  constructor
  · intro answer
    trivial
  · intro answer answer' hsame
    rw [hsame.eq hq]

/-- An indifferent dialogue ends in the same way after such exchanges. -/
theorem Dialogue.Traces.indifferent {d : Dialogue α} {events events' : List Exchange} {a : α}
    (h : Traces d events a) (hd : Indifferent d) (hsame : SameExchanges events events') :
    Traces d events' a := by
  induction h generalizing events' with
  | done a =>
      cases hsame
      exact .done a
  | ask q next answer events a _rest ih =>
      cases hsame with
      | @cons _ _ answer' _ rest' hanswer hrest =>
          have hnext := ih (hd.left answer) hrest
          rw [hd.right answer answer' hanswer] at hnext
          exact .ask q next answer' rest' a hnext

end Dialogues

/-!
## Indifferent stages
-/

namespace Stage

variable {α β : Type}

theorem indifferent_bind {x : Stage α} {f : α -> Stage β} (hx : Indifferent x.run)
    (hf : forall a, Indifferent (f a).run) : Indifferent (x >>= f).run := by
  refine Indifferent.bind hx ?_
  rintro (d | a)
  · trivial
  · exact hf a

theorem indifferent_check {ε : Type} (failure : ε -> MixFailure) (x : Except ε α) :
    Indifferent (check failure x).run := by
  cases x <;> trivial

theorem indifferent_question {q : Question}
    (hq : forall limit, q ≠ .receive .keyExchanges limit) : Indifferent (question q).run :=
  Indifferent.bind (Session.indifferent_question hq) fun _ => trivial

theorem indifferent_guard {p : Prop} [Decidable p] (failure : MixFailure) {next : Stage α}
    (hnext : Indifferent next.run) : Indifferent (do
      if p then fail failure
      next : Stage α).run := by
  by_cases hp : p
  · rw [if_pos hp]
    trivial
  · rw [if_neg hp]
    exact hnext

end Stage

section Stages

variable {s : RunSetting}

theorem indifferent_send (kind : Kind) (m : kind.Message) : Indifferent (s.send kind m).run :=
  Stage.indifferent_bind (Stage.indifferent_question (by nofun)) fun _ => Stage.indifferent_check _ _

theorem indifferent_reply {kind : Kind} [Reply kind.Message] (hkind : kind ≠ .keyExchanges) :
    Indifferent (s.reply kind).run := by
  have hquestion (limit : Nat) :
      Question.receive kind s.settings.receiveLimit ≠ .receive .keyExchanges limit := by
    rintro ⟨⟩
    exact hkind rfl
  apply Stage.indifferent_bind (Stage.indifferent_question hquestion)
  intro received
  apply Stage.indifferent_bind (Stage.indifferent_check _ _)
  intro m
  rcases reroute? m with ⟨_ | r, rest⟩ <;> trivial

/-! ### The key exchanges -/

/-- What the answer to a message comes to if the rest of a stage asks nothing. -/
def judgeReply {α : Type} (kind : Kind) [Reply kind.Message]
    (accept : kind.Message -> Except Departure α) (answer : Except FrameError kind.Message) :
    Except Departure α :=
  match deliverMessage kind answer with
  | .error fault => .error (.failure (.transport fault))
  | .ok m =>
      match reroute? m with
      | (some r, _) => .error (.reroute r)
      | (none, rest) => accept rest

theorem run_reply_bind {α : Type} {kind : Kind} [Reply kind.Message]
    {next : kind.Message -> Stage α} {accept : kind.Message -> Except Departure α}
    (hnext : forall m, (next m).run = .done (accept m)) :
    (s.reply kind >>= next).run =
      .ask (.receive kind s.settings.receiveLimit) fun answer =>
        .done (judgeReply kind accept answer) := by
  apply congrArg (Dialogue.ask (.receive kind s.settings.receiveLimit))
  funext answer
  show ((Stage.check .transport (deliverMessage kind answer) >>= fun m =>
    (match reroute? m with
    | (some r, _) => throw (.reroute r)
    | (none, rest) => pure rest : Stage kind.Message)) >>= next).run = _
  unfold judgeReply
  cases deliverMessage kind answer with
  | error fault => rfl
  | ok m =>
      show ((match reroute? m with
        | (some r, _) => throw (.reroute r)
        | (none, rest) => pure rest : Stage kind.Message) >>= next).run = _
      dsimp only
      rcases reroute? m with ⟨_ | r, rest⟩
      · exact hnext rest
      · rfl

theorem judgeReply_congr {m m' : KeyExchanges} (h : SameKeys m m') :
    judgeReply .keyExchanges (fun m => (acceptKeys s m).mapError .failure) (.ok m) =
      judgeReply .keyExchanges (fun m => (acceptKeys s m).mapError .failure) (.ok m') := by
  rcases m with ⟨kes, br, err⟩
  rcases m' with ⟨kes', br', err'⟩
  rcases h with ⟨hkeys, rfl, rfl⟩
  have hcode : Kind.keyExchanges.serverError? { kes, br, err } =
      Kind.keyExchanges.serverError? { kes := kes', br, err } := rfl
  have haccept : acceptKeys s { kes, br := none, err } =
      acceptKeys s { kes := kes', br := none, err } := by
    rw [acceptKeys_eq, acceptKeys_eq]
    exact congrArg (acceptKeysIn s) hkeys
  unfold judgeReply deliverMessage
  dsimp only
  rw [hcode]
  cases Kind.keyExchanges.serverError? { kes := kes', br, err } with
  | some fault => rfl
  | none =>
      unfold reroute?
      dsimp only [Reply.roster, Reply.withoutRoster, Reply.asksForSecrets]
      cases br.filter fun br => !br.vk.isEmpty with
      | some br => rfl
      | none => exact congrArg (Except.mapError Departure.failure) haccept

theorem indifferent_exchangeKeys (keys : RunKeys) (commitment : Bytes) :
    Indifferent (exchangeKeys s keys commitment).run := by
  apply Stage.indifferent_bind (indifferent_send _ _)
  intro _
  have hnext (m : KeyExchanges) : ((do
      let present := m.kes.filterMap id
      if present.length ≠ s.roster.peerCount then
        Stage.fail (.keyExchangeCount s.roster.peerCount present.length)
      let points ← Stage.check id (readPoints present)
      return (points, present.map (·.pqpk))) : Stage (List Bytes × List Bytes)).run =
        .done ((acceptKeys s m).mapError .failure) := by
    unfold acceptKeys
    dsimp only
    by_cases hcount : (m.kes.filterMap id).length ≠ s.roster.peerCount
    · rw [if_pos hcount, if_pos hcount]
      rfl
    · rw [if_neg hcount, if_neg hcount]
      cases readPoints (m.kes.filterMap id) <;> rfl
  rw [run_reply_bind hnext]
  refine ⟨fun _ => trivial, ?_⟩
  intro answer answer' hsame
  cases hsame with
  | same => rfl
  | keys _ h => exact congrArg Dialogue.done (judgeReply_congr h)

/-! ### The other stages -/

theorem indifferent_exchangeCiphertexts (keys : RunKeys) (points encapsulationKeys : List Bytes) :
    Indifferent (exchangeCiphertexts s keys points encapsulationKeys).run := by
  unfold exchangeCiphertexts
  apply Stage.indifferent_bind (Stage.indifferent_check _ _)
  intro ciphertexts
  apply Stage.indifferent_bind (indifferent_send _ _)
  intro _
  apply Stage.indifferent_bind (indifferent_reply (by decide))
  intro answer
  exact Stage.indifferent_check _ _

theorem indifferent_reserveSlots (reservations : List Nat) (rows : List (List PadKey)) :
    Indifferent (reserveSlots s reservations rows).run := by
  apply Stage.indifferent_bind (indifferent_send _ _)
  intro _
  apply Stage.indifferent_bind (indifferent_reply (by decide))
  intro answer
  apply Stage.indifferent_guard
  apply Stage.indifferent_bind (Stage.indifferent_check _ _)
  intro roots
  cases Slots.resolve? reservations roots <;> trivial

theorem indifferent_mixMessages (messages : List Bytes) (slots : List Nat)
    (rows : List (List PadKey)) : Indifferent (mixMessages s messages slots rows).run := by
  apply Stage.indifferent_bind (Stage.indifferent_check _ _)
  intro vectors
  apply Stage.indifferent_bind (indifferent_send _ _)
  intro _
  apply Stage.indifferent_bind (indifferent_reply (by decide))
  intro answer
  trivial

theorem indifferent_judge (result : Except PayloadError Unit) : Indifferent (judge result).run := by
  cases result with
  | ok => trivial
  | error e =>
      unfold judge
      dsimp only
      split <;> trivial

theorem indifferent_confirmMix (mix : Bytes) : Indifferent (confirmMix s mix).run := by
  apply Stage.indifferent_bind (Stage.indifferent_question (by nofun))
  intro unmarshalled
  apply Stage.indifferent_bind (indifferent_judge _)
  intro _
  apply Stage.indifferent_bind (Stage.indifferent_question (by nofun))
  intro confirmed
  apply Stage.indifferent_bind (indifferent_judge _)
  intro _
  apply Stage.indifferent_bind (Stage.indifferent_question (by nofun))
  intro marshalled
  apply Stage.indifferent_bind (Stage.indifferent_check _ _)
  intro data
  apply Stage.indifferent_bind (indifferent_send _ _)
  intro _
  apply Stage.indifferent_bind (indifferent_reply (by decide))
  intro answer
  apply Stage.indifferent_bind (Stage.indifferent_question (by nofun))
  intro taken
  exact Stage.indifferent_check _ _

theorem indifferent_stages (keys : RunKeys) (messages : List Bytes) (commitment : Bytes) :
    Indifferent (stages s keys messages commitment).run := by
  apply Stage.indifferent_bind (indifferent_exchangeKeys _ _)
  rintro ⟨points, encapsulationKeys⟩
  apply Stage.indifferent_bind (indifferent_exchangeCiphertexts _ _ _)
  intro rows
  apply Stage.indifferent_bind (indifferent_reserveSlots _ _)
  intro slots
  apply Stage.indifferent_bind (indifferent_mixMessages _ _ _)
  intro mix
  exact indifferent_confirmMix mix

end Stages

/-!
## Indifferent sessions
-/

namespace Act

variable {α β : Type}

/-- Whatever session it starts from, what is done is indifferent. -/
def Indifferent (act : Act α) : Prop :=
  forall s, Session.Indifferent (act.run.run s)

theorem indifferent_pure (a : α) : Indifferent (pure a) :=
  fun _ => trivial

theorem indifferent_throw (f : MixFailure) : Indifferent (throw f : Act α) :=
  fun _ => trivial

theorem Indifferent.bind {act : Act α} {f : α -> Act β} (hact : Indifferent act)
    (hf : forall a, Indifferent (f a)) : Indifferent (act >>= f) := by
  intro s
  refine Session.Indifferent.bind (hact s) ?_
  rintro ⟨_ | a, t⟩
  · trivial
  · exact hf a t

theorem indifferent_get : Indifferent get :=
  fun _ => trivial

theorem indifferent_set (t : Session) : Indifferent (set t) :=
  fun _ => trivial

theorem indifferent_modify (change : Session -> Session) : Indifferent (modify change) :=
  fun _ => trivial

theorem indifferent_check {ε : Type} (failure : ε -> MixFailure) (x : Except ε α) :
    Indifferent (check failure x) := by
  cases x
  · exact indifferent_throw _
  · exact indifferent_pure _

theorem indifferent_question {q : Question}
    (hq : forall limit, q ≠ .receive .keyExchanges limit) : Indifferent (question q) := by
  intro s
  exact (Session.indifferent_question hq).bind fun _ => trivial

theorem indifferent_ofStage {stage : Stage α} (h : Session.Indifferent stage.run) :
    Indifferent (ofStage stage) := by
  intro s
  have hlift : Session.Indifferent (stage.run >>= fun r => pure (r, s)) := h.bind fun _ => trivial
  exact Session.Indifferent.bind hlift fun _ => trivial

theorem indifferent_send (kind : Kind) (m : kind.Message) : Indifferent (send kind m) := by
  apply indifferent_get.bind
  intro s
  apply (indifferent_question (by nofun)).bind
  intro sent
  exact indifferent_check _ _

theorem indifferent_unlessCancelled {next : Act α} (h : Indifferent next) : Indifferent (do
      if ← question .cancelled then throw .cancelled
      next : Act α) := by
  apply (indifferent_question (by nofun)).bind
  rintro (_ | _)
  · exact h
  · exact indifferent_throw _

end Act

theorem indifferent_drawSecrets (run : UInt32) : Act.Indifferent (drawSecrets run) := by
  apply (Act.indifferent_question (by nofun)).bind
  intro drawn
  apply (Act.indifferent_check _ _).bind
  intro seed
  apply (Act.indifferent_question (by nofun)).bind
  intro generated
  apply (Act.indifferent_check _ _).bind
  intro messages
  apply Act.indifferent_get.bind
  intro s
  apply (Act.indifferent_check _ _).bind
  intro _
  exact Act.indifferent_pure _

theorem indifferent_prepareSecrets (run : UInt32) : Act.Indifferent (prepareSecrets run) := by
  have hlast (secrets : Secrets) : Act.Indifferent (do
      modify fun s => { s with drawsAnew := false, secrets := some secrets }
      return secrets) := (Act.indifferent_modify _).bind fun _ => Act.indifferent_pure _
  apply Act.indifferent_get.bind
  intro s
  apply (Act.indifferent_set _).bind
  intro _
  cases s.secrets with
  | none => exact (indifferent_drawSecrets run).bind hlast
  | some secrets =>
      dsimp only
      split
      · exact (indifferent_drawSecrets run).bind hlast
      · exact (Act.indifferent_pure secrets).bind hlast

theorem indifferent_reveal (blame : Blame) (rs : RevealSecrets) :
    Act.Indifferent (reveal blame rs) := by
  apply Act.indifferent_unlessCancelled
  apply (Act.indifferent_modify _).bind
  intro _
  cases blame with
  | server => exact Act.indifferent_send _ _
  | client => exact (Act.indifferent_send _ _).bind fun _ => Act.indifferent_send _ _

theorem indifferent_awaitRoster (run : UInt32) : Act.Indifferent (awaitRoster run) := by
  apply Act.indifferent_get.bind
  intro s
  apply (Act.indifferent_question (by nofun)).bind
  rintro (_ | received)
  · exact Act.indifferent_throw _
  · exact Act.indifferent_check _ _

theorem indifferent_performRun (run : UInt32) (carried : Option BeginRun) :
    Act.Indifferent (performRun run carried) := by
  have hcarried (br : BeginRun) : Act.Indifferent (performRun run (some br)) := by
    apply (Act.indifferent_pure br).bind
    intro br
    apply Act.indifferent_get.bind
    intro s
    apply (Act.indifferent_check _ _).bind
    intro roster
    apply (Act.indifferent_modify _).bind
    intro _
    apply (indifferent_prepareSecrets run).bind
    intro secrets
    apply (Act.indifferent_ofStage (indifferent_stages _ _ _)).bind
    rintro (((br | blame) | f) | _)
    · exact Act.indifferent_pure _
    · exact (indifferent_reveal _ _).bind fun _ => Act.indifferent_pure _
    · exact Act.indifferent_throw _
    · exact Act.indifferent_pure _
  cases carried with
  | none => exact (indifferent_awaitRoster run).bind hcarried
  | some br => exact hcarried br

theorem indifferent_performRuns (left : Nat) (carried : Option BeginRun) :
    Act.Indifferent (performRuns left carried) := by
  induction left generalizing carried with
  | zero =>
      unfold performRuns
      apply Act.indifferent_unlessCancelled
      apply (indifferent_performRun _ _).bind
      rintro (_ | roster)
      · exact Act.indifferent_pure _
      · exact Act.indifferent_throw _
  | succ left ih =>
      unfold performRuns
      apply Act.indifferent_unlessCancelled
      apply (indifferent_performRun _ _).bind
      rintro (_ | roster)
      · exact Act.indifferent_pure _
      · exact ih roster

theorem indifferent_mix : Act.Indifferent mix := by
  apply (Act.indifferent_question (by nofun)).bind
  intro marshalled
  apply (Act.indifferent_check _ _).bind
  intro unmixed
  apply Act.indifferent_get.bind
  intro s
  apply (Act.indifferent_send _ _).bind
  intro _
  exact indifferent_performRuns _ _

/-- A session says the same and ends in the same way if the key exchanges that it is
answered are replaced by others with the same keys. -/
theorem traces_perform_of_sameExchanges {s : Session} {events events' : List Exchange}
    {result : Except MixFailure Unit × Session} (h : Traces s.perform events result)
    (hsame : SameExchanges events events') : Traces s.perform events' result := by
  refine h.indifferent ?_ hsame
  apply Indifferent.bind (indifferent_mix s)
  intro result
  exact (indifferent_question (by nofun)).bind fun _ => trivial

end Session
end PeerMix
