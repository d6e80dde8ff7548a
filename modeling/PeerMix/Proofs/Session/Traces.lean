import PeerMix.Session.Mix

/-!
# Taking traces apart

A trace of a composed dialogue is a trace of its first part followed by one of
the second.  The same holds for stages and for what a session does, where a
failure of the first part is the end.  Every conversation with a partner leaves
a trace.
-/

namespace PeerMix
namespace Session

open Wire

/-!
## Dialogues
-/

namespace Dialogue

theorem traces_pure {α : Type} {a b : α} {events : List Exchange}
    (h : Traces (pure a) events b) : events = [] ∧ b = a := by
  cases h
  exact ⟨rfl, rfl⟩

theorem traces_question {q : Question} {events : List Exchange} {answer : q.Answer}
    (h : Traces (question q) events answer) : events = [⟨q, answer⟩] := by
  cases h with
  | ask _ _ given rest _ hrest =>
      cases hrest
      rfl

/-- A trace of a composed dialogue splits where its first part ends. -/
theorem traces_bind {α β : Type} {d : Dialogue α} {f : α -> Dialogue β}
    {events : List Exchange} {b : β} (h : Traces (d >>= f) events b) :
    exists before a after,
      Traces d before a ∧ Traces (f a) after b ∧ events = before ++ after := by
  induction d generalizing events with
  | done a => exact ⟨[], a, events, .done a, h, rfl⟩
  | ask q next ih =>
      cases h with
      | ask _ _ answer rest _ hrest =>
          rcases ih answer hrest with ⟨before, a, after, hbefore, hafter, rfl⟩
          exact ⟨⟨q, answer⟩ :: before, a, after, .ask q next answer before a hbefore, hafter, rfl⟩

theorem Traces.bind {α β : Type} {d : Dialogue α} {f : α -> Dialogue β}
    {before after : List Exchange} {a : α} {b : β} (hd : Traces d before a)
    (hf : Traces (f a) after b) : Traces (d >>= f) (before ++ after) b := by
  induction hd with
  | done a => exact hf
  | ask q next answer events a _rest ih => exact .ask q _ answer _ b (ih hf)

/-- What is said to a partner is a trace. -/
theorem exists_traces_run {α σ : Type} (partner : Partner σ) (d : Dialogue α) (s : σ) :
    exists events, Traces d events (d.run partner s).1 := by
  induction d generalizing s with
  | done a => exact ⟨[], .done a⟩
  | ask q next ih =>
      rcases ih (partner q s).1 (partner q s).2 with ⟨events, hevents⟩
      exact ⟨⟨q, (partner q s).1⟩ :: events, .ask q next _ events _ hevents⟩

end Dialogue

open Dialogue

/-!
## Stages
-/

namespace Stage

def Traces {α : Type} (stage : Stage α) (events : List Exchange) (result : Except Departure α) :
    Prop :=
  Dialogue.Traces stage.run events result

variable {α β : Type} {events : List Exchange}

theorem traces_pure {a : α} {result : Except Departure α}
    (h : Traces (pure a) events result) : events = [] ∧ result = .ok a :=
  Dialogue.traces_pure h

theorem traces_throw {d : Departure} {result : Except Departure α}
    (h : Traces (throw d) events result) : events = [] ∧ result = .error d :=
  Dialogue.traces_pure h

theorem traces_fail {f : MixFailure} {result : Except Departure α}
    (h : Traces (fail f) events result) : events = [] ∧ result = .error (.failure f) :=
  Dialogue.traces_pure h

theorem traces_check {ε : Type} {failure : ε -> MixFailure} {x : Except ε α}
    {result : Except Departure α} (h : Traces (check failure x) events result) :
    events = [] ∧ result = x.mapError fun e => .failure (failure e) := by
  cases x with
  | ok a => exact traces_pure h
  | error e => exact traces_throw h

theorem traces_bind {x : Stage α} {f : α -> Stage β} {result : Except Departure β}
    (h : Traces (x >>= f) events result) :
    (exists d, Traces x events (.error d) ∧ result = .error d) ∨
      exists before a after,
        Traces x before (.ok a) ∧ Traces (f a) after result ∧ events = before ++ after := by
  rcases Dialogue.traces_bind (d := x.run) h with ⟨before, r, after, hx, hf, rfl⟩
  cases r with
  | error d =>
      rcases Dialogue.traces_pure hf with ⟨rfl, rfl⟩
      rw [List.append_nil]
      exact .inl ⟨d, hx, rfl⟩
  | ok a => exact .inr ⟨before, a, after, hx, hf, rfl⟩

theorem traces_guard {p : Prop} [Decidable p] {f : MixFailure} {next : Stage α}
    {result : Except Departure α} (h : Traces (do
      if p then fail f
      next) events result) :
    (p ∧ events = [] ∧ result = .error (.failure f)) ∨ (¬p ∧ Traces next events result) := by
  by_cases hp : p
  · rw [if_pos hp] at h
    rcases traces_bind h with ⟨d, hfail, rfl⟩ | ⟨before, _, after, hfail, _, _⟩
    · rcases traces_fail hfail with ⟨hevents, hd⟩
      cases hd
      exact .inl ⟨hp, hevents, rfl⟩
    · rcases traces_fail hfail with ⟨_, hd⟩
      cases hd
  · rw [if_neg hp] at h
    exact .inr ⟨hp, h⟩

theorem traces_check_bind {ε : Type} {failure : ε -> MixFailure} {x : Except ε α}
    {next : α -> Stage β} {result : Except Departure β}
    (h : Traces (check failure x >>= next) events result) :
    (exists e, x = .error e ∧ events = [] ∧ result = .error (.failure (failure e))) ∨
      exists a, x = .ok a ∧ Traces (next a) events result := by
  rcases traces_bind h with ⟨d, hcheck, rfl⟩ | ⟨before, a, after, hcheck, hnext, rfl⟩
  · rcases traces_check hcheck with ⟨rfl, hd⟩
    cases x with
    | error e =>
        cases hd
        exact .inl ⟨e, rfl, rfl, rfl⟩
    | ok a => cases hd
  · rcases traces_check hcheck with ⟨rfl, ha⟩
    cases x with
    | error e => cases ha
    | ok a =>
        cases ha
        exact .inr ⟨a, rfl, hnext⟩

theorem traces_question {q : Question} {result : Except Departure q.Answer}
    (h : Traces (question q) events result) :
    exists answer, events = [⟨q, answer⟩] ∧ result = .ok answer := by
  rcases Dialogue.traces_bind (d := Dialogue.question q) h with ⟨before, answer, after, hq, hf, rfl⟩
  rcases Dialogue.traces_pure hf with ⟨rfl, rfl⟩
  exact ⟨answer, by rw [Dialogue.traces_question hq, List.append_nil], rfl⟩

theorem traces_question_bind {q : Question} {next : q.Answer -> Stage α}
    {result : Except Departure α} (h : Traces (question q >>= next) events result) :
    exists answer after, events = ⟨q, answer⟩ :: after ∧ Traces (next answer) after result := by
  rcases traces_bind h with ⟨d, hquestion, _⟩ | ⟨before, answer, after, hquestion, hnext, rfl⟩
  · rcases traces_question hquestion with ⟨_, _, hresult⟩
    cases hresult
  · rcases traces_question hquestion with ⟨_, rfl, hresult⟩
    cases hresult
    exact ⟨answer, after, rfl, hnext⟩

/-! ### Putting traces together -/

section Forward

variable {α β : Type} {x : Stage α} {f : α -> Stage β} {before after : List Exchange}

theorem Traces.bind {a : α} {result : Except Departure β} (hx : Traces x before (.ok a))
    (hf : Traces (f a) after result) : Traces (x >>= f) (before ++ after) result :=
  Dialogue.Traces.bind hx hf

theorem Traces.bind_error {d : Departure} (hx : Traces x before (.error d)) :
    Traces (x >>= f) before (.error d) := by
  have hend : Dialogue.Traces (pure (Except.error d) : Dialogue (Except Departure β)) []
      (.error d) := .done _
  rw [← List.append_nil before]
  exact Dialogue.Traces.bind hx hend

theorem Traces.check_bind {ε : Type} {failure : ε -> MixFailure} {y : Except ε α} {a : α}
    {result : Except Departure β} (hy : y = .ok a) (hf : Traces (f a) after result) :
    Traces (check failure y >>= f) after result := by
  subst hy
  exact hf

theorem Traces.guard {p : Prop} [Decidable p] {failure : MixFailure} {next : Stage α}
    {result : Except Departure α} (hp : ¬p) (hnext : Traces next after result) :
    Traces (do
      if p then fail failure
      next) after result := by
  rw [if_neg hp]
  exact hnext

end Forward

end Stage

/-!
## What a session does
-/

namespace Act

def Traces {α : Type} (act : Act α) (s : Session) (events : List Exchange)
    (result : Except MixFailure α) (s' : Session) : Prop :=
  Dialogue.Traces (act.run.run s) events (result, s')

variable {α β : Type} {s s' : Session} {events : List Exchange}

theorem traces_pure {a : α} {result : Except MixFailure α}
    (h : Traces (pure a) s events result s') : events = [] ∧ result = .ok a ∧ s' = s := by
  rcases Dialogue.traces_pure h with ⟨hevents, hpair⟩
  cases hpair
  exact ⟨hevents, rfl, rfl⟩

theorem traces_throw {f : MixFailure} {result : Except MixFailure α}
    (h : Traces (throw f) s events result s') : events = [] ∧ result = .error f ∧ s' = s := by
  rcases Dialogue.traces_pure h with ⟨hevents, hpair⟩
  cases hpair
  exact ⟨hevents, rfl, rfl⟩

theorem traces_check {ε : Type} {failure : ε -> MixFailure} {x : Except ε α}
    {result : Except MixFailure α} (h : Traces (check failure x) s events result s') :
    events = [] ∧ result = x.mapError failure ∧ s' = s := by
  cases x with
  | ok a => exact traces_pure h
  | error e => exact traces_throw h

theorem traces_get {result : Except MixFailure Session}
    (h : Traces get s events result s') : events = [] ∧ result = .ok s ∧ s' = s := by
  rcases Dialogue.traces_pure h with ⟨hevents, hpair⟩
  cases hpair
  exact ⟨hevents, rfl, rfl⟩

theorem traces_set {t : Session} {result : Except MixFailure PUnit}
    (h : Traces (set t) s events result s') : events = [] ∧ result = .ok ⟨⟩ ∧ s' = t := by
  rcases Dialogue.traces_pure h with ⟨hevents, hpair⟩
  cases hpair
  exact ⟨hevents, rfl, rfl⟩

theorem traces_modify {f : Session -> Session} {result : Except MixFailure PUnit}
    (h : Traces (modify f) s events result s') : events = [] ∧ result = .ok ⟨⟩ ∧ s' = f s := by
  rcases Dialogue.traces_pure h with ⟨hevents, hpair⟩
  cases hpair
  exact ⟨hevents, rfl, rfl⟩

theorem traces_bind {x : Act α} {f : α -> Act β} {result : Except MixFailure β}
    (h : Traces (x >>= f) s events result s') :
    (exists e, Traces x s events (.error e) s' ∧ result = .error e) ∨
      exists before a between after, Traces x s before (.ok a) between ∧
        Traces (f a) between after result s' ∧ events = before ++ after := by
  rcases Dialogue.traces_bind (d := x.run.run s) h with ⟨before, ⟨r, between⟩, after, hx, hf, rfl⟩
  cases r with
  | error e =>
      rcases Dialogue.traces_pure hf with ⟨rfl, hpair⟩
      cases hpair
      rw [List.append_nil]
      exact .inl ⟨e, hx, rfl⟩
  | ok a => exact .inr ⟨before, a, between, after, hx, hf, rfl⟩

theorem traces_pure_bind {a : α} {next : α -> Act β} {result : Except MixFailure β}
    (h : Traces (pure a >>= next) s events result s') : Traces (next a) s events result s' := h

theorem traces_get_bind {next : Session -> Act α} {result : Except MixFailure α}
    (h : Traces (get >>= next) s events result s') : Traces (next s) s events result s' := by
  rcases traces_bind h with ⟨f, hget, _⟩ | ⟨before, t, between, after, hget, hnext, rfl⟩
  · rcases traces_get hget with ⟨_, hresult, _⟩
    cases hresult
  · rcases traces_get hget with ⟨rfl, hresult, rfl⟩
    cases hresult
    exact hnext

theorem traces_set_bind {t : Session} {next : PUnit -> Act α} {result : Except MixFailure α}
    (h : Traces (set t >>= next) s events result s') : Traces (next ⟨⟩) t events result s' := by
  rcases traces_bind h with ⟨f, hset, _⟩ | ⟨before, _, between, after, hset, hnext, rfl⟩
  · rcases traces_set hset with ⟨_, hresult, _⟩
    cases hresult
  · rcases traces_set hset with ⟨rfl, _, rfl⟩
    exact hnext

theorem traces_modify_bind {f : Session -> Session} {next : PUnit -> Act α}
    {result : Except MixFailure α} (h : Traces (modify f >>= next) s events result s') :
    Traces (next ⟨⟩) (f s) events result s' := by
  rcases traces_bind h with ⟨_, hmodify, _⟩ | ⟨before, _, between, after, hmodify, hnext, rfl⟩
  · rcases traces_modify hmodify with ⟨_, hresult, _⟩
    cases hresult
  · rcases traces_modify hmodify with ⟨rfl, _, rfl⟩
    exact hnext

theorem traces_check_bind {ε : Type} {failure : ε -> MixFailure} {x : Except ε α}
    {next : α -> Act β} {result : Except MixFailure β}
    (h : Traces (check failure x >>= next) s events result s') :
    (exists e, x = .error e ∧ events = [] ∧ result = .error (failure e) ∧ s' = s) ∨
      exists a, x = .ok a ∧ Traces (next a) s events result s' := by
  rcases traces_bind h with ⟨f, hcheck, rfl⟩ | ⟨before, a, between, after, hcheck, hnext, rfl⟩
  · rcases traces_check hcheck with ⟨rfl, hf, rfl⟩
    cases x with
    | error e =>
        cases hf
        exact .inl ⟨e, rfl, rfl, rfl, rfl⟩
    | ok a => cases hf
  · rcases traces_check hcheck with ⟨rfl, ha, rfl⟩
    cases x with
    | error e => cases ha
    | ok a =>
        cases ha
        exact .inr ⟨a, rfl, hnext⟩

theorem traces_question {q : Question} {result : Except MixFailure q.Answer}
    (h : Traces (question q) s events result s') :
    exists answer, events = [⟨q, answer⟩] ∧ result = .ok answer ∧ s' = s := by
  rcases Dialogue.traces_bind (d := Dialogue.question q) h with ⟨before, answer, after, hq, hf, rfl⟩
  rcases Dialogue.traces_pure hf with ⟨rfl, hpair⟩
  cases hpair
  exact ⟨answer, by rw [Dialogue.traces_question hq, List.append_nil], rfl, rfl⟩

theorem traces_question_bind {q : Question} {next : q.Answer -> Act α}
    {result : Except MixFailure α} (h : Traces (question q >>= next) s events result s') :
    exists answer after, events = ⟨q, answer⟩ :: after ∧ Traces (next answer) s after result s' := by
  rcases traces_bind h with
    ⟨f, hquestion, _⟩ | ⟨before, answer, between, after, hquestion, hnext, rfl⟩
  · rcases traces_question hquestion with ⟨_, _, hresult, _⟩
    cases hresult
  · rcases traces_question hquestion with ⟨_, rfl, hresult, rfl⟩
    cases hresult
    exact ⟨answer, after, rfl, hnext⟩

theorem traces_unlessCancelled {next : Act α} {result : Except MixFailure α}
    (h : Traces (do
      if ← question .cancelled then throw .cancelled
      next) s events result s') :
    (events = [⟨.cancelled, true⟩] ∧ result = .error .cancelled ∧ s' = s) ∨
      exists after, events = ⟨.cancelled, false⟩ :: after ∧ Traces next s after result s' := by
  rcases traces_question_bind h with ⟨answer, after, rfl, hanswer⟩
  cases answer with
  | true =>
      rcases traces_bind hanswer with ⟨f, hthrow, rfl⟩ | ⟨_, _, _, _, hthrow, _, _⟩
      · rcases traces_throw hthrow with ⟨rfl, hf, rfl⟩
        cases hf
        exact .inl ⟨rfl, rfl, rfl⟩
      · rcases traces_throw hthrow with ⟨_, hf, _⟩
        cases hf
  | false => exact .inr ⟨after, rfl, hanswer⟩

theorem traces_ofStage {stage : Stage α} {result : Except MixFailure (Except Departure α)}
    (h : Traces (ofStage stage) s events result s') :
    exists r, Stage.Traces stage events r ∧ result = .ok r ∧ s' = s := by
  have hlifted : Dialogue.Traces ((stage.run >>= fun r => pure (r, s)) >>= fun (r, t) =>
      pure (Except.ok r, t)) events (result, s') := h
  rcases Dialogue.traces_bind hlifted with ⟨before, ⟨r, t⟩, after, hboth, hf, rfl⟩
  rcases Dialogue.traces_bind hboth with ⟨first, r', last, hstage, hlast, rfl⟩
  rcases Dialogue.traces_pure hf with ⟨rfl, hpair⟩
  rcases Dialogue.traces_pure hlast with ⟨rfl, hpair'⟩
  cases hpair
  cases hpair'
  rw [List.append_nil, List.append_nil]
  exact ⟨r, hstage, rfl, rfl⟩

/-! ### Putting traces together -/

section Forward

variable {α β : Type} {f : α -> Act β} {s t s' : Session} {before after : List Exchange}
  {result : Except MixFailure β}

theorem Traces.bind {x : Act α} {a : α} (hx : Traces x s before (.ok a) t)
    (hf : Traces (f a) t after result s') : Traces (x >>= f) s (before ++ after) result s' :=
  Dialogue.Traces.bind hx hf

theorem Traces.bind_error {x : Act α} {e : MixFailure} (hx : Traces x s before (.error e) s') :
    Traces (x >>= f) s before (.error e) s' := by
  have hend : Dialogue.Traces
      (pure (Except.error e, s') : Dialogue (Except MixFailure β × Session)) []
      (.error e, s') := .done _
  rw [← List.append_nil before]
  exact Dialogue.Traces.bind hx hend

theorem Traces.check_bind {ε : Type} {failure : ε -> MixFailure} {y : Except ε α} {a : α}
    (hy : y = .ok a) (hf : Traces (f a) s after result s') :
    Traces (check failure y >>= f) s after result s' := by
  subst hy
  exact hf

theorem Traces.get_bind {next : Session -> Act β} (h : Traces (next s) s after result s') :
    Traces (get >>= next) s after result s' := h

theorem Traces.set_bind {next : PUnit -> Act β} (h : Traces (next ⟨⟩) t after result s') :
    Traces (set t >>= next) s after result s' := h

theorem Traces.modify_bind {change : Session -> Session} {next : PUnit -> Act β}
    (h : Traces (next ⟨⟩) (change s) after result s') :
    Traces (modify change >>= next) s after result s' := h

theorem Traces.question_bind {q : Question} {answer : q.Answer} {next : q.Answer -> Act β}
    (h : Traces (next answer) s after result s') :
    Traces (question q >>= next) s (⟨q, answer⟩ :: after) result s' :=
  .ask _ _ _ _ _ h

theorem Traces.ofStage {stage : Stage α} {r : Except Departure α}
    (h : Stage.Traces stage after r) : Traces (Act.ofStage stage) s after (.ok r) s := by
  have hlift : Dialogue.Traces (stage.run >>= fun r => pure (r, s)) (after ++ []) (r, s) :=
    Dialogue.Traces.bind h (.done _)
  rw [List.append_nil] at hlift
  rw [← List.append_nil after]
  exact Dialogue.Traces.bind hlift (.done _)

end Forward

end Act

/-!
## Judging messages by the past
-/

/-- Whether an exchange is good after the past, given which messages may be sent
when. -/
def Judged (good : List Exchange -> (kind : Kind) -> kind.Message -> Prop) (past : List Exchange) :
    Exchange -> Prop
  | ⟨.send kind m _, _⟩ => good past kind m
  | _ => True

/-- Every message among the exchanges is good after all that precedes it. -/
def EverySend (good : List Exchange -> (kind : Kind) -> kind.Message -> Prop)
    (past : List Exchange) : List Exchange -> Prop
  | [] => True
  | e :: events => Judged good past e ∧ EverySend good (past ++ [e]) events

def sentKind? : Question -> Option Kind
  | .send kind _ _ => some kind
  | _ => none

def Unsent (events : List Exchange) : Prop :=
  forall e, e ∈ events -> sentKind? e.question = none

section EverySend

variable {good : List Exchange -> (kind : Kind) -> kind.Message -> Prop} {past : List Exchange}

theorem EverySend.append {first last : List Exchange} (hfirst : EverySend good past first)
    (hlast : EverySend good (past ++ first) last) : EverySend good past (first ++ last) := by
  induction first generalizing past with
  | nil =>
      rw [List.append_nil] at hlast
      exact hlast
  | cons e first ih =>
      constructor
      · exact hfirst.left
      · apply ih hfirst.right
        rw [List.append_assoc]
        exact hlast

/-- The message at a place in the exchanges is good after what precedes it. -/
theorem EverySend.send {events before after : List Exchange} {kind : Kind} {m : kind.Message}
    {limit : Nat} {answer : Except FrameError Unit} (h : EverySend good past events)
    (hevents : events = before ++ ⟨.send kind m limit, answer⟩ :: after) :
    good (past ++ before) kind m := by
  induction before generalizing past events with
  | nil =>
      subst hevents
      rw [List.append_nil]
      exact h.left
  | cons e before ih =>
      subst hevents
      have hrest := ih h.right rfl
      rw [List.append_assoc] at hrest
      exact hrest

theorem everySend_of_unsent {events : List Exchange} (h : Unsent events) :
    EverySend good past events := by
  induction events generalizing past with
  | nil => exact trivial
  | cons e events ih =>
      constructor
      · rcases e with ⟨question, answer⟩
        cases question with
        | send kind m limit => cases h _ List.mem_cons_self
        | draw | marshal | unmarshal | generate | confirm | receive | awaitRoster | cancelled
        | close => exact trivial
      · exact ih fun other hother => h other (List.mem_cons_of_mem e hother)

end EverySend

end Session
end PeerMix
