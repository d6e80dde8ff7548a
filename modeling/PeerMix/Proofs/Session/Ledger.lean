import Mathlib.Data.List.Induction
import PeerMix.Proofs.Session.Runs

/-!
# A ledger of draws

Whether a session has to draw new secrets can be told from what it has said.
The ledger is a fold over the exchanges: it keeps the last draw that has been
completed, the key exchanges that have been sent since, and whether the secrets
have been given away or another draw has been tried in vain.
-/

namespace PeerMix
namespace Session

open Wire Dialogue

structure Ledger where
  /-- The seed, if a successful draw of one is the latest exchange. -/
  pending : Option Bytes
  /-- The seed and the messages of the last draw that has been completed. -/
  completed : Option (Bytes × List Bytes)
  /-- The key exchanges that have been sent since then. -/
  shown : List KeyExchange
  /-- Whether its secrets have been given away since then. -/
  revealed : Bool
  /-- Whether the latest draw has not been completed. -/
  failed : Bool

namespace Ledger

def blank : Ledger :=
  { pending := none, completed := none, shown := [], revealed := false, failed := false }

/-- No draw has been completed, or the last one is known or has been followed by
one that has failed. -/
def Due (l : Ledger) : Prop :=
  l.completed = none ∨ l.revealed = true ∨ l.failed = true

def settle (l : Ledger) : Ledger :=
  { l with pending := none }

def draw (l : Ledger) (seed : Option Bytes) : Ledger :=
  { l with pending := seed, failed := true }

def complete (l : Ledger) (seed : Bytes) (messages : List Bytes) : Ledger :=
  { l with
    pending := none, completed := some (seed, messages), shown := [], revealed := false,
    failed := false }

def publish (l : Ledger) (ke : KeyExchange) : Ledger :=
  { l with pending := none, shown := l.shown ++ [ke] }

def reveal (l : Ledger) : Ledger :=
  { l with pending := none, revealed := true }

/-- Takes in generated messages, which complete a draw if there are as many as
there should be and all of the right size. -/
def generate (count : Nat) (l : Ledger) : Except PayloadError (List Bytes) -> Ledger
  | .error _ => l.settle
  | .ok messages =>
      match l.pending, checkMessages count messages with
      | some seed, .ok _ => l.complete seed messages
      | _, _ => l.settle

/-- Takes in one exchange of a session with `count` messages. -/
def enter (count : Nat) (l : Ledger) : Exchange -> Ledger
  | ⟨.draw _, .error _⟩ => l.draw none
  | ⟨.draw _, .ok seed⟩ => l.draw (some seed)
  | ⟨.generate, answer⟩ => l.generate count answer
  | ⟨.send .keyExchange ke _, _⟩ => l.publish ke
  | ⟨.send .clientFailure _ _, _⟩ => l.reveal
  | ⟨.send .revealSecrets _ _, _⟩ => l.reveal
  | _ => l.settle

def record (count : Nat) (l : Ledger) (events : List Exchange) : Ledger :=
  events.foldl (enter count) l

end Ledger

/-- The ledger of a session with `count` messages after all its exchanges. -/
def ledger (count : Nat) (events : List Exchange) : Ledger :=
  Ledger.blank.record count events

/-!
## Exchanges that the ledger takes no notice of
-/

def concernsSecrets : Question -> Bool
  | .draw _ => true
  | .generate => true
  | .send .keyExchange _ _ => true
  | .send .clientFailure _ _ => true
  | .send .revealSecrets _ _ => true
  | _ => false

def Idle (events : List Exchange) : Prop :=
  forall e, e ∈ events -> concernsSecrets e.question = false

theorem idle_nil : Idle [] := by
  simp [Idle]

theorem Idle.append {first last : List Exchange} (hfirst : Idle first) (hlast : Idle last) :
    Idle (first ++ last) := by
  intro e he
  rcases List.mem_append.mp he with he | he
  · exact hfirst e he
  · exact hlast e he

namespace Ledger

variable {count : Nat} {l : Ledger}

theorem enter_idle {e : Exchange} (h : concernsSecrets e.question = false) :
    l.enter count e = l.settle := by
  rcases e with ⟨question, answer⟩
  cases question with
  | draw => cases h
  | generate => cases h
  | send kind m limit =>
      cases kind with
      | keyExchange => cases h
      | clientFailure => cases h
      | revealSecrets => cases h
      | _ => rfl
  | _ => rfl

theorem settle_of_pending (h : l.pending = none) : l.settle = l := by
  rcases l with ⟨pending, completed, shown, revealed, failed⟩
  cases h
  rfl

theorem record_append (first last : List Exchange) :
    l.record count (first ++ last) = (l.record count first).record count last :=
  List.foldl_append

theorem record_idle {events : List Exchange} (h : Idle events) (hl : l.pending = none) :
    l.record count events = l := by
  induction events with
  | nil => rfl
  | cons e events ih =>
      have he : l.enter count e = l := by
        rw [enter_idle (h e List.mem_cons_self), settle_of_pending hl]
      show (l.enter count e).record count events = l
      rw [he]
      exact ih fun other hother => h other (List.mem_cons_of_mem e hother)

end Ledger

theorem ledger_append (count : Nat) (first last : List Exchange) :
    ledger count (first ++ last) = (ledger count first).record count last :=
  Ledger.record_append first last

/-!
## Draws on record
-/

namespace Ledger

variable {count : Nat} {l : Ledger}

/-- What an exchange can do to the last completed draw. -/
theorem enter_cases (count : Nat) (l : Ledger) (e : Exchange) :
    (exists seed messages, l.pending = some seed ∧ e = ⟨.generate, .ok messages⟩ ∧
      checkMessages count messages = .ok () ∧ l.enter count e = l.complete seed messages) ∨
    ((l.enter count e).completed = l.completed ∧
      ((l.enter count e).revealed = false -> l.revealed = false) ∧
        forall seed, (l.enter count e).pending = some seed -> exists n, e = ⟨.draw n, .ok seed⟩) := by
  by_cases hidle : concernsSecrets e.question = false
  · rw [enter_idle hidle]
    exact .inr ⟨rfl, fun h => h, nofun⟩
  rcases e with ⟨question, answer⟩
  cases question with
  | draw n =>
      cases answer with
      | error reason => exact .inr ⟨rfl, fun h => h, nofun⟩
      | ok seed =>
          refine .inr ⟨rfl, fun h => h, ?_⟩
          intro seed' hseed
          cases hseed
          exact ⟨n, rfl⟩
  | generate =>
      cases answer with
      | error e => exact .inr ⟨rfl, fun h => h, nofun⟩
      | ok messages =>
          show (exists seed messages', _ ∧ _ ∧ _ ∧ l.generate count (.ok messages) = _) ∨
            ((l.generate count (.ok messages)).completed = _ ∧
              ((l.generate count (.ok messages)).revealed = _ -> _) ∧
                forall seed, (l.generate count (.ok messages)).pending = _ -> _)
          unfold generate
          dsimp only
          split
          · rename_i seed _ hpending hchecked
            exact .inl ⟨seed, messages, hpending, rfl, hchecked, rfl⟩
          · exact .inr ⟨rfl, fun h => h, nofun⟩
  | send kind m limit =>
      cases kind with
      | keyExchange => exact .inr ⟨rfl, fun h => h, nofun⟩
      | clientFailure => exact .inr ⟨rfl, nofun, nofun⟩
      | revealSecrets => exact .inr ⟨rfl, nofun, nofun⟩
      | _ => exact absurd rfl hidle
  | _ => exact absurd rfl hidle

/-- The two exchanges of a draw that has given these. -/
def drawn (n : Nat) (seed : Bytes) (messages : List Bytes) : List Exchange :=
  [⟨.draw n, .ok seed⟩, ⟨.generate, .ok messages⟩]

/-- Secrets that have been given away are out of use until a draw is completed,
and it is that draw which is on record. -/
theorem record_redrawn {events : List Exchange} (hl : l.pending = none)
    (hknown : l.revealed = true) :
    (forall seed, (l.record count events).pending = some seed ->
      exists before n, events = before ++ [⟨.draw n, .ok seed⟩]) ∧
    ((l.record count events).revealed = false ->
      exists before n seed messages after, events = before ++ drawn n seed messages ++ after ∧
        (l.record count events).completed = some (seed, messages)) := by
  -- From the end: the last exchange completes a draw that the one before it has
  -- begun, or it leaves the completed draw as it was.
  induction events using List.reverseRecOn with
  | nil =>
      constructor
      · intro seed hseed
        cases hl.symm.trans hseed
      · intro hrevealed
        cases hknown.symm.trans hrevealed
  | append_singleton events e ih =>
      rcases ih with ⟨hpending, hdrawn⟩
      rw [record_append]
      show (forall seed, ((l.record count events).enter count e).pending = _ -> _) ∧
        (((l.record count events).enter count e).revealed = _ -> exists before n seed messages after,
          _ ∧ ((l.record count events).enter count e).completed = _)
      rcases enter_cases count (l.record count events) e with
        ⟨seed, messages, hseed, rfl, _, hentered⟩ | ⟨hcompleted, hrevealed, hentered⟩
      · rw [hentered]
        constructor
        · exact nofun
        · intro _hrevealed
          rcases hpending seed hseed with ⟨before, n, rfl⟩
          exact ⟨before, n, seed, messages, [], by simp [drawn], rfl⟩
      · constructor
        · intro seed hseed
          rcases hentered seed hseed with ⟨n, rfl⟩
          exact ⟨events, n, rfl⟩
        · intro hnow
          rcases hdrawn (hrevealed hnow) with ⟨before, n, seed, messages, after, rfl, hlast⟩
          refine ⟨before, n, seed, messages, after ++ [e], ?_, ?_⟩
          · rw [List.append_assoc _ after]
          · rw [hcompleted, hlast]

/-- The messages of the last completed draw are as they should be. -/
def Checked (count : Nat) (l : Ledger) : Prop :=
  forall seed messages, l.completed = some (seed, messages) -> checkMessages count messages = .ok ()

theorem Checked.enter (h : l.Checked count) (e : Exchange) : (l.enter count e).Checked count := by
  intro seed messages hcompleted
  rcases enter_cases count l e with ⟨_, _, _, _, hchecked, hentered⟩ | ⟨hsame, _⟩
  · rw [hentered] at hcompleted
    cases hcompleted
    exact hchecked
  · rw [hsame] at hcompleted
    exact h seed messages hcompleted

theorem Checked.record (h : l.Checked count) (events : List Exchange) :
    (l.record count events).Checked count := by
  induction events generalizing l with
  | nil => exact h
  | cons e events ih => exact ih (h.enter e)

end Ledger

theorem checked_ledger (count : Nat) (events : List Exchange) :
    (ledger count events).Checked count := by
  apply Ledger.Checked.record
  intro seed messages hcompleted
  cases hcompleted

end Session
end PeerMix
