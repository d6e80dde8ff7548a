/-!
# Traversals of lists

A list is traversed element by element in a monad.  A traversal in which no
element fails is a map, one that fails fails at one of its elements, and one that
succeeds has one result for each element.
-/

namespace PeerMix

/-!
## Traversals that never fail
-/

theorem mapM_eq_pure {m : Type -> Type} [Monad m] [LawfulMonad m] {α β : Type} {f : α -> m β}
    {g : α -> β} {xs : List α} (h : forall x, x ∈ xs -> f x = pure (g x)) :
    xs.mapM f = pure (xs.map g) := by
  induction xs with
  | nil => rfl
  | cons x xs ih =>
      rw [List.mapM_cons, h x List.mem_cons_self, pure_bind,
        ih fun y hy => h y (List.mem_cons_of_mem x hy), pure_bind]
      rfl

theorem mapM_eq_ok {ε α β : Type} {f : α -> Except ε β} {g : α -> β} {xs : List α}
    (h : forall x, x ∈ xs -> f x = .ok (g x)) : xs.mapM f = .ok (xs.map g) :=
  mapM_eq_pure h

theorem mapM_eq_some {α β : Type} {f : α -> Option β} {g : α -> β} {xs : List α}
    (h : forall x, x ∈ xs -> f x = some (g x)) : xs.mapM f = some (xs.map g) :=
  mapM_eq_pure h

/-- What holds of every single result holds of all of them. -/
theorem exists_mapM_eq_ok {ε α β : Type} {f : α -> Except ε β} {good : β -> Prop} {xs : List α}
    (h : forall x, x ∈ xs -> exists y, f x = .ok y ∧ good y) :
    exists ys, xs.mapM f = .ok ys ∧ ys.length = xs.length ∧ forall y, y ∈ ys -> good y := by
  induction xs with
  | nil => exact ⟨[], rfl, rfl, nofun⟩
  | cons x xs ih =>
      rcases h x List.mem_cons_self with ⟨y, hy, hgood⟩
      rcases ih fun other hother => h other (List.mem_cons_of_mem x hother) with
        ⟨ys, hys, hlength, hgoods⟩
      refine ⟨y :: ys, ?_, ?_, ?_⟩
      · rw [List.mapM_cons, hy, hys]
        rfl
      · rw [List.length_cons, List.length_cons, hlength]
      · intro other hother
        rcases List.mem_cons.mp hother with rfl | hother
        · exact hgood
        · exact hgoods other hother

/-- What every element is read back from gives the list back. -/
theorem mapM_map_eq_ok {ε α β : Type} {f : β -> Except ε α} {g : α -> β} {xs : List α}
    (h : forall x, x ∈ xs -> f (g x) = .ok x) : (xs.map g).mapM f = .ok xs := by
  have hid : xs.mapM (f ∘ g) = .ok (xs.map id) := mapM_eq_ok h
  rw [List.mapM_map, hid, List.map_id]

/-!
## Failure and success
-/

theorem mapM_eq_error {ε α β : Type} {f : α -> Except ε β} {xs : List α} {e : ε}
    (h : xs.mapM f = .error e) : exists x, x ∈ xs ∧ f x = .error e := by
  induction xs with
  | nil => cases h
  | cons x xs ih =>
      rw [List.mapM_cons] at h
      cases hhead : f x with
      | error fault =>
          rw [hhead] at h
          cases h
          exact ⟨x, List.mem_cons_self, hhead⟩
      | ok y =>
          rw [hhead] at h
          cases htail : xs.mapM f with
          | error fault =>
              rw [htail] at h
              cases h
              rcases ih htail with ⟨other, hother, hfault⟩
              exact ⟨other, List.mem_cons_of_mem x hother, hfault⟩
          | ok ys =>
              rw [htail] at h
              cases h

theorem mapM_cons_eq_ok {ε α β : Type} {f : α -> Except ε β} {x : α} {xs : List α} {ys : List β}
    (h : (x :: xs).mapM f = .ok ys) :
    exists y rest, f x = .ok y ∧ xs.mapM f = .ok rest ∧ ys = y :: rest := by
  rw [List.mapM_cons] at h
  cases hhead : f x with
  | error fault =>
      rw [hhead] at h
      cases h
  | ok y =>
      rw [hhead] at h
      cases htail : xs.mapM f with
      | error fault =>
          rw [htail] at h
          cases h
      | ok rest =>
          rw [htail] at h
          cases h
          exact ⟨y, rest, rfl, rfl, rfl⟩

theorem length_of_mapM_eq_ok {ε α β : Type} {f : α -> Except ε β} {xs : List α} {ys : List β}
    (h : xs.mapM f = .ok ys) : ys.length = xs.length := by
  induction xs generalizing ys with
  | nil =>
      cases h
      rfl
  | cons x xs ih =>
      rcases mapM_cons_eq_ok h with ⟨y, rest, _, hrest, rfl⟩
      rw [List.length_cons, List.length_cons, ih hrest]

theorem forall_of_mapM_eq_ok {ε α β : Type} {f : α -> Except ε β} {xs : List α} {ys : List β}
    (h : xs.mapM f = .ok ys) : forall x, x ∈ xs -> exists y, f x = .ok y := by
  induction xs generalizing ys with
  | nil => exact nofun
  | cons x xs ih =>
      rcases mapM_cons_eq_ok h with ⟨y, rest, hhead, hrest, _⟩
      intro other hother
      rcases List.mem_cons.mp hother with rfl | hother
      · exact ⟨y, hhead⟩
      · exact ih hrest other hother

end PeerMix
