import Mathlib.Data.List.Forall2

/-!
# Computations that may fail

What follows from the success of a sequence of steps.
-/

namespace SimpleRdbms.Lib

variable {ε α β : Type}

variable {f : α → Except ε β} {b : β} {a : α}

theorem bind_eq_ok {m : Except ε α} : m >>= f = .ok b ↔ ∃ a, m = .ok a ∧ f a = .ok b := by
  cases m with
  | error err => simp [bind, Except.bind]
  | ok a => simp [bind, Except.bind]

theorem map_eq_ok {m : Except ε α} {f : α → β} : f <$> m = .ok b ↔ ∃ a, m = .ok a ∧ f a = b := by
  cases m with
  | error err => simp [Functor.map, Except.map]
  | ok a => simp [Functor.map, Except.map]

theorem pure_eq_ok {b : α} : (pure a : Except ε α) = .ok b ↔ a = b := by
  simp [pure, Except.pure]

theorem throw_eq_ok {err : ε} : (throw err : Except ε α) = .ok a ↔ False := by
  simp [throw, throwThe, MonadExceptOf.throw]

theorem ok_bind : (.ok a : Except ε α) >>= f = f a := rfl

theorem mapM_eq_ok {l : List α} {results : List β} :
    l.mapM f = .ok results ↔ List.Forall₂ (fun a b => f a = .ok b) l results := by
  induction l generalizing results with
  | nil => rw [List.mapM_nil, pure_eq_ok, List.forall₂_nil_left_iff, eq_comm]
  | cons a rest ih =>
    simp only [List.mapM_cons, bind_eq_ok, pure_eq_ok, ih]
    constructor
    · rintro ⟨b, first, others, mapped, rfl⟩
      exact .cons first mapped
    · rintro (_ | ⟨first, mapped⟩)
      exact ⟨_, first, _, mapped, rfl⟩

theorem mapM_result {l : List α} {results : List β} (mapped : l.mapM f = .ok results)
    (member : b ∈ results) : ∃ a ∈ l, f a = .ok b := by
  have related := mapM_eq_ok.mp mapped
  induction related with
  | nil => cases member
  | @cons a _ _ _ first rest ih =>
    rcases List.mem_cons.mp member with rfl | member
    · exact ⟨a, List.mem_cons_self, first⟩
    · obtain ⟨a, inside, isResult⟩ := ih (mapM_eq_ok.mpr rest) member
      exact ⟨a, List.mem_cons_of_mem _ inside, isResult⟩

theorem optionMapM_eq_ok {o : Option α} {result : Option β} :
    o.mapM f = .ok result ↔ Option.Rel (fun a b => f a = .ok b) o result := by
  cases o with
  | none =>
    simp only [Option.mapM_none, pure_eq_ok]
    exact ⟨fun same => same ▸ .none, fun related => by cases related; rfl⟩
  | some a =>
    simp only [Option.mapM_some, map_eq_ok]
    constructor
    · rintro ⟨b, mapped, rfl⟩
      exact .some mapped
    · rintro (⟨mapped⟩ | _)
      exact ⟨_, mapped, rfl⟩

end SimpleRdbms.Lib
