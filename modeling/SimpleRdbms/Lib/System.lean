import Mathlib.Data.Option.Basic

/-!
# Labelled transition systems

`ReachableBy ok` are the states of the runs all of whose steps satisfy `ok`.
-/

namespace SimpleRdbms.Lib

structure System (σ α : Type*) where
  init : σ → Prop
  step : σ → α → Option σ

namespace System
variable {σ α : Type*} (M : System σ α)

inductive ReachableBy (ok : σ → α → Prop) : σ → Prop
  | start {s : σ} : M.init s → ReachableBy ok s
  | next {s s' : σ} {a : α} : ReachableBy ok s → ok s a → M.step s a = some s' → ReachableBy ok s'

abbrev Reachable : σ → Prop := M.ReachableBy fun _ _ => True

variable {M}

theorem ReachableBy.invariant {ok : σ → α → Prop} {P : σ → Prop} (initial : ∀ s, M.init s → P s)
    (preserved : ∀ s a s', P s → ok s a → M.step s a = some s' → P s')
    {s : σ} (reachable : M.ReachableBy ok s) : P s := by
  induction reachable with
  | start h => exact initial _ h
  | next _ allowed step ih => exact preserved _ _ _ ih allowed step

theorem ReachableBy.mono {ok more : σ → α → Prop} (implies : ∀ s a, ok s a → more s a) {s : σ}
    (reachable : M.ReachableBy ok s) : M.ReachableBy more s := by
  induction reachable with
  | start h => exact .start h
  | next _ allowed step ih => exact .next ih (implies _ _ allowed) step

variable (M)

def run : σ → List α → Option σ
  | s, [] => some s
  | s, a :: rest => (M.step s a).bind fun s' => run s' rest

variable {M}

theorem ReachableBy.run {ok : σ → α → Prop} {s s' : σ} {labels : List α}
    (reachable : M.ReachableBy ok s) (executed : M.run s labels = some s')
    (allowed : ∀ a ∈ labels, ∀ s, ok s a) : M.ReachableBy ok s' := by
  induction labels generalizing s with
  | nil =>
    simp only [System.run, Option.some.injEq] at executed
    exact executed ▸ reachable
  | cons a rest ih =>
    obtain ⟨middle, first, others⟩ := Option.bind_eq_some_iff.mp executed
    refine ih (.next reachable (allowed a List.mem_cons_self s) first) others ?_
    exact fun b member => allowed b (List.mem_cons_of_mem a member)

variable (M)

/-- A run that stops at the first step `ok` does not allow. -/
def runBy (ok : σ → α → Prop) [∀ s a, Decidable (ok s a)] : σ → List α → Option σ
  | s, [] => some s
  | s, a :: rest => if ok s a then (M.step s a).bind fun s' => runBy ok s' rest else none

variable {M}

theorem ReachableBy.runBy {ok : σ → α → Prop} [∀ s a, Decidable (ok s a)] {s s' : σ} {labels : List α}
    (reachable : M.ReachableBy ok s) (executed : M.runBy ok s labels = some s') : M.ReachableBy ok s' := by
  induction labels generalizing s with
  | nil =>
    simp only [System.runBy, Option.some.injEq] at executed
    exact executed ▸ reachable
  | cons a rest ih =>
    simp only [System.runBy] at executed
    split at executed
    · rename_i allowed
      obtain ⟨middle, first, others⟩ := Option.bind_eq_some_iff.mp executed
      exact ih (.next reachable allowed first) others
    · cases executed

end System

end SimpleRdbms.Lib
