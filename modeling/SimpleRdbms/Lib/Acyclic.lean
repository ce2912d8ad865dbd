import Mathlib.Data.Finset.Card
import Mathlib.Logic.Relation

/-!
# Relations without a cycle
-/

namespace SimpleRdbms.Lib
open Relation

variable {α : Type*} {r s : α → α → Prop} {a : α}

def Acyclic (r : α → α → Prop) : Prop := ∀ a, ¬ TransGen r a a

namespace Acyclic

theorem empty (none : ∀ a b, ¬ r a b) : Acyclic r := by
  intro a cycle
  obtain ⟨b, edge, _⟩ := TransGen.head'_iff.mp cycle
  exact none a b edge

theorem mono (acyclic : Acyclic r) (fewer : ∀ a b, s a b → r a b) : Acyclic s :=
  fun a cycle => acyclic a (TransGen.mono fewer _ _ cycle)

theorem into_sink (acyclic : Acyclic r) (sink : ∀ b, ¬ s a b) (added : ∀ x y, s x y → r x y ∨ y = a) : Acyclic s := by
  have paths : ∀ x y, TransGen s x y → TransGen r x y ∨ y = a := by
    intro x y path
    induction path with
    | single edge => exact (added _ _ edge).imp_left .single
    | tail _ edge ih =>
      rcases ih with path | rfl
      · exact (added _ _ edge).imp_left path.tail
      · exact absurd edge (sink _)
  intro x cycle
  rcases paths x x cycle with cycle' | rfl
  · exact acyclic x cycle'
  · obtain ⟨y, edge, _⟩ := TransGen.head'_iff.mp cycle
    exact sink y edge

theorem out_of {t : α → Prop} (acyclic : Acyclic r) (apart : ∀ b, t b → ¬ ReflTransGen r b a)
    (added : ∀ x y, s x y → r x y ∨ x = a ∧ t y) : Acyclic s := by
  -- what the targets reach is closed under the new relation too, since the node itself is not in it
  let reached (y : α) := ∃ b, t b ∧ ReflTransGen r b y
  have stays : ∀ x y, reached x → s x y → r x y ∧ reached y := by
    rintro x y ⟨b, target, path⟩ edge
    rcases added x y edge with edge | ⟨rfl, _⟩
    · exact ⟨edge, b, target, path.tail edge⟩
    · exact absurd path (apart b target)
  have inside : ∀ x y, reached x → TransGen s x y → TransGen r x y ∧ reached y := by
    intro x y start path
    induction path with
    | single edge => exact ⟨.single (stays _ _ start edge).1, (stays _ _ start edge).2⟩
    | tail _ edge ih => exact ⟨ih.1.tail (stays _ _ ih.2 edge).1, (stays _ _ ih.2 edge).2⟩
  have paths : ∀ x y, TransGen s x y → TransGen r x y ∨ reached y := by
    intro x y path
    induction path with
    | single edge =>
      rcases added _ _ edge with edge | ⟨_, target⟩
      · exact .inl (.single edge)
      · exact .inr ⟨_, target, .refl⟩
    | tail _ edge ih =>
      rcases ih with path | inReach
      · rcases added _ _ edge with edge | ⟨_, target⟩
        · exact .inl (path.tail edge)
        · exact .inr ⟨_, target, .refl⟩
      · exact .inr (stays _ _ inReach edge).2
  intro x cycle
  rcases paths x x cycle with cycle' | inReach
  · exact acyclic x cycle'
  · exact acyclic x (inside x x inReach cycle).1

/-- Where only finitely many nodes lie between two edges, every way out of a node ends. -/
theorem exists_sink [DecidableEq α] (acyclic : Acyclic r) {nodes : Finset α}
    (inner : ∀ b c, TransGen r a b → r b c → b ∈ nodes) : ∃ b, ReflTransGen r a b ∧ ∀ c, ¬ r b c := by
  induction nodes using Finset.strongInduction generalizing a with
  | H nodes ih =>
    by_cases out : ∃ c, r a c
    · obtain ⟨c, edge⟩ := out
      by_cases further : ∃ d, r c d
      · obtain ⟨d, next⟩ := further
        have member : c ∈ nodes := inner c d (.single edge) next
        obtain ⟨b, path, sink⟩ := ih (nodes.erase c) (Finset.erase_ssubset member) (a := c) fun b e path next =>
          Finset.mem_erase.mpr ⟨fun same => acyclic c (same ▸ path), inner b e (.head edge path) next⟩
        exact ⟨b, .head edge path, sink⟩
      · exact ⟨c, .single edge, not_exists.mp further⟩
    · exact ⟨a, .refl, not_exists.mp out⟩

end Acyclic

end SimpleRdbms.Lib
