import Mathlib.Algebra.BigOperators.Group.List.Basic
import SimpleRdbms.Proof.BTreeShape

namespace SimpleRdbms.Storage
open Lib BTree

namespace BTree

def CAPACITY : Nat := PAGE_SIZE - HEADER_SIZE

def load (lens : List Nat) : Nat := (lens.map (SLOT_SIZE + ·)).sum

@[simp] theorem load_nil : load [] = 0 := rfl

@[simp] theorem load_cons (len : Nat) (lens : List Nat) : load (len :: lens) = SLOT_SIZE + len + load lens := by
  simp [load]

@[simp] theorem load_append (lens lens' : List Nat) : load (lens ++ lens') = load lens + load lens' := by
  simp [load]

theorem load_eq (lens : List Nat) : load lens = lens.length * SLOT_SIZE + lens.sum := by
  induction lens with
  | nil => rfl
  | cons len lens ih =>
    rw [load_cons, ih, List.length_cons, List.sum_cons, Nat.add_mul]
    omega

variable {lens : List Nat} {index n : Nat}

theorem canRebuild_iff : canRebuild lens = true ↔ load lens ≤ CAPACITY := by
  rw [canRebuild, decide_eq_true_iff]
  simp only [load_eq, CAPACITY, HEADER_SIZE, NODE_TYPE_START, PAGE_SIZE, SLOT_SIZE]
  omega

theorem willFit_iff {len : Nat} : willFit lens len = true ↔ load lens + (SLOT_SIZE + len) ≤ CAPACITY := by
  rw [willFit, decide_eq_true_iff]
  simp only [load_eq, CAPACITY, HEADER_SIZE, PAGE_SIZE, SLOT_SIZE]
  omega

theorem load_insertIdx (lens : List Nat) (inside : index ≤ lens.length) (len : Nat) :
    load (lens.insertIdx index len) = load lens + (SLOT_SIZE + len) := by
  induction lens generalizing index with
  | nil =>
    obtain rfl : index = 0 := by simpa using inside
    simp
  | cons first rest ih =>
    cases index with
    | zero =>
      simp only [List.insertIdx_zero, load_cons]
      omega
    | succ index =>
      rw [List.insertIdx_succ_cons, load_cons, ih (by simpa using inside), load_cons]
      omega

theorem load_take_le (lens : List Nat) {m : Nat} (fewer : n ≤ m) : load (lens.take n) ≤ load (lens.take m) := by
  have split : lens.take m = lens.take n ++ (lens.take m).drop n := by
    conv_lhs => rw [← List.take_append_drop n (lens.take m)]
    rw [List.take_take, Nat.min_eq_left fewer]
  rw [split, load_append]
  exact Nat.le_add_right _ _

theorem load_drop_le (lens : List Nat) {m : Nat} (fewer : n ≤ m) : load (lens.drop m) ≤ load (lens.drop n) := by
  have split : lens.drop n = (lens.drop n).take (m - n) ++ lens.drop m := by
    conv_lhs => rw [← List.take_append_drop (m - n) (lens.drop n)]
    rw [List.drop_drop]
    congr 2
    omega
  rw [split, load_append]
  exact Nat.le_add_left _ _

theorem load_take_add_drop (lens : List Nat) (n : Nat) : load (lens.take n) + load (lens.drop n) = load lens := by
  rw [← load_append, List.take_append_drop]

theorem reachTarget_spec {target : Nat} {running point : Nat}
    (found : reachTarget target lens index running = some point) :
    ∃ n < lens.length, point = index + n ∧ (n = 0 ∨ running + load (lens.take n) < target) ∧
      target ≤ running + load (lens.take (n + 1)) := by
  induction lens generalizing index running with
  | nil => cases found
  | cons len rest ih =>
    simp only [reachTarget] at found
    split at found
    · rename_i reached
      cases found
      exact ⟨0, by simp, rfl, .inl rfl, by simpa using reached⟩
    · rename_i short
      obtain ⟨n, inside, rfl, below, above⟩ := ih found
      refine ⟨n + 1, by simpa using inside, by omega, .inr ?_, ?_⟩
      · rw [List.take_succ_cons, load_cons]
        rcases below with rfl | below
        · simp only [List.take_zero, load_nil]
          omega
        · omega
      · rw [List.take_succ_cons, load_cons]
        omega

theorem reachTarget_none {target : Nat} {running : Nat}
    (missed : reachTarget target lens index running = none) : lens = [] ∨ running + load lens < target := by
  induction lens generalizing index running with
  | nil => exact .inl rfl
  | cons len rest ih =>
    simp only [reachTarget] at missed
    split at missed
    · cases missed
    · rename_i short
      refine .inr ?_
      rw [load_cons]
      rcases ih missed with rfl | below
      · simp only [load_nil]
        omega
      · omega

theorem byteBalancedSplitPoint_spec (some : lens ≠ []) :
    byteBalancedSplitPoint lens < lens.length ∧ load (lens.take (byteBalancedSplitPoint lens)) < load lens / 2 ∧
      load lens / 2 ≤ load (lens.take (byteBalancedSplitPoint lens + 1)) := by
  unfold byteBalancedSplitPoint
  cases found : reachTarget ((lens.map (SLOT_SIZE + ·)).sum / 2) lens 0 0 with
  | none =>
    rcases reachTarget_none found with rfl | below
    · exact absurd rfl some
    · change 0 + load lens < load lens / 2 at below
      omega
  | some point =>
    obtain ⟨n, inside, rfl, below, above⟩ := reachTarget_spec found
    change n = 0 ∨ 0 + load (lens.take n) < load lens / 2 at below
    change load lens / 2 ≤ _ at above
    simp only [Option.getD_some, Nat.zero_add] at *
    refine ⟨inside, below.elim (fun first => ?_) id, above⟩
    subst first
    obtain ⟨len, rest, rfl⟩ := List.exists_cons_of_ne_nil some
    simp only [List.take_zero, load_nil, load_cons, SLOT_SIZE]
    omega

theorem load_single_le {limit : Nat} (each : ∀ len ∈ lens, SLOT_SIZE + len ≤ limit)
    (last : lens.length ≤ n + 1) : load (lens.drop n) ≤ limit := by
  cases rest : lens.drop n with
  | nil => simp
  | cons len others =>
    have member : len ∈ lens := List.mem_of_mem_drop (by rw [rest]; exact List.mem_cons_self)
    have shorter := congrArg List.length rest
    rw [List.length_drop, List.length_cons] at shorter
    obtain rfl : others = [] := List.eq_nil_of_length_eq_zero (by omega)
    simpa using each len member

theorem load_take_one_le {limit : Nat} (each : ∀ len ∈ lens, SLOT_SIZE + len ≤ limit) :
    load (lens.take 1) ≤ limit := by
  cases lens with
  | nil => simp
  | cons len others => simpa using each len (by simp)

theorem internalSplitPoint_fits (some : lens ≠ []) (each : ∀ len ∈ lens, SLOT_SIZE + len ≤ CAPACITY)
    (total : load lens ≤ 2 * CAPACITY) :
    internalSplitPoint lens < lens.length ∧ load (lens.take (internalSplitPoint lens)) ≤ CAPACITY ∧
      load (lens.drop (internalSplitPoint lens + 1)) ≤ CAPACITY := by
  obtain ⟨inside, below, above⟩ := byteBalancedSplitPoint_spec some
  have halves := load_take_add_drop lens (byteBalancedSplitPoint lens + 1)
  unfold internalSplitPoint
  generalize byteBalancedSplitPoint lens = mid at *
  have positive : 0 < lens.length := List.length_pos_iff.mpr some
  have single := load_take_one_le each
  simp only
  split
  · rename_i three
    refine ⟨by omega, ?_, ?_⟩
    · by_cases clamped : mid = 0
      · have one : min (max mid 1) (lens.length - 2) = 1 := by omega
        rw [one]
        exact single
      · have := load_take_le lens (show min (max mid 1) (lens.length - 2) ≤ mid by omega)
        omega
    · by_cases clamped : mid = lens.length - 1
      · refine load_single_le each ?_
        omega
      · have := load_drop_le lens (show mid + 1 ≤ min (max mid 1) (lens.length - 2) + 1 by omega)
        omega
  · refine ⟨by omega, ?_, ?_⟩
    · have := load_take_le lens (show min mid (lens.length - 1) ≤ 1 by omega)
      omega
    · refine load_single_le each ?_
      omega

/-- The entry in the middle of the bytes, together with those before it, does not fit on a page. -/
def Overfull (lens : List Nat) : Prop :=
  ∃ n < lens.length - 1, load (lens.take n) < load lens / 2 ∧ CAPACITY < load (lens.take (n + 1))

instance (lens : List Nat) : Decidable (Overfull lens) :=
  inferInstanceAs (Decidable (∃ n < lens.length - 1,
    load (lens.take n) < load lens / 2 ∧ CAPACITY < load (lens.take (n + 1))))

theorem leafSplitPoint_fits_iff (some : lens ≠ []) (each : ∀ len ∈ lens, SLOT_SIZE + len ≤ CAPACITY)
    (total : load lens ≤ 2 * CAPACITY) :
    load (lens.take (leafSplitPoint lens)) ≤ CAPACITY ∧ load (lens.drop (leafSplitPoint lens)) ≤ CAPACITY ↔
      ¬ Overfull lens := by
  obtain ⟨inside, below, above⟩ := byteBalancedSplitPoint_spec some
  have halves := load_take_add_drop lens (byteBalancedSplitPoint lens + 1)
  unfold leafSplitPoint
  generalize byteBalancedSplitPoint lens = mid at *
  by_cases clamped : mid + 1 ≤ lens.length - 1
  · rw [show min (max (mid + 1) 1) (lens.length - 1) = mid + 1 by omega]
    refine ⟨fun fits ⟨n, _, less, more⟩ => ?_, fun fits => ⟨?_, by omega⟩⟩
    · have before : n ≤ mid := by
        by_contra beyond
        have := load_take_le lens (show mid + 1 ≤ n by omega)
        omega
      have := load_take_le lens (show n + 1 ≤ mid + 1 by omega)
      omega
    · by_contra large
      exact fits ⟨mid, by omega, below, by omega⟩
  · have last := load_single_le (n := min (max (mid + 1) 1) (lens.length - 1)) each (by omega)
    have front := load_take_le lens (show min (max (mid + 1) 1) (lens.length - 1) ≤ mid by omega)
    refine ⟨fun _ ⟨n, inside', _, more⟩ => ?_, fun _ => ⟨by omega, last⟩⟩
    have := load_take_le lens (show n + 1 ≤ mid by omega)
    omega

theorem not_overfull {limit : Nat} (each : ∀ len ∈ lens, SLOT_SIZE + len ≤ limit) (third : 3 * limit ≤ CAPACITY)
    (total : load lens ≤ CAPACITY + limit) : ¬ Overfull lens := by
  rintro ⟨n, inside, less, more⟩
  have last := each _ (List.getElem_mem (show n < lens.length by omega))
  rw [List.take_add_one, List.getElem?_eq_getElem (by omega), load_append] at more
  simp only [Option.toList_some, load_cons, load_nil] at more
  omega

end BTree

end SimpleRdbms.Storage
