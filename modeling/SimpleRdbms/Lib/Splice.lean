import Mathlib.Data.List.Basic

/-!
# Overwriting a part of a list

`splice` puts a list in the place of as many elements from a position on. `Stands` says what stands at a position.
-/

namespace SimpleRdbms.Lib

variable {α : Type}

def splice (list : List α) (start : Nat) (patch : List α) : List α :=
  list.take start ++ patch ++ list.drop (start + patch.length)

def Stands (list : List α) (start : Nat) (patch : List α) : Prop :=
  ∀ j < patch.length, list[start + j]? = patch[j]?

section
variable {list patch : List α} {start : Nat} (inside : start + patch.length ≤ list.length)
include inside

theorem length_splice : (splice list start patch).length = list.length := by
  rw [splice, List.length_append, List.length_append, List.length_take, List.length_drop]
  omega

theorem getElem?_splice_inside {i : Nat} (after : start ≤ i) (before : i < start + patch.length) :
    (splice list start patch)[i]? = patch[i - start]? := by
  have front : (list.take start).length = start := List.length_take_of_le (by omega)
  rw [splice, List.getElem?_append_left (by rw [List.length_append, front]; omega),
    List.getElem?_append_right (by omega), front]

theorem getElem?_splice_outside {i : Nat} (outside : i < start ∨ start + patch.length ≤ i) :
    (splice list start patch)[i]? = list[i]? := by
  have front : (list.take start).length = start := List.length_take_of_le (by omega)
  rcases outside with before | after
  · rw [splice, List.append_assoc, List.getElem?_append_left (by omega), List.getElem?_take_of_lt before]
  · rw [splice, List.getElem?_append_right (by rw [List.length_append, front]; omega), List.getElem?_drop,
      List.length_append, front]
    congr 1
    omega

theorem holds_splice : Stands (splice list start patch) start patch := by
  intro j small
  rw [getElem?_splice_inside inside (Nat.le_add_right _ _) (by omega), Nat.add_sub_cancel_left]

theorem Stands.splice {other : List α} {place : Nat} (holds : Stands list place other)
    (apart : place + other.length ≤ start ∨ start + patch.length ≤ place) :
    Stands (splice list start patch) place other := by
  intro j small
  rw [getElem?_splice_outside inside (by omega), holds j small]

theorem splice_splice : splice (splice list start patch) start ((list.drop start).take patch.length) = list := by
  have width : ((list.drop start).take patch.length).length = patch.length := by
    rw [List.length_take, List.length_drop]
    omega
  have room : start + ((list.drop start).take patch.length).length ≤ (splice list start patch).length := by
    rwa [width, length_splice inside]
  apply List.ext_getElem?
  intro i
  by_cases within : start ≤ i ∧ i < start + patch.length
  · rw [getElem?_splice_inside room within.1 (by omega), List.getElem?_take_of_lt (by omega), List.getElem?_drop,
      Nat.add_sub_cancel' within.1]
  · rw [getElem?_splice_outside room (by omega), getElem?_splice_outside inside (by omega)]

end

theorem drop_splice {list : List α} {n : Nat} (inside : n ≤ list.length) (start : Nat) (patch : List α) :
    (splice list (n + start) patch).drop n = splice (list.drop n) start patch := by
  have front : n ≤ (list.take (n + start)).length := by
    rw [List.length_take]
    omega
  rw [splice, splice, List.append_assoc, List.append_assoc, List.drop_append_of_le_length front, List.drop_take,
    Nat.add_sub_cancel_left, List.drop_drop, Nat.add_assoc]

theorem drop_splice_before {list patch : List α} {start n : Nat} (before : start + patch.length ≤ n)
    (inside : n ≤ list.length) : (splice list start patch).drop n = list.drop n := by
  apply List.ext_getElem?
  intro i
  rw [List.getElem?_drop, List.getElem?_drop, getElem?_splice_outside (by omega) (by omega)]

theorem Stands.take_drop {list patch : List α} {start : Nat} (holds : Stands list start patch) :
    (list.drop start).take patch.length = patch := by
  apply List.ext_getElem?
  intro i
  by_cases small : i < patch.length
  · rw [List.getElem?_take_of_lt small, List.getElem?_drop, holds i small]
  · have large := Nat.not_lt.mp small
    rw [List.getElem?_take_eq_none large, List.getElem?_eq_none large]

theorem holds_append_right {front list patch : List α} {start : Nat} (holds : Stands list start patch) :
    Stands (front ++ list) (front.length + start) patch := by
  intro j small
  rw [Nat.add_assoc, List.getElem?_append_right (Nat.le_add_right _ _), Nat.add_sub_cancel_left, holds j small]

end SimpleRdbms.Lib
