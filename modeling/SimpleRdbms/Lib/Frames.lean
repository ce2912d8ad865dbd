import Mathlib.Data.List.Basic
import Mathlib.Tactic.Common

/-!
# Streams of self-delimiting frames
-/

namespace SimpleRdbms.Lib

structure Framing (α β : Type*) where
  encode : α → List β
  decode : List β → Option (α × Nat)
  Valid : α → Prop
  nonempty : ∀ a, encode a ≠ []
  whole : ∀ a rest, Valid a → decode (encode a ++ rest) = some (a, (encode a).length)
  torn : ∀ a part, Valid a → part <+: encode a → part ≠ encode a → decode part = none

def scan {α β : Type*} (decode : List β → Option (α × Nat)) : Nat → List β → List α × List β
  | 0, stream => ([], stream)
  | fuel + 1, stream =>
    match decode stream with
    | none => ([], stream)
    | some (value, size) =>
      let rest := scan decode fuel (stream.drop size)
      (value :: rest.1, rest.2)

namespace Framing
variable {α β : Type*} (F : Framing α β)

def encodeAll (values : List α) : List β := values.flatMap F.encode

@[simp] theorem encodeAll_nil : F.encodeAll [] = [] := rfl

@[simp] theorem encodeAll_cons (value : α) (values : List α) :
    F.encodeAll (value :: values) = F.encode value ++ F.encodeAll values := rfl

@[simp] theorem encodeAll_append (first second : List α) :
    F.encodeAll (first ++ second) = F.encodeAll first ++ F.encodeAll second :=
  List.flatMap_append

def Remnant (part : List β) : Prop := part = [] ∨ ∃ a, F.Valid a ∧ part <+: F.encode a ∧ part ≠ F.encode a

variable {F}

theorem length_pos (value : α) : 0 < (F.encode value).length := List.length_pos_iff.mpr (F.nonempty value)

theorem scan_encodeAll {values : List α} {part : List β} {fuel : Nat} (valid : ∀ a ∈ values, F.Valid a)
    (ends : F.decode part = none) (enough : (F.encodeAll values).length < fuel) :
    scan F.decode fuel (F.encodeAll values ++ part) = (values, part) := by
  induction values generalizing fuel with
  | nil =>
    cases fuel with
    | zero => simp at enough
    | succ fuel => simp [scan, ends]
  | cons value values ih =>
    cases fuel with
    | zero => simp at enough
    | succ fuel =>
      have positive := F.length_pos value
      rw [encodeAll_cons, List.length_append] at enough
      rw [encodeAll_cons, List.append_assoc, scan, F.whole value _ (valid value List.mem_cons_self)]
      dsimp only
      rw [List.drop_left, ih (fun a member => valid a (List.mem_cons_of_mem _ member)) (by omega)]

theorem prefix_encodeAll {values : List α} {part : List β} (valid : ∀ a ∈ values, F.Valid a)
    (cut : part <+: F.encodeAll values) :
    ∃ kept lost remnant, values = kept ++ lost ∧ part = F.encodeAll kept ++ remnant ∧ F.Remnant remnant ∧
      ∀ first ∈ lost.head?, remnant.length < (F.encode first).length := by
  induction values generalizing part with
  | nil =>
    obtain rfl : part = [] := List.prefix_nil.mp cut
    exact ⟨[], [], [], rfl, rfl, .inl rfl, by simp⟩
  | cons value values ih =>
    have here := valid value List.mem_cons_self
    rw [encodeAll_cons] at cut
    by_cases inside : part.length < (F.encode value).length
    · have shorter := List.prefix_of_prefix_length_le cut (List.prefix_append _ _) (Nat.le_of_lt inside)
      refine ⟨[], value :: values, part, rfl, by simp, .inr ⟨value, here, shorter, ?_⟩, by simpa using inside⟩
      rintro rfl
      exact Nat.lt_irrefl _ inside
    · obtain ⟨tail, rfl⟩ := List.prefix_of_prefix_length_le (List.prefix_append _ _) cut (by omega)
      obtain ⟨kept, lost, remnant, rfl, rfl, ends⟩ :=
        ih (fun a member => valid a (List.mem_cons_of_mem _ member)) ((List.prefix_append_right_inj _).mp cut)
      exact ⟨value :: kept, lost, remnant, rfl, by simp, ends⟩

theorem Remnant.decode {part : List β} (remnant : F.Remnant part) (empty : F.decode [] = none) :
    F.decode part = none := by
  rcases remnant with rfl | ⟨a, valid, cut, short⟩
  · exact empty
  · exact F.torn a part valid cut short

end Framing

end SimpleRdbms.Lib
