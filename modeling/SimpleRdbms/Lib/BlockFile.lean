import Mathlib.Data.Set.Basic
import Mathlib.Logic.Function.Basic
import Mathlib.Tactic.Common

/-!
# Files of blocks behind a write cache

Writes are durable after a sync; of the writes since the last one, a crash keeps any sectors.
-/

namespace SimpleRdbms.Lib
variable {ι κ β : Type*}

def mix (sector : ι → κ) (chosen : κ → Bool) (new old : ι → β) : ι → β := fun i =>
  if chosen (sector i) then new i else old i

structure BlockWrite (ι κ β : Type*) where
  page : Nat
  block : ι → β
  reached : κ → Bool

structure BlockFile (ι κ β : Type*) where
  durable : Nat → ι → β
  pending : List (BlockWrite ι κ β)

def BlockWrite.apply (sector : ι → κ) (pages : Nat → ι → β) (write : BlockWrite ι κ β) : Nat → ι → β :=
  Function.update pages write.page (mix sector write.reached write.block (pages write.page))

namespace BlockFile

def write (file : BlockFile ι κ β) (page : Nat) (block : ι → β) (reached : κ → Bool) : BlockFile ι κ β :=
  { file with pending := file.pending ++ [{ page, block, reached }] }

def contents (sector : ι → κ) (file : BlockFile ι κ β) : Nat → ι → β :=
  file.pending.foldl (BlockWrite.apply sector) file.durable

def sync (sector : ι → κ) (file : BlockFile ι κ β) : BlockFile ι κ β :=
  { durable := file.contents sector, pending := [] }

def crash (sector : ι → κ) (file : BlockFile ι κ β) (keep : Nat → κ → Bool) : BlockFile ι κ β where
  durable := (file.pending.zipIdx.map fun (write, number) =>
    { write with reached := fun k => write.reached k && keep number k }).foldl (BlockWrite.apply sector) file.durable
  pending := []

end BlockFile

def Patchwork (sector : ι → κ) (sources : Set (ι → β)) (block : ι → β) : Prop :=
  ∀ k, ∃ source ∈ sources, ∀ i, sector i = k → block i = source i

variable {sector : ι → κ} {sources larger : Set (ι → β)} {block new old : ι → β}

theorem Patchwork.of_mem (member : block ∈ sources) : Patchwork sector sources block :=
  fun _ => ⟨block, member, fun _ _ => rfl⟩

theorem Patchwork.mono (patchwork : Patchwork sector sources block) (subset : sources ⊆ larger) :
    Patchwork sector larger block := by
  intro k
  obtain ⟨source, member, same⟩ := patchwork k
  exact ⟨source, subset member, same⟩

theorem Patchwork.mix (first : Patchwork sector sources new) (second : Patchwork sector sources old)
    (chosen : κ → Bool) : Patchwork sector sources (mix sector chosen new old) := by
  intro k
  by_cases taken : chosen k = true
  · obtain ⟨source, member, same⟩ := first k
    refine ⟨source, member, fun i isHere => ?_⟩
    rw [Lib.mix, isHere, if_pos taken]
    exact same i isHere
  · obtain ⟨source, member, same⟩ := second k
    refine ⟨source, member, fun i isHere => ?_⟩
    rw [Lib.mix, isHere, if_neg taken]
    exact same i isHere

theorem Patchwork.eq (patchwork : Patchwork sector {old} block) : block = old := by
  funext i
  obtain ⟨source, rfl, same⟩ := patchwork (sector i)
  exact same i rfl

section Apply
variable {source : Nat → Set (ι → β)} {pages : Nat → ι → β} {writes : List (BlockWrite ι κ β)}

theorem apply_patchwork {write : BlockWrite ι κ β} (before : ∀ page, Patchwork sector (source page) (pages page))
    (written : write.block ∈ source write.page) (page : Nat) :
    Patchwork sector (source page) (write.apply sector pages page) := by
  by_cases here : page = write.page
  · subst here
    rw [BlockWrite.apply, Function.update_self]
    exact (Patchwork.of_mem written).mix (before _) _
  · rw [BlockWrite.apply, Function.update_of_ne here]
    exact before page

theorem applyAll_patchwork (before : ∀ page, Patchwork sector (source page) (pages page))
    (written : ∀ write ∈ writes, write.block ∈ source write.page) (page : Nat) :
    Patchwork sector (source page) (writes.foldl (BlockWrite.apply sector) pages page) := by
  induction writes generalizing pages with
  | nil => exact before page
  | cons write writes ih =>
    refine ih ?_ fun other member => written other (List.mem_cons_of_mem _ member)
    exact apply_patchwork before (written write List.mem_cons_self)

theorem apply_full {write : BlockWrite ι κ β} (full : ∀ k, write.reached k = true) :
    write.apply sector pages = Function.update pages write.page write.block := by
  have all : mix sector write.reached write.block (pages write.page) = write.block := by
    funext i
    rw [mix, full, if_pos rfl]
  rw [BlockWrite.apply, all]

theorem applyAll_of_not_mem {page : Nat} (untouched : ∀ write ∈ writes, write.page ≠ page) :
    writes.foldl (BlockWrite.apply sector) pages page = pages page := by
  induction writes generalizing pages with
  | nil => rfl
  | cons write writes ih =>
    rw [List.foldl_cons, ih fun other member => untouched other (List.mem_cons_of_mem _ member), BlockWrite.apply,
      Function.update_of_ne (untouched write List.mem_cons_self).symm]

theorem applyAll_of_mem (full : ∀ write ∈ writes, ∀ k, write.reached k = true)
    (distinct : (writes.map BlockWrite.page).Nodup) {write : BlockWrite ι κ β} (member : write ∈ writes) :
    writes.foldl (BlockWrite.apply sector) pages write.page = write.block := by
  obtain ⟨before, after, rfl⟩ := List.append_of_mem member
  rw [List.map_append, List.map_cons, List.nodup_append] at distinct
  rw [List.foldl_append, List.foldl_cons, applyAll_of_not_mem, apply_full (full write member), Function.update_self]
  intro other isAfter same
  refine (List.nodup_cons.mp distinct.2.1).1 ?_
  exact same ▸ List.mem_map.mpr ⟨other, isAfter, rfl⟩

end Apply

namespace BlockFile
variable {source : Nat → Set (ι → β)} {file : BlockFile ι κ β}

theorem contents_settled (settled : file.pending = []) : file.contents sector = file.durable := by
  rw [BlockFile.contents, settled]
  rfl

theorem crash_settled (settled : file.pending = []) (keep : Nat → κ → Bool) : file.crash sector keep = file := by
  obtain ⟨durable, pending⟩ := file
  subst settled
  rfl

structure MadeOf (sector : ι → κ) (file : BlockFile ι κ β) (source : Nat → Set (ι → β)) : Prop where
  durable : ∀ page, Patchwork sector (source page) (file.durable page)
  pending : ∀ write ∈ file.pending, write.block ∈ source write.page

theorem MadeOf.contents (made : file.MadeOf sector source) (page : Nat) :
    Patchwork sector (source page) (file.contents sector page) :=
  applyAll_patchwork made.durable made.pending page

theorem MadeOf.write (made : file.MadeOf sector source) {page : Nat} {block : ι → β} (known : block ∈ source page)
    (reached : κ → Bool) : (file.write page block reached).MadeOf sector source := by
  refine ⟨made.durable, fun other member => ?_⟩
  rcases List.mem_append.mp member with old | new
  · exact made.pending other old
  · obtain rfl := List.mem_singleton.mp new
    exact known

theorem MadeOf.sync (made : file.MadeOf sector source) : (file.sync sector).MadeOf sector source :=
  ⟨made.contents, by simp [BlockFile.sync]⟩

theorem MadeOf.crash (made : file.MadeOf sector source) (keep : Nat → κ → Bool) :
    (file.crash sector keep).MadeOf sector source := by
  refine ⟨fun page => applyAll_patchwork made.durable ?_ page, by simp [BlockFile.crash]⟩
  intro write member
  obtain ⟨⟨original, number⟩, isPending, rfl⟩ := List.mem_map.mp member
  exact made.pending original (List.fst_mem_of_mem_zipIdx isPending)

end BlockFile

end SimpleRdbms.Lib
