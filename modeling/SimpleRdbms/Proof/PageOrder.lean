import SimpleRdbms.Proof.PoolDuties

/-!
# Images of one page

`Same` images differ in the checksum field at most; `Behind` is the order in which the images of a page appear.
-/

namespace SimpleRdbms.Storage
open Function (update)

namespace Image
variable {a b c : Image} {lsn : Nat} {offset : Nat} {bytes : List UInt8}

structure Same (a b : Image) : Prop where
  id : a.page.id = b.page.id
  lsn : a.page.lsn = b.page.lsn
  applied : a.applied = b.applied
  data : ∀ i, CHECKSUM_END ≤ i → a.page.data i = b.page.data i

structure Behind (a b : Image) : Prop where
  id : a.page.id = b.page.id
  lsn : a.page.lsn ≤ b.page.lsn
  applied : a.applied ⊆ b.applied
  same : a.page.lsn = b.page.lsn → Same a b

theorem Same.refl (a : Image) : Same a a := ⟨rfl, rfl, rfl, fun _ _ => rfl⟩

theorem Same.of_eq (equal : a = b) : Same a b := equal ▸ .refl a

theorem Same.symm (same : Same a b) : Same b a :=
  ⟨same.id.symm, same.lsn.symm, same.applied.symm, fun i body => (same.data i body).symm⟩

theorem Same.trans (first : Same a b) (second : Same b c) : Same a c :=
  ⟨first.id.trans second.id, first.lsn.trans second.lsn, first.applied.trans second.applied,
    fun i body => (first.data i body).trans (second.data i body)⟩

theorem Same.behind (same : Same a b) : Behind a b :=
  ⟨same.id, Nat.le_of_eq same.lsn, same.applied ▸ List.Subset.refl _, fun _ => same⟩

theorem Same.stamped (a : Image) : Same a a.stamped :=
  ⟨rfl, rfl, rfl, fun _ body => (stampChecksum_data a.page body).symm⟩

theorem Behind.refl (a : Image) : Behind a a := (Same.refl a).behind

theorem Behind.trans (first : Behind a b) (second : Behind b c) : Behind a c where
  id := first.id.trans second.id
  lsn := Nat.le_trans first.lsn second.lsn
  applied := List.Subset.trans first.applied second.applied
  same := by
    intro equal
    have left : a.page.lsn = b.page.lsn := Nat.le_antisymm first.lsn (equal ▸ second.lsn)
    have right : b.page.lsn = c.page.lsn := left ▸ equal
    exact (first.same left).trans (second.same right)

theorem Behind.antisymm (first : Behind a b) (second : Behind b a) : Same a b :=
  first.same (Nat.le_antisymm first.lsn second.lsn)

theorem Behind.change (behind : Behind a b) (later : b.page.lsn < lsn) :
    Behind a (b.change lsn offset bytes) where
  id := behind.id
  lsn := Nat.le_trans behind.lsn (Nat.le_of_lt later)
  applied := fun _ member => List.mem_append_left _ (behind.applied member)
  same := by
    intro equal
    have older : a.page.lsn < lsn := Nat.lt_of_le_of_lt behind.lsn later
    exact absurd equal (Nat.ne_of_lt older)

end Image

namespace BufferPool
variable {disk : Nat → Image} {snapshot : List Image}

theorem writePages_cases (pageId : Nat) :
    (∃ image ∈ snapshot, image.page.id = pageId ∧ writePages disk snapshot pageId = image.stamped) ∨
      ((∀ image ∈ snapshot, image.page.id ≠ pageId) ∧ writePages disk snapshot pageId = disk pageId) := by
  induction snapshot generalizing disk with
  | nil => exact .inr ⟨by simp, rfl⟩
  | cons head rest ih =>
    rcases @ih (update disk head.page.id head.stamped) with
      ⟨image, member, sameId, written⟩ | ⟨absent, untouched⟩
    · exact .inl ⟨image, List.mem_cons_of_mem _ member, sameId, written⟩
    · change writePages disk (head :: rest) pageId = _ at untouched
      by_cases isHead : head.page.id = pageId
      · subst isHead
        exact .inl ⟨head, List.mem_cons_self, rfl, by rw [untouched, Function.update_self]⟩
      · refine .inr ⟨?_, by rw [untouched, Function.update_of_ne (Ne.symm isHead)]⟩
        intro image member
        rcases List.mem_cons.mp member with rfl | inRest
        · exact isHead
        · exact absent image inRest

theorem clearMark_image (frames : Nat → Frame) (entry : Nat × Image) (f : Nat) :
    (clearMark frames entry f).image = (frames f).image := by
  unfold clearMark
  split
  · by_cases same : f = entry.1
    · rw [same, Function.update_self]
    · rw [Function.update_of_ne same]
  · rfl

@[simp] theorem clearMarks_image (frames : Nat → Frame) (written : List (Nat × Image)) (f : Nat) :
    (clearMarks frames written f).image = (frames f).image := by
  induction written generalizing frames with
  | nil => rfl
  | cons entry rest ih => exact (ih (clearMark frames entry)).trans (clearMark_image frames entry f)

theorem clearMarks_dirty (frames : Nat → Frame) (written : List (Nat × Image)) (f : Nat) :
    (clearMarks frames written f).dirtySinceLsn = (frames f).dirtySinceLsn ∨
      ((clearMarks frames written f).dirtySinceLsn = 0 ∧
        ∃ image, (f, image) ∈ written ∧ (frames f).image.page.lsn = image.page.lsn) := by
  induction written generalizing frames with
  | nil => exact .inl rfl
  | cons entry rest ih =>
    obtain kept | ⟨cleared, image, member, equal⟩ := ih (clearMark frames entry)
    · by_cases mine : f = entry.1 ∧ (frames entry.1).image.page.lsn = entry.2.page.lsn
      · obtain ⟨rfl, equal⟩ := mine
        refine .inr ⟨kept.trans ?_, entry.2, List.mem_cons_self, equal⟩
        simp [clearMark, equal]
      · refine .inl (kept.trans ?_)
        unfold clearMark
        split
        · rename_i equal
          rw [Function.update_of_ne (fun same => mine ⟨same, equal⟩)]
        · rfl
    · rw [clearMark_image] at equal
      exact .inr ⟨cleared, image, List.mem_cons_of_mem _ member, equal⟩

theorem clearMarks_clean {frames : Nat → Frame} {written : List (Nat × Image)} {f : Nat} {image : Image}
    (member : (f, image) ∈ written) (equal : (frames f).image.page.lsn = image.page.lsn) :
    (clearMarks frames written f).dirtySinceLsn = 0 := by
  induction written generalizing frames with
  | nil => simp at member
  | cons entry rest ih =>
    rcases List.mem_cons.mp member with rfl | later
    · have cleared : (clearMark frames (f, image) f).dirtySinceLsn = 0 := by simp [clearMark, equal]
      obtain kept | ⟨zero, -⟩ := clearMarks_dirty (clearMark frames (f, image)) rest f
      · exact kept.trans cleared
      · exact zero
    · exact ih later (by rw [clearMark_image]; exact equal)

end BufferPool

end SimpleRdbms.Storage
