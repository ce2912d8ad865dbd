import Mathlib.Data.List.Basic
import Mathlib.Data.List.Flatten
import Mathlib.Order.WithBot

/-!
# Search trees level by level

A level is the list of its nodes from left to right, each with the bound its subtree starts at: a fence. A node that is
split puts one more fence after its own.
-/

namespace SimpleRdbms.Lib

section Bisect

def bisect (goRight : Nat → Bool) : Nat → Nat → Nat → Nat
  | 0, low, _ => low
  | fuel + 1, low, high =>
    if low < high then
      let mid := low + (high - low) / 2
      if goRight mid then bisect goRight fuel (mid + 1) high else bisect goRight fuel low mid
    else low

theorem bisect_eq {goRight : Nat → Bool} {cut : Nat} (left : ∀ i < cut, goRight i = true) {fuel low high : Nat}
    (right : ∀ i, cut ≤ i → i < high → goRight i = false) (above : low ≤ cut) (below : cut ≤ high)
    (enough : high - low ≤ fuel) : bisect goRight fuel low high = cut := by
  induction fuel generalizing low high with
  | zero =>
    rw [bisect]
    omega
  | succ fuel ih =>
    rw [bisect]
    split
    · rename_i more
      by_cases inLeft : low + (high - low) / 2 < cut
      · simp only [left _ inLeft, if_true]
        exact ih right (by omega) below (by omega)
      · simp only [right (low + (high - low) / 2) (by omega) (by omega), Bool.false_eq_true, if_false]
        exact ih (fun i least less => right i least (by omega)) above (by omega) (by omega)
    · omega

theorem exists_cut {α : Type*} (before : α → Bool) {slots : List α}
    (ordered : slots.Pairwise fun x y => before y = true → before x = true) :
    ∃ left right, slots = left ++ right ∧ (∀ x ∈ left, before x = true) ∧ ∀ x ∈ right, before x = false := by
  induction slots with
  | nil => exact ⟨[], [], rfl, by simp, by simp⟩
  | cons y rest ih =>
    obtain ⟨first, others⟩ := List.pairwise_cons.mp ordered
    cases here : before y with
    | true =>
      obtain ⟨left, right, rfl, inLeft, inRight⟩ := ih others
      exact ⟨y :: left, right, rfl, List.forall_mem_cons.mpr ⟨here, inLeft⟩, inRight⟩
    | false =>
      refine ⟨[], y :: rest, rfl, by simp, List.forall_mem_cons.mpr ⟨here, fun x member => ?_⟩⟩
      by_contra isBefore
      rw [first x member (by simpa using isBefore)] at here
      cases here

theorem takeWhile_eq_filter {α : Type*} {before : α → Bool} {slots : List α}
    (ordered : slots.Pairwise fun x y => before y = true → before x = true) :
    slots.takeWhile before = slots.filter before := by
  obtain ⟨left, right, rfl, inLeft, inRight⟩ := exists_cut before ordered
  rw [List.takeWhile_append_of_pos inLeft, List.filter_append, List.filter_eq_self.mpr inLeft,
    List.filter_eq_nil_iff.mpr (by simpa using inRight)]
  cases right with
  | nil => rfl
  | cons x rest => rw [List.takeWhile_cons_of_neg (by simp [inRight x (by simp)])]

theorem dropWhile_eq_filter {α : Type*} {before : α → Bool} {slots : List α}
    (ordered : slots.Pairwise fun x y => before y = true → before x = true) :
    slots.dropWhile before = slots.filter (! before ·) := by
  obtain ⟨left, right, rfl, inLeft, inRight⟩ := exists_cut before ordered
  rw [List.dropWhile_append_of_pos inLeft, List.filter_append, List.filter_eq_nil_iff.mpr (by simpa using inLeft),
    List.filter_eq_self.mpr (by simpa using inRight), List.nil_append]
  cases right with
  | nil => rfl
  | cons x rest => rw [List.dropWhile_cons_of_neg (by simp [inRight x (by simp)])]

def searchSlots {α : Type*} (before : α → Bool) (slots : List α) : Nat :=
  bisect (fun slot => slots[slot]?.any before) slots.length 0 slots.length

theorem searchSlots_append {α : Type*} {before : α → Bool} {left right : List α}
    (inLeft : ∀ x ∈ left, before x = true) (inRight : ∀ x ∈ right, before x = false) :
    searchSlots before (left ++ right) = left.length := by
  refine bisect_eq (fun i less => ?_) (fun i least less => ?_) (Nat.zero_le _) (by simp) (by simp)
  · rw [List.getElem?_append_left less, List.getElem?_eq_getElem less]
    exact inLeft _ (List.getElem_mem less)
  · have inside : i - left.length < right.length := by
      rw [List.length_append] at less
      omega
    rw [List.getElem?_append_right least, List.getElem?_eq_getElem inside]
    exact inRight _ (List.getElem_mem inside)

theorem bisect_le (goRight : Nat → Bool) {fuel low high : Nat} (ordered : low ≤ high) :
    bisect goRight fuel low high ≤ high := by
  induction fuel generalizing low high with
  | zero => exact ordered
  | succ fuel ih =>
    rw [bisect]
    split
    · simp only
      split
      · exact ih (by omega)
      · exact (ih (by omega)).trans (by omega)
    · exact ordered

theorem searchSlots_le {α : Type*} (before : α → Bool) (slots : List α) : searchSlots before slots ≤ slots.length :=
  bisect_le _ (Nat.zero_le _)

theorem takeWhile_append_length {α : Type*} {before : α → Bool} {left right : List α}
    (inLeft : ∀ x ∈ left, before x = true) (inRight : ∀ x ∈ right, before x = false) :
    ((left ++ right).takeWhile before).length = left.length := by
  rw [List.takeWhile_append_of_pos inLeft]
  cases right with
  | nil => simp
  | cons x rest => simp [inRight x (by simp)]

end Bisect

section Each
variable {α : Type*} {R R' : α → Option α → Prop} {left right right' : List α} {x : α}

def Each (R : α → Option α → Prop) : List α → Prop
  | [] => True
  | x :: rest => R x rest.head? ∧ Each R rest

theorem Each.of_append (each : Each R (left ++ right)) : Each R right := by
  induction left with
  | nil => exact each
  | cons y rest ih => exact ih each.2

theorem Each.here (each : Each R (left ++ x :: right)) : R x right.head? := each.of_append.1

theorem Each.mono {xs : List α} (each : Each R xs) (weaker : ∀ y ∈ xs, ∀ next, R y next → R' y next) : Each R' xs := by
  induction xs with
  | nil => trivial
  | cons y rest ih =>
    exact ⟨weaker y (by simp) _ each.1, ih each.2 fun z member => weaker z (List.mem_cons_of_mem _ member)⟩

theorem Each.splice (each : Each R (left ++ x :: right)) (same : ∀ y ∈ left, ∀ next, R y next → R' y next)
    (rest : Each R' (x :: right')) : Each R' (left ++ x :: right') := by
  induction left with
  | nil => exact rest
  | cons y left ih =>
    refine ⟨?_, ih each.2 fun z member => same z (List.mem_cons_of_mem _ member)⟩
    have first := same y (by simp) _ each.1
    cases left with
    | nil => exact first
    | cons z left => exact first

end Each

abbrev Fence (κ ι : Type*) := WithBot κ × ι

abbrev Level (κ ι : Type*) := List (Fence κ ι)

section Levels
variable {κ ι : Type*} {kids kids' : Fence κ ι → Level κ ι} {root : ι}
  {lower upper before after left right : Level κ ι} {fence child new : Fence κ ι} {uppers uppers' : List (Level κ ι)}

def Level.Sorted [LinearOrder κ] (level : Level κ ι) : Prop := level.Pairwise (·.1 < ·.1)

def nodesOf (levels : List (Level κ ι)) : List ι := levels.flatten.map Prod.snd

theorem nodesOf_cons (level : Level κ ι) (levels : List (Level κ ι)) :
    nodesOf (level :: levels) = level.map Prod.snd ++ nodesOf levels := by
  simp [nodesOf]

variable {level : Level κ ι} {passed : List ι}

theorem mem_nodesOf {levels : List (Level κ ι)} (inLevels : level ∈ levels)
    (inLevel : fence ∈ level) : fence.2 ∈ nodesOf levels :=
  List.mem_map_of_mem (List.mem_flatten_of_mem inLevels inLevel)

theorem ne_of_nodup (distinct : (nodesOf ((before ++ fence :: after) :: uppers)).Nodup) :
    (∀ other ∈ before ++ after, other.2 ≠ fence.2) ∧ ∀ node ∈ nodesOf uppers, node ≠ fence.2 := by
  rw [nodesOf_cons, List.map_append, List.map_cons] at distinct
  obtain ⟨inLevel, -, across⟩ := List.nodup_append.mp distinct
  have outside := (List.nodup_cons.mp (List.perm_middle.nodup_iff.mp inLevel)).1
  rw [← List.map_append] at outside
  exact ⟨fun other member equal => outside (equal ▸ List.mem_map_of_mem member),
    fun node member equal => across fence.2 (by simp) node member equal.symm⟩

theorem mem_insert {other : Fence κ ι} :
    other ∈ before ++ fence :: after ↔ other = fence ∨ other ∈ before ++ after := by
  simp only [List.mem_append, List.mem_cons]
  tauto

theorem mem_insert_two {other : Fence κ ι} :
    other ∈ before ++ fence :: new :: after ↔ other = new ∨ other = fence ∨ other ∈ before ++ after := by
  simp only [List.mem_append, List.mem_cons]
  tauto

structure Groups (kids : Fence κ ι → Level κ ι) (upper lower : Level κ ι) : Prop where
  heads : ∀ fence ∈ upper, ∃ child rest, kids fence = (fence.1, child) :: rest
  eq : lower = upper.flatMap kids

namespace Groups

section
variable (groups : Groups kids upper lower)
include groups

theorem congr (same : ∀ fence ∈ upper, kids' fence = kids fence) :
    Groups kids' upper lower := by
  refine ⟨fun fence member => ?_, ?_⟩
  · rw [same fence member]
    exact groups.heads fence member
  · rw [groups.eq]
    exact List.flatMap_congr fun fence member => (same fence member).symm

theorem sorted [LinearOrder κ] (sorted : lower.Sorted) : upper.Sorted := by
  rw [groups.eq, Level.Sorted, List.pairwise_flatMap] at sorted
  refine List.Pairwise.imp_of_mem (fun {f g} inUpper inUpper' less => ?_) sorted.2
  obtain ⟨child, rest, kidsOf⟩ := groups.heads f inUpper
  obtain ⟨child', rest', kidsOf'⟩ := groups.heads g inUpper'
  exact less (f.1, child) (by simp [kidsOf]) (g.1, child') (by simp [kidsOf'])

theorem bound_le [LinearOrder κ] (sorted : lower.Sorted) (inUpper : fence ∈ upper)
    (inKids : child ∈ kids fence) : fence.1 ≤ child.1 := by
  obtain ⟨first, rest, kidsOf⟩ := groups.heads fence inUpper
  rw [groups.eq, Level.Sorted, List.pairwise_flatMap] at sorted
  have ordered := sorted.1 fence inUpper
  rw [kidsOf] at ordered inKids
  rcases List.mem_cons.mp inKids with rfl | inRest
  · exact le_rfl
  · exact ((List.pairwise_cons.mp ordered).1 child inRest).le

theorem bound_mem (inUpper : fence ∈ upper) : ∃ child, (fence.1, child) ∈ lower := by
  obtain ⟨child, rest, kidsOf⟩ := groups.heads fence inUpper
  refine ⟨child, ?_⟩
  rw [groups.eq]
  exact List.mem_flatMap.mpr ⟨fence, inUpper, by simp [kidsOf]⟩

theorem head (first : upper.head? = some (⊥, root)) : ∃ child, lower.head? = some (⊥, child) := by
  obtain ⟨rest, rfl⟩ := List.head?_eq_some_iff.mp first
  obtain ⟨child, others, kidsOf⟩ := groups.heads (⊥, root) (by simp)
  exact ⟨child, by simp [groups.eq, kidsOf]⟩

end

theorem flatMap_same (same : ∀ other ∈ before ++ after, kids' other = kids other) :
    before.flatMap kids' = before.flatMap kids ∧ after.flatMap kids' = after.flatMap kids :=
  ⟨List.flatMap_congr fun other member => same other (List.mem_append_left _ member),
    List.flatMap_congr fun other member => same other (List.mem_append_right _ member)⟩

theorem absorb (groups : Groups kids (before ++ fence :: after) lower) (kidsOf : kids fence = left ++ child :: right)
    (kidsOf' : kids' fence = left ++ child :: new :: right)
    (same : ∀ other ∈ before ++ after, kids' other = kids other) :
    Groups kids' (before ++ fence :: after)
      ((before.flatMap kids ++ left) ++ child :: new :: (right ++ after.flatMap kids)) := by
  obtain ⟨sameBefore, sameAfter⟩ := flatMap_same same
  refine ⟨fun other member => ?_, ?_⟩
  · rcases mem_insert.mp member with rfl | elsewhere
    · obtain ⟨first, others, kidsAre⟩ := groups.heads other member
      rw [kidsOf] at kidsAre
      rw [kidsOf']
      cases left with
      | nil =>
        injection kidsAre with isFirst
        exact ⟨first, new :: right, by rw [isFirst]; rfl⟩
      | cons y left =>
        injection kidsAre with isFirst
        exact ⟨first, left ++ child :: new :: right, by rw [isFirst]; rfl⟩
    · rw [same other elsewhere]
      exact groups.heads other member
  · simp [List.flatMap_append, kidsOf', sameBefore, sameAfter]

theorem split (groups : Groups kids (before ++ fence :: after) lower)
    (same : ∀ other ∈ before ++ after, kids' other = kids other)
    (kidsOf : kids' fence ++ kids' new = left) (first : ∃ child rest, kids' fence = (fence.1, child) :: rest)
    (second : ∃ child rest, kids' new = (new.1, child) :: rest) :
    Groups kids' (before ++ fence :: new :: after) (before.flatMap kids ++ left ++ after.flatMap kids) := by
  obtain ⟨sameBefore, sameAfter⟩ := flatMap_same same
  refine ⟨fun other member => ?_, ?_⟩
  · rcases mem_insert_two.mp member with rfl | rfl | elsewhere
    · exact second
    · exact first
    · rw [same other elsewhere]
      exact groups.heads other (mem_insert.mpr (.inr elsewhere))
  · simp [List.flatMap_append, ← kidsOf, sameBefore, sameAfter]

end Groups

inductive Stacked (kids : Fence κ ι → Level κ ι) (root : ι) : Level κ ι → List (Level κ ι) → Prop
  | top : Stacked kids root [(⊥, root)] []
  | up {lower upper : Level κ ι} {uppers : List (Level κ ι)} : Groups kids upper lower →
    Stacked kids root upper uppers →
      Stacked kids root lower (upper :: uppers)

theorem Stacked.congr (stacked : Stacked kids root lower uppers)
    (same : ∀ level ∈ uppers, ∀ fence ∈ level, kids' fence = kids fence) : Stacked kids' root lower uppers := by
  induction stacked with
  | top => exact .top
  | up groups _ ih =>
    exact .up (groups.congr (same _ (by simp))) (ih fun level member => same level (by simp [member]))

theorem Stacked.head (stacked : Stacked kids root lower uppers) : ∃ first, lower.head? = some (⊥, first) := by
  induction stacked with
  | top => exact ⟨root, rfl⟩
  | up groups _ ih =>
    obtain ⟨first, isFirst⟩ := ih
    exact groups.head isFirst

inductive Path (kids : Fence κ ι → Level κ ι) (root : ι) :
    Level κ ι → Fence κ ι → Level κ ι → List (Level κ ι) → List ι → Prop
  | top : Path kids root [] (⊥, root) [] [] []
  | down {before after left right : Level κ ι} {fence child : Fence κ ι} {uppers : List (Level κ ι)} {passed : List ι} :
      Path kids root before fence after uppers passed → kids fence = left ++ child :: right →
      Path kids root (before.flatMap kids ++ left) child (right ++ after.flatMap kids)
        ((before ++ fence :: after) :: uppers) (fence.2 :: passed)

theorem Path.stacked (path : Path kids root before fence after uppers passed)
    (heads : ∀ level ∈ uppers, ∀ other ∈ level, ∃ child rest, kids other = (other.1, child) :: rest) :
    Stacked kids root (before ++ fence :: after) uppers := by
  induction path with
  | top => exact .top
  | @down before after left right fence child uppers passed _ kidsOf ih =>
    refine .up ⟨heads _ (by simp), ?_⟩ (ih fun level member => heads level (by simp [member]))
    simp [List.flatMap_append, kidsOf]

theorem Path.passed_mem (path : Path kids root before fence after uppers passed) :
    ∀ node ∈ passed, node ∈ nodesOf uppers := by
  induction path with
  | top => simp
  | @down before after left right fence child uppers passed _ _ ih =>
    intro node member
    rw [nodesOf_cons]
    rcases List.mem_cons.mp member with rfl | above
    · exact List.mem_append_left _ (List.mem_map_of_mem (by simp))
    · exact List.mem_append_right _ (ih node above)

inductive Enough {ι : Type*} (safe : ι → Prop) : List ι → List ι → Prop
  | root : Enough safe [] []
  | safe {node : ι} {passed : List ι} : safe node → Enough safe (node :: passed) [node]
  | cons {node : ι} {passed kept : List ι} : Enough safe passed kept → Enough safe (node :: passed) (node :: kept)

theorem Enough.mono {safe safe' : ι → Prop} {kept : List ι} (enough : Enough safe passed kept)
    (weaker : ∀ node ∈ passed, safe node → safe' node) : Enough safe' passed kept := by
  induction enough with
  | root => exact .root
  | safe isSafe => exact .safe (weaker _ (by simp) isSafe)
  | cons _ ih => exact .cons (ih fun node member => weaker node (by simp [member]))

/-- Each level still has its fences in their order, the first one first. -/
inductive Grown : List (Level κ ι) → List (Level κ ι) → Prop
  | more (levels : List (Level κ ι)) : Grown [] levels
  | cons {level level' : Level κ ι} {levels levels' : List (Level κ ι)} : level.Sublist level' →
      level.head? = level'.head? → Grown levels levels' → Grown (level :: levels) (level' :: levels')

theorem Grown.refl (levels : List (Level κ ι)) : Grown levels levels := by
  induction levels with
  | nil => exact .more []
  | cons level levels ih => exact .cons (.refl level) rfl ih

theorem Grown.mem {levels levels' : List (Level κ ι)} (grown : Grown levels levels')
    (member : level ∈ levels) : ∃ level' ∈ levels', level.Sublist level' ∧ level.head? = level'.head? := by
  induction grown with
  | more => cases member
  | @cons first first' rest rest' sublist same _ ih =>
    rcases List.mem_cons.mp member with rfl | inRest
    · exact ⟨first', by simp, sublist, same⟩
    · obtain ⟨level', member', kept⟩ := ih inRest
      exact ⟨level', by simp [member'], kept⟩

section
variable (stacked : Stacked kids root lower uppers)
include stacked

theorem Stacked.top_mem : ∃ level ∈ lower :: uppers, level = [(⊥, root)] := by
  induction stacked with
  | top => exact ⟨_, by simp, rfl⟩
  | up _ _ ih =>
    obtain ⟨level, member, top⟩ := ih
    exact ⟨level, List.mem_cons_of_mem _ member, top⟩

theorem Stacked.heads :
    ∀ level ∈ uppers, ∀ other ∈ level, ∃ child rest, kids other = (other.1, child) :: rest := by
  induction stacked with
  | top => simp
  | up groups _ ih => exact List.forall_mem_cons.mpr ⟨groups.heads, ih⟩

theorem Stacked.level_below [LinearOrder κ] (sorted : lower.Sorted)
    (member : level ∈ uppers) : ∃ under ∈ lower :: uppers, Groups kids level under ∧ under.Sorted := by
  induction stacked with
  | top => cases member
  | @up lower upper uppers groups _ ih =>
    rcases List.mem_cons.mp member with rfl | above
    · exact ⟨lower, List.mem_cons_self, groups, sorted⟩
    · obtain ⟨under, inside, groups', sorted'⟩ := ih (groups.sorted sorted) above
      exact ⟨under, List.mem_cons_of_mem _ inside, groups', sorted'⟩

theorem Stacked.length_lt : uppers.length < (nodesOf (lower :: uppers)).length := by
  induction stacked with
  | top => simp [nodesOf]
  | up groups above ih =>
    obtain ⟨first, isFirst⟩ := (Stacked.up groups above).head
    obtain ⟨rest, rfl⟩ := List.head?_eq_some_iff.mp isFirst
    rw [nodesOf_cons]
    simp only [List.map_cons, List.cons_append, List.length_cons, List.length_append]
    omega

end

inductive Beneath (kids : Fence κ ι → Level κ ι) (lower : Level κ ι) : Level κ ι → Nat → Prop
  | refl : Beneath kids lower lower 0
  | step {upper middle : Level κ ι} {n : Nat} : Groups kids upper middle → Beneath kids lower middle n →
      Beneath kids lower upper (n + 1)

theorem Beneath.sorted [LinearOrder κ] {n : Nat} (beneath : Beneath kids lower upper n) (sorted : lower.Sorted) :
    upper.Sorted := by
  induction beneath with
  | refl => exact sorted
  | step groups _ ih => exact groups.sorted ih

theorem Beneath.trans_step {n : Nat} {bottom : Level κ ι} (groups : Groups kids lower bottom)
    (beneath : Beneath kids lower upper n) : Beneath kids bottom upper (n + 1) := by
  induction beneath with
  | refl => exact .step groups .refl
  | step above _ ih => exact .step above ih

theorem Stacked.beneath (stacked : Stacked kids root lower uppers) (member : level ∈ lower :: uppers) :
    ∃ n ≤ uppers.length, Beneath kids lower level n := by
  induction stacked with
  | top =>
    obtain rfl := List.mem_singleton.mp member
    exact ⟨0, le_rfl, .refl⟩
  | up groups _ ih =>
    rcases List.mem_cons.mp member with rfl | above
    · exact ⟨0, Nat.zero_le _, .refl⟩
    · obtain ⟨n, short, beneath⟩ := ih above
      exact ⟨n + 1, Nat.succ_le_succ short, beneath.trans_step groups⟩

end Levels

end SimpleRdbms.Lib
