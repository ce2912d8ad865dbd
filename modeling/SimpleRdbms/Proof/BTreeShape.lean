import Mathlib.Data.List.Perm.Basic
import SimpleRdbms.Storage.BTree

/-!
# The shape of an index

The pages in levels. A split adds a fence to each level it reaches, and the root moves up when it is split itself.
-/

namespace SimpleRdbms.Storage
open Lib BTree

namespace BTree

def Separator.fence (entry : Separator) : Fence Bytes Nat := (entry.key, entry.child)

@[simp] theorem RowId.bytes_length (row : RowId) : row.bytes.length = RID_TRAILER_SIZE := by
  simp [RowId.bytes, RID_TRAILER_SIZE]

theorem RowId.bytes_injective : Function.Injective RowId.bytes := by
  intro row row' same
  obtain ⟨pages, slots⟩ := List.append_inj same (by simp)
  have pageId := congrArg leValue pages
  have slot := congrArg leValue slots
  rw [leValue_leBytes row.page, leValue_leBytes row'.page] at pageId
  rw [leValue_leBytes row.slot, leValue_leBytes row'.slot] at slot
  obtain ⟨⟨pageId', slot'⟩, _, _⟩ := row
  obtain ⟨⟨_, _⟩, _, _⟩ := row'
  cases pageId
  cases slot
  rfl

theorem LeafEntry.sortKey_injective : Function.Injective LeafEntry.sortKey := by
  intro entry entry' same
  obtain ⟨keys, rows⟩ := List.append_inj' same (by simp)
  obtain ⟨key, row⟩ := entry
  obtain ⟨key', row'⟩ := entry'
  cases keys
  cases RowId.bytes_injective rows
  rfl

theorem LeafEntry.sortKey_length (entry : LeafEntry) : entry.sortKey.length = entry.key.length + RID_TRAILER_SIZE := by
  simp [LeafEntry.sortKey]

theorem upperBound_append {left right : List Separator} {key : Bytes} (inLeft : ∀ x ∈ left, x.key ≤ key)
    (inRight : ∀ x ∈ right, key < x.key) : upperBound (left ++ right) key = left.length :=
  searchSlots_append (by simpa using inLeft) (by simpa using inRight)

theorem upperBoundIn_append {left right : List Separator} {key : Bytes} (inLeft : ∀ x ∈ left, x.key ≤ key)
    (inRight : ∀ x ∈ right, key < x.key) : upperBoundIn (left ++ right) key = left.length :=
  takeWhile_append_length (by simpa using inLeft) (by simpa using inRight)

theorem insertIdx_length_append {α : Type} (left right : List α) (x : α) :
    (left ++ right).insertIdx left.length x = left ++ x :: right := by
  induction left with
  | nil => rfl
  | cons y left ih => simp [ih]

end BTree

namespace NodeStore

def kids (store : NodeStore) (fence : Fence Bytes Nat) : Level Bytes Nat :=
  match store.nodes fence.2 with
  | .internal (some tail) entries => (fence.1, tail) :: entries.map Separator.fence
  | _ => []

def Safe (store : NodeStore) (pageId : Nat) : Prop :=
  willFit (store.nodes pageId).lens MAX_INTERNAL_PUSH_UP_SIZE = true

variable {store store' : NodeStore} {fence child : Fence Bytes Nat} {tail pageId : Nat}
  {left right before after : Level Bytes Nat} {uppers : List (Level Bytes Nat)} {key : Bytes}
  {kids : Fence Bytes Nat → Level Bytes Nat} {low high : List Separator}

theorem kids_congr (same : store'.nodes fence.2 = store.nodes fence.2) : store'.kids fence = store.kids fence := by
  rw [kids, same, kids]

theorem kids_internal {entries : List Separator} (node : store.nodes fence.2 = .internal (some tail) entries) :
    store.kids fence = (fence.1, tail) :: entries.map Separator.fence := by
  rw [kids, node]

theorem kids_eq_cons {rest : Level Bytes Nat} (kidsOf : store.kids fence = child :: rest) :
    ∃ tail entries, store.nodes fence.2 = .internal (some tail) entries ∧ child = (fence.1, tail) ∧
      rest = entries.map Separator.fence := by
  unfold kids at kidsOf
  split at kidsOf
  · rename_i tail entries node
    injection kidsOf with isChild isRest
    exact ⟨tail, entries, node, isChild.symm, isRest.symm⟩
  · cases kidsOf

theorem kids_split (kidsOf : store.kids fence = left ++ child :: right) :
    ∃ tail before after, store.nodes fence.2 = .internal (some tail) (before ++ after) ∧
      left ++ [child] = (fence.1, tail) :: before.map Separator.fence ∧ right = after.map Separator.fence := by
  have shape : left ++ child :: right = (left ++ [child]) ++ right := by simp
  rw [shape] at kidsOf
  cases upTo : left ++ [child] with
  | nil => simp at upTo
  | cons first some =>
    rw [upTo] at kidsOf
    obtain ⟨tail, entries, node, isFirst, isRest⟩ := kids_eq_cons kidsOf
    obtain ⟨before, after, rfl, isSome, isRight⟩ := List.append_eq_map_iff.mp isRest
    exact ⟨tail, before, after, node, by rw [isFirst, isSome], isRight.symm⟩

theorem rebuild_ok {node : Node}
    (rebuilt : store.rebuild pageId node = .ok store') : store' = store.write pageId node := by
  unfold rebuild at rebuilt
  split at rebuilt
  · injection rebuilt with same
    exact same.symm
  · cases rebuilt

@[simp] theorem nodes_write_self (store : NodeStore) (pageId : Nat) (node : Node) :
    (store.write pageId node).nodes pageId = node := Function.update_self ..

theorem nodes_write_of_ne (store : NodeStore) {other : Nat} (node : Node) (different : other ≠ pageId) :
    (store.write pageId node).nodes other = store.nodes other := Function.update_of_ne different ..

structure Extends (store store' : NodeStore) (levels levels' : List (Level Bytes Nat)) : Prop where
  grown : Grown levels levels'
  new : ∃ new : List Nat, (nodesOf levels').Perm (new ++ nodesOf levels) ∧ new.Nodup ∧
    ∀ pageId ∈ new, store.pages ≤ pageId ∧ pageId < store'.pages
  frame : ∀ pageId < store.pages, pageId ∉ nodesOf levels → store'.nodes pageId = store.nodes pageId
  pages : store.pages ≤ store'.pages

theorem grown_insert {new : Fence Bytes Nat} {uppers' : List (Level Bytes Nat)}
    (grown : Grown uppers uppers') : Grown ((before ++ fence :: after) :: uppers)
    ((before ++ fence :: new :: after) :: uppers') := by
  refine .cons ?_ (by cases before <;> rfl) grown
  exact .append (.refl _) (.cons_cons _ (.cons _ (.refl _)))

theorem separators_around (kidsOf : store.kids fence = left ++ child :: right)
    (sorted : Level.Sorted ((before ++ left) ++ child :: ((key : WithBot Bytes), pageId) :: (right ++ after))) :
    ∃ tail low high, store.nodes fence.2 = .internal (some tail) (low ++ high) ∧
      left ++ [child] = (fence.1, tail) :: low.map Separator.fence ∧ right = high.map Separator.fence ∧
      (∀ entry ∈ low, entry.key ≤ key) ∧ ∀ entry ∈ high, key < entry.key := by
  obtain ⟨tail, low, high, node, isLeft, rfl⟩ := kids_split kidsOf
  have regrouped : (before ++ left) ++ child :: ((key : WithBot Bytes), pageId) :: (high.map Separator.fence ++ after) =
      (before ++ (left ++ [child])) ++ ((key : WithBot Bytes), pageId) :: (high.map Separator.fence ++ after) := by
    simp
  rw [regrouped, isLeft, Level.Sorted, List.pairwise_append, List.pairwise_cons] at sorted
  obtain ⟨-, ⟨above, -⟩, below⟩ := sorted
  refine ⟨tail, low, high, node, isLeft, rfl, fun entry member => ?_, fun entry member => ?_⟩
  · have less := below entry.fence
      (by simp only [List.mem_append, List.mem_cons, List.mem_map]; exact .inr (.inr ⟨entry, member, rfl⟩))
      (key, pageId) (by simp)
    exact (WithBot.coe_lt_coe.mp less).le
  · have less := above entry.fence (by simp only [List.mem_append, List.mem_map]; exact .inl ⟨entry, member, rfl⟩)
    exact WithBot.coe_lt_coe.mp less

theorem pushUp_fits {root : Nat} {passed : List Nat} (path : Path kids root before fence after uppers passed)
    (heads : ∀ level ∈ (before ++ fence :: after) :: uppers, ∀ other ∈ level, ∃ child rest,
      kids other = (other.1, child) :: rest)
    (same : ∀ level ∈ (before ++ fence :: after) :: uppers, ∀ other ∈ level, store.kids other = kids other)
    (distinct : (nodesOf ((before ++ fence :: after) :: uppers)).Nodup) (kidsOf : kids fence = left ++ child :: right)
    (isLeft : left ++ [child] = (fence.1, tail) :: low.map Separator.fence)
    (isRight : right = high.map Separator.fence) :
    let store' := store.write fence.2 (.internal (some tail) (low ++ ⟨key, pageId⟩ :: high))
    Stacked store'.kids root
      ((before.flatMap kids ++ left) ++ child :: ((key : WithBot Bytes), pageId) :: (right ++ after.flatMap kids))
      ((before ++ fence :: after) :: uppers) ∧
    Extends store store' ((before ++ fence :: after) :: uppers) ((before ++ fence :: after) :: uppers) := by
  intro store'
  obtain ⟨inLevel, above⟩ := ne_of_nodup distinct
  have kidsOf' : store'.kids fence = left ++ child :: (key, pageId) :: right := by
    have node : store'.nodes fence.2 = .internal (some tail) (low ++ ⟨key, pageId⟩ :: high) := nodes_write_self ..
    rw [kids_internal node, List.map_append, List.map_cons, ← List.cons_append, ← isLeft, isRight]
    simp [Separator.fence]
  have groups : Groups kids (before ++ fence :: after) ((before ++ fence :: after).flatMap kids) :=
    ⟨heads _ (by simp), rfl⟩
  refine ⟨.up (groups.absorb kidsOf kidsOf' fun other member => ?_) ?_, ?_⟩
  · rw [kids_congr (nodes_write_of_ne store _ (inLevel other member))]
    exact same _ List.mem_cons_self other (mem_insert.mpr (.inr member))
  · refine (path.stacked fun level member => heads level (by simp [member])).congr fun level member other inUpper => ?_
    rw [kids_congr (nodes_write_of_ne store _ (above _ (mem_nodesOf member inUpper)))]
    exact same level (by simp [member]) other inUpper
  · refine ⟨.refl _, ⟨[], by simp, by simp, by simp⟩, fun other _ outside => ?_, le_rfl⟩
    refine nodes_write_of_ne store _ fun equal => outside ?_
    rw [equal]
    exact mem_nodesOf List.mem_cons_self (by simp)

theorem separator_len_le (short : key.length ≤ MAX_KEY_SIZE + RID_TRAILER_SIZE) :
    (Separator.mk key pageId).len ≤ MAX_INTERNAL_PUSH_UP_SIZE := by
  simp only [Separator.len, MAX_INTERNAL_PUSH_UP_SIZE]
  omega

theorem willFit_mono {lens : List Nat} {len len' : Nat} (fits : willFit lens len' = true) (shorter : len ≤ len') :
    willFit lens len = true := by
  simp only [willFit, decide_eq_true_eq] at fits ⊢
  omega

theorem pushUp_split {rest rest' : List Separator} {pushed : Separator}
    (heads : ∀ other ∈ before ++ fence :: after, ∃ child rest, kids other = (other.1, child) :: rest)
    (same : ∀ other ∈ before ++ fence :: after, store.kids other = kids other)
    (distinct : (nodesOf ((before ++ fence :: after) :: uppers)).Nodup)
    (allocated : ∀ other ∈ before ++ fence :: after, other.2 < store.pages)
    (isLeft : left ++ [child] = (fence.1, tail) :: low.map Separator.fence) (isRight : right = high.map Separator.fence)
    (shared : low ++ ⟨key, pageId⟩ :: high = rest ++ pushed :: rest')
    (written : store' = (store.newPage.write store.pages (.internal (some pushed.child) rest')).write fence.2
      (.internal (some tail) rest)) :
    Groups store'.kids (before ++ fence :: ((pushed.key : WithBot Bytes), store.pages) :: after)
      ((before.flatMap kids ++ left) ++ child :: ((key : WithBot Bytes), pageId) :: (right ++ after.flatMap kids)) := by
  have old : fence.2 ≠ store.pages := (allocated fence (by simp)).ne
  have apart : ∀ other ∈ before ++ after, store'.kids other = kids other := by
    intro other member
    have inUpper : other ∈ before ++ fence :: after := mem_insert.mpr (.inr member)
    rw [← same other inUpper, written]
    refine kids_congr ?_
    rw [nodes_write_of_ne _ _ ((ne_of_nodup distinct).1 other member),
      nodes_write_of_ne _ _ (allocated other inUpper).ne]
    rfl
  have kidsOf : store'.kids fence = (fence.1, tail) :: rest.map Separator.fence := by
    refine kids_internal ?_
    rw [written, nodes_write_self]
  have kidsOfNew : store'.kids ((pushed.key : WithBot Bytes), store.pages) =
      ((pushed.key : WithBot Bytes), pushed.child) :: rest'.map Separator.fence := by
    refine kids_internal ?_
    rw [written, nodes_write_of_ne _ _ old.symm, nodes_write_self]
  have groups : Groups kids (before ++ fence :: after) ((before ++ fence :: after).flatMap kids) := ⟨heads, rfl⟩
  have children : store'.kids fence ++ store'.kids ((pushed.key : WithBot Bytes), store.pages) =
      left ++ child :: (key, pageId) :: right := by
    have all : (low ++ ⟨key, pageId⟩ :: high).map Separator.fence = (rest ++ pushed :: rest').map Separator.fence :=
      congrArg _ shared
    simp only [List.map_append, List.map_cons] at all
    rw [kidsOf, kidsOfNew, List.cons_append]
    change (fence.1, tail) :: (rest.map Separator.fence ++ pushed.fence :: rest'.map Separator.fence) = _
    rw [← all, ← List.cons_append, ← isLeft, isRight]
    simp [Separator.fence]
  have result := groups.split apart children ⟨_, _, kidsOf⟩ ⟨_, _, kidsOfNew⟩
  simpa using result

theorem pushUp_cons {left pushedRight parent : Nat} {pushedKey : Bytes} {ancestors : List Nat} {root : Option Nat}
    (node : store.nodes parent = .internal (some tail) (low ++ high)) (inLow : ∀ entry ∈ low, entry.key ≤ pushedKey)
    (inHigh : ∀ entry ∈ high, pushedKey < entry.key)
    (pushed : store.pushUp left pushedKey pushedRight (parent :: ancestors) = .ok (store', root)) :
    (willFit (store.nodes parent).lens (Separator.mk pushedKey pushedRight).len = true ∧ root = none ∧
      store' = store.write parent (.internal (some tail) (low ++ ⟨pushedKey, pushedRight⟩ :: high))) ∨
    (willFit (store.nodes parent).lens (Separator.mk pushedKey pushedRight).len = false ∧
      ∃ rest entry rest' middle, low ++ ⟨pushedKey, pushedRight⟩ :: high = rest ++ entry :: rest' ∧
        middle = (store.newPage.write store.pages (.internal (some entry.child) rest')).write parent
          (.internal (some tail) rest) ∧
        middle.pushUp parent entry.key store.pages ancestors = .ok (store', root)) := by
  rw [pushUp, node] at pushed
  simp only [upperBound_append inLow inHigh, upperBoundIn_append inLow inHigh, insertIdx_length_append] at pushed
  rw [node]
  split at pushed
  · rename_i fits
    simp only [Except.ok.injEq, Prod.mk.injEq] at pushed
    exact .inl ⟨fits, pushed.2.symm, pushed.1.symm⟩
  · rename_i full
    refine .inr ⟨by simpa using full, ?_⟩
    split at pushed
    · cases pushed
    · rename_i entry found
      generalize internalSplitPoint _ = splitAt at pushed found
      cases first : store.newPage.rebuild store.pages (.internal (some entry.child)
          ((low ++ ⟨pushedKey, pushedRight⟩ :: high).drop (splitAt + 1))) with
      | error failure => simp [first, bind, Except.bind] at pushed
      | ok middle =>
        cases second : middle.rebuild parent (.internal (some tail)
            ((low ++ ⟨pushedKey, pushedRight⟩ :: high).take splitAt)) with
        | error failure => simp [first, second, bind, Except.bind] at pushed
        | ok last =>
          simp only [first, second, bind, Except.bind] at pushed
          obtain rfl := rebuild_ok first
          obtain rfl := rebuild_ok second
          refine ⟨_, entry, _, _, ?_, rfl, pushed⟩
          obtain ⟨less, isEntry⟩ := List.getElem?_eq_some_iff.mp found
          rw [← isEntry, List.getElem_cons_drop, List.take_append_drop]

theorem pushUp_nil {left pushedRight : Nat} {pushedKey : Bytes} {root : Option Nat}
    (pushed : store.pushUp left pushedKey pushedRight [] = .ok (store', root)) :
    root = some store.pages ∧
      store' = store.newPage.write store.pages (.internal (some left) [⟨pushedKey, pushedRight⟩]) := by
  rw [pushUp] at pushed
  cases rebuilt : store.newPage.rebuild store.pages (.internal (some left) [⟨pushedKey, pushedRight⟩]) with
  | error failure => simp [rebuilt, bind, Except.bind] at pushed
  | ok middle =>
    simp only [rebuilt, bind, Except.bind, pure, Except.pure, Except.ok.injEq, Prod.mk.injEq] at pushed
    exact ⟨pushed.2.symm, pushed.1 ▸ rebuild_ok rebuilt⟩

theorem Extends.insert {middle : NodeStore}
    {bound : WithBot Bytes} {uppers' : List (Level Bytes Nat)} (extended : Extends middle store' uppers uppers')
    (pages : middle.pages = store.pages + 1)
    (frame : ∀ pageId < store.pages, pageId ≠ fence.2 → middle.nodes pageId = store.nodes pageId) :
    Extends store store' ((before ++ fence :: after) :: uppers)
      ((before ++ fence :: (bound, store.pages) :: after) :: uppers') := by
  obtain ⟨grown, ⟨new, perm, distinct, range⟩, above, more⟩ := extended
  refine ⟨grown_insert grown, ⟨store.pages :: new, ?_, ?_, ?_⟩, fun pageId old outside => ?_, by omega⟩
  · have moved : (before ++ fence :: (bound, store.pages) :: after).Perm
        ((bound, store.pages) :: (before ++ fence :: after)) := by
      rw [List.append_cons, List.append_cons before fence after]
      exact List.perm_middle
    rw [nodesOf_cons, nodesOf_cons]
    refine ((moved.map Prod.snd).append perm).trans ?_
    exact .cons _ (List.perm_append_comm_assoc _ _ _)
  · refine List.nodup_cons.mpr ⟨fun member => ?_, distinct⟩
    have := (range _ member).1
    omega
  · intro pageId member
    rcases List.mem_cons.mp member with rfl | inNew
    · omega
    · have := range pageId inNew
      omega
  · rw [above pageId (by omega) fun inside => outside ?_]
    · refine frame pageId old fun equal => outside ?_
      rw [equal]
      exact mem_nodesOf List.mem_cons_self (by simp)
    · rw [nodesOf_cons]
      exact List.mem_append_right _ inside

theorem pushUp_levels {root : Nat} {passed kept : List Nat} (path : Path kids root before fence after uppers passed)
    (heads : ∀ level ∈ uppers, ∀ other ∈ level, ∃ child rest, kids other = (other.1, child) :: rest) {top : Option Nat}
    (same : ∀ level ∈ uppers, ∀ other ∈ level, store.kids other = kids other)
    (sorted : Level.Sorted (before ++ fence :: ((key : WithBot Bytes), pageId) :: after))
    (distinct : (nodesOf uppers).Nodup) (allocated : ∀ other ∈ nodesOf uppers, other < store.pages)
    (short : ∀ other ∈ before ++ fence :: ((key : WithBot Bytes), pageId) :: after, ∀ bound : Bytes, other.1 = bound →
      bound.length ≤ MAX_KEY_SIZE + RID_TRAILER_SIZE)
    (enough : Enough store.Safe passed kept) (pushed : store.pushUp fence.2 key pageId kept = .ok (store', top)) :
    ∃ uppers', Stacked store'.kids (top.getD root)
      (before ++ fence :: ((key : WithBot Bytes), pageId) :: after) uppers' ∧
      Extends store store' uppers uppers' := by
  induction path generalizing store key pageId kept with
  | top =>
    cases enough
    obtain ⟨rfl, rfl⟩ := pushUp_nil pushed
    have kidsOf : (store.newPage.write store.pages (.internal (some root) [⟨key, pageId⟩])).kids (⊥, store.pages) =
        [(⊥, root), ((key : WithBot Bytes), pageId)] := kids_internal (nodes_write_self ..)
    refine ⟨[[(⊥, store.pages)]], .up ⟨?_, ?_⟩ .top, ?_⟩
    · intro other member
      obtain rfl := List.mem_singleton.mp member
      exact ⟨root, _, kidsOf⟩
    · rw [List.flatMap_singleton]
      exact kidsOf.symm
    · refine ⟨.more _, ⟨[store.pages], by simp [nodesOf], by simp, ?_⟩, fun other old _ => ?_, Nat.le_succ _⟩
      · intro other member
        obtain rfl := List.mem_singleton.mp member
        exact ⟨le_rfl, Nat.lt_succ_self _⟩
      · rw [nodes_write_of_ne _ _ old.ne]
        rfl
  | @down before after left right fence child uppers passed path kidsOf ih =>
    have kidsHere := (same _ List.mem_cons_self fence (by simp)).trans kidsOf
    obtain ⟨tail, low, high, node, isLeft, isRight, inLow, inHigh⟩ := separators_around kidsHere sorted
    -- whatever is kept, the parent is kept
    obtain ⟨kept', rfl⟩ : ∃ kept', kept = fence.2 :: kept' := by
      cases enough with
      | safe => exact ⟨_, rfl⟩
      | cons => exact ⟨_, rfl⟩
    rcases pushUp_cons node inLow inHigh pushed with ⟨-, rfl, rfl⟩ |
      ⟨full, rest, entry, rest', middle, shared, written, above⟩
    · exact ⟨_, pushUp_fits path heads same distinct kidsOf isLeft isRight⟩
    · have enough' : Enough store.Safe passed kept' := by
        cases enough with
        | safe isSafe =>
          have shortKey := short (key, pageId) (by simp) key rfl
          rw [willFit_mono isSafe (separator_len_le shortKey)] at full
          cases full
        | cons enough => exact enough
      have inRange : ∀ other ∈ before ++ fence :: after, other.2 < store.pages := fun other member =>
        allocated _ (mem_nodesOf List.mem_cons_self member)
      have groups := pushUp_split (heads _ List.mem_cons_self) (same _ List.mem_cons_self) distinct inRange isLeft
        isRight shared written
      have pages : middle.pages = store.pages + 1 := by
        rw [written]
        rfl
      have frame : ∀ pageId < store.pages, pageId ≠ fence.2 → middle.nodes pageId = store.nodes pageId := by
        intro other old different
        rw [written, nodes_write_of_ne _ _ different, nodes_write_of_ne _ _ old.ne]
        rfl
      have elsewhere := (ne_of_nodup distinct).2
      rw [nodesOf_cons] at distinct allocated
      obtain ⟨-, distinctAbove, across⟩ := List.nodup_append.mp distinct
      have unchanged : ∀ other ∈ nodesOf uppers, middle.nodes other = store.nodes other := fun other member =>
        frame other (allocated other (List.mem_append_right _ member)) (elsewhere other member)
      obtain ⟨uppers', stacked, extended⟩ := ih (fun level member => heads level (List.mem_cons_of_mem _ member))
        (fun level member other inLevel => by
          rw [kids_congr (unchanged _ (mem_nodesOf member inLevel)),
            same level (List.mem_cons_of_mem _ member) other inLevel])
        (groups.sorted sorted) distinctAbove
        (fun other member => by
          have := allocated other (List.mem_append_right _ member)
          omega)
        (fun other member bound isBound => by
          obtain ⟨first, inLower⟩ := groups.bound_mem member
          exact short _ inLower bound isBound)
        (enough'.mono fun node member safe => by
          rw [Safe, unchanged node (path.passed_mem node member)]
          exact safe)
        above
      refine ⟨_, .up (groups.congr fun other member => kids_congr ?_) stacked, extended.insert pages frame⟩
      rcases mem_insert_two.mp member with rfl | old
      · refine extended.frame _ (by omega) fun inside => ?_
        exact absurd (allocated _ (List.mem_append_right _ inside)) (lt_irrefl _)
      · have inLevel := mem_insert.mpr old
        refine extended.frame other.2 ((inRange other inLevel).trans (by omega)) fun inside => ?_
        exact across other.2 (List.mem_map_of_mem inLevel) other.2 inside rfl

end NodeStore

end SimpleRdbms.Storage
