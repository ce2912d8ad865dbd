import SimpleRdbms.Proof.BTreeFailures

namespace SimpleRdbms.Storage
open Lib BTree

namespace BTree

abbrev Increasing (entries : List LeafEntry) : Prop := entries.Pairwise (·.sortKey < ·.sortKey)

theorem Increasing.cut {entries : List LeafEntry} (ordered : Increasing entries) (sortKey : Bytes) :
    ∃ low high, entries = low ++ high ∧ (∀ entry ∈ low, entry.sortKey ≤ sortKey) ∧
      ∀ entry ∈ high, sortKey < entry.sortKey := by
  obtain ⟨low, high, split, inLow, inHigh⟩ := exists_cut (fun entry : LeafEntry => entry.sortKey ≤ sortKey)
    (ordered.imp fun {a b} less => by simpa using fun below => less.le.trans below)
  exact ⟨low, high, split, by simpa using inLow, by simpa using inHigh⟩

theorem Increasing.insert {low high : List LeafEntry} {entry : LeafEntry} (ordered : Increasing (low ++ high))
    (inLow : ∀ other ∈ low, other.sortKey ≤ entry.sortKey) (inHigh : ∀ other ∈ high, entry.sortKey < other.sortKey)
    (fresh : entry ∉ low ++ high) : Increasing (low ++ entry :: high) := by
  obtain ⟨ofLow, ofHigh, across⟩ := List.pairwise_append.mp ordered
  refine List.pairwise_append.mpr ⟨ofLow, List.pairwise_cons.mpr ⟨inHigh, ofHigh⟩, fun other member later => ?_⟩
  rw [List.mem_cons]
  rintro (rfl | inside)
  · refine lt_of_le_of_ne (inLow other member) fun same => fresh ?_
    rw [← LeafEntry.sortKey_injective same]
    exact List.mem_append_left _ member
  · exact across other member later inside

theorem upperBoundLeaf_append {low high : List LeafEntry} {sortKey : Bytes}
    (inLow : ∀ entry ∈ low, entry.sortKey ≤ sortKey) (inHigh : ∀ entry ∈ high, sortKey < entry.sortKey) :
    upperBoundLeaf (low ++ high) sortKey = low.length ∧ upperBoundInLeaf (low ++ high) sortKey = low.length :=
  ⟨searchSlots_append (by simpa using inLow) (by simpa using inHigh),
    takeWhile_append_length (by simpa using inLow) (by simpa using inHigh)⟩

end BTree

namespace NodeStore
variable {store store' : NodeStore} {root : Nat} {lower : Level Bytes Nat} {uppers : List (Level Bytes Nat)}
  {fence : Fence Bytes Nat} {next : Option (Fence Bytes Nat)}

def leafEntries (store : NodeStore) (pageId : Nat) : List LeafEntry :=
  match store.nodes pageId with
  | .leaf _ entries => entries
  | .internal _ _ => []

theorem leafEntries_leaf {pageId : Nat} {tail : Option Nat} {entries : List LeafEntry}
    (node : store.nodes pageId = .leaf tail entries) : store.leafEntries pageId = entries := by
  rw [leafEntries, node]

theorem leafEntries_congr {pageId : Nat} (same : store'.nodes pageId = store.nodes pageId) :
    store'.leafEntries pageId = store.leafEntries pageId := by
  rw [leafEntries, same, leafEntries]

structure LeafAt (store : NodeStore) (fence : Fence Bytes Nat) (next : Option (Fence Bytes Nat)) : Prop where
  node : store.nodes fence.2 = .leaf (next.map Prod.snd) (store.leafEntries fence.2)
  ordered : Increasing (store.leafEntries fence.2)
  low : ∀ entry ∈ store.leafEntries fence.2, fence.1 ≤ entry.sortKey
  high : ∀ entry ∈ store.leafEntries fence.2, ∀ other ∈ next, (entry.sortKey : WithBot Bytes) < other.1
  keys : ∀ entry ∈ store.leafEntries fence.2, entry.key.length ≤ MAX_KEY_SIZE

theorem LeafAt.congr (leaf : store.LeafAt fence next) (same : store'.nodes fence.2 = store.nodes fence.2) :
    store'.LeafAt fence next := by
  obtain ⟨node, ordered, low, high, keys⟩ := leaf
  rw [← leafEntries_congr same] at node ordered low high keys
  exact ⟨same.trans node, ordered, low, high, keys⟩

def contents (store : NodeStore) (leaves : Level Bytes Nat) : List LeafEntry :=
  leaves.flatMap fun fence => store.leafEntries fence.2

theorem contents_append (leaves leaves' : Level Bytes Nat) :
    store.contents (leaves ++ leaves') = store.contents leaves ++ store.contents leaves' := List.flatMap_append

theorem contents_cons (leaves : Level Bytes Nat) :
    store.contents (fence :: leaves) = store.leafEntries fence.2 ++ store.contents leaves := List.flatMap_cons

theorem contents_congr {leaves : Level Bytes Nat}
    (same : ∀ fence ∈ leaves, store'.nodes fence.2 = store.nodes fence.2) :
    store'.contents leaves = store.contents leaves :=
  List.flatMap_congr fun fence member => leafEntries_congr (same fence member)

theorem childForKey_kids {first : Nat} {rest : Level Bytes Nat} (kidsOf : store.kids fence = (fence.1, first) :: rest)
    (sorted : (store.kids fence).Sorted) {key : Bytes} (low : fence.1 ≤ key) :
    ∃ tail entries left, ∃ child : Fence Bytes Nat, ∃ right, store.nodes fence.2 = .internal (some tail) entries ∧
      childForKey fence.2 (some tail) entries key = .ok child.2 ∧ store.kids fence = left ++ child :: right ∧
      child.1 ≤ (key : WithBot Bytes) ∧ ∀ other ∈ right, (key : WithBot Bytes) < other.1 := by
  obtain ⟨tail, entries, node, -, isRest⟩ := kids_eq_cons kidsOf
  have kidsOf' := kids_internal node
  have ordered : entries.Pairwise (·.key < ·.key) := by
    rw [kidsOf', Level.Sorted, List.pairwise_cons, List.pairwise_map] at sorted
    exact sorted.2.imp fun less => WithBot.coe_lt_coe.mp less
  obtain ⟨before, after, rfl, inBefore, inAfter⟩ := exists_cut (fun entry : Separator => entry.key ≤ key)
    (ordered.imp fun {a b} less => by simpa using fun below => less.le.trans below)
  simp only [decide_eq_true_eq, decide_eq_false_iff_not, not_le] at inBefore inAfter
  have above : ∀ other ∈ after.map Separator.fence, (key : WithBot Bytes) < other.1 := by
    intro other member
    obtain ⟨entry, inside, rfl⟩ := List.mem_map.mp member
    exact WithBot.coe_lt_coe.mpr (inAfter entry inside)
  rcases List.eq_nil_or_concat before with rfl | ⟨others, last, rfl⟩
  · refine ⟨tail, _, [], (fence.1, tail), after.map Separator.fence, node, ?_, by simpa using kidsOf', low, above⟩
    rw [childForKey, upperBound_append inBefore inAfter]
    rfl
  · refine ⟨tail, _, (fence.1, tail) :: others.map Separator.fence, last.fence, after.map Separator.fence, node, ?_,
      by simpa using kidsOf', WithBot.coe_le_coe.mpr (inBefore last (by simp)), above⟩
    rw [childForKey, upperBound_append inBefore inAfter]
    simp [Separator.fence]

theorem descendForInsert_internal {key : Bytes} {len fuel tail child : Nat} {entries : List Separator} {kept : List Nat}
    {pageId : Nat} (node : store.nodes pageId = .internal (some tail) entries)
    (chosen : childForKey pageId (some tail) entries key = .ok child) :
    store.descendForInsert key len (fuel + 1) pageId kept = store.descendForInsert key len fuel child
      (pageId :: if willFit (store.nodes pageId).lens MAX_INTERNAL_PUSH_UP_SIZE then [] else kept) := by
  rw [descendForInsert]
  simp only [node, chosen, bind, Except.bind]

theorem descendForInsert_path (stacked : Stacked store.kids root lower uppers) (sorted : lower.Sorted) (key : Bytes)
    (len : Nat) :
    ∃ before, ∃ fence : Fence Bytes Nat, ∃ after passed kept, lower = before ++ fence :: after ∧
      fence.1 ≤ (key : WithBot Bytes) ∧
      (∀ other ∈ after, (key : WithBot Bytes) < other.1) ∧ Path store.kids root before fence after uppers passed ∧
      Enough store.Safe passed kept ∧ ∀ fuel, store.descendForInsert key len (fuel + uppers.length) root [] =
        store.descendForInsert key len fuel fence.2 kept := by
  induction stacked with
  | top => exact ⟨[], (⊥, root), [], [], [], rfl, bot_le, by simp, .top, .root, fun fuel => rfl⟩
  | @up lower upper uppers groups _ ih =>
    obtain ⟨before, fence, after, passed, kept, rfl, low, high, path, enough, reached⟩ := ih (groups.sorted sorted)
    have here : fence ∈ before ++ fence :: after := by simp
    obtain ⟨first, rest, kidsOf⟩ := groups.heads fence here
    have split : lower = before.flatMap store.kids ++ store.kids fence ++ after.flatMap store.kids := by
      rw [groups.eq]
      simp [List.flatMap_append]
    have sortedKids : (store.kids fence).Sorted := by
      rw [split] at sorted
      exact (List.pairwise_append.mp (List.pairwise_append.mp sorted).1).2.1
    obtain ⟨tail, entries, left, child, right, node, chosen, isKids, low', high'⟩ :=
      childForKey_kids kidsOf sortedKids low
    refine ⟨_, child, _, _,
      fence.2 :: if willFit (store.nodes fence.2).lens MAX_INTERNAL_PUSH_UP_SIZE then [] else kept,
      ?_, low', ?_, .down path isKids, ?_, fun fuel => ?_⟩
    · rw [split, isKids]
      simp
    · intro other member
      rcases List.mem_append.mp member with inRight | beyond
      · exact high' other inRight
      · obtain ⟨parent, inAfter, inKids⟩ := List.mem_flatMap.mp beyond
        exact (high parent inAfter).trans_le (groups.bound_le sorted (by simp [inAfter]) inKids)
    · split
      · rename_i isSafe
        exact .safe isSafe
      · exact .cons enough
    · have one : fuel + (uppers.length + 1) = (fuel + 1) + uppers.length := by omega
      rw [List.length_cons, one, reached, descendForInsert_internal node chosen]

theorem kids_same (same : ∀ pageId ∈ nodesOf uppers, store'.nodes pageId = store.nodes pageId) :
    ∀ level ∈ uppers, ∀ other ∈ level, store'.kids other = store.kids other :=
  fun _ inUppers _ inLevel => kids_congr (same _ (mem_nodesOf inUppers inLevel))

theorem LeafAt.of_node {entries : List LeafEntry} (node : store.nodes fence.2 = .leaf (next.map Prod.snd) entries)
    (ordered : Increasing entries) (low : ∀ entry ∈ entries, fence.1 ≤ entry.sortKey)
    (high : ∀ entry ∈ entries, ∀ other ∈ next, (entry.sortKey : WithBot Bytes) < other.1)
    (keys : ∀ entry ∈ entries, entry.key.length ≤ MAX_KEY_SIZE) : store.LeafAt fence next := by
  have same := leafEntries_leaf node
  refine ⟨?_, ?_, ?_, ?_, ?_⟩ <;> rw [same]
  · exact node
  · exact ordered
  · exact low
  · exact high
  · exact keys

theorem splitLeaf_ok {leaf : Nat} {tail : Option Nat} {entries : List LeafEntry} {key : Bytes}
    (split : store.splitLeaf leaf tail entries = .ok (store', key)) :
    ∃ low first high, entries = low ++ first :: high ∧ low.length = leafSplitPoint (entries.map LeafEntry.len) ∧
      key = first.sortKey ∧
      store' = (store.newPage.write store.pages (.leaf tail (first :: high))).write leaf
        (.leaf (some store.pages) low) := by
  unfold splitLeaf at split
  simp only at split
  generalize leafSplitPoint (entries.map LeafEntry.len) = mid at *
  cases found : entries[mid]? with
  | none => simp [found] at split
  | some first =>
    obtain ⟨less, isFirst⟩ := List.getElem?_eq_some_iff.mp found
    cases right : store.newPage.rebuild store.pages (.leaf tail (entries.drop mid)) with
    | error failure => simp [found, right, bind, Except.bind] at split
    | ok middle =>
      cases left : middle.rebuild leaf (.leaf (some store.pages) (entries.take mid)) with
      | error failure => simp [found, right, left, bind, Except.bind] at split
      | ok last =>
        simp only [found, right, left, bind, Except.bind, pure, Except.pure, Except.ok.injEq, Prod.mk.injEq] at split
        obtain ⟨rfl, rfl⟩ := split
        have dropped : entries.drop mid = first :: entries.drop (mid + 1) := by
          rw [← isFirst, List.getElem_cons_drop]
        refine ⟨entries.take mid, first, entries.drop (mid + 1), ?_, by simp [less.le], rfl, ?_⟩
        · rw [← dropped, List.take_append_drop]
        · rw [rebuild_ok left, rebuild_ok right, dropped]

structure Placed (store : NodeStore) (fence : Fence Bytes Nat) (next : Option (Fence Bytes Nat)) (entry : LeafEntry)
    (entries : List LeafEntry) : Prop where
  ordered : Increasing entries
  low : ∀ other ∈ entries, fence.1 ≤ other.sortKey
  high : ∀ other ∈ entries, ∀ after ∈ next, (other.sortKey : WithBot Bytes) < after.1
  keys : ∀ other ∈ entries, other.key.length ≤ MAX_KEY_SIZE
  perm : entries.Perm (entry :: store.leafEntries fence.2)

theorem LeafAt.placed (leaf : store.LeafAt fence next) {entry : LeafEntry} (low : fence.1 ≤ entry.sortKey)
    (high : ∀ other ∈ next, (entry.sortKey : WithBot Bytes) < other.1) (small : entry.key.length ≤ MAX_KEY_SIZE)
    (fresh : entry ∉ store.leafEntries fence.2) :
    let entries := store.leafEntries fence.2
    Placed store fence next entry (entries.insertIdx (upperBoundLeaf entries entry.sortKey) entry) ∧
      Placed store fence next entry (entries.insertIdx (upperBoundInLeaf entries entry.sortKey) entry) := by
  obtain ⟨before, after, split, inBefore, inAfter⟩ := leaf.ordered.cut entry.sortKey
  have placed : Placed store fence next entry (before ++ entry :: after) := by
    have members : ∀ other ∈ before ++ entry :: after, other = entry ∨ other ∈ store.leafEntries fence.2 := by
      intro other member
      simp only [List.mem_append, List.mem_cons, split] at member ⊢
      rcases member with inBefore | rfl | inAfter
      · exact .inr (.inl inBefore)
      · exact .inl rfl
      · exact .inr (.inr inAfter)
    refine ⟨?_, fun other member => ?_, fun other member => ?_, fun other member => ?_, ?_⟩
    · have ordered := leaf.ordered
      rw [split] at ordered fresh
      exact ordered.insert inBefore inAfter fresh
    · rcases members other member with rfl | old
      · exact low
      · exact leaf.low other old
    · rcases members other member with rfl | old
      · exact high
      · exact leaf.high other old
    · rcases members other member with rfl | old
      · exact small
      · exact leaf.keys other old
    · rw [split]
      exact List.perm_middle
  intro entries
  have split' : entries = before ++ after := split
  obtain ⟨searched, scanned⟩ := upperBoundLeaf_append inBefore inAfter
  rw [split', searched, scanned, insertIdx_length_append]
  exact ⟨placed, placed⟩

end NodeStore

namespace BTreeIndex
variable {index : BTreeIndex} {leaves : Level Bytes Nat} {uppers : List (Level Bytes Nat)}

structure Shape (index : BTreeIndex) (leaves : Level Bytes Nat) (uppers : List (Level Bytes Nat)) : Prop where
  stacked : Stacked index.store.kids index.rootPageId leaves uppers
  sorted : leaves.Sorted
  chain : Each index.store.LeafAt leaves
  distinct : (nodesOf (leaves :: uppers)).Nodup
  allocated : ∀ pageId ∈ nodesOf (leaves :: uppers), pageId < index.store.pages
  short : ∀ fence ∈ leaves, ∀ bound : Bytes, fence.1 = bound → bound.length ≤ MAX_KEY_SIZE + RID_TRAILER_SIZE

namespace Shape

theorem height (shape : index.Shape leaves uppers) : uppers.length < index.store.pages := by
  have bound : (nodesOf (leaves :: uppers)).length ≤ (List.range index.store.pages).length :=
    (List.subperm_of_subset shape.distinct fun pageId member =>
      List.mem_range.mpr (shape.allocated pageId member)).length_le
  rw [List.length_range] at bound
  exact shape.stacked.length_lt.trans_le bound

variable {before after : Level Bytes Nat} {fence : Fence Bytes Nat} {entry : LeafEntry} {entries : List LeafEntry}

theorem apart (shape : index.Shape (before ++ fence :: after) uppers) :
    (∀ other ∈ before, other.2 ≠ fence.2) ∧ (∀ other ∈ after, other.2 ≠ fence.2) ∧ ∀ pageId ∈ nodesOf uppers,
      pageId ≠ fence.2 := by
  have distinct := shape.distinct
  rw [nodesOf_cons, List.map_append, List.map_cons] at distinct
  obtain ⟨inLevel, -, across⟩ := List.nodup_append.mp distinct
  obtain ⟨-, ofAfter, ofBefore⟩ := List.nodup_append.mp inLevel
  refine ⟨fun other member => ?_, fun other member same => ?_, fun pageId member same => ?_⟩
  · exact ofBefore other.2 (List.mem_map_of_mem member) fence.2 (by simp)
  · exact (List.nodup_cons.mp ofAfter).1 (same ▸ List.mem_map_of_mem member)
  · exact across fence.2 (by simp) pageId member same.symm

theorem fits (shape : index.Shape (before ++ fence :: after) uppers)
    (placed : index.store.Placed fence after.head? entry entries) :
    let store := index.store.write fence.2 (.leaf (after.head?.map Prod.snd) entries)
    BTreeIndex.Shape { index with store } (before ++ fence :: after) uppers ∧
      (store.contents (before ++ fence :: after)).Perm (entry :: index.store.contents (before ++ fence :: after)) := by
  intro store
  obtain ⟨notBefore, notAfter, notAbove⟩ := shape.apart
  have elsewhere : ∀ pageId, pageId ≠ fence.2 → store.nodes pageId = index.store.nodes pageId := fun _ different =>
    NodeStore.nodes_write_of_ne _ _ different
  have here : store.nodes fence.2 = .leaf (after.head?.map Prod.snd) entries := NodeStore.nodes_write_self ..
  refine ⟨⟨shape.stacked.congr (NodeStore.kids_same fun pageId member => elsewhere pageId (notAbove pageId member)),
    shape.sorted, ?_, shape.distinct, shape.allocated, shape.short⟩, ?_⟩
  · refine shape.chain.splice (fun other member next leaf => leaf.congr (elsewhere _ (notBefore other member))) ⟨?_, ?_⟩
    · exact .of_node here placed.ordered placed.low placed.high placed.keys
    · refine shape.chain.of_append.2.mono fun other member next leaf => ?_
      exact leaf.congr (elsewhere _ (notAfter other member))
  · rw [NodeStore.contents_append, NodeStore.contents_append, NodeStore.contents_cons, NodeStore.contents_cons,
      NodeStore.contents_congr fun other member => elsewhere _ (notBefore other member),
      NodeStore.contents_congr fun other member => elsewhere _ (notAfter other member), NodeStore.leafEntries_leaf here]
    refine ((placed.perm.append_right _).append_left _).trans ?_
    exact List.perm_middle

structure Halved (index : BTreeIndex) (before : Level Bytes Nat) (fence : Fence Bytes Nat) (after : Level Bytes Nat)
    (entry : LeafEntry) (key : Bytes) (store : NodeStore) : Prop where
  sorted : Level.Sorted (before ++ fence :: ((key : WithBot Bytes), index.store.pages) :: after)
  chain : Each store.LeafAt (before ++ fence :: ((key : WithBot Bytes), index.store.pages) :: after)
  short : key.length ≤ MAX_KEY_SIZE + RID_TRAILER_SIZE
  frame : ∀ pageId < index.store.pages, pageId ≠ fence.2 → store.nodes pageId = index.store.nodes pageId
  pages : store.pages = index.store.pages + 1
  perm : (store.contents (before ++ fence :: ((key : WithBot Bytes), index.store.pages) :: after)).Perm
    (entry :: index.store.contents (before ++ fence :: after))

theorem halved (shape : index.Shape (before ++ fence :: after) uppers) {first : LeafEntry} {low high : List LeafEntry}
    (placed : index.store.Placed fence after.head? entry (low ++ first :: high)) (nonempty : low ≠ [])
    {store : NodeStore} (written : store = (index.store.newPage.write index.store.pages
      (.leaf (after.head?.map Prod.snd) (first :: high))).write
      fence.2 (.leaf (some index.store.pages) low)) : Halved index before fence after entry first.sortKey store := by
  obtain ⟨notBefore, notAfter, notAbove⟩ := shape.apart
  have old : ∀ other ∈ before ++ fence :: after, other.2 < index.store.pages := fun other member =>
    shape.allocated _ (mem_nodesOf List.mem_cons_self member)
  have frame : ∀ pageId < index.store.pages, pageId ≠ fence.2 → store.nodes pageId = index.store.nodes pageId := by
    intro pageId allocated different
    rw [written, NodeStore.nodes_write_of_ne _ _ different, NodeStore.nodes_write_of_ne _ _ allocated.ne]
    rfl
  have left : store.nodes fence.2 = .leaf (some index.store.pages) low := by
    rw [written, NodeStore.nodes_write_self]
  have right : store.nodes index.store.pages = .leaf (after.head?.map Prod.snd) (first :: high) := by
    rw [written, NodeStore.nodes_write_of_ne _ _ (old fence (by simp)).ne', NodeStore.nodes_write_self]
  obtain ⟨ofLow, ofHigh, across⟩ := List.pairwise_append.mp placed.ordered
  obtain ⟨lowest, inLow⟩ := List.exists_mem_of_ne_nil low nonempty
  have above : fence.1 < first.sortKey :=
    (placed.low lowest (by simp [inLow])).trans_lt (WithBot.coe_lt_coe.mpr (across lowest inLow first (by simp)))
  have chain := shape.chain
  have sorted := shape.sorted
  refine ⟨?_, ?_, ?_, frame, by rw [written]; rfl, ?_⟩
  · obtain ⟨ofBefore, ofRest, fromBefore⟩ := List.pairwise_append.mp sorted
    obtain ⟨fromFence, ofAfter⟩ := List.pairwise_cons.mp ofRest
    have below : ∀ other ∈ after, (first.sortKey : WithBot Bytes) < other.1 := by
      cases after with
      | nil => simp
      | cons next others =>
        have least := placed.high first (by simp) next rfl
        refine List.forall_mem_cons.mpr ⟨least, fun other member => ?_⟩
        exact least.trans ((List.pairwise_cons.mp ofAfter).1 other member)
    refine List.pairwise_append.mpr ⟨ofBefore, List.pairwise_cons.mpr
      ⟨List.forall_mem_cons.mpr ⟨above, fromFence⟩, List.pairwise_cons.mpr ⟨below, ofAfter⟩⟩, ?_⟩
    intro other member later inRest
    have less := fromBefore other member
    rcases List.mem_cons.mp inRest with rfl | inRest
    · exact less _ (by simp)
    · rcases List.mem_cons.mp inRest with rfl | inAfter
      · exact (less fence (by simp)).trans above
      · exact less later (by simp [inAfter])
  · refine chain.splice (fun other member next leaf => leaf.congr ?_) ⟨?_, ?_, ?_⟩
    · exact frame _ (old other (by simp [member])) (notBefore other member)
    · refine .of_node left ofLow (fun other member => placed.low other (by simp [member])) ?_
        fun other member => placed.keys other (by simp [member])
      intro other member next isNext
      obtain rfl := Option.some.inj isNext
      exact WithBot.coe_lt_coe.mpr (across other member first (by simp))
    · refine .of_node right ofHigh ?_ (fun other member => placed.high other (by simp [List.mem_cons.mp member]))
        fun other member => placed.keys other (by simp [List.mem_cons.mp member])
      refine List.forall_mem_cons.mpr ⟨le_rfl, fun other member => ?_⟩
      exact WithBot.coe_le_coe.mpr ((List.pairwise_cons.mp ofHigh).1 other member).le
    · refine chain.of_append.2.mono fun other member next leaf => leaf.congr ?_
      exact frame _ (old other (by simp [member])) (notAfter other member)
  · rw [LeafEntry.sortKey_length]
    exact Nat.add_le_add_right (placed.keys first (by simp)) _
  · rw [NodeStore.contents_append, NodeStore.contents_append, NodeStore.contents_cons, NodeStore.contents_cons,
      NodeStore.contents_cons, NodeStore.leafEntries_leaf left, NodeStore.leafEntries_leaf right,
      NodeStore.contents_congr fun other member => frame _ (old other (by simp [member])) (notBefore other member),
      NodeStore.contents_congr fun other member => frame _ (old other (by simp [member])) (notAfter other member),
      ← List.append_assoc low]
    refine ((placed.perm.append_right _).append_left _).trans ?_
    exact List.perm_middle

theorem leafSplitPoint_pos {lens : List Nat} (two : 2 ≤ lens.length) : 0 < leafSplitPoint lens := by
  unfold leafSplitPoint
  omega

theorem willFit_nil (small : entry.key.length ≤ MAX_KEY_SIZE) : willFit [] entry.len = true := by
  rw [willFit_iff, load_nil, LeafEntry.len]
  simp only [CAPACITY, MAX_KEY_SIZE, PAGE_SIZE, HEADER_SIZE, SLOT_SIZE, KEY_LEN_PREFIX, RID_TRAILER_SIZE,
    CHILD_TRAILER_SIZE] at small ⊢
  omega

theorem pushed (shape : index.Shape (before ++ fence :: after) uppers) {passed kept : List Nat} {key : Bytes}
    {middle store : NodeStore} {top : Option Nat}
    (path : Path index.store.kids index.rootPageId before fence after uppers passed)
    (enough : Enough index.store.Safe passed kept) (halved : Halved index before fence after entry key middle)
    (result : middle.pushUp fence.2 key index.store.pages kept = .ok (store, top)) :
    ∃ uppers', BTreeIndex.Shape { store, rootPageId := top.getD index.rootPageId }
        (before ++ fence :: ((key : WithBot Bytes), index.store.pages) :: after) uppers' ∧
      Grown ((before ++ fence :: after) :: uppers)
        ((before ++ fence :: ((key : WithBot Bytes), index.store.pages) :: after) :: uppers') ∧
      (store.contents (before ++ fence :: ((key : WithBot Bytes), index.store.pages) :: after)).Perm
        (entry :: index.store.contents (before ++ fence :: after)) := by
  obtain ⟨-, -, notAbove⟩ := shape.apart
  have distinct := shape.distinct
  have allocated := shape.allocated
  rw [nodesOf_cons] at distinct allocated
  obtain ⟨-, distinctAbove, across⟩ := List.nodup_append.mp distinct
  have above : ∀ pageId ∈ nodesOf uppers, pageId < index.store.pages := fun pageId member =>
    allocated pageId (List.mem_append_right _ member)
  have unchanged : ∀ pageId ∈ nodesOf uppers, middle.nodes pageId = index.store.nodes pageId := fun pageId member =>
    halved.frame pageId (above pageId member) (notAbove pageId member)
  have short : ∀ other ∈ before ++ fence :: ((key : WithBot Bytes), index.store.pages) :: after, ∀ bound : Bytes,
      other.1 = bound → bound.length ≤ MAX_KEY_SIZE + RID_TRAILER_SIZE := by
    intro other member bound isBound
    simp only [List.mem_append, List.mem_cons] at member
    rcases member with inBefore | rfl | rfl | inAfter
    · exact shape.short other (by simp [inBefore]) bound isBound
    · exact shape.short other (by simp) bound isBound
    · obtain rfl := WithBot.coe_inj.mp isBound
      exact halved.short
    · exact shape.short other (by simp [inAfter]) bound isBound
  have heads : ∀ level ∈ uppers, ∀ other ∈ level, ∃ child rest, index.store.kids other = (other.1, child) :: rest :=
    shape.stacked.heads
  have more := halved.pages
  obtain ⟨uppers', stacked, extended⟩ :=
    NodeStore.pushUp_levels path heads (NodeStore.kids_same unchanged) halved.sorted
    distinctAbove (fun other member => by have := above other member; omega) short
    (enough.mono fun node member safe => by
      rw [NodeStore.Safe, unchanged node (path.passed_mem node member)]
      exact safe) result
  have leafFrame : ∀ other ∈ before ++ fence :: ((key : WithBot Bytes), index.store.pages) :: after,
      store.nodes other.2 = middle.nodes other.2 := by
    intro other member
    have place : other.2 = index.store.pages ∨ other ∈ before ++ fence :: after := by
      simp only [List.mem_append, List.mem_cons] at member ⊢
      rcases member with inBefore | rfl | rfl | inAfter
      · exact .inr (.inl inBefore)
      · exact .inr (.inr (.inl rfl))
      · exact .inl rfl
      · exact .inr (.inr (.inr inAfter))
    refine extended.frame other.2 ?_ fun inside => ?_
    · rcases place with isNew | old
      · omega
      · have := allocated other.2 (List.mem_append_left _ (List.mem_map_of_mem old))
        omega
    · rcases place with isNew | old
      · have := above other.2 inside
        omega
      · exact across other.2 (List.mem_map_of_mem old) other.2 inside rfl
  have whole : NodeStore.Extends index.store store ((before ++ fence :: after) :: uppers)
      ((before ++ fence :: ((key : WithBot Bytes), index.store.pages) :: after) :: uppers') :=
    extended.insert more halved.frame
  obtain ⟨new, perm, distinctNew, range⟩ := whole.new
  refine ⟨uppers', ⟨stacked, halved.sorted, halved.chain.mono fun other member next leaf =>
    leaf.congr (leafFrame other member), ?_, fun pageId member => ?_, short⟩, whole.grown, ?_⟩
  · refine perm.nodup_iff.mpr (List.nodup_append.mpr
      ⟨distinctNew, shape.distinct, fun pageId inNew other old same => ?_⟩)
    have := (range pageId inNew).1
    have := shape.allocated other old
    omega
  · rcases List.mem_append.mp (perm.mem_iff.mp member) with inNew | old
    · exact (range pageId inNew).2
    · exact (shape.allocated pageId old).trans_le whole.pages
  · rw [NodeStore.contents_congr leafFrame]
    exact halved.perm

theorem descent (shape : index.Shape leaves uppers) (entry : LeafEntry) :
    ∃ before, ∃ fence : Fence Bytes Nat, ∃ after passed kept, leaves = before ++ fence :: after ∧
      fence.1 ≤ (entry.sortKey : WithBot Bytes) ∧ (∀ other ∈ after, (entry.sortKey : WithBot Bytes) < other.1) ∧
      Path index.store.kids index.rootPageId before fence after uppers passed ∧ Enough index.store.Safe passed kept ∧
      index.store.LeafAt fence after.head? ∧
      index.store.descendForInsert entry.sortKey entry.len index.store.pages index.rootPageId [] =
        .ok (if willFit (index.store.nodes fence.2).lens entry.len then [] else kept, fence.2) := by
  obtain ⟨before, fence, after, passed, kept, rfl, low, high, path, enough, reached⟩ :=
    NodeStore.descendForInsert_path shape.stacked shape.sorted entry.sortKey entry.len
  have leaf := shape.chain.here
  refine ⟨before, fence, after, passed, kept, rfl, low, high, path, enough, leaf, ?_⟩
  have fuel : index.store.pages = (index.store.pages - uppers.length - 1 + 1) + uppers.length := by
    have := shape.height
    omega
  rw [fuel, reached, NodeStore.descendForInsert, leaf.node]

theorem inserted (shape : index.Shape leaves uppers) {key : Bytes} {row : RowId} {index' : BTreeIndex}
    (fresh : ⟨key, row⟩ ∉ index.store.contents leaves) (result : index.insert key row = .ok index') :
    ∃ leaves' uppers', index'.Shape leaves' uppers' ∧ Grown (leaves :: uppers) (leaves' :: uppers') ∧
      (index'.store.contents leaves').Perm (⟨key, row⟩ :: index.store.contents leaves) := by
  unfold insert at result
  split at result
  · cases result
  · rename_i small
    simp only at result
    have small' : (LeafEntry.mk key row).key.length ≤ MAX_KEY_SIZE := not_lt.mp small
    generalize LeafEntry.mk key row = entry at *
    obtain ⟨before, fence, after, passed, kept, rfl, low, high, path, enough, leaf, found⟩ := shape.descent entry
    have notHere : entry ∉ index.store.leafEntries fence.2 := fun member =>
      fresh (List.mem_flatMap.mpr ⟨fence, by simp, member⟩)
    have next : ∀ other ∈ after.head?, (entry.sortKey : WithBot Bytes) < other.1 := fun other isHead =>
      high other (List.mem_of_mem_head? isHead)
    obtain ⟨placed, placed'⟩ := leaf.placed low next small' notHere
    rw [found] at result
    simp only at result
    cases room : willFit (index.store.nodes fence.2).lens entry.len with
    | true =>
      rw [leaf.node] at room
      simp only [leaf.node, room, if_true, Except.ok.injEq] at result
      subst result
      obtain ⟨shape', perm⟩ := shape.fits placed
      exact ⟨_, _, shape', .refl _, perm⟩
    | false =>
      rw [leaf.node] at room
      simp only [leaf.node, room, Bool.false_eq_true, if_false] at result
      cases split : index.store.splitLeaf fence.2 (after.head?.map Prod.snd)
        ((index.store.leafEntries fence.2).insertIdx
          (upperBoundInLeaf (index.store.leafEntries fence.2) entry.sortKey) entry) with
      | error failure => simp [split, bind, Except.bind] at result
      | ok halves =>
        obtain ⟨middle, pushedKey⟩ := halves
        simp only [split, bind, Except.bind] at result
        cases above : middle.pushUp fence.2 pushedKey index.store.pages kept with
        | error failure => simp [above] at result
        | ok top =>
          simp only [above, pure, Except.pure, Except.ok.injEq] at result
          subst result
          obtain ⟨low, first, high, isSplit, isMid, rfl, written⟩ := NodeStore.splitLeaf_ok split
          have two : 2 ≤ ((index.store.leafEntries fence.2).insertIdx
              (upperBoundInLeaf (index.store.leafEntries fence.2) entry.sortKey) entry).length := by
            rw [placed'.perm.length_eq, List.length_cons]
            cases entries : index.store.leafEntries fence.2 with
            | nil =>
              rw [entries] at room
              exact absurd (willFit_nil small') (by rw [show willFit [] entry.len = false from room]; simp)
            | cons first rest => simp
          have nonempty : low ≠ [] := by
            rintro rfl
            rw [← List.length_map LeafEntry.len] at two
            have positive := leafSplitPoint_pos two
            rw [← isMid] at positive
            cases positive
          rw [isSplit] at placed'
          obtain ⟨uppers', shape', grown, perm⟩ :=
            shape.pushed path enough (shape.halved placed' nonempty written) above
          exact ⟨_, uppers', shape', grown, perm⟩

end Shape

end BTreeIndex

end SimpleRdbms.Storage
