import SimpleRdbms.Proof.BTreeReads

namespace SimpleRdbms.Storage
open Lib BTree

namespace BTreeIndex
variable {index : BTreeIndex} {leaves leaves' : Level Bytes Nat} {uppers uppers' : List (Level Bytes Nat)}
    {tree : Set Nat}

theorem Shape.inTree (shape : index.Shape leaves uppers) (closed : index.store.Closed tree)
    (inTree : index.rootPageId ∈ tree) : ∀ pageId ∈ nodesOf (leaves :: uppers), pageId ∈ tree := by
  have levels : ∀ level ∈ leaves :: uppers, ∀ fence ∈ level, fence.2 ∈ tree := by
    have stacked := shape.stacked
    clear shape
    induction stacked with
    | top => simpa using inTree
    | @up lower upper uppers groups _ ih =>
      refine List.forall_mem_cons.mpr ⟨fun fence member => ?_, ih⟩
      rw [groups.eq] at member
      obtain ⟨parent, inUpper, inKids⟩ := List.mem_flatMap.mp member
      obtain ⟨child, rest, kidsOf⟩ := groups.heads parent inUpper
      obtain ⟨tail, entries, node, isChild, isRest⟩ := NodeStore.kids_eq_cons kidsOf
      have linked := closed.linked parent.2 (ih upper (by simp) parent inUpper)
      rw [node] at linked
      rw [NodeStore.kids_internal node] at inKids
      rcases List.mem_cons.mp inKids with rfl | inEntries
      · exact linked tail (by simp [Node.links])
      · obtain ⟨entry, inside, rfl⟩ := List.mem_map.mp inEntries
        exact linked entry.child (List.mem_append_right _ (List.mem_map_of_mem inside))
  intro pageId member
  obtain ⟨fence, inLevels, rfl⟩ := List.mem_map.mp member
  obtain ⟨level, inLevels, inLevel⟩ := List.mem_flatten.mp inLevels
  exact levels level inLevels fence inLevel

theorem Shape.sameOn (shape : index.Shape leaves uppers) {store : NodeStore}
    (same : ∀ pageId ∈ nodesOf (leaves :: uppers), store.nodes pageId = index.store.nodes pageId)
    (more : index.store.pages ≤ store.pages) :
    BTreeIndex.Shape { index with store } leaves uppers ∧ store.contents leaves = index.store.contents leaves := by
  have onLeaves : ∀ fence ∈ leaves, store.nodes fence.2 = index.store.nodes fence.2 := fun fence member =>
    same _ (mem_nodesOf List.mem_cons_self member)
  refine ⟨⟨shape.stacked.congr (NodeStore.kids_same fun pageId member => same pageId ?_), shape.sorted,
    shape.chain.mono fun fence member next leaf => leaf.congr (onLeaves fence member), shape.distinct,
    fun pageId member => (shape.allocated pageId member).trans_le more, shape.short⟩, NodeStore.contents_congr onLeaves⟩
  rw [nodesOf_cons]
  exact List.mem_append_right _ member

theorem Shape.entrance_grown {root : Nat} (entrance : Entrance leaves uppers root)
    (grown : Grown (leaves :: uppers) (leaves' :: uppers')) : Entrance leaves' uppers' root := by
  obtain ⟨level, member, first⟩ := entrance
  obtain ⟨level', member', -, same⟩ := grown.mem member
  exact ⟨level', member', same.symm.trans first⟩

theorem create_shape (store : NodeStore) : (create store).Shape [(⊥, store.pages)] [] := by
  have node : (create store).store.nodes store.pages = .leaf none [] := NodeStore.nodes_write_self ..
  refine ⟨.top, List.pairwise_singleton _ _, ⟨?_, trivial⟩, by simp [nodesOf],
    by simp [nodesOf, create, NodeStore.newPage, NodeStore.write], ?_⟩
  · exact .of_node node .nil (by simp) (by simp) (by simp)
  · intro fence member bound isBound
    obtain rfl := List.mem_singleton.mp member
    cases isBound

end BTreeIndex

namespace IndexHistory
variable {history history' : IndexHistory}

def Built (history : IndexHistory) : Prop :=
  history.index.Sound ∧ ∃ leaves uppers, history.index.Shape leaves uppers ∧
    ∀ root ∈ history.roots, BTreeIndex.Shape.Entrance leaves uppers root

theorem built_start (start : system.init history) : history.Built := by
  refine ⟨sound_start start, ?_⟩
  obtain ⟨store, rfl⟩ := start
  refine ⟨_, _, BTreeIndex.create_shape store, fun root member => ?_⟩
  obtain rfl := List.mem_singleton.mp member
  exact (BTreeIndex.create_shape store).entrance_root

theorem built_step {action : Action} (built : history.Built) (fresh : history.Fresh action)
    (next : system.step history action = some history') : history'.Built := by
  obtain ⟨⟨tree, holds⟩, leaves, uppers, shape, roots⟩ := built
  refine ⟨sound_step ⟨tree, holds⟩ next, ?_⟩
  rcases step_cases next holds with ⟨key, row, index, rfl, result, -, rfl⟩ | ⟨store, same, more, rfl⟩
  · change _ ∉ history.index.entries at fresh
    rw [shape.entries_eq] at fresh
    obtain ⟨leaves', uppers', shape', grown, -⟩ := shape.inserted fresh result
    refine ⟨leaves', uppers', shape', List.forall_mem_cons.mpr ⟨shape'.entrance_root, fun root member => ?_⟩⟩
    exact BTreeIndex.Shape.entrance_grown (roots root member) grown
  · exact ⟨leaves, uppers, (shape.sameOn
      (fun pageId member => same pageId (shape.inTree holds.closed holds.root pageId member))
      more).1, roots⟩

theorem built (reached : system.ReachableBy Fresh history) : history.Built :=
  reached.invariant (P := Built) (fun _ => built_start) fun _ _ _ built fresh next => built_step built fresh next

theorem stale_root_harmless (reached : system.ReachableBy Fresh history) {root : Nat} (old : root ∈ history.roots) :
    (∀ key, ∃ rows, BTreeIndex.get { history.index with rootPageId := root } key = .ok rows ∧
      history.index.get key = .ok rows) ∧
    (∀ start stop, ∃ entries : List LeafEntry,
      BTreeIndex.rangeScan { history.index with rootPageId := root } start stop = entries.map .ok ∧
      history.index.rangeScan start stop = entries.map .ok) ∧
    ∃ leaf, history.index.store.leftmostLeaf history.index.store.pages root = .ok leaf ∧
      history.index.store.leftmostLeaf history.index.store.pages history.index.rootPageId = .ok leaf := by
  obtain ⟨-, leaves, uppers, shape, roots⟩ := built reached
  have here := roots root old
  have current := shape.entrance_root
  refine ⟨fun key => ⟨_, shape.get_eq here key, shape.get_eq current key⟩,
    fun start stop => ⟨_, shape.rangeScan_eq here start stop, shape.rangeScan_eq current start stop⟩, ?_⟩
  obtain ⟨first, after, same, found⟩ := shape.leftmostLeaf here
  obtain ⟨first', after', same', found'⟩ := shape.leftmostLeaf current
  rw [same] at same'
  cases same'
  exact ⟨first, found, found'⟩

def firstRow : RowId := ⟨⟨0, 0⟩, by decide, by decide⟩

def three (first second third : UInt8) : IndexHistory :=
  after (after (after empty (.insert (longKey first) firstRow)) (.insert (longKey second) firstRow))
    (.insert (longKey third) firstRow)

theorem three_reached (first second third : UInt8) : system.Reachable (three first second third) :=
  .next (.next (.next empty_reached trivial (after_step _ _)) trivial (after_step _ _)) trivial (after_step _ _)

theorem insert_fresh {history : IndexHistory} (reached : system.ReachableBy Fresh history) {key : Bytes} {row : RowId}
    (absent : LeafEntry.mk key row ∉ history.index.entries) :
    system.ReachableBy Fresh (after history (.insert key row)) :=
  .next (a := .insert key row) reached absent (after_step _ _)

set_option maxRecDepth 20000 in
theorem two_fresh : system.ReachableBy Fresh two :=
  insert_fresh (insert_fresh (.start ⟨_, rfl⟩) (by decide +kernel)) (by decide +kernel)

set_option maxRecDepth 20000 in
theorem three_fresh : system.ReachableBy Fresh (three 0 1 2) :=
  insert_fresh (insert_fresh (insert_fresh (.start ⟨_, rfl⟩) (by decide +kernel)) (by decide +kernel))
    (by decide +kernel)

set_option maxRecDepth 20000 in
theorem stale_root_harmless_split : (three 0 1 2).index.rootPageId = 3 ∧ ∃ rows,
    BTreeIndex.get { (three 0 1 2).index with rootPageId := 1 } (longKey 0) = .ok rows ∧
      (three 0 1 2).index.get (longKey 0) = .ok rows := by
  have roots : (three 0 1 2).roots = [3, 1, 1, 1] := by decide +kernel
  have root : (three 0 1 2).index.rootPageId = 3 := by decide +kernel
  exact ⟨root, (stale_root_harmless three_fresh (by simp [roots])).1 (longKey 0)⟩

set_option maxRecDepth 20000 in
theorem duplicates_found_from_stale_root : system.Reachable (three 0 0 0) ∧ 1 ∈ (three 0 0 0).roots ∧
    BTreeIndex.rangeScan { (three 0 0 0).index with rootPageId := 1 }
      (some (LeafEntry.mk (longKey 0) firstRow).sortKey) none ≠
      (three 0 0 0).index.rangeScan (some (LeafEntry.mk (longKey 0) firstRow).sortKey) none := by
  have facts : (three 0 0 0).roots = [3, 1, 1, 1] ∧ (BTreeIndex.rangeScan { (three 0 0 0).index with rootPageId := 1 }
      (some (LeafEntry.mk (longKey 0) firstRow).sortKey) none).length = 9 ∧
      ((three 0 0 0).index.rangeScan (some (LeafEntry.mk (longKey 0) firstRow).sortKey) none).length = 0 := by
    decide +kernel
  obtain ⟨roots, stale, current⟩ := facts
  refine ⟨three_reached 0 0 0, by simp [roots], fun same => ?_⟩
  rw [same, current] at stale
  cases stale

end IndexHistory

end SimpleRdbms.Storage
