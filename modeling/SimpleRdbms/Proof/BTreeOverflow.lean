import SimpleRdbms.Proof.BTreeHistory

namespace SimpleRdbms.Storage
open Lib BTree

theorem NodeStore.splitLeaf_isOk_iff {store : NodeStore} {leaf : Nat} {tail : Option Nat} {entries : List LeafEntry}
    (some : entries ≠ []) : (∃ split, store.splitLeaf leaf tail entries = .ok split) ↔
      load ((entries.map LeafEntry.len).take (leafSplitPoint (entries.map LeafEntry.len))) ≤ CAPACITY ∧
      load ((entries.map LeafEntry.len).drop (leafSplitPoint (entries.map LeafEntry.len))) ≤ CAPACITY := by
  have inside := leafSplitPoint_lt (entries.map LeafEntry.len) (by simpa using some)
  rw [List.length_map] at inside
  rw [← canRebuild_iff, ← canRebuild_iff]
  unfold splitLeaf
  generalize leafSplitPoint (entries.map LeafEntry.len) = mid at *
  cases right : canRebuild ((entries.map LeafEntry.len).drop mid) <;>
    cases left : canRebuild ((entries.map LeafEntry.len).take mid) <;>
    simp [List.getElem?_eq_getElem inside, rebuild, Node.lens, left, right, bind, Except.bind, pure, Except.pure]

namespace BTree

def withEntry (entries : List LeafEntry) (entry : LeafEntry) : List LeafEntry :=
  entries.takeWhile (·.sortKey ≤ entry.sortKey) ++ entry :: entries.dropWhile (·.sortKey ≤ entry.sortKey)

theorem insertIdx_upperBoundInLeaf (entries : List LeafEntry) (entry : LeafEntry) :
    entries.insertIdx (upperBoundInLeaf entries entry.sortKey) entry = withEntry entries entry := by
  have placed := insertIdx_length_append (entries.takeWhile (·.sortKey ≤ entry.sortKey))
    (entries.dropWhile (·.sortKey ≤ entry.sortKey)) entry
  rwa [List.takeWhile_append_dropWhile] at placed

theorem mem_withEntry {entries : List LeafEntry} {entry other : LeafEntry} :
    other ∈ withEntry entries entry ↔ other = entry ∨ other ∈ entries := by
  conv_rhs => rw [← List.takeWhile_append_dropWhile (p := (·.sortKey ≤ entry.sortKey)) (l := entries)]
  simp only [withEntry, List.mem_append, List.mem_cons]
  tauto

theorem load_withEntry (entries : List LeafEntry) (entry : LeafEntry) :
    load ((withEntry entries entry).map LeafEntry.len) =
      load (entries.map LeafEntry.len) + (SLOT_SIZE + entry.len) := by
  conv_rhs => rw [← List.takeWhile_append_dropWhile (p := (·.sortKey ≤ entry.sortKey)) (l := entries)]
  simp only [withEntry, List.map_append, List.map_cons, load_append, load_cons]
  omega

theorem leaf_load_le {entry : LeafEntry} {limit : Nat} (short : entry.key.length ≤ limit) :
    SLOT_SIZE + entry.len ≤ limit + 12 := by
  simp only [LeafEntry.len, SLOT_SIZE, KEY_LEN_PREFIX, RID_TRAILER_SIZE]
  omega

theorem withEntry_load_le {entries : List LeafEntry} {entry : LeafEntry} {limit : Nat}
    (all : ∀ other ∈ entries, other.key.length ≤ limit) (new : entry.key.length ≤ limit) :
    ∀ len ∈ (withEntry entries entry).map LeafEntry.len, SLOT_SIZE + len ≤ limit + 12 := by
  intro len member
  obtain ⟨other, inside, rfl⟩ := List.mem_map.mp member
  rcases mem_withEntry.mp inside with rfl | isOld
  · exact leaf_load_le new
  · exact leaf_load_le (all other isOld)

end BTree

theorem BTreeIndex.insert_outcome {index : BTreeIndex} {tree : Set Nat} (holds : index.Holds tree)
    (entry : LeafEntry) (small : entry.key.length ≤ MAX_KEY_SIZE) {ancestors : List Nat} {leaf : Nat}
    {tail : Option Nat} {entries : List LeafEntry}
    (found : index.store.descendForInsert entry.sortKey entry.len index.store.pages index.rootPageId [] =
      .ok (ancestors, leaf)) (inLeaf : leaf ∈ tree) (node : index.store.nodes leaf = .leaf tail entries) :
    (∃ index', index.insert entry.key entry.row = .ok index') ∧
        ¬ Overfull ((withEntry entries entry).map LeafEntry.len) ∨
      (∃ failure, index.insert entry.key entry.row = .error failure ∧ ∃ pageId, failure.error = .nodeOverflow pageId) ∧
        Overfull ((withEntry entries entry).map LeafEntry.len) := by
  have short := holds.closed.proper leaf inLeaf
  have old := holds.closed.fits leaf inLeaf
  rw [node] at short old
  rw [canRebuild_iff, Node.lens] at old
  have total := load_withEntry entries entry
  have added : SLOT_SIZE + entry.len ≤ CAPACITY := (leaf_load_le small).trans (by decide)
  have nonempty : withEntry entries entry ≠ [] := by simp [withEntry]
  have fits := leafSplitPoint_fits_iff (List.map_eq_nil_iff.not.mpr nonempty)
    (fun len member => (withEntry_load_le short small len member).trans (by decide)) (by omega)
  simp only [BTreeIndex.insert, if_neg (not_lt.mpr small), found, node]
  split
  · rename_i room
    refine .inl ⟨⟨_, rfl⟩, fun overflows => ?_⟩
    obtain ⟨n, -, -, more⟩ := overflows
    have whole := load_take_add_drop ((withEntry entries entry).map LeafEntry.len) (n + 1)
    have : load (entries.map LeafEntry.len) + (SLOT_SIZE + entry.len) ≤ CAPACITY := willFit_iff.mp room
    omega
  · have written := leaf_inserted holds entry small inLeaf node
    rw [insertIdx_upperBoundInLeaf] at written ⊢
    have splits : (∃ split, index.store.splitLeaf leaf tail (withEntry entries entry) = .ok split) ↔ _ :=
      NodeStore.splitLeaf_isOk_iff nonempty
    rw [fits] at splits
    cases halves : index.store.splitLeaf leaf tail (withEntry entries entry) with
    | error failure =>
      rw [halves] at written splits
      exact .inr ⟨⟨failure, rfl, written.1⟩, not_not.mp fun fine => by simpa using splits.mpr fine⟩
    | ok split =>
      obtain ⟨top, pushed, -⟩ := pushUp_after_split holds small found node
        (by rw [insertIdx_upperBoundInLeaf]; exact halves)
      simp only [bind, Except.bind, pushed]
      exact .inl ⟨⟨_, rfl⟩, splits.mp ⟨split, halves⟩⟩

namespace IndexHistory
variable {history : IndexHistory} {key : Bytes}

/-- A key that is not too long is refused exactly if the leaf it belongs to cannot be split in the middle of its bytes,
and not if the keys there are shorter than a third of a page. -/
theorem key_inserted (reached : system.Reachable history) (small : key.length ≤ MAX_KEY_SIZE) (row : RowId) :
    ∃ leaf tail entries, history.index.store.descendToLeaf (LeafEntry.mk key row).sortKey history.index.store.pages
        history.index.rootPageId = .ok leaf ∧
      history.index.store.nodes leaf = .leaf tail entries ∧
      ((∃ index, history.index.insert key row = .ok index) ↔
        ¬ Overfull ((withEntry entries ⟨key, row⟩).map LeafEntry.len)) ∧
      (∀ failure, history.index.insert key row = .error failure → ∃ pageId, failure.error = .nodeOverflow pageId) ∧
      ((∀ entry ∈ entries, entry.key.length ≤ 1346) → key.length ≤ 1346 →
        ∃ index, history.index.insert key row = .ok index) := by
  obtain ⟨tree, holds⟩ := sound reached
  obtain ⟨-, ancestors, leaf, -, -, found, read, inLeaf, isLeaf, -⟩ := holds.descend ⟨key, row⟩
  cases node : history.index.store.nodes leaf with
  | internal tail entries => simp [node, NodeStore.Deep, Node.isInternal] at isLeaf
  | leaf tail entries =>
    have outcome := BTreeIndex.insert_outcome holds ⟨key, row⟩ small found inLeaf node
    have exact_ : (∃ index, history.index.insert key row = .ok index) ↔
        ¬ Overfull ((withEntry entries ⟨key, row⟩).map LeafEntry.len) := by
      rcases outcome with ⟨inserted, fine⟩ | ⟨⟨failure, failed, -⟩, overfull⟩
      · exact ⟨fun _ => fine, fun _ => inserted⟩
      · rw [failed]
        exact ⟨by simp, fun fine => absurd overfull fine⟩
    refine ⟨leaf, tail, entries, read, node, exact_, fun failure failed => ?_, fun all new => exact_.mpr ?_⟩
    · rcases outcome with ⟨⟨index, inserted⟩, -⟩ | ⟨⟨failure', failed', kind⟩, -⟩
      · rw [failed] at inserted
        cases inserted
      · rw [failed] at failed'
        cases failed'
        exact kind
    · have old := holds.closed.fits leaf inLeaf
      rw [node, canRebuild_iff] at old
      refine not_overfull (withEntry_load_le all new) (by decide) ?_
      rw [load_withEntry]
      exact Nat.add_le_add old (leaf_load_le new)

set_option maxRecDepth 20000 in
theorem key_inserted_third : ∃ index, two.index.insert (longKey 2) (rowAt 2) = .ok index := by
  have small : (longKey 2).length ≤ MAX_KEY_SIZE := by decide +kernel
  obtain ⟨leaf, tail, entries, found, node, inserted, -⟩ := key_inserted two_reached small (rowAt 2)
  have read : two.index.store.descendToLeaf (LeafEntry.mk (longKey 2) (rowAt 2)).sortKey two.index.store.pages
      two.index.rootPageId = .ok 1 := by decide +kernel
  obtain rfl := Except.ok.inj (found.symm.trans read)
  rw [← NodeStore.leafEntries_leaf node] at inserted
  -- three keys of 1350 bytes do not fit on the page, so the leaf is split
  exact inserted.mpr (by decide +kernel)

set_option maxRecDepth 20000 in
theorem wide_key_overflows : system.ReachableBy Fresh two ∧ wideKey.length ≤ MAX_KEY_SIZE ∧
    (∀ entry ∈ two.index.entries, entry.row ≠ rowAt 2) ∧
    ∃ failure, two.index.insert wideKey (rowAt 2) = .error failure ∧ failure.error = .nodeOverflow 1 := by
  obtain ⟨failure, failed, kind, -⟩ := wideKey_overflows
  exact ⟨two_fresh, by decide +kernel, by decide +kernel, failure, failed, kind⟩

end IndexHistory

end SimpleRdbms.Storage
