import Mathlib.Algebra.Order.BigOperators.Group.List
import Mathlib.Algebra.Order.Group.Nat
import Mathlib.Data.List.TakeWhile
import SimpleRdbms.Proof.BTreeInsert

namespace SimpleRdbms.Storage
open Lib BTree

namespace NodeStore
variable {store : NodeStore} {lower upper : Level Bytes Nat} {fence : Fence Bytes Nat} {n : Nat}

theorem childForKey_groups (groups : Groups store.kids upper lower) (sorted : lower.Sorted) (inUpper : fence ∈ upper)
    {key : Bytes} (low : fence.1 ≤ key) :
    ∃ tail entries, ∃ child : Fence Bytes Nat, store.nodes fence.2 = .internal (some tail) entries ∧
      childForKey fence.2 (some tail) entries key = .ok child.2 ∧ child ∈ lower ∧ child.1 ≤ (key : WithBot Bytes) := by
  obtain ⟨first, rest, kidsOf⟩ := groups.heads fence inUpper
  have sortedKids : (store.kids fence).Sorted := by
    rw [groups.eq, Level.Sorted, List.pairwise_flatMap] at sorted
    exact sorted.1 fence inUpper
  obtain ⟨tail, entries, left, child, right, node, chosen, isKids, low', -⟩ := childForKey_kids kidsOf sortedKids low
  refine ⟨tail, entries, child, node, chosen, ?_, low'⟩
  rw [groups.eq]
  exact List.mem_flatMap.mpr ⟨fence, inUpper, by simp [isKids]⟩

theorem descendToLeaf_beneath (beneath : Beneath store.kids lower upper n) (sorted : lower.Sorted)
    (inUpper : fence ∈ upper) {key : Bytes} (low : fence.1 ≤ key) :
    ∃ leaf ∈ lower, leaf.1 ≤ (key : WithBot Bytes) ∧ ∀ fuel, store.descendToLeaf key (fuel + n) fence.2 =
      store.descendToLeaf key fuel leaf.2 := by
  induction beneath generalizing fence with
  | refl => exact ⟨fence, inUpper, low, fun fuel => rfl⟩
  | @step upper middle n groups beneath ih =>
    obtain ⟨tail, entries, child, node, chosen, inMiddle, low'⟩ :=
      childForKey_groups groups (beneath.sorted sorted) inUpper low
    obtain ⟨leaf, inLower, low'', reached⟩ := ih inMiddle low'
    refine ⟨leaf, inLower, low'', fun fuel => ?_⟩
    rw [← Nat.add_assoc, descendToLeaf, node, ← reached]
    simp only [chosen, bind, Except.bind]

theorem leftmostLeaf_beneath (beneath : Beneath store.kids lower upper n) {root : Nat}
    (first : upper.head? = some (⊥, root)) :
    ∃ leaf, lower.head? = some (⊥, leaf) ∧ ∀ fuel,
      store.leftmostLeaf (fuel + n) root = store.leftmostLeaf fuel leaf := by
  induction beneath generalizing root with
  | refl => exact ⟨root, first, fun fuel => rfl⟩
  | @step upper middle n groups beneath ih =>
    obtain ⟨rest, rfl⟩ := List.head?_eq_some_iff.mp first
    obtain ⟨child, others, kidsOf⟩ := groups.heads (⊥, root) (by simp)
    obtain ⟨tail, entries, node, isChild, -⟩ := kids_eq_cons kidsOf
    have firstChild : middle.head? = some (⊥, tail) := by
      rw [groups.eq, List.flatMap_cons, kidsOf, isChild]
      rfl
    obtain ⟨leaf, isFirst, reached⟩ := ih firstChild
    refine ⟨leaf, isFirst, fun fuel => ?_⟩
    rw [← Nat.add_assoc, leftmostLeaf, node, ← reached]
    rfl

theorem inOrder_beneath (beneath : Beneath store.kids lower upper n)
    (leaves : ∀ leaf ∈ lower, (store.nodes leaf.2).isInternal = false)
    (fuel : Nat) : (upper.flatMap fun fence => BTreeIndex.inOrder store (fuel + 1 + n) fence.2) =
      store.contents lower := by
  induction beneath with
  | refl =>
    refine List.flatMap_congr fun leaf member => ?_
    have isLeaf := leaves leaf member
    rw [Nat.add_zero, BTreeIndex.inOrder, leafEntries]
    cases node : store.nodes leaf.2 with
    | leaf tail entries => rfl
    | internal tail entries =>
      rw [node] at isLeaf
      cases isLeaf
  | @step upper middle n groups beneath ih =>
    rw [← ih, groups.eq, List.flatMap_assoc]
    refine List.flatMap_congr fun fence member => ?_
    obtain ⟨child, rest, kidsOf⟩ := groups.heads fence member
    obtain ⟨tail, entries, node, -, -⟩ := kids_eq_cons kidsOf
    rw [kids_internal node, ← Nat.add_assoc, BTreeIndex.inOrder, node]
    simp only [Option.toList_some, List.flatMap_cons, List.flatMap_nil, List.append_nil, List.flatMap_map]
    rfl

end NodeStore

namespace BTreeIndex
variable {store : NodeStore} {fence : Fence Bytes Nat} {before after : Level Bytes Nat}

variable {low high : List LeafEntry} {key : Bytes}

theorem lowerBoundLeaf_append (inLow : ∀ entry ∈ low, entry.sortKey < key)
    (inHigh : ∀ entry ∈ high, key ≤ entry.sortKey) : lowerBoundLeaf (low ++ high) key = low.length :=
  searchSlots_append (by simpa using inLow) (by simpa using inHigh)

theorem increasing_cut_lt {entries : List LeafEntry} (ordered : Increasing entries) (key : Bytes) :
    ∃ low high, entries = low ++ high ∧ (∀ entry ∈ low, entry.sortKey < key) ∧ ∀ entry ∈ high, key ≤ entry.sortKey := by
  obtain ⟨low, high, split, inLow, inHigh⟩ := exists_cut (fun entry : LeafEntry => entry.sortKey < key)
    (ordered.imp fun {a b} less => by simpa using fun below => less.trans below)
  exact ⟨low, high, split, by simpa using inLow, by simpa using inHigh⟩

def lookup (key : Bytes) (entries : List LeafEntry) : List RowId :=
  ((entries.dropWhile (·.sortKey < key)).takeWhile (·.key == key)).map LeafEntry.row

theorem lookup_append_of_lt (inLow : ∀ entry ∈ low, entry.sortKey < key)
    (high : List LeafEntry) : lookup key (low ++ high) = lookup key high := by
  rw [lookup, List.dropWhile_append_of_pos (by simpa using inLow), lookup]

theorem lookup_of_le (inHigh : ∀ entry ∈ high, key ≤ entry.sortKey) :
    lookup key high = (high.takeWhile (·.key == key)).map LeafEntry.row := by
  cases high with
  | nil => rfl
  | cons first rest =>
    rw [lookup, List.dropWhile_cons_of_neg]
    simpa using inHigh first (by simp)

theorem lookup_append {rest : List LeafEntry} (ordered : Increasing (low ++ high ++ rest))
    (inLow : ∀ entry ∈ low, entry.sortKey < key) (inHigh : ∀ entry ∈ high, key ≤ entry.sortKey) :
    lookup key (low ++ high ++ rest) = if (high.takeWhile (·.key == key)).length = high.length
      then high.map LeafEntry.row ++ lookup key rest else (high.takeWhile (·.key == key)).map LeafEntry.row := by
  rw [List.append_assoc] at ordered
  rw [List.append_assoc, lookup_append_of_lt inLow]
  cases high with
  | nil => rfl
  | cons first others =>
    have ordered' := (List.pairwise_append.mp ordered).2.1
    have inRest : ∀ entry ∈ rest, key ≤ entry.sortKey := fun entry member =>
      (inHigh first (by simp)).trans ((List.pairwise_append.mp ordered').2.2 first (by simp) entry member).le
    rw [lookup_of_le, lookup_of_le inRest, List.takeWhile_append]
    · split
      · rw [List.map_append]
      · rfl
    · intro entry member
      rcases List.mem_append.mp member with here | further
      · exact inHigh entry here
      · exact inRest entry further

theorem increasing_contents {leaves : Level Bytes Nat} (chain : Each store.LeafAt leaves) (sorted : leaves.Sorted) :
    Increasing (store.contents leaves) ∧ ∀ fence ∈ leaves, ∀ entry ∈ store.leafEntries fence.2,
      fence.1 ≤ entry.sortKey := by
  induction leaves with
  | nil => exact ⟨.nil, by simp⟩
  | cons fence rest ih =>
    obtain ⟨leaf, others⟩ := chain
    obtain ⟨above, sortedRest⟩ := List.pairwise_cons.mp sorted
    obtain ⟨ordered, low⟩ := ih others sortedRest
    refine ⟨?_, List.forall_mem_cons.mpr ⟨leaf.low, low⟩⟩
    rw [NodeStore.contents_cons]
    refine List.pairwise_append.mpr ⟨leaf.ordered, ordered, fun entry member later inRest => ?_⟩
    cases rest with
    | nil => cases inRest
    | cons next rest =>
      have less := leaf.high entry member next rfl
      obtain ⟨other, inLeaves, inLeaf⟩ := List.mem_flatMap.mp inRest
      have bound : next.1 ≤ other.1 := by
        rcases List.mem_cons.mp inLeaves with rfl | further
        · exact le_rfl
        · exact ((List.pairwise_cons.mp sortedRest).1 other further).le
      exact WithBot.coe_lt_coe.mp (less.trans_le (bound.trans (low other inLeaves later inLeaf)))

theorem contents_before_lt (chain : Each store.LeafAt (before ++ fence :: after))
    (sorted : Level.Sorted (before ++ fence :: after)) (low : fence.1 ≤ (key : WithBot Bytes)) :
    ∀ entry ∈ store.contents before, entry.sortKey < key := by
  induction before with
  | nil => simp [NodeStore.contents]
  | cons first rest ih =>
    intro entry member
    rw [NodeStore.contents_cons, List.mem_append] at member
    obtain ⟨above, sortedRest⟩ := List.pairwise_cons.mp sorted
    rcases member with here | further
    · have less : ∀ next, (rest ++ fence :: after).head? = some next → next.1 ≤ (key : WithBot Bytes) := by
        intro next isNext
        cases rest with
        | nil =>
          obtain rfl := Option.some.inj isNext
          exact low
        | cons other others =>
          obtain rfl := Option.some.inj isNext
          have := (List.pairwise_append.mp sortedRest).2.2 other (by simp) fence (by simp)
          exact this.le.trans low
      cases next : (rest ++ fence :: after).head? with
      | none => simp at next
      | some other =>
        have bound := chain.1.high entry here other next
        exact WithBot.coe_lt_coe.mp (bound.trans_le (less other next))
    · exact ih chain.2 sortedRest entry further

theorem getFrom_chain (chain : Each store.LeafAt (fence :: after)) (sorted : Level.Sorted (fence :: after))
    (key : Bytes) {fuel : Nat} (enough : after.length < fuel) :
    getFrom store key fuel fence.2 = .ok (lookup key (store.contents (fence :: after))) := by
  obtain ⟨fuel, rfl⟩ : ∃ more, fuel = more + 1 := ⟨fuel - 1, by omega⟩
  induction after generalizing fence fuel with
  | nil =>
    obtain ⟨low, high, split, inLow, inHigh⟩ := increasing_cut_lt chain.1.ordered key
    have ordered := chain.1.ordered
    rw [split, ← List.append_nil (low ++ high)] at ordered
    rw [getFrom, chain.1.node, NodeStore.contents_cons, split]
    simp only [lowerBoundLeaf_append inLow inHigh, List.drop_left, List.length_map, List.head?_nil, Option.map_none]
    change _ = Except.ok (lookup key (low ++ high ++ []))
    rw [lookup_append ordered inLow inHigh]
    split
    · rename_i all
      rw [(List.takeWhile_prefix _).eq_of_length all]
      simp [lookup]
    · rfl
  | cons next rest ih =>
    obtain ⟨low, high, split, inLow, inHigh⟩ := increasing_cut_lt chain.1.ordered key
    have ordered := (increasing_contents chain sorted).1
    rw [NodeStore.contents_cons, split] at ordered
    rw [getFrom, chain.1.node, NodeStore.contents_cons, split, lookup_append ordered inLow inHigh]
    simp only [lowerBoundLeaf_append inLow inHigh, List.drop_left, List.length_map, List.head?_cons, Option.map_some]
    split
    · rename_i all
      have further := ih chain.2 (List.pairwise_cons.mp sorted).2 (fuel - 1)
        (by simp only [List.length_cons] at enough; omega)
      rw [Nat.sub_add_cancel (by simp only [List.length_cons] at enough; omega)] at further
      simp only [further, bind, Except.bind, pure, Except.pure]
      rw [(List.takeWhile_prefix _).eq_of_length all]
    · rfl

def behind (after : Option Bytes) (entry : LeafEntry) : Bool := after.any (entry.sortKey ≤ ·)

theorem scanSlot_append {last : Option Bytes} (ordered : Increasing (low ++ high))
    (inLow : ∀ entry ∈ low, behind last entry = true) (inHigh : ∀ entry ∈ high, behind last entry = false) :
    scanSlot (low ++ high) last = low.length := by
  cases last with
  | none =>
    cases low with
    | nil => rfl
    | cons first rest => cases inLow first (by simp)
  | some key =>
    simp only [behind, Option.any_some, decide_eq_true_eq, decide_eq_false_iff_not, not_le] at inLow inHigh
    have larger : ∀ entry ∈ high, (entry.sortKey == key) = false := fun entry member => by
      simpa using (inHigh entry member).ne'
    rcases List.eq_nil_or_concat low with rfl | ⟨others, final, rfl⟩
    · have slot : lowerBoundLeaf ([] ++ high) key = 0 :=
        lowerBoundLeaf_append (by simp) fun entry member => (inHigh entry member).le
      rw [scanSlot, slot]
      cases high with
      | nil => rfl
      | cons first rest => simp [larger first (by simp)]
    · have below : ∀ entry ∈ others, entry.sortKey < key := by
        intro entry member
        rw [List.concat_eq_append, List.append_assoc] at ordered
        have less := (List.pairwise_append.mp ordered).2.2 entry member final (by simp)
        exact less.trans_le (inLow final (by simp))
      by_cases exact : final.sortKey = key
      · have slot : lowerBoundLeaf (others.concat final ++ high) key = others.length := by
          rw [List.concat_eq_append, List.append_assoc]
          refine lowerBoundLeaf_append below fun entry member => ?_
          rcases List.mem_cons.mp member with rfl | inHigh'
          · exact exact.ge
          · exact (inHigh entry inHigh').le
        rw [scanSlot, slot]
        simp [exact]
      · have slot : lowerBoundLeaf (others.concat final ++ high) key = (others.concat final).length := by
          refine lowerBoundLeaf_append (fun entry member => ?_) fun entry member => (inHigh entry member).le
          rw [List.concat_eq_append, List.mem_append, List.mem_singleton] at member
          rcases member with inOthers | rfl
          · exact below entry inOthers
          · exact lt_of_le_of_ne (inLow _ (by simp)) exact
        rw [scanSlot, slot]
        cases high with
        | nil => simp
        | cons first rest => simp [larger first (by simp)]

theorem behind_mono {entries : List LeafEntry} {last : Option Bytes} (ordered : Increasing entries) :
    entries.Pairwise fun x y => behind last y = true → behind last x = true := by
  refine ordered.imp fun {a b} less => ?_
  cases last with
  | none => simp [behind]
  | some key => simpa [behind] using fun below => less.le.trans below

theorem scanLeaf_leafAt {next : Option (Fence Bytes Nat)} (leaf : store.LeafAt fence next) (last : Option Bytes) :
    scanLeaf store fence.2 last = .ok (((store.leafEntries fence.2).dropWhile (behind last)).head?.elim
      (.endOfLeaf (next.map Prod.snd)) .entry) := by
  obtain ⟨low, high, split, inLow, inHigh⟩ := exists_cut (behind last) (behind_mono leaf.ordered)
  have ordered := leaf.ordered
  rw [split] at ordered
  rw [scanLeaf, leaf.node, split]
  simp only [scanSlot_append ordered inLow inHigh, List.getElem?_append_right le_rfl, Nat.sub_self]
  rw [List.dropWhile_append_of_pos inLow]
  cases high with
  | nil => rfl
  | cons first rest =>
    rw [List.dropWhile_cons_of_neg (by simp [inHigh first (by simp)])]
    rfl

def range (start stop : Option Bytes) (entries : List LeafEntry) : List LeafEntry :=
  (entries.dropWhile (behind start)).takeWhile fun entry => !stop.any (· ≤ entry.key)

theorem dropWhile_behind {entries rest : List LeafEntry} {last : Option Bytes} {entry : LeafEntry}
    (ordered : Increasing entries) (left : entries.dropWhile (behind last) = entry :: rest) :
    entries.dropWhile (behind (some entry.sortKey)) = rest := by
  have split := List.takeWhile_append_dropWhile (p := behind last) (l := entries)
  rw [left] at split
  rw [← split, List.append_cons]
  rw [← split] at ordered
  obtain ⟨-, ofRest, across⟩ := List.pairwise_append.mp ordered
  rw [List.dropWhile_append_of_pos]
  · cases rest with
    | nil => rfl
    | cons next others =>
      refine List.dropWhile_cons_of_neg ?_
      simpa [behind] using (List.pairwise_cons.mp ofRest).1 next (by simp)
  · intro other member
    rcases List.mem_append.mp member with before | here
    · simpa [behind] using (across other before entry (by simp)).le
    · obtain rfl := List.mem_singleton.mp here
      simp [behind]

theorem collect_done (index : BTreeIndex) (stop : Option Bytes) (fuel : Nat) : collect index stop fuel .done = [] := by
  cases fuel <;> rfl

theorem collect_notStarted (index : BTreeIndex) (stop : Option Bytes) (fuel : Nat) (start : Option Bytes) :
    collect index stop (fuel + 1) (.notStarted start) = (rangeRound index stop (.notStarted start)).2.toList ++
      collect index stop fuel (rangeRound index stop (.notStarted start)).1 := rfl

theorem collect_inLeaf (index : BTreeIndex) (stop : Option Bytes) (fuel pageId : Nat) (last : Option Bytes) :
    collect index stop (fuel + 1) (.inLeaf pageId last) = (rangeRound index stop (.inLeaf pageId last)).2.toList ++
      collect index stop fuel (rangeRound index stop (.inLeaf pageId last)).1 := rfl

theorem collect_chain (chain : Each store.LeafAt (fence :: after)) (sorted : Level.Sorted (fence :: after)) (root : Nat)
    (last stop : Option Bytes) {fuel : Nat}
    (enough : ((store.contents (fence :: after)).dropWhile (behind last)).length + after.length < fuel) :
    collect ⟨store, root⟩ stop fuel (.inLeaf fence.2 last) =
      (range last stop (store.contents (fence :: after))).map .ok := by
  induction fuel generalizing fence after last with
  | zero => cases enough
  | succ fuel ih =>
    have scanned := scanLeaf_leafAt chain.1 last
    have ordered := (increasing_contents chain sorted).1
    rw [collect_inLeaf, rangeRound]
    cases left : (store.leafEntries fence.2).dropWhile (behind last) with
    | nil =>
      have contents : (store.contents (fence :: after)).dropWhile (behind last) =
          (store.contents after).dropWhile (behind last) := by
        rw [NodeStore.contents_cons, List.dropWhile_append_of_pos]
        exact List.dropWhile_eq_nil_iff.mp left
      rw [left] at scanned
      cases after with
      | nil =>
        simp only [scanned, List.head?_nil, Option.elim_none, Option.map_none, Option.toList_none, List.nil_append]
        rw [range, contents, collect_done]
        rfl
      | cons next rest =>
        simp only [scanned, List.head?_nil, Option.elim_none, List.head?_cons, Option.map_some, Option.toList_none,
          List.nil_append]
        rw [contents, List.length_cons] at enough
        rw [ih chain.2 (List.pairwise_cons.mp sorted).2 last (by omega), range, range, contents]
    | cons entry others =>
      have contents : (store.contents (fence :: after)).dropWhile (behind last) =
          entry :: (others ++ store.contents after) := by
        rw [NodeStore.contents_cons, List.dropWhile_append, left]
        rfl
      have further := dropWhile_behind ordered contents
      rw [left] at scanned
      simp only [scanned, List.head?_cons, Option.elim_some]
      rw [range, contents]
      cases stopped : stop.any (· ≤ entry.key) with
      | true => simp [stopped, collect_done]
      | false =>
        simp only [Bool.false_eq_true, if_false, Option.toList_some, List.cons_append, List.nil_append]
        rw [contents, List.length_cons] at enough
        rw [ih chain sorted (some entry.sortKey) (by rw [further]; omega), range, further, List.takeWhile_cons_of_pos]
        · rfl
        · simp [stopped]

theorem range_append_of_behind {start : Option Bytes} (inLow : ∀ entry ∈ low, behind start entry = true)
    (stop : Option Bytes) (high : List LeafEntry) : range start stop (low ++ high) = range start stop high := by
  rw [range, List.dropWhile_append_of_pos inLow, range]

namespace Shape
variable {index : BTreeIndex} {leaves : Level Bytes Nat} {uppers : List (Level Bytes Nat)} {root : Nat}

def Entrance (leaves : Level Bytes Nat) (uppers : List (Level Bytes Nat)) (root : Nat) : Prop :=
  ∃ level ∈ leaves :: uppers, level.head? = some (⊥, root)

section
variable (shape : index.Shape leaves uppers)
include shape

theorem entrance_root : Entrance leaves uppers index.rootPageId := by
  obtain ⟨level, member, top⟩ := shape.stacked.top_mem
  exact ⟨level, member, by rw [top]; rfl⟩

theorem entries_eq : index.entries = index.store.contents leaves := by
  obtain ⟨level, member, top⟩ := shape.stacked.top_mem
  obtain ⟨n, short, beneath⟩ := shape.stacked.beneath member
  have isLeaf : ∀ leaf ∈ leaves, (index.store.nodes leaf.2).isInternal = false := by
    intro leaf inLeaves
    obtain ⟨before, after, rfl⟩ := List.append_of_mem inLeaves
    rw [shape.chain.here.node]
    rfl
  have whole := NodeStore.inOrder_beneath beneath isLeaf (index.store.pages - n - 1)
  have fuel : index.store.pages - n - 1 + 1 + n = index.store.pages := by
    have := shape.height
    omega
  rw [fuel, top, List.flatMap_singleton] at whole
  exact whole

theorem descendToLeaf (entrance : Entrance leaves uppers root) (key : Bytes) :
    ∃ before, ∃ fence : Fence Bytes Nat, ∃ after, leaves = before ++ fence :: after ∧ fence.1 ≤ (key : WithBot Bytes) ∧
      index.store.descendToLeaf key index.store.pages root = .ok fence.2 := by
  obtain ⟨level, member, first⟩ := entrance
  obtain ⟨n, short, beneath⟩ := shape.stacked.beneath member
  obtain ⟨leaf, inLeaves, low, reached⟩ := NodeStore.descendToLeaf_beneath beneath shape.sorted
    (List.mem_of_mem_head? first) (bot_le : (⊥ : WithBot Bytes) ≤ key)
  obtain ⟨before, after, rfl⟩ := List.append_of_mem inLeaves
  refine ⟨before, leaf, after, rfl, low, ?_⟩
  have fuel : index.store.pages = (index.store.pages - n - 1 + 1) + n := by
    have := shape.height
    omega
  rw [fuel, reached, NodeStore.descendToLeaf, shape.chain.here.node]

theorem leftmostLeaf (entrance : Entrance leaves uppers root) :
    ∃ first after, leaves = (⊥, first) :: after ∧ index.store.leftmostLeaf index.store.pages root = .ok first := by
  obtain ⟨level, member, first⟩ := entrance
  obtain ⟨n, short, beneath⟩ := shape.stacked.beneath member
  obtain ⟨leaf, isFirst, reached⟩ := NodeStore.leftmostLeaf_beneath beneath first
  obtain ⟨after, rfl⟩ := List.head?_eq_some_iff.mp isFirst
  refine ⟨leaf, after, rfl, ?_⟩
  have fuel : index.store.pages = (index.store.pages - n - 1 + 1) + n := by
    have := shape.height
    omega
  rw [fuel, reached, NodeStore.leftmostLeaf, shape.chain.1.node]

theorem leaves_le : leaves.length ≤ index.store.pages := by
  have bound := (List.subperm_of_subset shape.distinct fun pageId member =>
    List.mem_range.mpr (shape.allocated pageId member)).length_le
  rw [nodesOf_cons, List.length_append, List.length_map, List.length_range] at bound
  omega

theorem rounds_le : (index.store.contents leaves).length + leaves.length < rounds index.store := by
  have distinct : (leaves.map Prod.snd).Nodup := by
    have all := shape.distinct
    rw [nodesOf_cons] at all
    exact (List.nodup_append.mp all).1
  have inRange : leaves.map Prod.snd ⊆ List.range index.store.pages := by
    intro pageId member
    refine List.mem_range.mpr (shape.allocated pageId ?_)
    rw [nodesOf_cons]
    exact List.mem_append_left _ member
  obtain ⟨some, perm, sublist⟩ := List.subperm_of_subset distinct inRange
  have total := (sublist.map fun pageId => (index.store.nodes pageId).lens.length + 1).sum_le_sum (by simp)
  rw [(perm.map _).sum_eq] at total
  have perLeaf : ((leaves.map Prod.snd).map fun pageId => (index.store.nodes pageId).lens.length + 1).sum =
      (index.store.contents leaves).length + leaves.length := by
    have chain := shape.chain
    clear shape total perm inRange distinct sublist
    induction leaves with
    | nil => rfl
    | cons fence rest ih =>
      rw [List.map_cons, List.map_cons, List.sum_cons, ih chain.2, NodeStore.contents_cons, List.length_append,
        List.length_cons, chain.1.node]
      simp only [Node.lens, List.length_map]
      omega
  rw [rounds]
  omega

theorem get_eq (entrance : Entrance leaves uppers root) (key : Bytes) :
    BTreeIndex.get { index with rootPageId := root } key = .ok (lookup key index.entries) := by
  obtain ⟨before, fence, after, rfl, low, found⟩ := shape.descendToLeaf entrance key
  have enough : after.length < index.store.pages := by
    have := shape.leaves_le
    simp only [List.length_append, List.length_cons] at this
    omega
  simp only [BTreeIndex.get, found, bind, Except.bind]
  rw [getFrom_chain shape.chain.of_append (List.pairwise_append.mp shape.sorted).2.1 key enough, shape.entries_eq,
    NodeStore.contents_append, lookup_append_of_lt (contents_before_lt shape.chain shape.sorted low)]

theorem rangeScan_eq (entrance : Entrance leaves uppers root) (start stop : Option Bytes) :
    BTreeIndex.rangeScan { index with rootPageId := root } start stop = (range start stop index.entries).map .ok := by
  obtain ⟨before, fence, after, rfl, skipped, found⟩ : ∃ before, ∃ fence : Fence Bytes Nat, ∃ after,
      leaves = before ++ fence :: after ∧ (∀ entry ∈ index.store.contents before, behind start entry = true) ∧
      BTreeIndex.leafForStart { index with rootPageId := root } start = .ok fence.2 := by
    cases start with
    | none =>
      obtain ⟨first, after, rfl, found⟩ := shape.leftmostLeaf entrance
      exact ⟨[], (⊥, first), after, rfl, by simp [NodeStore.contents], found⟩
    | some key =>
      obtain ⟨before, fence, after, rfl, low, found⟩ := shape.descendToLeaf entrance key
      refine ⟨before, fence, after, rfl, fun entry member => ?_, found⟩
      simpa [behind] using (contents_before_lt shape.chain shape.sorted low entry member).le
  have more := shape.rounds_le
  rw [NodeStore.contents_append, List.length_append, List.length_append, List.length_cons] at more
  have shorter := (List.dropWhile_suffix (l := index.store.contents (fence :: after)) (behind start)).length_le
  obtain ⟨fuel, isFuel⟩ : ∃ fuel, rounds index.store = fuel + 1 := ⟨rounds index.store - 1, by omega⟩
  rw [BTreeIndex.rangeScan, isFuel, collect_notStarted, rangeRound]
  simp only [found, Option.toList_none, List.nil_append]
  rw [collect_chain shape.chain.of_append (List.pairwise_append.mp shape.sorted).2.1 root start stop (by omega),
    shape.entries_eq, NodeStore.contents_append, range_append_of_behind skipped]

end

end Shape

end BTreeIndex

end SimpleRdbms.Storage
