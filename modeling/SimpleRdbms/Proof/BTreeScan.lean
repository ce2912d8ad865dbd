import SimpleRdbms.Proof.BTreeHistory
import SimpleRdbms.Storage.BTreeScan

namespace SimpleRdbms.Storage
open Lib BTree

namespace BTreeIndex
variable {index : BTreeIndex} {leaves : Level Bytes Nat} {uppers : List (Level Bytes Nat)}

def afterInsert (index : BTreeIndex) (key : Bytes) (row : RowId) : BTreeIndex :=
  match index.insert key row with
  | .error failure => { index with store := failure.store }
  | .ok index' => index'

def Grows (leaves : Level Bytes Nat) (uppers : List (Level Bytes Nat)) (index index' : BTreeIndex) : Prop :=
  index'.Sound ∧ ∃ leaves' uppers', index'.Shape leaves' uppers' ∧ Grown (leaves :: uppers) (leaves' :: uppers') ∧
    ∀ entry ∈ index.entries, entry ∈ index'.entries

theorem Shape.unchanged (shape : index.Shape leaves uppers) (sound : index.Sound) {store : NodeStore}
    (same : ∀ tree, index.Holds tree → NodeStore.SameOn tree index.store store)
    (more : index.store.pages ≤ store.pages) : Grows leaves uppers index { index with store } := by
  obtain ⟨tree, holds⟩ := sound
  have same' := same tree holds
  obtain ⟨shape', contents⟩ := shape.sameOn
    (fun pageId member => same' pageId (shape.inTree holds.closed holds.root pageId member)) more
  refine ⟨⟨tree, holds.of_sameOn same' more⟩, leaves, uppers, shape', .refl _, fun entry member => ?_⟩
  rw [shape.entries_eq] at member
  rw [shape'.entries_eq, contents]
  exact member

theorem Shape.afterInsert (shape : index.Shape leaves uppers) (sound : index.Sound) {key : Bytes} {row : RowId}
    (fresh : ⟨key, row⟩ ∉ index.entries) : Grows leaves uppers index (index.afterInsert key row) := by
  unfold BTreeIndex.afterInsert
  obtain ⟨tree, holds⟩ := sound
  have inserted := insert_closed holds key row
  cases result : index.insert key row with
  | error failure =>
    rw [result] at inserted
    refine shape.unchanged ⟨tree, holds⟩ (fun other holds' => ?_) inserted.2.1
    have inserted' := insert_closed holds' key row
    rw [result] at inserted'
    exact inserted'.1
  | ok index' =>
    rw [result] at inserted
    rw [shape.entries_eq] at fresh
    obtain ⟨leaves', uppers', shape', grown, perm⟩ := shape.inserted fresh result
    refine ⟨inserted, leaves', uppers', shape', grown, fun entry member => ?_⟩
    rw [shape.entries_eq] at member
    rw [shape'.entries_eq]
    exact perm.mem_iff.mpr (List.mem_cons_of_mem _ member)

end BTreeIndex

namespace ScanRun
open BTreeIndex (behind)
variable {run run' : ScanRun} {first returned : List LeafEntry} {start : Option Bytes}
    {leaves leaves' : Level Bytes Nat}
  {uppers uppers' : List (Level Bytes Nat)}

def lowBound (start : Option Bytes) : WithBot Bytes := start.elim ⊥ (↑)

def Pending (first : List LeafEntry) (start : Option Bytes) (returned : List LeafEntry) (after : Option Bytes)
    (bound : WithBot Bytes) : Prop :=
  ∀ entry ∈ first, behind start entry = false →
    entry ∈ returned ∨ (behind after entry = false ∧ bound ≤ entry.sortKey)

inductive Position (first : List LeafEntry) (start : Option Bytes) (leaves : Level Bytes Nat)
    (uppers : List (Level Bytes Nat)) : ScanPosition → List LeafEntry → Bool → Prop
  | notStarted : Position first start leaves uppers (.range (.notStarted start)) [] false
  | descending {level : Level Bytes Nat} {bound : WithBot Bytes} {pageId : Nat} : level ∈ leaves :: uppers →
      (bound, pageId) ∈ level → bound ≤ lowBound start →
        Position first start leaves uppers (.descending start pageId) [] false
  | inLeaf {bound : WithBot Bytes} {pageId : Nat} {after : Option Bytes} {returned : List LeafEntry} :
      (bound, pageId) ∈ leaves → Pending first start returned after bound →
      (∀ entry ∈ returned, behind after entry = true) → Increasing returned →
      Position first start leaves uppers (.range (.inLeaf pageId after)) returned false
  | stopped {returned : List LeafEntry} : Increasing returned →
      Position first start leaves uppers (.range .done) returned false
  | ended {returned : List LeafEntry} : Increasing returned →
      (∀ entry ∈ first, behind start entry = false → entry ∈ returned) →
      Position first start leaves uppers (.range .done) returned true

theorem Position.grown {position : ScanPosition} {finished : Bool}
    (at_ : Position first start leaves uppers position returned finished)
    (grown : Grown (leaves :: uppers) (leaves' :: uppers')) :
    Position first start leaves' uppers' position returned finished := by
  cases at_ with
  | notStarted => exact .notStarted
  | descending inLevels inLevel low =>
    obtain ⟨level', inLevels', sublist, -⟩ := grown.mem inLevels
    exact .descending inLevels' (sublist.subset inLevel) low
  | inLeaf inLeaves pending before ordered =>
    cases grown with
    | cons sublist => exact .inLeaf (sublist.subset inLeaves) pending before ordered
  | stopped ordered => exact .stopped ordered
  | ended ordered all => exact .ended ordered all

structure Following (first : List LeafEntry) (start : Option Bytes) (run : ScanRun) : Prop where
  sound : run.index.Sound
  present : ∀ entry ∈ first, entry ∈ run.index.entries
  levels : ∃ leaves uppers returned, run.index.Shape leaves uppers ∧ BTreeIndex.Shape.Entrance leaves uppers run.root ∧
    run.items = returned.map .ok ∧ Position first start leaves uppers run.position returned run.finished

variable {bound : WithBot Bytes} {pageId : Nat}

theorem pending_start (low : bound ≤ lowBound start) : Pending first start [] start bound := by
  intro entry member ahead
  refine .inr ⟨ahead, low.trans ?_⟩
  cases start with
  | none => exact bot_le
  | some key =>
    simp only [behind, Option.any_some, decide_eq_false_iff_not, not_le] at ahead
    exact WithBot.coe_le_coe.mpr ahead.le

theorem ahead_mem {before after : Level Bytes Nat} {fence : Fence Bytes Nat} {index : BTreeIndex}
    (shape : index.Shape (before ++ fence :: after) uppers) {entry : LeafEntry} (present : entry ∈ index.entries)
    (low : fence.1 ≤ (entry.sortKey : WithBot Bytes)) :
    entry ∈ index.store.leafEntries fence.2 ∨ entry ∈ index.store.contents after := by
  rw [shape.entries_eq, NodeStore.contents_append, NodeStore.contents_cons, List.mem_append, List.mem_append] at present
  rcases present with left | here | right
  · exact absurd (BTreeIndex.contents_before_lt shape.chain shape.sorted low entry left) (lt_irrefl _)
  · exact .inl here
  · exact .inr right

theorem lt_of_behind {after : Option Bytes} {entry entry' : LeafEntry} (passed : behind after entry = true)
    (ahead : behind after entry' = false) : entry.sortKey < entry'.sortKey := by
  cases after with
  | none => cases passed
  | some key =>
    simp only [behind, Option.any_some, decide_eq_true_eq, decide_eq_false_iff_not, not_le] at passed ahead
    exact passed.trans_lt ahead

theorem mem_dropWhile {behind : LeafEntry → Bool} {entries : List LeafEntry} {entry : LeafEntry}
    (member : entry ∈ entries) (ahead : behind entry = false) : entry ∈ entries.dropWhile behind := by
  rw [← List.takeWhile_append_dropWhile (p := behind) (l := entries), List.mem_append] at member
  refine member.resolve_left fun taken => ?_
  rw [List.mem_takeWhile_imp taken] at ahead
  cases ahead

theorem next_le {store : NodeStore} {next : Fence Bytes Nat} {rest : Level Bytes Nat}
    (chain : Each store.LeafAt (next :: rest)) (sorted : Level.Sorted (next :: rest)) {entry : LeafEntry}
    (member : entry ∈ store.contents (next :: rest)) : next.1 ≤ (entry.sortKey : WithBot Bytes) := by
  obtain ⟨fence, inLevel, inFence⟩ := List.mem_flatMap.mp member
  have low := (BTreeIndex.increasing_contents chain sorted).2 fence inLevel entry inFence
  rcases List.mem_cons.mp inLevel with rfl | inRest
  · exact low
  · exact ((List.pairwise_cons.mp sorted).1 fence inRest).le.trans low

theorem inLeaf_round {index : BTreeIndex} (shape : index.Shape leaves uppers)
    (present : ∀ entry ∈ first, entry ∈ index.entries) {root : Nat} {after : Option Bytes}
    (inLeaves : (bound, pageId) ∈ leaves) (pending : Pending first start returned after bound)
    (before : ∀ entry ∈ returned, behind after entry = true) (ordered : Increasing returned) (stop : Option Bytes) :
    ∃ more : List LeafEntry,
      (BTreeIndex.rangeRound { index with rootPageId := root } stop (.inLeaf pageId after)).2.toList = more.map .ok ∧
      (∀ entry ∈ more, entry ∈ index.entries) ∧
      Position first start leaves uppers
        (.range (BTreeIndex.rangeRound { index with rootPageId := root } stop (.inLeaf pageId after)).1)
        (returned ++ more) (isEnd index.store (.inLeaf pageId after)) := by
  obtain ⟨earlier, later, rfl⟩ := List.append_of_mem inLeaves
  have leaf := shape.chain.here
  have scanned := BTreeIndex.scanLeaf_leafAt leaf after
  have sorted := (List.pairwise_append.mp shape.sorted).2.1
  -- what is pending is in the rest of this leaf or in leaves further to the right
  have further : ∀ entry ∈ first, behind start entry = false → entry ∈ returned ∨
      behind after entry = false ∧ bound ≤ entry.sortKey ∧
        (entry ∈ (index.store.leafEntries pageId).dropWhile (behind after) ∨ entry ∈ index.store.contents later) := by
    intro entry member ahead
    refine (pending entry member ahead).imp_right fun still => ⟨still.1, still.2, ?_⟩
    exact (ahead_mem shape (present entry member) still.2).imp_left (mem_dropWhile · still.1)
  rw [BTreeIndex.rangeRound, isEnd]
  cases left : (index.store.leafEntries pageId).dropWhile (behind after) with
  | nil =>
    rw [left] at further
    simp only [left, List.head?_nil, Option.elim_none] at scanned
    cases later with
    | nil =>
      simp only [scanned, List.head?_nil, Option.map_none]
      refine ⟨[], rfl, by simp, ?_⟩
      rw [List.append_nil]
      refine .ended ordered fun entry member ahead => ?_
      simpa [NodeStore.contents] using further entry member ahead
    | cons next rest =>
      simp only [scanned, List.head?_cons, Option.map_some]
      refine ⟨[], rfl, by simp, ?_⟩
      rw [List.append_nil]
      have inLeaves' : (next.1, next.2) ∈ earlier ++ (bound, pageId) :: next :: rest := by simp
      refine .inLeaf inLeaves' (fun entry member ahead => ?_) before ordered
      refine (further entry member ahead).imp_right fun still => ⟨still.1, ?_⟩
      exact next_le shape.chain.of_append.2 (List.pairwise_cons.mp sorted).2 (still.2.2.resolve_left List.not_mem_nil)
  | cons entry others =>
    simp only [left, List.head?_cons, Option.elim_some] at scanned
    have sublist := List.dropWhile_sublist (behind after) (l := index.store.leafEntries pageId)
    rw [left] at further sublist
    have ahead : behind after entry = false := by
      have := List.head?_dropWhile_not (behind after) (index.store.leafEntries pageId)
      rw [left] at this
      simpa using this
    have inLeaf := sublist.subset List.mem_cons_self
    have inIndex : entry ∈ index.entries := by
      rw [shape.entries_eq]
      exact List.mem_flatMap.mpr ⟨(bound, pageId), by simp, inLeaf⟩
    simp only [scanned]
    cases stopped : stop.any (· ≤ entry.key) with
    | true =>
      refine ⟨[], by simp, by simp, ?_⟩
      rw [List.append_nil]
      exact .stopped ordered
    | false =>
      refine ⟨[entry], by simp, by simpa using inIndex, ?_⟩
      have larger : ∀ other ∈ returned, other.sortKey < entry.sortKey := fun other member =>
        lt_of_behind (before other member) ahead
      have increasing := (BTreeIndex.increasing_contents shape.chain.of_append sorted).1
      rw [NodeStore.contents_cons] at increasing
      refine .inLeaf inLeaves (fun other member notBefore => ?_) ?_ ?_
      · rcases further other member notBefore with done | ⟨-, low, inRest | right⟩
        · exact .inl (List.mem_append_left _ done)
        · rcases List.mem_cons.mp inRest with rfl | inOthers
          · exact .inl (by simp)
          · have less := (List.pairwise_cons.mp (leaf.ordered.sublist sublist)).1 other inOthers
            exact .inr ⟨by simpa [behind] using less, low⟩
        · have less := (List.pairwise_append.mp increasing).2.2 entry inLeaf other right
          exact .inr ⟨by simpa [behind] using less, low⟩
      · intro other member
        rcases List.mem_append.mp member with old | new
        · simpa [behind] using (larger other old).le
        · obtain rfl := List.mem_singleton.mp new
          simp [behind]
      · refine List.pairwise_append.mpr ⟨ordered, List.pairwise_singleton _ _, fun other member entry' new => ?_⟩
        obtain rfl := List.mem_singleton.mp new
        exact larger other member

theorem start_inLeaf (inLeaves : (bound, pageId) ∈ leaves) (low : bound ≤ lowBound start) :
    Position first start leaves uppers (.range (.inLeaf pageId start)) [] false :=
  .inLeaf inLeaves (pending_start low) (by simp) .nil

theorem leafForStart_position (first : List LeafEntry) (start : Option Bytes) {index : BTreeIndex}
    (shape : index.Shape leaves uppers) {root : Nat}
    (entrance : BTreeIndex.Shape.Entrance leaves uppers root) :
    ∃ pageId, BTreeIndex.leafForStart { index with rootPageId := root } start = .ok pageId ∧
      Position first start leaves uppers (.range (.inLeaf pageId start)) [] false := by
  cases start with
  | none =>
    obtain ⟨leaf, after, rfl, found⟩ := shape.leftmostLeaf entrance
    exact ⟨leaf, found, start_inLeaf (by simp : (⊥, leaf) ∈ (⊥, leaf) :: after) le_rfl⟩
  | some key =>
    obtain ⟨before, fence, after, rfl, low, found⟩ := shape.descendToLeaf entrance key
    exact ⟨fence.2, found, start_inLeaf (by simp : (fence.1, fence.2) ∈ before ++ fence :: after) low⟩

theorem descend_position {level : Level Bytes Nat}
    (shape : run.index.Shape leaves uppers) (inLevels : level ∈ leaves :: uppers) (inLevel : (bound, pageId) ∈ level)
    (low : bound ≤ lowBound start) :
    ∃ position, run.descend start pageId = { run with position } ∧
      Position first start leaves uppers position [] false := by
  unfold descend
  rcases List.mem_cons.mp inLevels with rfl | above
  · obtain ⟨before, after, rfl⟩ := List.append_of_mem inLevel
    have node := shape.chain.here.node
    change run.index.store.nodes pageId = _ at node
    rw [node]
    exact ⟨_, rfl, start_inLeaf inLevel low⟩
  · obtain ⟨under, inLevels', groups, sorted⟩ := shape.stacked.level_below shape.sorted above
    cases start with
    | none =>
      obtain ⟨child, rest, kidsOf⟩ := groups.heads _ inLevel
      obtain ⟨tail, entries, node, isChild, -⟩ := NodeStore.kids_eq_cons kidsOf
      change run.index.store.nodes pageId = _ at node
      have inUnder : (bound, tail) ∈ under := by
        rw [groups.eq]
        exact List.mem_flatMap.mpr ⟨_, inLevel, by rw [kidsOf, isChild]; simp⟩
      rw [node]
      exact ⟨_, rfl, .descending inLevels' inUnder low⟩
    | some key =>
      obtain ⟨tail, entries, child, node, chosen, inUnder, low'⟩ :=
        NodeStore.childForKey_groups groups sorted inLevel low
      change run.index.store.nodes pageId = _ at node
      change childForKey pageId (some tail) entries key = _ at chosen
      rw [node]
      simp only [Option.elim_some, chosen]
      exact ⟨_, rfl, .descending inLevels' (by exact inUnder : (child.1, child.2) ∈ under) low'⟩

namespace Following

theorem grows (following : Following first start run) {index : BTreeIndex}
    (grows : ∀ {leaves uppers}, run.index.Shape leaves uppers → BTreeIndex.Grows leaves uppers run.index index) :
    Following first start { run with index } := by
  obtain ⟨sound, present, leaves, uppers, returned, shape, entrance, items, position⟩ := following
  obtain ⟨sound', leaves', uppers', shape', grown, kept⟩ := grows shape
  exact ⟨sound', fun entry member => kept entry (present entry member), leaves', uppers', returned, shape',
    BTreeIndex.Shape.entrance_grown entrance grown, items, position.grown grown⟩

theorem next (following : Following first start run) (step : run.step .next = some run') :
    Following first start run' ∧ ∃ more : List LeafEntry, run'.items = run.items ++ more.map .ok ∧
      ∀ entry ∈ more, entry ∈ run.index.entries := by
  obtain ⟨sound, present, leaves, uppers, returned, shape, entrance, items, position⟩ := following
  obtain ⟨index, root, stop, place, produced, finished⟩ := run
  simp only at position items
  subst items
  cases position with
  | notStarted =>
    obtain ⟨pageId, found, position⟩ := leafForStart_position first start shape entrance
    simp only [ScanRun.step, BTreeIndex.rangeRound, found, isEnd, Option.some.injEq] at step
    subst step
    refine ⟨⟨sound, present, leaves, uppers, [], shape, entrance, rfl, position⟩, [], rfl, by simp⟩
  | descending => cases step
  | inLeaf inLeaves pending before ordered =>
    obtain ⟨more, same, inIndex, position⟩ := inLeaf_round shape present inLeaves pending before ordered stop
    simp only [ScanRun.step, Option.some.injEq] at step
    subst step
    refine ⟨⟨sound, present, leaves, uppers, _, shape, entrance, ?_, position⟩, more, ?_, inIndex⟩
    · simp only [same, List.map_append]
    · simp only [same]
  | stopped ordered =>
    cases step
    exact ⟨⟨sound, present, leaves, uppers, returned, shape, entrance, by simp [BTreeIndex.rangeRound],
      .stopped ordered⟩, [], rfl, by simp⟩
  | ended ordered all =>
    cases step
    exact ⟨⟨sound, present, leaves, uppers, returned, shape, entrance, by simp [BTreeIndex.rangeRound],
      .ended ordered all⟩, [], rfl, by simp⟩

theorem step {action : Action} (following : Following first start run) (fresh : run.Fresh action)
    (step : run.step action = some run') : Following first start run' ∧ ∃ more : List LeafEntry,
      run'.items = run.items ++ more.map .ok ∧ ∀ entry ∈ more, entry ∈ run.index.entries := by
  cases action with
  | insert key row =>
    have same : run' = { run with index := run.index.afterInsert key row } := by
      simp only [ScanRun.step] at step
      unfold BTreeIndex.afterInsert
      cases result : run.index.insert key row <;> simp only [result, Option.some.injEq] at step <;> exact step.symm
    rw [same]
    exact ⟨following.grows fun shape => shape.afterInsert following.sound fresh, [], by simp, by simp⟩
  | newPage =>
    cases step
    refine ⟨following.grows fun shape => shape.unchanged following.sound (fun _ _ _ _ => rfl) (Nat.le_succ _), [],
      by simp, by simp⟩
  | next => exact following.next step
  | descend =>
    obtain ⟨sound, present, leaves, uppers, returned, shape, entrance, items, position⟩ := following
    obtain ⟨index, root, stop, place, produced, finished⟩ := run
    simp only at position items
    cases position with
    | notStarted =>
      cases step
      obtain ⟨level, inLevels, isFirst⟩ := entrance
      exact ⟨⟨sound, present, leaves, uppers, [], shape, ⟨level, inLevels, isFirst⟩, items,
        .descending inLevels (List.mem_of_mem_head? isFirst) bot_le⟩, [], by simp, by simp⟩
    | descending inLevels inLevel low =>
      obtain ⟨position, moved, position'⟩ := descend_position shape inLevels inLevel low
      simp only [ScanRun.step, moved, Option.some.injEq] at step
      subst step
      exact ⟨⟨sound, present, leaves, uppers, [], shape, entrance, items, position'⟩, [], by simp, by simp⟩
    | inLeaf => cases step
    | stopped => cases step
    | ended => cases step

theorem reachable {history : IndexHistory} (built : IndexHistory.system.ReachableBy IndexHistory.Fresh history)
    {root : Nat} (opened : root ∈ history.roots) {stop : Option Bytes}
    (reached : (system history.index root start stop).ReachableBy Fresh run) :
    Following history.index.entries start run := by
  refine reached.invariant (P := Following history.index.entries start) ?_ fun _ _ _ following fresh next =>
    (following.step fresh next).1
  rintro _ rfl
  obtain ⟨sound, leaves, uppers, shape, roots⟩ := IndexHistory.built built
  exact ⟨sound, fun _ member => member, leaves, uppers, [], shape, roots root opened, rfl, .notStarted⟩

end Following

/-- A scan returns entries in order that are in the index, and in the end all that were there before. -/
theorem stable_under_inserts {history : IndexHistory}
    (built : IndexHistory.system.ReachableBy IndexHistory.Fresh history) {root : Nat} (opened : root ∈ history.roots)
    {start stop : Option Bytes} {run : ScanRun}
    (reached : (system history.index root start stop).ReachableBy Fresh run) :
    (∃ returned : List LeafEntry, run.items = returned.map .ok ∧ Increasing returned ∧
      (run.finished = true → ∀ entry ∈ history.index.entries, (∀ key ∈ start, key < entry.sortKey) →
        entry ∈ returned)) ∧
    ∀ action run', run.Fresh action → (system history.index root start stop).step run action = some run' →
      ∃ more : List LeafEntry, run'.items = run.items ++ more.map .ok ∧ ∀ entry ∈ more, entry ∈ run.index.entries := by
  have following := Following.reachable built opened reached
  refine ⟨?_, fun action run' fresh next => (following.step fresh next).2⟩
  obtain ⟨-, -, leaves, uppers, returned, -, -, items, position⟩ := following
  refine ⟨returned, items, ?_⟩
  generalize run.position = place, run.finished = finished at position
  cases position with
  | notStarted => exact ⟨.nil, by simp⟩
  | descending => exact ⟨.nil, by simp⟩
  | inLeaf _ _ _ ordered => exact ⟨ordered, by simp⟩
  | stopped ordered => exact ⟨ordered, by simp⟩
  | ended ordered all =>
    refine ⟨ordered, fun _ entry member larger => all entry member ?_⟩
    cases start with
    | none => rfl
    | some key => simpa [behind] using larger key rfl

open IndexHistory (firstRow two longKey rowAt)

set_option maxRecDepth 20000 in
theorem stable_under_inserts_split : ∃ run, (system two.index 1 none none).ReachableBy Fresh run ∧
    run.index.rootPageId = 3 ∧ ∃ returned : List LeafEntry, run.items = returned.map .ok ∧ returned.length = 3 ∧
      Increasing returned ∧ ∀ entry ∈ two.index.entries, entry ∈ returned := by
  -- the third key splits the leaf while the cursor stands on its first entry
  have found : ((system two.index 1 none none).run ⟨two.index, 1, none, .range (.notStarted none), [], false⟩
      [.next, .next]).any (fun run => decide (⟨longKey 2, rowAt 2⟩ ∉ run.index.entries) &&
        ((system two.index 1 none none).run run
          [.insert (longKey 2) (rowAt 2), .next, .next, .next, .next, .next]).any fun run' =>
            decide (run'.index.rootPageId = 3 ∧ run'.items.length = 3 ∧ run'.finished = true)) =
              true := by decide +kernel
  obtain ⟨inLeaf, executed, found⟩ := (Option.any_eq_true _ _).mp found
  obtain ⟨absent, found⟩ := Bool.and_eq_true_iff.mp found
  have absent := of_decide_eq_true absent
  obtain ⟨run, resumed, found⟩ := (Option.any_eq_true _ _).mp found
  obtain ⟨root, length, finished⟩ := of_decide_eq_true found
  obtain ⟨inserted, first, rest⟩ := Option.bind_eq_some_iff.mp resumed
  have reached : (system two.index 1 none none).ReachableBy Fresh run :=
    .run (.next (a := .insert (longKey 2) (rowAt 2)) (.run (.start rfl) executed (by simp [Fresh])) absent first) rest
      (by simp [Fresh])
  have opened : 1 ∈ two.roots := by decide +kernel
  obtain ⟨⟨returned, items, ordered, complete⟩, -⟩ := stable_under_inserts IndexHistory.two_fresh opened reached
  rw [items, List.length_map] at length
  exact ⟨run, reached, root, returned, items, length, ordered, fun entry member => complete finished entry member nofun⟩

theorem duplicate_returned_twice : ∃ run : ScanRun, (system IndexHistory.empty.index 1 none none).Reachable run ∧
    ¬ ∃ returned : List LeafEntry, run.items = returned.map .ok ∧ Increasing returned := by
  have executed : ((system IndexHistory.empty.index 1 none none).run
      ⟨IndexHistory.empty.index, 1, none, .range (.notStarted none), [], false⟩
      [.insert [7] firstRow, .insert [7] firstRow, .next, .next, .next]).map ScanRun.items =
        some [.ok ⟨[7], firstRow⟩, .ok ⟨[7], firstRow⟩] := rfl
  obtain ⟨run, isRun, items⟩ := Option.map_eq_some_iff.mp executed
  refine ⟨run, (System.ReachableBy.start rfl).run isRun fun _ _ _ => trivial, ?_⟩
  rintro ⟨returned, same, ordered⟩
  rw [items] at same
  obtain ⟨first, rest, rfl, isFirst, others⟩ := List.map_eq_cons_iff.mp same.symm
  obtain ⟨second, rest', rfl, isSecond, -⟩ := List.map_eq_cons_iff.mp others
  cases isFirst
  cases isSecond
  exact lt_irrefl _ ((List.pairwise_cons.mp ordered).1 _ List.mem_cons_self)

end ScanRun

end SimpleRdbms.Storage
