import Mathlib.Data.List.Nodup
import SimpleRdbms.Executor.Operators
import SimpleRdbms.Proof.BTreeLookups
import SimpleRdbms.Proof.HeapHistory
import SimpleRdbms.Proof.IndexBounds

namespace SimpleRdbms.Executor
open SimpleRdbms.Lib SimpleRdbms.Planner SimpleRdbms.Storage SimpleRdbms.Storage.BTree

theorem filterMap_perm {α β : Type} [DecidableEq α] {few all : List α} {f : α → Option β} (distinct : few.Nodup)
    (distinct' : all.Nodup) (fewer : few ⊆ all) (others : ∀ a ∈ all, a ∉ few → f a = none) :
    (few.filterMap f).Perm (all.filterMap f) := by
  have same : few.Perm (all.filter (· ∈ few)) := by
    refine (List.perm_ext_iff_of_nodup distinct (distinct'.filter _)).mpr fun a => ?_
    simpa using @fewer a
  refine (same.filterMap f).trans (.of_eq ?_)
  rw [List.filterMap_filter]
  refine List.filterMap_congr fun a member => ?_
  by_cases inside : a ∈ few
  · simp [inside]
  · simp [inside, others a member inside]

theorem mem_range_of_within {entries : List LeafEntry} {entry : LeafEntry} {start stop : Option Bytes}
    (ordered : Increasing entries) (free : BTreeIndex.PrefixFree entries) (member : entry ∈ entries)
    (within : Within (start, stop) entry.key) : entry ∈ BTreeIndex.range start stop entries := by
  rw [BTreeIndex.range, dropWhile_eq_filter (BTreeIndex.behind_mono ordered), takeWhile_eq_filter]
  · refine List.mem_filter.mpr ⟨List.mem_filter.mpr ⟨member, ?_⟩, ?_⟩
    · cases start with
      | none => rfl
      | some key => simpa [BTreeIndex.behind] using (within.1 key rfl).trans_lt (BTreeIndex.key_lt_sortKey entry)
    · cases stop with
      | none => rfl
      | some key => simpa using within.2 key rfl
  · refine List.Pairwise.imp_of_mem (fun {a b} inFirst inSecond less inside => ?_) (ordered.filter _)
    have low := BTreeIndex.le_of_sortKey_lt less
      (free b (List.mem_filter.mp inSecond).1 a (List.mem_filter.mp inFirst).1)
    cases stop with
    | none => rfl
    | some key => simpa using low.trans_lt (by simpa using inside)

theorem rows_distinct {history : HeapHistory} {ids : List Nat} (faithful : history.Faithful ids) :
    ((history.rows ids).map Prod.fst).Nodup := by
  rw [HeapHistory.rows, List.map_flatMap, List.nodup_flatMap]
  refine ⟨fun page _ => ?_, faithful.acyclic.imp fun differ rid member member' => ?_⟩
  · rw [List.map_filterMap]
    refine List.Nodup.filterMap (fun slot slot' rid isRow isRow' => ?_) List.nodup_range
    simp only [Option.mem_def, Option.map_map, Option.map_eq_some_iff] at isRow isRow'
    obtain ⟨_, -, rfl⟩ := isRow
    obtain ⟨_, -, same⟩ := isRow'
    exact (congrArg Rid.slot same).symm
  · simp only [List.mem_map, List.mem_filterMap, Option.map_eq_some_iff] at member member'
    obtain ⟨_, ⟨_, -, _, -, rfl⟩, rfl⟩ := member
    obtain ⟨_, ⟨_, -, _, -, rfl⟩, same⟩ := member'
    exact differ (congrArg Rid.pageId same).symm

theorem keep_ok {predicate : BoundExpr} {tuple : Tuple} {item : Item} (kept : keep predicate (.ok tuple) = some item)
    (isOk : item.isOk = true) : evaluate tuple predicate = .ok (.boolean true) := by
  simp only [keep] at kept
  split at kept
  · cases kept
    cases isOk
  · rename_i evaluated
    split_ifs at kept with isTrue
    rw [evaluated, isTrue]

/-- The heap of a table is `history`, and an index has an entry for each of its rows. -/
structure Mirrors (ctx : ExecutorContext) (table : TableInfo) (info : IndexInfo) (index : BTreeIndex)
    (history : HeapHistory) (ids : List Nat) : Prop where
  faithful : history.Faithful ids
  heap : history.heap = ⟨table.firstPageId⟩
  store : history.store = ctx.heap
  found : ctx.catalog.indexInfo info.indexId = some info
  nodes : index = ⟨ctx.nodes, info.rootPageId⟩
  shape : ∃ leaves uppers, index.Shape leaves uppers
  free : BTreeIndex.PrefixFree index.entries
  keyed : ∀ entry ∈ index.entries, ∃ bytes tuple value, (entry.row.rid, bytes) ∈ history.rows ids ∧
    ExecutorContext.decodeRow table bytes = .ok tuple ∧ tuple[info.columnIndex]? = some value ∧
      value.encodeMemcomparable = .ok entry.key
  covered : ∀ row ∈ history.rows ids, ∃ entry ∈ index.entries, entry.row.rid = row.1

namespace Mirrors
variable {ctx : ExecutorContext} {table : TableInfo} {info : IndexInfo} {index : BTreeIndex} {history : HeapHistory}
  {ids : List Nat} {tableId : Nat} {start stop : Option Bytes} (mirrors : Mirrors ctx table info index history ids)
include mirrors

theorem fetchRow {row : Rid × Bytes} (member : row ∈ history.rows ids) :
    ctx.fetchRow table row.1 = ExecutorContext.decodeRow table row.2 := by
  simp only [HeapHistory.rows, List.mem_flatMap, List.mem_filterMap, Option.map_eq_some_iff] at member
  obtain ⟨page, -, slot, -, _, isBytes, rfl⟩ := member
  obtain ⟨record, isRecord, isBytes⟩ := Option.bind_eq_some_iff.mp isBytes
  simp only [ExecutorContext.fetchRow, ← mirrors.store, mirrors.faithful.read _ record isRecord, isBytes]

theorem seqScan (isTable : ctx.catalog.getTableById tableId = .ok table) :
    ctx.seqScan tableId = (((history.rows ids).map Prod.fst).filter ctx.sees).map (ctx.fetchRow table) := by
  have scanned := mirrors.faithful.scanned
  rw [mirrors.heap, mirrors.store] at scanned
  simp only [ExecutorContext.seqScan, isTable, scanned, List.filter_map, List.map_map]
  exact List.map_congr_left fun row member => (mirrors.fetchRow (List.mem_filter.mp member).1).symm

theorem indexScan (isTable : ctx.catalog.getTableById tableId = .ok table) :
    ctx.indexScan info.indexId tableId start stop =
      (((BTreeIndex.range start stop index.entries).map (·.row.rid)).filter ctx.sees).map (ctx.fetchRow table) := by
  obtain ⟨leaves, uppers, shape⟩ := mirrors.shape
  have scanned := shape.rangeScan_eq shape.entrance_root start stop
  rw [← List.filterMap_eq_map, List.filterMap_filter, List.filterMap_map]
  simp only [ExecutorContext.indexScan, isTable, mirrors.found, ← mirrors.nodes]
  rw [scanned, List.filterMap_map]
  rfl

theorem keyed_by {entry : LeafEntry} (member : entry ∈ index.entries) :
    entry.row.rid ∈ (history.rows ids).map Prod.fst ∧ ∃ tuple value, ctx.fetchRow table entry.row.rid = .ok tuple ∧
      tuple[info.columnIndex]? = some value ∧ value.encodeMemcomparable = .ok entry.key := by
  obtain ⟨bytes, tuple, value, isRow, decoded, rest⟩ := mirrors.keyed entry member
  exact ⟨List.mem_map_of_mem isRow, tuple, value, (mirrors.fetchRow isRow).trans decoded, rest⟩

theorem ordered : Increasing index.entries := by
  obtain ⟨leaves, uppers, shape⟩ := mirrors.shape
  rw [shape.entries_eq]
  exact (BTreeIndex.increasing_contents shape.chain shape.sorted).1

theorem rids_distinct : (index.entries.map (·.row.rid)).Nodup := by
  refine List.Nodup.map_on (fun entry member other member' same => ?_) (mirrors.ordered.imp fun less same => ?_)
  · obtain ⟨-, tuple, value, fetched, isValue, isKey⟩ := mirrors.keyed_by member
    obtain ⟨-, tuple', value', fetched', isValue', isKey'⟩ := mirrors.keyed_by member'
    rw [same, fetched'] at fetched
    obtain rfl := Except.ok.inj fetched
    obtain rfl := Option.some.inj (isValue'.symm.trans isValue)
    obtain ⟨key, ⟨rid, _, _⟩⟩ := entry
    obtain ⟨key', ⟨rid', _, _⟩⟩ := other
    obtain rfl : key' = key := Except.ok.inj (isKey'.symm.trans isKey)
    obtain rfl : rid = rid' := same
    rfl
  · exact less.ne (congrArg LeafEntry.sortKey same)

theorem filtered {predicate : BoundExpr} (isTable : ctx.catalog.getTableById tableId = .ok table)
    (within : ∀ tuple value key, evaluate tuple predicate = .ok (.boolean true) →
      tuple[info.columnIndex]? = some value →
      value.encodeMemcomparable = .ok key → Within (start, stop) key)
    (fine : ∀ item ∈ ctx.run (.filter predicate (.seqScan tableId)), item.isOk = true) :
    (ctx.run (.filter predicate (.indexScan info.indexId tableId start stop))).Perm
      (ctx.run (.filter predicate (.seqScan tableId))) := by
  have fewer : (BTreeIndex.range start stop index.entries).Sublist index.entries :=
    (List.takeWhile_sublist _).trans (List.dropWhile_sublist _)
  simp only [ExecutorContext.run, mirrors.seqScan isTable, mirrors.indexScan isTable, List.filterMap_map] at fine ⊢
  refine filterMap_perm ((mirrors.rids_distinct.sublist (fewer.map _)).filter _)
    ((rows_distinct mirrors.faithful).filter _) (fun rid member => ?_) fun rid member missing => ?_
  · obtain ⟨isRid, seen⟩ := List.mem_filter.mp member
    obtain ⟨entry, inRange, rfl⟩ := List.mem_map.mp isRid
    exact List.mem_filter.mpr ⟨(mirrors.keyed_by (fewer.subset inRange)).1, seen⟩
  · obtain ⟨isRow, seen⟩ := List.mem_filter.mp member
    obtain ⟨row, stored, rfl⟩ := List.mem_map.mp isRow
    obtain ⟨entry, inside, points⟩ := mirrors.covered row stored
    obtain ⟨-, tuple, value, fetched, isValue, isKey⟩ := mirrors.keyed_by inside
    rw [points] at fetched
    cases kept : (keep predicate ∘ ctx.fetchRow table) row.1 with
    | none => rfl
    | some item =>
      have isOk := fine item (List.mem_filterMap.mpr ⟨_, member, kept⟩)
      rw [Function.comp, fetched] at kept
      have inRange := mem_range_of_within mirrors.ordered mirrors.free inside
        (within tuple value entry.key (keep_ok kept isOk) isValue isKey)
      exact absurd (List.mem_filter.mpr ⟨points ▸ List.mem_map_of_mem inRange, seen⟩) missing

end Mirrors

/-- Every index the optimizer may choose has an entry for each row of its table, and no others. -/
def Agrees (ctx : ExecutorContext) : Prop :=
  ∀ tableId table column info, ctx.catalog.getTableById tableId = .ok table →
    ctx.catalog.indexForColumn tableId column = some info → ∃ index history ids,
      Mirrors ctx table info index history ids

variable {ctx : ExecutorContext}

theorem run_applyIndexScan (agrees : Agrees ctx) {predicate : BoundExpr} {input : LogicalPlan}
    (fine : ∀ item ∈ ctx.run (.filter predicate input), item.isOk = true) :
    (ctx.run (applyIndexScan ctx.catalog (.filter predicate input))).Perm (ctx.run (.filter predicate input)) := by
  unfold applyIndexScan
  split
  · rename_i tableId same
    obtain ⟨rfl, rfl⟩ := LogicalPlan.filter.inj same
    split
    · rename_i indexId start stop chosen
      simp only [indexScanBounds, Option.bind_eq_bind, Option.bind_eq_some_iff] at chosen
      obtain ⟨⟨target, info⟩, isTarget, same⟩ := chosen
      obtain ⟨rfl, isBounds⟩ : info.indexId = indexId ∧
          (flattenAndConjuncts predicate).foldl (tighten target) (none, none) = (start, stop) :=
            by simpa [pure] using same
      have isIndex := targetColumn_some isTarget
      obtain rfl := indexForColumn_column isIndex
      cases isTable : ctx.catalog.getTableById tableId with
      | error err =>
        have failed : .error (.catalog err) ∈ ctx.run (.filter predicate (.seqScan tableId)) := by
          simp [ExecutorContext.run, ExecutorContext.seqScan, isTable, keep]
        cases fine _ failed
      | ok table =>
        obtain ⟨index, history, ids, mirrors⟩ := agrees tableId table _ info isTable isIndex
        refine mirrors.filtered isTable (fun tuple value key isTrue isValue isKey => ?_) fine
        rw [← isBounds]
        exact tighten_all_within ⟨by simp, by simp⟩ (flattenAndConjuncts_true isTrue) isValue isKey
    · exact .refl _
  · exact .refl _

/-- Unless an operator fails, the optimised plan returns the same tuples in some order. -/
theorem optimized_query_agrees (agrees : Agrees ctx) {plan : LogicalPlan}
    (fine : ∀ item ∈ ctx.run plan, item.isOk = true) :
    (ctx.run (optimize ctx.catalog plan)).Perm (ctx.run plan) := by
  induction plan with
  | filter predicate input ih =>
    have before : (ctx.run (.filter predicate (optimize ctx.catalog input))).Perm
      (ctx.run (.filter predicate input)) := by
      refine (ih fun item member => ?_).filterMap _
      cases item with
      | ok tuple => rfl
      | error err => exact fine _ (List.mem_filterMap.mpr ⟨_, member, rfl⟩)
    exact (run_applyIndexScan agrees fun item member => fine item (before.mem_iff.mp member)).trans before
  | projection expressions input ih =>
    refine (ih fun item member => ?_).map _
    cases item with
    | ok tuple => rfl
    | error err => exact fine _ (List.mem_map_of_mem member)
  | oneRow | seqScan | indexScan | insert | createTable | createIndex => exact .refl _

def fiveBytes : Bytes := Tuple.encode [.integer 5]

def fiveHeap : HeapHistory :=
  HeapHistory.newHeap.inserted (HeapHistory.newHeap.store.write 1
    (SlottedPage.place (HeapHistory.newHeap.store.pages 1) fiveBytes)) ⟨1, 0⟩ fiveBytes

def fiveEntry : LeafEntry := ⟨[1, 128, 0, 0, 5], ⟨⟨1, 0⟩, show 1 < 256 ^ 4 by decide, show 0 < 256 ^ 2 by decide⟩⟩

def five : ExecutorContext where
  catalog := indexedColumn
  heap := fiveHeap.store
  nodes := (BTreeIndex.create ⟨fun _ => .leaf none [], 3, by decide⟩).store.write 3 (.leaf none [fiveEntry])
  versionStore := .new
  isolationLevel := .readCommitted
  txnId := 1
  readTs := 0

theorem five_agrees : Agrees five := by
  intro tableId table column info isTable isIndex
  cases tableId with
  | succ _ => nomatch isIndex
  | zero =>
    cases column with
    | succ _ => nomatch isIndex
    | zero =>
      obtain rfl := Except.ok.inj isTable
      obtain rfl := Option.some.inj isIndex
      have reachable : HeapHistory.system.ReachableBy HeapHistory.Unwrapped fiveHeap :=
        .next (a := .insert fiveBytes) HeapHistory.newHeap_reachable (by decide) rfl
      obtain ⟨ids, _, recorded⟩ := HeapHistory.recorded_of_reachable reachable
      have rows : fiveHeap.rows ids = [(⟨1, 0⟩, fiveBytes)] := Except.ok.inj (recorded.faithful.scanned.symm.trans rfl)
      have inserted : (BTreeIndex.create ⟨fun _ => .leaf none [], 3, by decide⟩).insertAll [fiveEntry] =
        .ok ⟨five.nodes, 3⟩ := rfl
      obtain ⟨leaves, uppers, shape, perm⟩ := (BTreeIndex.create_shape _).insertAll (by decide) inserted
      have only : ∀ entry, entry ∈ BTreeIndex.entries ⟨five.nodes, 3⟩ ↔ entry = fiveEntry := fun entry => by
        rw [perm.mem_iff]
        exact List.mem_singleton
      refine ⟨_, fiveHeap, ids, recorded.faithful, rfl, rfl, rfl, rfl, ⟨leaves, uppers, shape⟩, ?_, ?_, ?_⟩
      · simp [BTreeIndex.PrefixFree, only]
      · simp only [only, forall_eq, rows]
        exact ⟨_, _, _, List.mem_cons_self, rfl, rfl, rfl⟩
      · simp [only, rows, fiveEntry]

theorem optimized_query_agrees_five :
    (∃ start stop, optimize five.catalog (.filter between (.seqScan 0)) = .filter between (.indexScan 0 0 start stop)) ∧
      (five.run (optimize five.catalog (.filter between (.seqScan 0)))).Perm
        (five.run (.filter between (.seqScan 0))) :=
  ⟨⟨_, _, rfl⟩, optimized_query_agrees five_agrees (by decide +kernel)⟩

end SimpleRdbms.Executor
